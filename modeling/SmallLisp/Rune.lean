import SmallLisp.Text.Quoted

/-! Characters in source text: a backslash and the character, or one of three names. They become
rune literals of Go. -/

namespace SmallLisp.Rune

/-- The characters that have a name. -/
def names : List (String × Char) :=
  [("newline", '\n'), ("space", ' '), ("tab", '\t')]

/-- The character that the text after a backslash denotes. -/
def ofText? : List Char → Option Char
  | [c] => some c
  | cs => names.lookup (String.ofList cs)

/-- The escapes of a rune literal. -/
def escape : Char → Option (List Char)
  | '\n' => some ['\\', 'n']
  | '\t' => some ['\\', 't']
  | '\r' => some ['\\', 'r']
  | '\x27' => some ['\\', '\x27']
  | '\\' => some ['\\', '\\']
  | _ => none

def quoting : Text.Quoting := ⟨'\x27', escape⟩

def literal (c : Char) : String :=
  String.ofList (quoting.write (String.singleton c))

end SmallLisp.Rune
