/-! Quoted text: a text between two quotes, with some of its characters written as escapes. Each
format that quotes has a `Quoting` of its own, beside the type it writes. -/

namespace SmallLisp.Text

/-- How a format quotes: its quote, and the escapes of the characters that do not stand for
themselves. -/
structure Quoting where
  quote : Char
  escape : Char → Option (List Char)

namespace Quoting

def encodeChar (q : Quoting) (c : Char) : List Char :=
  (q.escape c).getD [c]

/-- The text between the quotes. -/
def encode (q : Quoting) (cs : List Char) : List Char :=
  cs.flatMap q.encodeChar

def write (q : Quoting) (s : String) : List Char :=
  q.quote :: q.encode s.toList ++ [q.quote]

@[simp] theorem encode_nil (q : Quoting) : q.encode [] = [] := rfl

@[simp] theorem encode_cons (q : Quoting) (c : Char) (cs : List Char) :
    q.encode (c :: cs) = q.encodeChar c ++ q.encode cs := rfl

end Quoting

/-- The letter that stands for a character after a backslash in all formats used here. -/
def escapeLetter : Char → Option Char
  | '"' => some '"'
  | '\\' => some '\\'
  | '\n' => some 'n'
  | '\t' => some 't'
  | '\r' => some 'r'
  | _ => none

/-- The character that a letter after a backslash stands for. -/
def escapedChar : Char → Option Char
  | '"' => some '"'
  | '\\' => some '\\'
  | 'n' => some '\n'
  | 't' => some '\t'
  | 'r' => some '\r'
  | _ => none

theorem escapedChar_of_escapeLetter {c l : Char} (h : escapeLetter c = some l) :
    escapedChar l = some c := by
  unfold escapeLetter at h
  split at h <;> simp_all <;> subst h <;> rfl

/-- A backslash and the letter for `c`, if it has one. -/
def letterEscape (c : Char) : Option (List Char) :=
  (escapeLetter c).map fun l => ['\\', l]

/-- The last two hexadecimal digits of a code point. -/
def twoHexDigits (c : Char) : List Char :=
  [Nat.digitChar (c.toNat / 16 % 16), Nat.digitChar (c.toNat % 16)]

end SmallLisp.Text
