import SmallLisp.Text.Line
import SmallLisp.Text.Quoted

/-! JSON values and their indented text. The fields of an object keep their order, and numbers are
kept as they are written. -/

namespace SmallLisp

inductive Json where
  | null
  | bool (value : Bool)
  | number (literal : String)
  | string (value : String)
  | array (items : List Json)
  | object (fields : List (String × Json))
  deriving Inhabited

namespace Json

/-- The value of the first field of a name. -/
def field? (name : String) : List (String × Json) → Option Json
  | [] => none
  | (key, value) :: rest => if key = name then some value else field? name rest

def string? : Json → Option String
  | .string value => some value
  | _ => none

/-- The escapes of JSON strings: letters where there is one, and four hexadecimal digits for the
other control characters below the space. -/
def escape (c : Char) : Option (List Char) :=
  if c = '\x08' then some ['\\', 'b']
  else if c = '\x0c' then some ['\\', 'f']
  else match Text.letterEscape c with
    | some cs => some cs
    | none =>
      if c.toNat < 0x20 then some (['\\', 'u', '0', '0'] ++ Text.twoHexDigits c) else none

def quoting : Text.Quoting := ⟨'"', escape⟩

def quote (s : String) : String := String.ofList (quoting.write s)

mutual

/-- The lines of a value at a level. The first one starts with `front` and the last one ends with
`back`. -/
def lines (level : Nat) (front back : String) : Json → List Text.Line
  | .null => [⟨level, front ++ "null" ++ back⟩]
  | .bool true => [⟨level, front ++ "true" ++ back⟩]
  | .bool false => [⟨level, front ++ "false" ++ back⟩]
  | .number literal => [⟨level, front ++ literal ++ back⟩]
  | .string value => [⟨level, front ++ quote value ++ back⟩]
  | .array [] => [⟨level, front ++ "[]" ++ back⟩]
  | .array (j :: js) =>
    ⟨level, front ++ "["⟩ :: itemLines (level + 1) (j :: js) ++ [⟨level, "]" ++ back⟩]
  | .object [] => [⟨level, front ++ "\x7b\x7d" ++ back⟩]
  | .object (field :: fields) =>
    ⟨level, front ++ "\x7b"⟩ :: fieldLines (level + 1) (field :: fields) ++
      [⟨level, "\x7d" ++ back⟩]

/-- The items of an array, with commas between them. -/
def itemLines (level : Nat) : List Json → List Text.Line
  | [] => []
  | [j] => j.lines level "" ""
  | j :: js => j.lines level "" "," ++ itemLines level js

/-- The fields of an object, with commas between them. -/
def fieldLines (level : Nat) : List (String × Json) → List Text.Line
  | [] => []
  | [(name, j)] => j.lines level (quote name ++ ": ") ""
  | (name, j) :: fields => j.lines level (quote name ++ ": ") "," ++ fieldLines level fields

end

/-- The text of a value over several lines, indented by two spaces a level. -/
def pretty (j : Json) : String := Text.Line.join "  " (j.lines 0 "" "")

end Json

end SmallLisp
