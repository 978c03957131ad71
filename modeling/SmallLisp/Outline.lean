import SmallLisp.Text.Line
import SmallLisp.Text.Quoted

/-! Outlines: labelled trees for inspection, written on one line or indented by four spaces a
level. The syntax trees of programs and the errors of all stages have an outline. -/

namespace SmallLisp

/-- How the members of a group are enclosed. -/
inductive Enclosure where
  /-- Fields of a named record, in braces. -/
  | record (name : String)
  /-- Parts of a named alternative, in parentheses. -/
  | alternative (name : String)
  /-- Items of a list, in brackets. -/
  | list

inductive Outline where
  | leaf (text : String)
  | field (label : String) (value : Outline)
  | group (enclosure : Enclosure) (members : List Outline)

namespace Enclosure

def opening : Enclosure → String
  | .record name => name ++ " \x7b"
  | .alternative name => name ++ "("
  | .list => "["

def closing : Enclosure → String
  | .record _ => "\x7d"
  | .alternative _ => ")"
  | .list => "]"

/-- On one line the fields of a record stand apart from its braces. -/
def padding : Enclosure → String
  | .record _ => " "
  | _ => ""

end Enclosure

namespace Outline

/-- The escapes of a text in an outline: letters where there is one, the quote at hand, a zero for
the null character, and the code point in hexadecimal for all other control characters. -/
def escape (quote : Char) (c : Char) : Option (List Char) :=
  if c = '"' ∨ c = '\x27' then
    if c = quote then some ['\\', c] else none
  else if c = '\x00' then some ['\\', '0']
  else match Text.letterEscape c with
    | some cs => some cs
    | none =>
      if c.toNat < 0x20 ∨ (0x7f ≤ c.toNat ∧ c.toNat ≤ 0x9f) then
        some (['\\', 'u', '{'] ++ Nat.toDigits 16 c.toNat ++ ['}'])
      else
        none

def quoting (quote : Char) : Text.Quoting := ⟨quote, escape quote⟩

def ofString (s : String) : Outline :=
  .leaf (String.ofList ((quoting '"').write s))

def ofChar (c : Char) : Outline :=
  .leaf (String.ofList ((quoting '\x27').write (String.singleton c)))

def ofNat (n : Nat) : Outline := .leaf (toString n)

def ofBool (b : Bool) : Outline := .leaf (if b then "true" else "false")

def record (name : String) (fields : List (String × Outline)) : Outline :=
  .group (.record name) (fields.map fun (label, value) => .field label value)

def alternative (name : String) (part : Outline) : Outline :=
  .group (.alternative name) [part]

def list (items : List Outline) : Outline :=
  .group .list items

def ofOption : Option Outline → Outline
  | none => .leaf "None"
  | some o => .alternative "Some" o

mutual

/-- The lines of an outline at a level: one member of a group on a line, after it a comma. The
first line starts with `front` and the last one ends with `back`. -/
def lines (level : Nat) (front back : String) : Outline → List Text.Line
  | .leaf text => [⟨level, front ++ text ++ back⟩]
  | .field label value => value.lines level (front ++ label ++ ": ") back
  | .group enclosure [] => [⟨level, front ++ enclosure.opening ++ enclosure.closing ++ back⟩]
  | .group enclosure (o :: os) =>
    ⟨level, front ++ enclosure.opening⟩ :: memberLines (level + 1) (o :: os) ++
      [⟨level, enclosure.closing ++ back⟩]

def memberLines (level : Nat) : List Outline → List Text.Line
  | [] => []
  | o :: os => o.lines level "" "," ++ memberLines level os

end

/-- The text of an outline over several lines, indented by four spaces a level. -/
def pretty (o : Outline) : String := Text.Line.join "    " (o.lines 0 "" "")

mutual

/-- The text of an outline on one line. -/
def oneLine : Outline → String
  | .leaf text => text
  | .field label value => label ++ ": " ++ value.oneLine
  | .group enclosure members =>
    enclosure.opening ++ enclosure.padding ++ ", ".intercalate (oneLineEach members) ++
      enclosure.padding ++ enclosure.closing

def oneLineEach : List Outline → List String
  | [] => []
  | o :: os => o.oneLine :: oneLineEach os

end

end Outline

end SmallLisp
