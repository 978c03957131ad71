/-! Places in a text, and the two kinds of brackets. -/

namespace SmallLisp

/-- A line and a column, both counted from one. Columns count characters. -/
structure Position where
  line : Nat
  column : Nat
  deriving DecidableEq

namespace Position

def start : Position := ⟨1, 1⟩

/-- The place after a character that stands at `p`. -/
def advance (p : Position) (c : Char) : Position :=
  if c = '\n' then ⟨p.line + 1, 1⟩ else ⟨p.line, p.column + 1⟩

end Position

/-- Round brackets hold a call and square brackets a vector. -/
inductive Bracket where
  | round
  | square
  deriving DecidableEq

namespace Bracket

def opener : Bracket → Char
  | .round => '('
  | .square => '['

def closer : Bracket → Char
  | .round => ')'
  | .square => ']'

end Bracket

end SmallLisp
