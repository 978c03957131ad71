/-! Sets of characters given as closed ranges of code points. -/

namespace SmallLisp.Text

/-- The code points from `first` to `last`, both included. -/
structure CodeRange where
  first : Nat
  last : Nat

namespace CodeRange

def contains (r : CodeRange) (n : Nat) : Bool :=
  r.first ≤ n && n ≤ r.last

/-- Membership of a character in the union of a list of ranges. -/
def covers (rs : List CodeRange) (c : Char) : Bool :=
  rs.any (·.contains c.toNat)

theorem contains_iff {r : CodeRange} {n : Nat} : r.contains n ↔ r.first ≤ n ∧ n ≤ r.last := by
  simp [contains]

theorem covers_iff {rs : List CodeRange} {c : Char} :
    covers rs c ↔ ∃ r ∈ rs, r.first ≤ c.toNat ∧ c.toNat ≤ r.last := by
  simp [covers, contains]

end CodeRange

end SmallLisp.Text
