/-! Cutting a text at a separator. -/

namespace SmallLisp.Text

/-- The parts of a text between separators: one more than there are separators, some perhaps
empty. -/
def split (sep : Char) : List Char → List (List Char)
  | [] => [[]]
  | c :: cs =>
    if c = sep then
      [] :: split sep cs
    else
      match split sep cs with
      | [] => [[c]]
      | part :: parts => (c :: part) :: parts

/-- A text before and after its first separator. -/
def cut? (sep : Char) (cs : List Char) : Option (List Char × List Char) :=
  match cs.dropWhile (· != sep) with
  | [] => none
  | _ :: after => some (cs.takeWhile (· != sep), after)

theorem split_ne_nil (sep : Char) (cs : List Char) : split sep cs ≠ [] := by
  cases cs with
  | nil => simp [split]
  | cons c cs =>
    unfold split
    split
    · simp
    · split <;> simp

theorem split_of_not_mem {sep : Char} {cs : List Char} (h : sep ∉ cs) :
    split sep cs = [cs] := by
  induction cs with
  | nil => rfl
  | cons c cs ih =>
    have hc : c ≠ sep := by
      rintro rfl
      exact h (.head _)
    rw [split, if_neg hc, ih fun hmem => h (.tail _ hmem)]

/-- The parts on both sides of a separator. -/
theorem split_append (sep : Char) (before after : List Char) :
    split sep (before ++ sep :: after) = split sep before ++ split sep after := by
  induction before with
  | nil =>
    change split sep (sep :: after) = [] :: split sep after
    rw [split, if_pos rfl]
  | cons c cs ih =>
    rw [List.cons_append, split, split]
    split
    · rw [ih]
      rfl
    · rw [ih]
      cases hcs : split sep cs with
      | nil => exact absurd hcs (split_ne_nil sep cs)
      | cons part parts => rfl

end SmallLisp.Text
