import SmallLisp.Reference

/-!
# Generated identifiers

A generated identifier ends in a digit, and the identifier of a source name that starts with the
same mark does not. So the two never meet (`ofName_ne_generated`), whatever the name is; and a
generated identifier determines its number (`number?_eq_some`).
-/

namespace SmallLisp

namespace Identifier

/-- The value of the digits after the mark and the hint. -/
def suffixValue (hint x : String) : Nat :=
  Nat.ofDigitChars 10 (x.toList.drop (generatedMark.length + hint.length)) 0

/-- The number in a generated identifier of the given hint. -/
def number? (hint x : String) : Option Nat :=
  if x = generated hint (suffixValue hint x) then some (suffixValue hint x) else none

theorem toList_generated (hint : String) (n : Nat) :
    (generated hint n).toList = generatedMark ++ hint.toList ++ Nat.toDigits 10 n := by
  simp [generated]

theorem suffixValue_generated (hint : String) (n : Nat) :
    suffixValue hint (generated hint n) = n := by
  have h : (generated hint n).toList.drop (generatedMark.length + hint.length) =
      Nat.toDigits 10 n := by
    rw [toList_generated]
    exact List.drop_left' (by rw [List.length_append, String.length_toList])
  rw [suffixValue, h]
  exact Nat.ofDigitChars_toDigits (by decide) (by decide)

@[simp] theorem number?_generated (hint : String) (n : Nat) :
    number? hint (generated hint n) = some n := by
  simp [number?, suffixValue_generated]

theorem number?_eq_some {hint x : String} {n : Nat} :
    number? hint x = some n ↔ x = generated hint n := by
  constructor
  · intro h
    unfold number? at h
    split at h
    · rename_i hx
      exact Option.some.inj h ▸ hx
    · cases h
  · rintro rfl
    exact number?_generated hint n

theorem generated_inj {hint : String} {m n : Nat} (h : generated hint m = generated hint n) :
    m = n := by
  have := congrArg (number? hint) h
  simpa using this

/-- The hints of the two variables of a loop differ in their first letters. -/
theorem flag_ne_result {m n : Nat} : generated "continue" m ≠ generated "result" n := by
  intro h
  have h : (generated "continue" m).toList[2]? = (generated "result" n).toList[2]? := by rw [h]
  rw [toList_generated, toList_generated] at h
  exact absurd h (by simp [generatedMark])

/-- A name that a loop gives to one of its two variables. -/
def IsGenerated (x : String) : Prop :=
  ∃ n, x = generated "continue" n ∨ x = generated "result" n

theorem IsGenerated.flag (n : Nat) : IsGenerated (generated "continue" n) := ⟨n, .inl rfl⟩

theorem IsGenerated.result (n : Nat) : IsGenerated (generated "result" n) := ⟨n, .inr rfl⟩

theorem IsGenerated.marked {x : String} (h : IsGenerated x) : generatedMark <+: x.toList := by
  obtain ⟨n, rfl | rfl⟩ := h <;>
  · rw [toList_generated, List.append_assoc]
    exact List.prefix_append _ _

/-- A text without the mark in front is not a generated identifier. -/
theorem not_isGenerated_of_unmarked {x : String} (h : generatedMark.isPrefixOf x.toList = false) :
    ¬IsGenerated x := by
  intro hx
  rw [List.isPrefixOf_iff_prefix.2 hx.marked] at h
  cases h

theorem IsGenerated.ne_blank {x : String} (h : IsGenerated x) : x ≠ "_" := by
  rintro rfl
  exact absurd h.marked (by decide)

theorem getLast?_generated (hint : String) (n : Nat) :
    ∃ c, (generated hint n).toList.getLast? = some c ∧ c.isDigit := by
  have hne : Nat.toDigits 10 n ≠ [] := Nat.toDigits_ne_nil
  refine ⟨(Nat.toDigits 10 n).getLast hne, ?_, ?_⟩
  · rw [toList_generated, List.getLast?_append, List.getLast?_eq_some_getLast hne]
    rfl
  · exact Nat.isDigit_of_mem_toDigits (by decide) (by decide) (List.getLast_mem hne)

theorem escapeMark_ne_generated (cs : List Char) (hint : String) (n : Nat) :
    escapeMark cs ≠ (generated hint n).toList := by
  intro h
  unfold escapeMark at h
  split at h
  · obtain ⟨c, hc, hd⟩ := getLast?_generated hint n
    rw [← h, List.getLast?_concat] at hc
    cases hc
    exact absurd hd (by decide)
  · rename_i hm
    rw [h, toList_generated, List.append_assoc] at hm
    exact hm (List.isPrefixOf_iff_prefix.2 (List.prefix_append _ _))

theorem ofChars_ne_generated (exported : Bool) (name : List Char) (hint : String) (n : Nat) :
    String.ofList (chars exported name) ≠ generated hint n := by
  intro h
  refine escapeMark_ne_generated
    (escapeStart (fillEmpty (joinWords exported (words name)))) hint n ?_
  rw [← h, String.toList_ofList]
  rfl

theorem ofName_ne_generated (name hint : String) (n : Nat) : ofName name ≠ generated hint n :=
  ofChars_ne_generated false name.toList hint n

theorem not_isGenerated_ofChars (exported : Bool) (name : List Char) :
    ¬IsGenerated (String.ofList (chars exported name)) := by
  rintro ⟨n, h | h⟩ <;> exact ofChars_ne_generated _ _ _ _ h

theorem not_isGenerated_ofName (name : String) : ¬IsGenerated (ofName name) :=
  not_isGenerated_ofChars false name.toList

end Identifier

end SmallLisp
