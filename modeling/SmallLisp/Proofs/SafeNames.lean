import SmallLisp.Proofs.IdentifierCharacters

/-!
# Translated names as words of a program

A text becomes an identifier by escapes that are made one after another: for the empty text, for a
digit in front and for keywords, and for texts with the mark of generated identifiers. What one of
them has achieved is kept by the next (`Opens.escapeMark`), so a translated name is always one word
of a program, and never one that stands for something else (`translated_names_safe`).
-/

namespace SmallLisp

open Program (Expr)

namespace Identifier

/-- The word may stand for a source name. -/
structure Safe (x : String) : Prop where
  nonempty : x ≠ ""
  digit : ∀ c, x.toList.head? = some c → ¬c.isDigit
  keyword : x ∉ keywords
  hyphen : '-' ∉ x.toList
  slash : '/' ∉ x.toList
  /-- A generated identifier ends in a digit. -/
  marked : generatedMark <+: x.toList → x.toList.getLast? = some '_'
  generated : ¬IsGenerated x

/-! ## The escapes -/

/-- The characters open a word that is neither a number nor a keyword. -/
structure Opens (cs : List Char) : Prop where
  start : ∃ c rest, cs = c :: rest ∧ ¬c.isDigit
  keyword : String.ofList cs ∉ keywords

theorem head?_ne_of_mem_keywords : ∀ k ∈ keywords, k.toList.head? ≠ some '_' := by decide

/-- An underscore in front escapes whatever follows it. -/
theorem Opens.underscore (cs : List Char) : Opens ('_' :: cs) where
  start := ⟨'_', cs, rfl, by decide⟩
  keyword h := by
    apply head?_ne_of_mem_keywords _ h
    rw [String.toList_ofList, List.head?_cons]

theorem opens_escapeStart {cs : List Char} (hne : cs ≠ []) : Opens (escapeStart cs) := by
  unfold escapeStart
  split
  · exact .underscore cs
  · rename_i hescape
    rw [Bool.or_eq_true, not_or] at hescape
    obtain ⟨hdigit, hkeyword⟩ := hescape
    obtain ⟨c, rest, rfl⟩ := List.exists_cons_of_ne_nil hne
    refine ⟨⟨c, rest, rfl, hdigit⟩, ?_⟩
    rwa [List.contains_iff_mem] at hkeyword

/-- The escape at the end changes only texts that open with an underscore. -/
theorem Opens.escapeMark {cs : List Char} (h : Opens cs) : Opens (escapeMark cs) := by
  unfold Identifier.escapeMark
  split
  · rename_i hmark
    obtain ⟨rest, rfl⟩ := List.isPrefixOf_iff_prefix.1 hmark
    exact .underscore _
  · exact h

theorem getLast?_escapeMark {cs : List Char} (h : generatedMark <+: escapeMark cs) :
    (escapeMark cs).getLast? = some '_' := by
  unfold escapeMark at h ⊢
  split
  · exact List.getLast?_concat
  · rename_i hmark
    rw [if_neg hmark] at h
    exact absurd (List.isPrefixOf_iff_prefix.2 h) hmark

/-! ## Translated names -/

theorem opens_chars (exported : Bool) (name : List Char) : Opens (chars exported name) :=
  (opens_escapeStart (fillEmpty_ne_nil _)).escapeMark

theorem safe_chars (exported : Bool) (name : List Char) :
    Safe (String.ofList (chars exported name)) := by
  obtain ⟨c, rest, hchars, hdigit⟩ := (opens_chars exported name).start
  refine ⟨?_, ?_, (opens_chars exported name).keyword, ?_, ?_, ?_, not_isGenerated_ofChars _ _⟩
  · intro hempty
    have hnil := congrArg String.toList hempty
    rw [String.toList_ofList, hchars] at hnil
    cases hnil
  · intro d hd
    rw [String.toList_ofList, hchars] at hd
    cases hd
    exact hdigit
  · rw [String.toList_ofList]
    exact fun h => absurd (mem_accents_or_isAllowed h) (by decide)
  · rw [String.toList_ofList]
    exact not_mem_chars exported name
  · rw [String.toList_ofList]
    exact getLast?_escapeMark

/-- Whatever a source name is, its translations are safe: the identifier that it declares, the one
that selects it from a package, and all segments of a reference to it. -/
theorem translated_names_safe (name : String) :
    Safe (ofName name) ∧ Safe (String.ofList (chars true name.toList)) ∧
      ∀ segment ∈ (Expr.ofName name).segments, Safe segment := by
  refine ⟨safe_chars false _, safe_chars true _, ?_⟩
  rw [Expr.segments_ofName, List.forall_mem_map]
  exact fun part _ => safe_chars part.1 part.2

/-- Each escape has something to do here. -/
example : ofName "-" = "_" ∧ ofName "1st" = "_1st" ∧ ofName "func" = "_func" ∧
    ofName "__result1" = "__result1_" := by decide

end Identifier

end SmallLisp
