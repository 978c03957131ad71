import Mathlib.Data.List.Basic
import SmallLisp.Numeral

/-!
# The grammar of numbers

`Unsigned kind cs` gives the unsigned numbers as a grammar, kind by kind. The scanner
`Numeral.kind?` finds exactly these words and their kinds (`kind?_eq_some_iff`). It takes the
longest run of digits, so of a run in the grammar it must be known what follows it (`Ends`).
-/

namespace SmallLisp.Numeral

/-- Digits of one base, with at most one underscore between two of them. -/
inductive Digits (isDigit : Char → Bool) : List Char → Prop
  | last {c : Char} : isDigit c = true → Digits isDigit [c]
  | cons {c : Char} {cs : List Char} :
    isDigit c = true → Digits isDigit cs → Digits isDigit (c :: cs)
  | separated {c : Char} {cs : List Char} :
    isDigit c = true → Digits isDigit cs → Digits isDigit (c :: '_' :: cs)

/-- A sign, which may be missing. -/
inductive IsSign : List Char → Prop
  | none : IsSign []
  | plus : IsSign ['+']
  | minus : IsSign ['-']

inductive Exponent : List Char → Prop
  | mk {mark : Char} {sign ds : List Char} :
    mark = 'e' ∨ mark = 'E' → IsSign sign → Digits Char.isDigit ds →
      Exponent (mark :: (sign ++ ds))

/-- Integers, and floats with a point, an exponent or both. A point needs no digits after it. -/
inductive Decimal : NumberKind → List Char → Prop
  | int {ds : List Char} : Digits Char.isDigit ds → Decimal .int ds
  | point {ds fraction exponent : List Char} :
    Digits Char.isDigit ds → fraction = [] ∨ Digits Char.isDigit fraction →
      exponent = [] ∨ Exponent exponent → Decimal .float (ds ++ '.' :: (fraction ++ exponent))
  | exponent {ds exponent : List Char} :
    Digits Char.isDigit ds → Exponent exponent → Decimal .float (ds ++ exponent)

/-- The unsigned numbers of a kind. No word is a character. -/
inductive Unsigned : NumberKind → List Char → Prop
  | hex {mark : Char} {separator ds : List Char} :
    mark = 'x' ∨ mark = 'X' → separator = [] ∨ separator = ['_'] → Digits isHexDigit ds →
      Unsigned .int ('0' :: mark :: (separator ++ ds))
  | decimal {kind : NumberKind} {cs : List Char} : Decimal kind cs → Unsigned kind cs
  | imag {kind : NumberKind} {cs : List Char} : Decimal kind cs → Unsigned .imag (cs ++ ['i'])

variable {isDigit : Char → Bool} {c : Char} {cs ds rest : List Char} {kind : NumberKind}

/-! ## Runs of digits -/

theorem Digits.exists_cons (h : Digits isDigit ds) :
    ∃ c cs, ds = c :: cs ∧ isDigit c = true := by
  cases h with
  | last hc | cons hc _ | separated hc _ => exact ⟨_, _, rfl, hc⟩

theorem Digits.mem (h : Digits isDigit ds) (hc : c ∈ ds) : isDigit c = true ∨ c = '_' := by
  induction h with
  | last hd => exact .inl (List.mem_singleton.1 hc ▸ hd)
  | cons hd _ ih =>
    rcases List.mem_cons.1 hc with rfl | hc
    · exact .inl hd
    · exact ih hc
  | separated hd _ ih =>
    rcases List.mem_cons.1 hc with rfl | hc
    · exact .inl hd
    rcases List.mem_cons.1 hc with rfl | hc
    · exact .inr rfl
    · exact ih hc

/-- A run of digits goes no further when `rest` follows it. -/
def Ends (rest : List Char) : Prop := ∀ c ∈ rest.head?, c.isDigit = false ∧ c ≠ '_'

theorem Ends.nil : Ends [] := nofun

theorem Ends.cons (hc : c.isDigit = false) (hne : c ≠ '_') : Ends (c :: cs) := by
  intro d hd
  cases hd
  exact ⟨hc, hne⟩

theorem Ends.skipDigits (h : Ends rest) : skipDigits rest = rest := by
  cases rest with
  | nil => rfl
  | cons c rest =>
    obtain ⟨hc, hne⟩ := h c rfl
    rw [skipDigits.eq_3 c rest fun _ _ hc _ => hne hc, if_neg (by simp [hc])]

theorem Ends.afterDigits? (h : Ends rest) : afterDigits? rest = none := by
  cases rest with
  | nil => rfl
  | cons c rest =>
    obtain ⟨hc, -⟩ := h c rfl
    rw [Numeral.afterDigits?, if_neg (by simp [hc])]

theorem skipDigits_cons (hc : c.isDigit = true) : skipDigits (c :: cs) = skipDigits cs := by
  have hne : c ≠ '_' := by
    rintro rfl
    cases hc
  rw [skipDigits.eq_3 c cs fun _ _ hc _ => hne hc, if_pos hc]

theorem skipDigits_separated (hc : c.isDigit = true) :
    skipDigits ('_' :: c :: cs) = skipDigits cs := by
  rw [skipDigits, if_pos hc]

theorem Digits.skipDigits (h : Digits Char.isDigit ds) (hrest : Ends rest) :
    skipDigits (ds ++ rest) = rest := by
  induction h with
  | last hc => rw [List.singleton_append, skipDigits_cons hc, hrest.skipDigits]
  | cons hc _ ih => rw [List.cons_append, skipDigits_cons hc, ih]
  -- The scanner takes an underscore together with the digit after it.
  | separated hc hds ih =>
    obtain ⟨d, ds, rfl, hd⟩ := hds.exists_cons
    rw [List.cons_append, List.cons_append, skipDigits_cons hc, List.cons_append,
      skipDigits_separated hd, ← skipDigits_cons hd, ← List.cons_append, ih]

theorem Digits.afterDigits? (h : Digits Char.isDigit ds) (hrest : Ends rest) :
    afterDigits? (ds ++ rest) = some rest := by
  have hskip := h.skipDigits hrest
  obtain ⟨c, cs, rfl, hc⟩ := h.exists_cons
  rw [List.cons_append, skipDigits_cons hc] at hskip
  rw [List.cons_append, Numeral.afterDigits?, if_pos hc, hskip]

/-- What the scanner skips after a digit continues a run. -/
theorem exists_digits_skipDigits (hc : c.isDigit = true) (cs : List Char) :
    ∃ ds, Digits Char.isDigit (c :: ds) ∧ cs = ds ++ skipDigits cs := by
  fun_induction Numeral.skipDigits cs generalizing c with
  | case1 => exact ⟨[], .last hc, rfl⟩
  | case2 d cs hd ih =>
    obtain ⟨ds, hds, heq⟩ := ih hd
    exact ⟨'_' :: d :: ds, .separated hc hds, by rw [List.cons_append, List.cons_append, ← heq]⟩
  | case3 d cs hd => exact ⟨[], .last hc, rfl⟩
  | case4 d cs hne hd ih =>
    obtain ⟨ds, hds, heq⟩ := ih hd
    exact ⟨d :: ds, .cons hc hds, by rw [List.cons_append, ← heq]⟩
  | case5 d cs hne hd => exact ⟨[], .last hc, rfl⟩

theorem exists_digits_of_afterDigits? (h : afterDigits? cs = some rest) :
    ∃ ds, Digits Char.isDigit ds ∧ cs = ds ++ rest := by
  unfold afterDigits? at h
  split at h
  · cases h
  · rename_i c cs
    split at h
    · rename_i hc
      cases h
      obtain ⟨ds, hds, heq⟩ := exists_digits_skipDigits hc cs
      exact ⟨c :: ds, hds, by rw [List.cons_append, ← heq]⟩
    · cases h

/-! ## Exponents and fractions -/

theorem Exponent.ends (h : Exponent cs) : Ends cs := by
  cases h with
  | mk hmark _ _ => rcases hmark with rfl | rfl <;> exact .cons rfl (by decide)

theorem Digits.skipSign (h : Digits Char.isDigit ds) {sign : List Char} (hsign : IsSign sign) :
    skipSign (sign ++ ds) = ds := by
  cases hsign with
  | plus | minus => rfl
  | none =>
    obtain ⟨c, cs, rfl, hc⟩ := h.exists_cons
    refine skipSign.eq_3 (c :: cs) (fun _ heq => ?_) fun _ heq => ?_ <;> cases heq <;> cases hc

theorem exists_sign_skipSign (cs : List Char) : ∃ sign, IsSign sign ∧ cs = sign ++ skipSign cs := by
  unfold skipSign
  split
  · exact ⟨['+'], .plus, rfl⟩
  · exact ⟨['-'], .minus, rfl⟩
  · exact ⟨[], .none, rfl⟩

theorem afterExponent?_eq_nil_iff : afterExponent? cs = some [] ↔ cs = [] ∨ Exponent cs := by
  constructor
  · intro h
    unfold afterExponent? at h
    split at h
    · exact .inl rfl
    · rename_i mark cs
      split at h
      · rename_i hmark
        obtain ⟨ds, hds, heq⟩ := exists_digits_of_afterDigits? h
        obtain ⟨sign, hsign, hcs⟩ := exists_sign_skipSign cs
        rw [heq, List.append_nil] at hcs
        exact .inr (hcs ▸ .mk hmark hsign hds)
      · cases h
  · rintro (rfl | ⟨hmark, hsign, hds⟩)
    · rfl
    · rw [afterExponent?, if_pos hmark, hds.skipSign hsign]
      have h := hds.afterDigits? .nil
      rwa [List.append_nil] at h

theorem skipFraction_cases (cs : List Char) :
    skipFraction cs = cs ∨
      ∃ fraction, (fraction = [] ∨ Digits Char.isDigit fraction) ∧
        cs = '.' :: (fraction ++ skipFraction cs) := by
  unfold skipFraction
  split
  · rename_i cs
    cases h : afterDigits? cs with
    | none => exact .inr ⟨[], .inl rfl, rfl⟩
    | some rest =>
      obtain ⟨ds, hds, rfl⟩ := exists_digits_of_afterDigits? h
      exact .inr ⟨ds, .inr hds, rfl⟩
  · exact .inl rfl

theorem skipFraction_point {fraction : List Char}
    (hfraction : fraction = [] ∨ Digits Char.isDigit fraction) (hrest : Ends rest) :
    skipFraction ('.' :: (fraction ++ rest)) = rest := by
  rcases hfraction with rfl | hds
  · rw [List.nil_append, skipFraction, hrest.afterDigits?, Option.getD_none]
  · rw [skipFraction, hds.afterDigits? hrest, Option.getD_some]

theorem Exponent.skipFraction (h : Exponent cs) : skipFraction cs = cs := by
  refine skipFraction.eq_2 cs ?_
  rintro cs rfl
  cases h with
  | mk hmark _ _ => rcases hmark with hmark | hmark <;> cases hmark

/-! ## Decimal numbers -/

theorem Decimal.of_decimalKind? (h : decimalKind? cs = some kind) : Decimal kind cs := by
  obtain ⟨rest, hrest, hscan⟩ := Option.bind_eq_some_iff.1 h
  obtain ⟨final, hfinal, hkind⟩ := Option.bind_eq_some_iff.1 hscan
  obtain ⟨ds, hds, rfl⟩ := exists_digits_of_afterDigits? hrest
  split at hkind
  · rename_i hempty
    rw [List.isEmpty_iff.1 hempty] at hfinal
    have hexponent := afterExponent?_eq_nil_iff.1 hfinal
    cases hkind
    rcases skipFraction_cases rest with hskip | ⟨fraction, hfraction, hskip⟩
    · rw [hskip] at hexponent
      rcases hexponent with rfl | hexponent
      · exact (List.append_nil ds).symm ▸ .int hds
      · have hne : rest.isEmpty = false := by cases hexponent; rfl
        rw [hne]
        exact .exponent hds hexponent
    · rw [hskip]
      exact .point hds hfraction hexponent
  · cases hkind

theorem Decimal.decimalKind? (h : Decimal kind cs) : decimalKind? cs = some kind := by
  have hscan {ds rest : List Char} (hds : Digits Char.isDigit ds) (hrest : Ends rest)
      (hfinal : afterExponent? (skipFraction rest) = some []) :
      Numeral.decimalKind? (ds ++ rest) = some (if rest.isEmpty then .int else .float) := by
    simp [Numeral.decimalKind?, hds.afterDigits? hrest, hfinal]
  cases h with
  | int hds =>
    rw [← List.append_nil cs, hscan hds .nil rfl]
    rfl
  | point hds hfraction hexponent =>
    have hends := hexponent.elim (fun h => h ▸ Ends.nil) Exponent.ends
    refine hscan hds (.cons rfl (by decide)) ?_
    rw [skipFraction_point hfraction hends]
    exact afterExponent?_eq_nil_iff.2 hexponent
  | exponent hds hexponent =>
    rw [hscan hds hexponent.ends]
    · cases hexponent
      rfl
    · rw [hexponent.skipFraction]
      exact afterExponent?_eq_nil_iff.2 (.inr hexponent)

theorem Exponent.mem (h : Exponent cs) (hc : c ∈ cs) :
    c.isDigit = true ∨ c ∈ ['_', '.', 'e', 'E', '+', '-'] := by
  obtain ⟨hmark, hsign, hds⟩ := h
  rcases List.mem_cons.1 hc with rfl | hc
  · rcases hmark with rfl | rfl <;> decide
  rcases List.mem_append.1 hc with hc | hc
  · cases hsign with
    | none => cases hc
    | plus | minus =>
      rw [List.mem_singleton.1 hc]
      decide
  · exact (hds.mem hc).imp id (by rintro rfl; decide)

theorem Decimal.mem (h : Decimal kind cs) (hc : c ∈ cs) :
    c.isDigit = true ∨ c ∈ ['_', '.', 'e', 'E', '+', '-'] := by
  have hdigits {ds : List Char} (hds : Digits Char.isDigit ds) (hc : c ∈ ds) :
      c.isDigit = true ∨ c ∈ ['_', '.', 'e', 'E', '+', '-'] :=
    (hds.mem hc).imp id (by rintro rfl; decide)
  cases h with
  | int hds => exact hdigits hds hc
  | point hds hfraction hexponent =>
    rcases List.mem_append.1 hc with hc | hc
    · exact hdigits hds hc
    rcases List.mem_cons.1 hc with rfl | hc
    · exact .inr (by decide)
    rcases List.mem_append.1 hc with hc | hc
    · exact hfraction.elim (fun h => absurd hc (by simp [h])) fun h => hdigits h hc
    · exact hexponent.elim (fun h => absurd hc (by simp [h])) fun h => h.mem hc
  | exponent hds hexponent =>
    rcases List.mem_append.1 hc with hc | hc
    · exact hdigits hds hc
    · exact hexponent.mem hc

/-! ## Hexadecimal numbers -/

theorem Digits.of_isHexRun (hc : isHexDigit c = true) (h : isHexRun cs = true) :
    Digits isHexDigit (c :: cs) := by
  fun_induction isHexRun cs generalizing c with
  | case1 => exact .last hc
  | case2 d cs ih =>
    obtain ⟨hd, h⟩ := Bool.and_eq_true_iff.1 h
    exact .separated hc (ih hd h)
  | case3 d cs hne ih =>
    obtain ⟨hd, h⟩ := Bool.and_eq_true_iff.1 h
    exact .cons hc (ih hd h)

theorem isHexRun_cons (hc : isHexDigit c = true) : isHexRun (c :: cs) = isHexRun cs := by
  have hne : c ≠ '_' := by
    rintro rfl
    cases hc
  rw [isHexRun.eq_3 c cs fun _ _ hc _ => hne hc, hc, Bool.true_and]

theorem Digits.isHexRun (h : Digits isHexDigit ds) : isHexRun ds = true := by
  induction h with
  | last hc => rw [isHexRun_cons hc, Numeral.isHexRun]
  | cons hc _ ih => rw [isHexRun_cons hc, ih]
  | separated hc hds ih =>
    obtain ⟨d, ds, rfl, hd⟩ := hds.exists_cons
    rw [isHexRun_cons hc, Numeral.isHexRun, hd, Bool.true_and, ← isHexRun_cons hd, ih]

theorem hexKind?_eq_some_iff :
    hexKind? cs = some kind ↔
      kind = .int ∧ ∃ separator ds, (separator = [] ∨ separator = ['_']) ∧
        Digits isHexDigit ds ∧ cs = separator ++ ds := by
  constructor
  · intro h
    unfold hexKind? at h
    split at h
    · rename_i hcond
      cases h
      refine ⟨rfl, ?_⟩
      obtain ⟨hne, hrun⟩ := Bool.and_eq_true_iff.1 hcond
      unfold isHexRun at hrun
      split at hrun
      · cases hne
      · rename_i d cs
        obtain ⟨hd, hrun⟩ := Bool.and_eq_true_iff.1 hrun
        exact ⟨['_'], d :: cs, .inr rfl, .of_isHexRun hd hrun, rfl⟩
      · rename_i d cs _
        obtain ⟨hd, hrun⟩ := Bool.and_eq_true_iff.1 hrun
        exact ⟨[], d :: cs, .inl rfl, .of_isHexRun hd hrun, rfl⟩
    · cases h
  · rintro ⟨rfl, separator, ds, hseparator, hds, rfl⟩
    have hrun := hds.isHexRun
    obtain ⟨d, ds, rfl, hd⟩ := hds.exists_cons
    rcases hseparator with rfl | rfl
    · simp [hexKind?, hrun]
    · rw [isHexRun_cons hd] at hrun
      simp [hexKind?, Numeral.isHexRun, hd, hrun]

/-! ## Unsigned numbers -/

theorem kind?_of_no_mark (hx : 'x' ∉ cs) (hX : 'X' ∉ cs) :
    kind? cs =
      if cs.getLast? = some 'i' then (decimalKind? cs.dropLast).map fun _ => .imag
      else decimalKind? cs := by
  refine kind?.eq_3 cs ?_ ?_
  · rintro cs rfl
    exact hx (by simp)
  · rintro cs rfl
    exact hX (by simp)

theorem Unsigned.kind? (h : Unsigned kind cs) : kind? cs = some kind := by
  cases h with
  | @hex mark separator ds hmark hseparator hds =>
    have hhex := hexKind?_eq_some_iff.2 ⟨rfl, separator, ds, hseparator, hds, rfl⟩
    rcases hmark with rfl | rfl <;> exact hhex
  | decimal h =>
    have hno {e : Char} (he : ¬(e.isDigit = true ∨ e ∈ ['_', '.', 'e', 'E', '+', '-'])) :
        e ∉ cs := fun hmem => he (h.mem hmem)
    have hlast : cs.getLast? ≠ some 'i' :=
      fun hi => hno (by decide) (List.mem_of_getLast? hi)
    rw [kind?_of_no_mark (hno (by decide)) (hno (by decide)), if_neg hlast, h.decimalKind?]
  | @imag kind cs h =>
    have hno {e : Char} (he : ¬(e.isDigit = true ∨ e ∈ ['_', '.', 'e', 'E', '+', '-']))
        (hi : e ≠ 'i') : e ∉ cs ++ ['i'] := by
      intro hmem
      rcases List.mem_append.1 hmem with hmem | hmem
      · exact he (h.mem hmem)
      · exact hi (List.mem_singleton.1 hmem)
    rw [kind?_of_no_mark (hno (by decide) (by decide)) (hno (by decide) (by decide)),
      if_pos (List.getLast?_concat ..), List.dropLast_concat, h.decimalKind?, Option.map_some]

theorem Unsigned.of_kind? (h : Numeral.kind? cs = some kind) : Unsigned kind cs := by
  have hhex {mark : Char} {cs : List Char} (hmark : mark = 'x' ∨ mark = 'X')
      (h : hexKind? cs = some kind) : Unsigned kind ('0' :: mark :: cs) := by
    obtain ⟨rfl, separator, ds, hseparator, hds, rfl⟩ := hexKind?_eq_some_iff.1 h
    exact .hex hmark hseparator hds
  unfold Numeral.kind? at h
  split at h
  · exact hhex (.inl rfl) h
  · exact hhex (.inr rfl) h
  · split at h
    · rename_i hlast
      obtain ⟨decimal, hdecimal, rfl⟩ := Option.map_eq_some_iff.1 h
      rw [← List.dropLast_append_getLast? 'i' hlast]
      exact .imag (.of_decimalKind? hdecimal)
    · exact .decimal (.of_decimalKind? h)

/-- The scanner accepts the words of the grammar, each as a number of its kind. -/
theorem kind?_eq_some_iff : Numeral.kind? cs = some kind ↔ Unsigned kind cs :=
  ⟨.of_kind?, Unsigned.kind?⟩

example :
    Numeral.kind? ['1', '_', '0', '.'] = some .float ∧ Numeral.kind? ['1', '_', '.'] = none := by
  decide

theorem Decimal.exists_cons (h : Decimal kind cs) :
    ∃ c rest, cs = c :: rest ∧ c.isDigit = true := by
  cases h with
  | int hds | point hds _ _ | exponent hds _ =>
    obtain ⟨c, ds, rfl, hc⟩ := hds.exists_cons
    exact ⟨c, _, rfl, hc⟩

theorem Unsigned.exists_cons (h : Unsigned kind cs) :
    ∃ c rest, cs = c :: rest ∧ c.isDigit = true := by
  cases h with
  | hex _ _ _ => exact ⟨'0', _, rfl, rfl⟩
  | decimal h => exact h.exists_cons
  | imag h =>
    obtain ⟨c, rest, rfl, hc⟩ := h.exists_cons
    exact ⟨c, _, rfl, hc⟩

theorem isHexDigit_of_isDigit (hc : c.isDigit = true) : isHexDigit c = true := by
  simp [isHexDigit, hc]

theorem Unsigned.mem (h : Unsigned kind cs) (hc : c ∈ cs) :
    isHexDigit c = true ∨ c ∈ ['_', '.', '+', '-', 'x', 'X', 'i'] := by
  have hdecimal {kind : NumberKind} {cs : List Char} (h : Decimal kind cs) (hc : c ∈ cs) :
      isHexDigit c = true ∨ c ∈ ['_', '.', '+', '-', 'x', 'X', 'i'] := by
    rcases h.mem hc with hc | hc
    · exact .inl (isHexDigit_of_isDigit hc)
    · simp only [List.mem_cons, List.not_mem_nil, or_false] at hc
      rcases hc with rfl | rfl | rfl | rfl | rfl | rfl <;> decide
  cases h with
  | hex hmark hseparator hds =>
    simp only [List.mem_cons, List.mem_append] at hc
    rcases hc with rfl | rfl | hc | hc
    · decide
    · rcases hmark with rfl | rfl <;> decide
    · rcases hseparator with rfl | rfl
      · cases hc
      · rw [List.mem_singleton.1 hc]
        decide
    · exact (hds.mem hc).imp id (by rintro rfl; decide)
  | decimal h => exact hdecimal h hc
  | imag h =>
    rcases List.mem_append.1 hc with hc | hc
    · exact hdecimal h hc
    · rw [List.mem_singleton.1 hc]
      decide

end SmallLisp.Numeral
