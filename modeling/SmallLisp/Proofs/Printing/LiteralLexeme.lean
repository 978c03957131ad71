import SmallLisp.Proofs.Printing.Lexeme

/-!
# Scanning literals

Each literal is one lexeme, of its kind. A number that is not an integer ends before a point, for a
second point or a point after an exponent belongs to no number.
-/

namespace SmallLisp.Program

open Numeral (Digits IsSign isHexDigit)

/-! ## Strings -/

theorem digitChar_ne : ∀ n < 16, Nat.digitChar n ≠ '"' ∧ Nat.digitChar n ≠ '\\' := by
  decide

theorem digitChar_printable : ∀ n < 16,
    0x20 ≤ (Nat.digitChar n).toNat ∧ (Nat.digitChar n).toNat ≠ 0x7f := by
  decide

theorem hexValue_digits : ∀ n < 128,
    16 * hexValue (Nat.digitChar (n / 16 % 16)) + hexValue (Nat.digitChar (n % 16)) = n := by
  decide

/-- What a character of a string is written as, and what it is read as. -/
theorem encodeChar_cases (c : Char) :
    (∃ l, Text.escapeLetter c = some l ∧ quoting.encodeChar c = ['\\', l]) ∨
      (c.toNat < 128 ∧ quoting.encodeChar c = '\\' :: 'x' :: Text.twoHexDigits c) ∨
      (c ≠ '"' ∧ c ≠ '\\' ∧ 0x20 ≤ c.toNat ∧ c.toNat ≠ 0x7f ∧ quoting.encodeChar c = [c]) := by
  simp only [Text.Quoting.encodeChar, quoting, escape, Text.letterEscape]
  cases hl : Text.escapeLetter c with
  | some l => exact .inl ⟨l, rfl, rfl⟩
  | none =>
    simp only [Option.map_none]
    split
    · rename_i hcontrol
      refine .inr (.inl ⟨?_, rfl⟩)
      rcases hcontrol with hcontrol | rfl
      · omega
      · decide
    · rename_i hplain
      simp only [not_or, Nat.not_lt] at hplain
      refine .inr (.inr ⟨?_, ?_, hplain.1, fun h => hplain.2 (Char.toNat_inj.1 h), rfl⟩) <;>
        rintro rfl <;> cases hl

/-- Control characters are always escaped. -/
theorem printable_of_mem_encodeChar {c d : Char} (h : d ∈ quoting.encodeChar c) :
    0x20 ≤ d.toNat ∧ d.toNat ≠ 0x7f := by
  have hletter : ∀ l ∈ ['"', '\\', 'n', 't', 'r'], 0x20 ≤ l.toNat ∧ l.toNat ≠ 0x7f :=
    forall_mem_of_all (by decide)
  rcases encodeChar_cases c with ⟨l, hl, hc⟩ | ⟨-, hc⟩ | ⟨-, -, hspace, hdelete, hc⟩ <;>
    rw [hc] at h
  · rcases List.mem_cons.1 h with rfl | h
    · decide
    · refine hletter d (List.mem_singleton.1 h ▸ ?_)
      unfold Text.escapeLetter at hl
      split at hl <;> cases hl <;> decide
  · simp only [Text.twoHexDigits, List.mem_cons, List.not_mem_nil, or_false] at h
    rcases h with rfl | rfl | rfl | rfl
    · decide
    · decide
    all_goals exact digitChar_printable _ (Nat.mod_lt _ (by decide))
  · exact List.mem_singleton.1 h ▸ ⟨hspace, hdelete⟩

/-- There is no control character in the literal of a string. -/
theorem printable_of_mem_write {s : String} {c : Char} (h : c ∈ quoting.write s) :
    0x20 ≤ c.toNat ∧ c.toNat ≠ 0x7f := by
  have hquote : 0x20 ≤ '"'.toNat ∧ '"'.toNat ≠ 0x7f := by decide
  simp only [Text.Quoting.write, Text.Quoting.encode, List.cons_append, List.mem_cons,
    List.mem_append, List.mem_flatMap, List.not_mem_nil, or_false] at h
  rcases h with rfl | ⟨_, -, h⟩ | rfl
  · exact hquote
  · exact printable_of_mem_encodeChar h
  · exact hquote

theorem quotedBody_encode (cs : List Char) : QuotedBody '"' (quoting.encode cs) := by
  induction cs with
  | nil => exact .nil
  | cons c cs ih =>
    rw [Text.Quoting.encode_cons]
    refine QuotedBody.append ?_ ih
    rcases encodeChar_cases c with ⟨l, -, h⟩ | ⟨-, h⟩ | ⟨hquote, hslash, -, -, h⟩ <;> rw [h]
    · exact .escaped .nil
    · refine .escaped (.of_forall fun d hd => ?_)
      simp only [Text.twoHexDigits, List.mem_cons, List.not_mem_nil, or_false] at hd
      rcases hd with rfl | rfl <;> exact digitChar_ne _ (Nat.mod_lt _ (by decide))
    · exact .plain hquote hslash .nil

theorem unquote_encodeChar (c : Char) (rest : List Char) :
    unquote (quoting.encodeChar c ++ rest) = c :: unquote rest := by
  rcases encodeChar_cases c with ⟨l, hl, h⟩ | ⟨hc, h⟩ | ⟨hquote, hslash, -, -, h⟩ <;> rw [h]
  · have hx : l ≠ 'x' := by
      rintro rfl
      cases Text.escapedChar_of_escapeLetter hl
    rw [List.cons_append, List.singleton_append,
      unquote.eq_2 _ _ fun _ _ _ h _ => hx h, Text.escapedChar_of_escapeLetter hl]
    rfl
  · simp only [Text.twoHexDigits, List.cons_append, List.nil_append]
    rw [unquote, hexValue_digits _ hc, Char.ofNat_toNat]
  · rw [List.singleton_append, unquote.eq_4]
    all_goals simp_all

theorem unquote_encode (cs : List Char) : unquote (quoting.encode cs ++ ['"']) = cs := by
  induction cs with
  | nil => rfl
  | cons c cs ih => rw [Text.Quoting.encode_cons, List.append_assoc, unquote_encodeChar, ih]

theorem lex_string (s : String) (rest : List Char) :
    lex (quoting.write s ++ rest) = .literal .string s :: lex rest := by
  have hlexeme : lexeme? ('"' :: quoting.encode s.toList ++ ['"']) = some (.literal .string s) := by
    rw [List.cons_append, lexeme?, unquote_encode, String.ofList_toList]
  exact (lex_quoted (.inl rfl) (quotedBody_encode s.toList) rest).trans (by rw [hlexeme]; rfl)

/-! ## Runes -/

theorem RuneBody.quotedBody (h : RuneBody cs) : QuotedBody '\'' cs := by
  have hhex {c : Char} (hc : isHexDigit c = true) : c ≠ '\'' ∧ c ≠ '\\' := by
    constructor <;> rintro rfl <;> cases hc
  cases h with
  | plain hc =>
    simp only [List.mem_cons, not_or] at hc
    exact .plain hc.1 hc.2.1 .nil
  | escaped _ => exact .escaped .nil
  | @octal ds hlength hds =>
    match ds, hlength with
    | [a, b, c], _ =>
      refine .escaped (.of_forall fun d hd => ?_)
      obtain ⟨h0, h7⟩ := hds d (.tail _ hd)
      constructor <;> rintro rfl
      · exact absurd h0 (by decide)
      · exact absurd h7 (by decide)
  | code _ _ hds => exact .escaped (.of_forall fun d hd => hhex (hds d hd))

theorem lex_rune (h : RuneBody cs) (rest : List Char) :
    lex ('\'' :: cs ++ ['\''] ++ rest) =
      .literal .char (String.ofList ('\'' :: cs ++ ['\''])) :: lex rest :=
  lex_quoted (.inr rfl) h.quotedBody rest

/-! ## Numbers -/

theorem isNumber_append (h : isNumber w = true) (cs : List Char) : isNumber (w ++ cs) = true := by
  unfold isNumber at h
  split at h
  · exact h
  · rename_i c w hpoint
    cases w with
    | cons d w =>
      rw [List.cons_append, List.cons_append, isNumber.eq_2 c _ fun _ _ hc hw =>
        hpoint d w hc rfl, h]
    | nil =>
      have hc : c ≠ '.' := by
        rintro rfl
        cases h
      rw [List.cons_append, List.nil_append, isNumber.eq_2 c _ fun _ _ h _ => hc h, h]
  · cases h

theorem goesOn_number (h : isNumber w = true) (c : Char) : goesOn w c = numberGoesOn w c := by
  match w with
  | q :: w =>
    have hq : ¬(q = '"' ∨ q = '\'') := by
      rintro (rfl | rfl) <;> cases h
    have hname : ¬startsName q = true := by
      intro hq
      rw [isNumber_of_startsName hq] at h
      cases h
    rw [goesOn, if_neg hq, if_neg hname, if_pos h]

theorem absorbs_nameChars (hw : isNumber w = true) (hcs : ∀ c ∈ cs, isNameChar c = true) :
    Absorbs w cs := by
  induction cs generalizing w with
  | nil => trivial
  | cons c cs ih =>
    obtain ⟨hc, hcs⟩ := List.forall_mem_cons.1 hcs
    refine ⟨?_, ih (isNumber_append hw [c]) hcs⟩
    rw [goesOn_number hw, numberGoesOn, hc, Bool.true_or, Bool.true_or]

/-- A way to write numbers: what stands in front of the digits, the digits, and the marks of
exponents. -/
structure Radix (front : List Char) (isDigit : Char → Bool) (marks : List Char) : Prop where
  start : isNumber front = true ∧ Absorbs [] front ∨ front = [] ∧ isDigit = Char.isDigit
  mem_front : ∀ c ∈ front, c ∉ ['i', '.'] ∧ c ∉ marks
  mem_digits : ∀ c, isDigit c = true → isHexDigit c = true ∧ c ∉ marks
  mem_marks : ∀ c ∈ marks, isNameChar c = true ∧ c ∉ ['i', '.', '_', 'x', 'X']
  marks_eq : ∀ cs, 'x' ∉ cs → 'X' ∉ cs → exponentMarks (front ++ cs) = marks

theorem Radix.decimal : Radix [] Char.isDigit ['e', 'E'] where
  start := .inr ⟨rfl, rfl⟩
  mem_front := nofun
  mem_digits c hc := by
    refine ⟨Numeral.isHexDigit_of_isDigit hc, fun hmark => ?_⟩
    simp only [List.mem_cons, List.not_mem_nil, or_false] at hmark
    rcases hmark with rfl | rfl <;> cases hc
  mem_marks := forall_mem_of_all (by decide)
  marks_eq cs hx hX := by
    refine exponentMarks.eq_3 cs ?_ ?_
    · rintro tail rfl
      exact hx (by simp)
    · rintro tail rfl
      exact hX (by simp)

/-- The marks of exponents in numbers with the mark `mark` of a base. -/
def basedMarks (mark : Char) : List Char :=
  if mark ∈ ['x', 'X'] then ['p', 'P'] else ['e', 'E']

theorem Radix.based (hm : m ∈ ['b', 'B', 'o', 'O', 'x', 'X']) (hsep : IsSeparator separator) :
    Radix ('0' :: m :: separator) (isBasedDigit m) (basedMarks m) where
  start := by
    left
    simp only [List.mem_cons, List.not_mem_nil, or_false] at hm
    rcases hm with rfl | rfl | rfl | rfl | rfl | rfl <;> rcases hsep with rfl | rfl <;> decide
  mem_front := by
    simp only [List.mem_cons, List.not_mem_nil, or_false] at hm
    rcases hm with rfl | rfl | rfl | rfl | rfl | rfl <;> rcases hsep with rfl | rfl <;>
      exact forall_mem_of_all (by decide)
  mem_digits c hc := by
    refine ⟨isHexDigit_of_isBasedDigit hc, fun hmem => ?_⟩
    simp only [List.mem_cons, List.not_mem_nil, or_false] at hm
    rcases hm with rfl | rfl | rfl | rfl | rfl | rfl <;> simp [basedMarks] at hmem <;>
      rcases hmem with rfl | rfl <;> exact absurd hc (by decide)
  mem_marks := by
    simp only [List.mem_cons, List.not_mem_nil, or_false] at hm
    rcases hm with rfl | rfl | rfl | rfl | rfl | rfl <;> exact forall_mem_of_all (by decide)
  marks_eq cs _ _ := by
    simp only [List.mem_cons, List.not_mem_nil, or_false] at hm
    rcases hm with rfl | rfl | rfl | rfl | rfl | rfl <;> rfl

theorem numberKind_int (h : ∀ c ∈ w, c ∉ ['i', '.'] ∧ c ∉ exponentMarks w) :
    numberKind w = .int := by
  have hi : 'i' ∉ w := fun hc => (h _ hc).1 (by decide)
  have hfloat : ¬('.' ∈ w ∨ (exponentMarks w).any (· ∈ w)) := by
    rintro (hc | hmarks)
    · exact (h _ hc).1 (by decide)
    · obtain ⟨mark, hmark, hc⟩ := List.any_eq_true.1 hmarks
      exact (h _ (of_decide_eq_true hc)).2 hmark
  rw [numberKind, if_neg hi, if_neg hfloat]

theorem Mantissa.mem (h : Mantissa isDigit cs) (hc : c ∈ cs) :
    isDigit c = true ∨ c ∈ ['_', '.'] := by
  have hdigits {ds : List Char} (hds : Digits isDigit ds) (hc : c ∈ ds) :
      isDigit c = true ∨ c ∈ ['_', '.'] :=
    (hds.mem hc).imp id fun h => by rw [h]; decide
  cases h with
  | whole hds => exact hdigits hds hc
  | point hds hfraction =>
    rcases List.mem_append.1 hc with hc | hc
    · exact hdigits hds hc
    rcases List.mem_cons.1 hc with rfl | hc
    · exact .inr (by decide)
    · exact hfraction.elim (fun h => absurd hc (by simp [h])) fun h => hdigits h hc
  | leadingPoint hds =>
    rcases List.mem_cons.1 hc with rfl | hc
    · exact .inr (by decide)
    · exact hdigits hds hc

theorem Power.mem (h : Power marks cs) (hc : c ∈ cs) :
    c ∈ marks ∨ c.isDigit = true ∨ c ∈ ['_', '+', '-'] := by
  obtain ⟨hmark, hsign, hds⟩ := h
  rcases List.mem_cons.1 hc with rfl | hc
  · exact .inl hmark
  rcases List.mem_append.1 hc with hc | hc
  · cases hsign with
    | none => cases hc
    | plus | minus =>
      rw [List.mem_singleton.1 hc]
      exact .inr (.inr (by decide))
  · exact .inr ((hds.mem hc).imp id fun h => by rw [h]; decide)

namespace Radix
variable {front : List Char} {isDigit : Char → Bool} {marks : List Char}
variable (hr : Radix front isDigit marks)
include hr

theorem absorbs_front : Absorbs [] front := by
  rcases hr.start with ⟨-, h⟩ | ⟨rfl, -⟩
  · exact h
  · trivial

theorem not_isDigit (hc : c ∈ ['i', '.', '_', 'x', 'X']) : ¬isDigit c = true := by
  intro hdigit
  have hhex := (hr.mem_digits c hdigit).1
  simp only [List.mem_cons, List.not_mem_nil, or_false] at hc
  rcases hc with rfl | rfl | rfl | rfl | rfl <;> cases hhex

theorem not_mem_mantissa (h : Mantissa isDigit cs) (hc : c ∈ ['i', 'x', 'X']) : c ∉ cs := by
  intro hmem
  simp only [List.mem_cons, List.not_mem_nil, or_false] at hc
  rcases h.mem hmem with hdigit | hsign
  · exact hr.not_isDigit (by rcases hc with rfl | rfl | rfl <;> decide) hdigit
  · rcases hc with rfl | rfl | rfl <;> exact absurd hsign (by decide)

theorem marks_mantissa (h : Mantissa isDigit cs) (hx : 'x' ∉ p) (hX : 'X' ∉ p) :
    exponentMarks (front ++ cs ++ p) = marks := by
  rw [List.append_assoc]
  refine hr.marks_eq _ ?_ ?_ <;> rw [List.mem_append, not_or]
  · exact ⟨hr.not_mem_mantissa h (by decide), hx⟩
  · exact ⟨hr.not_mem_mantissa h (by decide), hX⟩

/-- A number is an integer until its point or its exponent is read. -/
theorem numberKind_digits (hds : ds = [] ∨ Digits isDigit ds) :
    numberKind (front ++ ds) = .int := by
  have hmarks : exponentMarks (front ++ ds) = marks := by
    rcases hds with rfl | hds
    · exact hr.marks_eq [] (by simp) (by simp)
    · exact List.append_nil (front ++ ds) ▸ hr.marks_mantissa (.whole hds) (by simp) (by simp)
  refine numberKind_int fun c hc => ?_
  rw [hmarks]
  rcases List.mem_append.1 hc with hc | hc
  · exact hr.mem_front c hc
  rcases hds with rfl | hds
  · cases hc
  rcases hds.mem hc with hdigit | rfl
  · refine ⟨fun hmem => ?_, (hr.mem_digits c hdigit).2⟩
    simp only [List.mem_cons, List.not_mem_nil, or_false] at hmem
    rcases hmem with rfl | rfl <;> exact hr.not_isDigit (by decide) hdigit
  · exact ⟨by decide, fun hmem => (hr.mem_marks _ hmem).2 (by decide)⟩

theorem isNameChar_digits (hds : Digits isDigit ds) : ∀ c ∈ ds, isNameChar c = true := by
  intro c hc
  rcases hds.mem hc with hc | rfl
  · exact isNameChar_of_isHexDigit (hr.mem_digits c hc).1
  · decide

theorem absorbs_digits (hds : Digits isDigit ds) :
    Absorbs front ds ∧ isNumber (front ++ ds) = true := by
  have hchars := hr.isNameChar_digits hds
  rcases hr.start with ⟨hfront, -⟩ | ⟨rfl, rfl⟩
  · exact ⟨absorbs_nameChars hfront hchars, isNumber_append hfront ds⟩
  · obtain ⟨d, ds, rfl, hd⟩ := hds.exists_cons
    have hnumber : isNumber [d] = true := by
      rw [isNumber.eq_2 d [] (by simp), hd]
    exact ⟨absorbs_cons.2 (absorbs_nameChars hnumber (List.forall_mem_cons.1 hchars).2),
      isNumber_append hnumber ds⟩

theorem goesOn_point (hnumber : isNumber (front ++ ds) = true)
    (hds : ds = [] ∨ Digits isDigit ds) : goesOn (front ++ ds) '.' = true := by
  simp [goesOn_number hnumber, numberGoesOn, hr.numberKind_digits hds]

theorem absorbs_mantissa (h : Mantissa isDigit cs) :
    Absorbs front cs ∧ isNumber (front ++ cs) = true := by
  cases h with
  | whole hds => exact hr.absorbs_digits hds
  | @point ds fraction hds hfraction =>
    obtain ⟨habsorbs, hnumber⟩ := hr.absorbs_digits hds
    have hchars : ∀ c ∈ fraction, isNameChar c = true := by
      rcases hfraction with rfl | hfraction
      · simp
      · exact hr.isNameChar_digits hfraction
    refine ⟨absorbs_append.2 ⟨habsorbs, hr.goesOn_point hnumber (.inr hds), ?_⟩, ?_⟩
    · exact absorbs_nameChars (isNumber_append hnumber _) hchars
    · rw [← List.append_assoc]
      exact isNumber_append hnumber _
  | @leadingPoint fraction hds =>
    have hchars := hr.isNameChar_digits hds
    rcases hr.start with ⟨hfront, -⟩ | ⟨rfl, rfl⟩
    · have hpoint := hr.goesOn_point (isNumber_append hfront []) (.inl rfl)
      rw [List.append_nil] at hpoint
      exact ⟨⟨hpoint, absorbs_nameChars (isNumber_append hfront _) hchars⟩,
        isNumber_append hfront _⟩
    -- The digit after a leading point makes it a number.
    · obtain ⟨d, ds, rfl, hd⟩ := hds.exists_cons
      have hnumber : isNumber ['.', d] = true := hd
      have hstart : goesOn ['.'] d = true := by
        simp [goesOn, startsName, isNumber, hd]
      exact ⟨absorbs_cons.2 ⟨hstart, absorbs_nameChars hnumber (List.forall_mem_cons.1 hchars).2⟩,
        isNumber_append hnumber ds⟩

theorem absorbs_power (hcs : Mantissa isDigit cs) (h : Power marks p) :
    Absorbs (front ++ cs) p := by
  obtain ⟨-, hnumber⟩ := hr.absorbs_mantissa hcs
  obtain @⟨mark, sign, ds, hmark, hsign, hds⟩ := h
  have hdigits : ∀ c ∈ ds, isNameChar c = true := fun c hc => by
    rcases hds.mem hc with hc | rfl
    · rw [isNameChar, hc, Bool.or_true]
    · decide
  obtain ⟨hname, hspecial⟩ := hr.mem_marks mark hmark
  have hmarks : exponentMarks (front ++ cs ++ [mark]) = marks := by
    refine hr.marks_mantissa hcs ?_ ?_ <;> rw [List.mem_singleton] <;> rintro rfl <;>
      exact hspecial (by decide)
  have hsigned := isNumber_append hnumber [mark]
  refine ⟨?_, absorbs_append.2 ⟨?_, absorbs_nameChars (isNumber_append hsigned sign) hdigits⟩⟩
  · rw [goesOn_number hnumber, numberGoesOn, hname, Bool.true_or, Bool.true_or]
  · have hgoes {c : Char} (hc : c = '+' ∨ c = '-') : goesOn (front ++ cs ++ [mark]) c = true := by
      rw [goesOn_number hsigned, numberGoesOn, hmarks]
      rcases hc with rfl | rfl <;> simp [hmark]
    cases hsign with
    | none => trivial
    | plus => exact ⟨hgoes (.inl rfl), trivial⟩
    | minus => exact ⟨hgoes (.inr rfl), trivial⟩

theorem not_mem_power (h : Power marks p) (hc : c ∈ ['i', 'x', 'X']) : c ∉ p := by
  intro hmem
  simp only [List.mem_cons, List.not_mem_nil, or_false] at hc
  rcases h.mem hmem with hmark | hdigit | hsign
  · exact (hr.mem_marks c hmark).2 (by rcases hc with rfl | rfl | rfl <;> decide)
  · rcases hc with rfl | rfl | rfl <;> cases hdigit
  · rcases hc with rfl | rfl | rfl <;> exact absurd hsign (by decide)

theorem numberKind_float (hcs : Mantissa isDigit cs) (h : p = [] ∧ '.' ∈ cs ∨ Power marks p) :
    numberKind (front ++ cs ++ p) = .float := by
  have hno {c : Char} (hc : c ∈ ['i', 'x', 'X']) : c ∉ p := by
    rcases h with ⟨rfl, -⟩ | h
    · simp
    · exact hr.not_mem_power h hc
  have hi : 'i' ∉ front ++ cs ++ p := by
    simp only [List.mem_append, not_or]
    exact ⟨⟨fun hmem => (hr.mem_front _ hmem).1 (by decide), hr.not_mem_mantissa hcs (by decide)⟩,
      hno (by decide)⟩
  rw [numberKind, if_neg hi, hr.marks_mantissa hcs (hno (by decide)) (hno (by decide)), if_pos]
  rcases h with ⟨rfl, hpoint⟩ | @⟨mark, sign, ds, hmark, hsign, hds⟩
  · exact .inl (by simp [hpoint])
  · exact .inr (List.any_eq_true.2 ⟨mark, hmark, by simp⟩)

theorem lexeme_float (hcs : Mantissa isDigit cs) (h : p = [] ∧ '.' ∈ cs ∨ Power marks p) :
    isNumber (front ++ cs ++ p) = true ∧ Absorbs [] (front ++ cs ++ p) ∧
      numberKind (front ++ cs ++ p) = .float := by
  obtain ⟨habsorbs, hnumber⟩ := hr.absorbs_mantissa hcs
  have hp : Absorbs (front ++ cs) p := by
    rcases h with ⟨rfl, -⟩ | h
    · trivial
    · exact hr.absorbs_power hcs h
  exact ⟨isNumber_append hnumber p,
    absorbs_append.2 ⟨absorbs_append.2 ⟨hr.absorbs_front, habsorbs⟩, hp⟩, hr.numberKind_float hcs h⟩

theorem lexeme_int (hds : Digits isDigit ds) :
    isNumber (front ++ ds) = true ∧ Absorbs [] (front ++ ds) ∧
      numberKind (front ++ ds) = .int := by
  obtain ⟨habsorbs, hnumber⟩ := hr.absorbs_digits hds
  exact ⟨hnumber, absorbs_append.2 ⟨hr.absorbs_front, habsorbs⟩, hr.numberKind_digits (.inr hds)⟩

end Radix

/-- A number is one lexeme of its kind. -/
theorem Number.lexeme (h : Number kind cs) :
    isNumber cs = true ∧ Absorbs [] cs ∧ numberKind cs = kind := by
  induction h with
  | decimal hds => exact Radix.decimal.lexeme_int hds
  | based hmark hsep hds => exact (Radix.based hmark hsep).lexeme_int hds
  | @fraction cs hcs hpoint =>
    exact List.append_nil cs ▸ Radix.decimal.lexeme_float hcs (.inl ⟨rfl, hpoint⟩)
  | power hcs hp => exact Radix.decimal.lexeme_float hcs (.inr hp)
  | hexPower hmark hsep hcs hp =>
    simp only [List.mem_cons, List.not_mem_nil, or_false] at hmark
    rcases hmark with rfl | rfl
    · exact (Radix.based (m := 'x') (by decide) hsep).lexeme_float hcs (.inr hp)
    · exact (Radix.based (m := 'X') (by decide) hsep).lexeme_float hcs (.inr hp)
  | imag _ _ ih =>
    obtain ⟨hnumber, habsorbs, -⟩ := ih
    exact ⟨isNumber_append hnumber _,
      absorbs_append.2 ⟨habsorbs, absorbs_nameChars hnumber (forall_mem_of_all rfl)⟩,
      by simp [numberKind]⟩

/-- What may follow a number. Only an integer would take in a point. -/
def EndsNumber (kind : LiteralKind) (rest : List Char) : Prop :=
  ∀ c ∈ rest.head?, isNameChar c = false ∧ c ≠ '+' ∧ c ≠ '-' ∧ (c = '.' → kind ≠ .int)

theorem lex_number (h : Number kind cs) (hrest : EndsNumber kind rest) :
    lex (cs ++ rest) = .literal kind (String.ofList cs) :: lex rest := by
  obtain ⟨hnumber, habsorbs, hkind⟩ := h.lexeme
  have hstops : Stops cs rest := by
    intro c hc
    obtain ⟨hname, hplus, hminus, hpoint⟩ := hrest c hc
    simpa [goesOn_number hnumber, numberGoesOn, hname, hplus, hminus, hkind] using hpoint
  have hplain : ∀ c ∈ cs.head?, c ∉ [' ', '\t', '"', '\''] := by
    intro c hc hmem
    obtain ⟨cs, rfl⟩ := List.head?_eq_some_iff.1 hc
    simp only [List.mem_cons, List.not_mem_nil, or_false] at hmem
    rcases hmem with rfl | rfl | rfl | rfl <;> cases hnumber
  have hne : cs ≠ [] := by
    rintro rfl
    cases hnumber
  rw [lex_word habsorbs hstops, lexeme?_of_plain hne hplain, if_pos hnumber, hkind]
  rfl

end SmallLisp.Program
