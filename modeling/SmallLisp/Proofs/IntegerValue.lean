import SmallLisp.Program.Print
import SmallLisp.Proofs.Printing.Literal
import SmallLisp.Proofs.Reading.NumberToken
import SmallLisp.Settings.Scalar
import SmallLisp.TopLevel.Emit

/-!
# Values of integers

An integer passes as it is written from the source to the program, and there Go reads it by rules of
its own: a zero in front announces octal digits. So the value is the same for hexadecimal integers
and for those without a zero in front, and for others only where all digits but the last are zeros
(`integer_value_iff`).
-/

namespace SmallLisp

open Numeral (Digits Unsigned)
open Settings (natOfDigits hexValue)
open Program (isBasedDigit IsSeparator isDigit_iff)

/-- The value of an unsigned integer: hexadecimal after its mark, else decimal. -/
def Numeral.value : List Char → Nat
  | '0' :: 'x' :: cs => natOfDigits 16 cs
  | '0' :: 'X' :: cs => natOfDigits 16 cs
  | cs => natOfDigits 10 cs

/-- The value of an integer token. -/
def Reader.tokenValue (cs : List Char) : Int :=
  if cs.head? = some '-' then -(Numeral.value (Reader.dropSign cs))
  else Numeral.value (Reader.dropSign cs)

namespace Program

/-- The marks of bases after a zero. -/
def radixes : List (Char × Nat) := [('b', 2), ('B', 2), ('o', 8), ('O', 8), ('x', 16), ('X', 16)]

/-- The unsigned integers of Go and their values. A zero in front of further digits makes them
octal, with or without a mark. -/
inductive IntegerValue : List Char → Nat → Prop
  | zero : IntegerValue ['0'] 0
  | decimal {c : Char} {cs : List Char} :
    c ≠ '0' → Digits Char.isDigit (c :: cs) → IntegerValue (c :: cs) (natOfDigits 10 (c :: cs))
  | octal {separator ds : List Char} :
    IsSeparator separator → Digits (isBasedDigit 'o') ds →
      IntegerValue ('0' :: (separator ++ ds)) (natOfDigits 8 ds)
  | based {mark : Char} {base : Nat} {separator ds : List Char} :
    (mark, base) ∈ radixes → IsSeparator separator → Digits (isBasedDigit mark) ds →
      IntegerValue ('0' :: mark :: (separator ++ ds)) (natOfDigits base ds)

/-- Integers with or without a minus in front. -/
inductive SignedValue : List Char → Int → Prop
  | unsigned {cs : List Char} {n : Nat} : IntegerValue cs n → SignedValue cs n
  | minus {cs : List Char} {n : Nat} : IntegerValue cs n → SignedValue ('-' :: cs) (-n)

end Program

/-- Integers whose value does not hang on what a zero in front means. -/
inductive Numeral.Unambiguous : List Char → Prop
  | hex {mark : Char} {cs : List Char} : mark = 'x' ∨ mark = 'X' → Unambiguous ('0' :: mark :: cs)
  | decimal {c : Char} {cs : List Char} : c ≠ '0' → Unambiguous (c :: cs)
  | zeros {zeros : List Char} {c : Char} :
    (∀ z ∈ zeros, z = '0' ∨ z = '_') → c ≤ '7' → Unambiguous (zeros ++ [c])

variable {cs ds u separator : List Char} {c : Char} {base n m : Nat}

/-! ## Digits -/

namespace Numeral.Digits

variable {p q : Char → Bool}

theorem ne_nil (h : Digits p ds) : ds ≠ [] := by
  obtain ⟨c, cs, rfl, -⟩ := h.exists_cons
  exact List.cons_ne_nil c cs

theorem head_ne (h : Digits p ds) (hc : p c = false) : ds.head? ≠ some c := by
  obtain ⟨d, cs, rfl, hd⟩ := h.exists_cons
  rintro ⟨⟩
  rw [hd] at hc
  cases hc

theorem imp (h : Digits p ds) (himp : ∀ c ∈ ds, p c = true → q c = true) : Digits q ds := by
  induction h with
  | last hc => exact .last (himp _ (List.mem_singleton_self _) hc)
  | cons hc _ ih =>
    refine .cons (himp _ List.mem_cons_self hc) (ih fun c hmem => himp c ?_)
    exact List.mem_cons_of_mem _ hmem
  | separated hc _ ih =>
    refine .separated (himp _ List.mem_cons_self hc) (ih fun c hmem => himp c ?_)
    exact List.mem_cons_of_mem _ (List.mem_cons_of_mem _ hmem)

theorem getLast (h : Digits p ds) : p (ds.getLast h.ne_nil) = true := by
  induction h with
  | last hc => exact hc
  | cons _ hds ih => rwa [List.getLast_cons hds.ne_nil]
  | separated _ hds ih =>
    rwa [List.getLast_cons (List.cons_ne_nil _ _), List.getLast_cons hds.ne_nil]

end Numeral.Digits

/-! ## Digits in two bases -/

namespace Settings

/-- The number that digits make together with what stands before them. -/
def extend (base n : Nat) (cs : List Char) : Nat :=
  cs.foldl (fun n c => if c = '_' then n else base * n + hexValue c) n

theorem extend_lt_extend (h : n < m) (cs : List Char) : extend 8 n cs < extend 10 m cs := by
  induction cs generalizing n m with
  | nil => exact h
  | cons c cs ih =>
    simp only [extend, List.foldl_cons]
    refine ih ?_
    split
    · exact h
    · omega

/-- A number other than zero grows faster in the larger base. -/
theorem extend_digits_lt {isDigit : Char → Bool} (hn : 0 < n) (h : Digits isDigit ds)
    (hunderscore : isDigit '_' = false) : extend 8 n ds < extend 10 n ds := by
  obtain ⟨c, cs, rfl, hc⟩ := h.exists_cons
  have hne : c ≠ '_' := by
    rintro rfl
    rw [hunderscore] at hc
    cases hc
  simp only [extend, List.foldl_cons, if_neg hne]
  exact extend_lt_extend (by omega) cs

theorem natOfDigits_lead (hsep : IsSeparator separator) (hc : c ≠ '_') :
    natOfDigits base (c :: (separator ++ ds)) = extend base (hexValue c) ds := by
  have hlead : natOfDigits base (c :: (separator ++ ds)) =
      extend base (hexValue c) (separator ++ ds) := by
    simp [natOfDigits, extend, hc]
  rw [hlead]
  rcases hsep with rfl | rfl <;> rfl

theorem natOfDigits_separator (hsep : IsSeparator separator) :
    natOfDigits base (separator ++ ds) = natOfDigits base ds := by
  rcases hsep with rfl | rfl <;> rfl

theorem hexValue_pos (hc : isBasedDigit 'o' c = true) (hne : c ≠ '0') : 0 < hexValue c := by
  have hc : 48 ≤ c.toNat ∧ c.toNat ≤ 55 := by
    simpa [isBasedDigit, Char.le_def, UInt32.le_iff_toNat_le] using hc
  have hdigit : c.isDigit = true := (isDigit_iff c).2 (by omega)
  have hzero : c.toNat ≠ 48 := fun h => hne (Char.toNat_inj.1 h)
  rw [hexValue, if_pos hdigit]
  have : '0'.toNat = 48 := rfl
  omega

/-- A first digit other than zero weighs more in the larger base. -/
theorem natOfDigits_lead_eq_iff (hc : isBasedDigit 'o' c = true) (hsep : IsSeparator separator)
    (hds : Digits (isBasedDigit 'o') ds) :
    natOfDigits 8 (c :: (separator ++ ds)) = natOfDigits 10 (c :: (separator ++ ds)) ↔
      c = '0' ∧ natOfDigits 8 ds = natOfDigits 10 ds := by
  have hne : c ≠ '_' := by
    rintro rfl
    cases hc
  rw [natOfDigits_lead hsep hne, natOfDigits_lead hsep hne]
  by_cases hzero : c = '0'
  · subst hzero
    exact (and_iff_right rfl).symm
  · have hlt := extend_digits_lt (hexValue_pos hc hzero) hds rfl
    exact iff_of_false (Nat.ne_of_lt hlt) fun h => hzero h.1

/-- Octal digits have the same value in both bases when only the last may differ from zero. -/
theorem natOfDigits_octal_eq_iff (h : Digits (isBasedDigit 'o') ds) :
    natOfDigits 8 ds = natOfDigits 10 ds ↔ ∀ z ∈ ds.dropLast, z = '0' ∨ z = '_' := by
  have hfirst (c : Char) (hc : isBasedDigit 'o' c = true) : c = '0' ∨ c = '_' ↔ c = '0' :=
    or_iff_left (by rintro rfl; cases hc)
  induction h with
  | @last c hc =>
    have hc : c ≠ '_' := by
      rintro rfl
      cases hc
    simp [natOfDigits, hc]
  | @cons c ds hc hds ih =>
    have hlead := natOfDigits_lead_eq_iff hc (.inl rfl) hds
    refine hlead.trans ((and_congr_right fun _ => ih).trans ?_)
    rw [List.dropLast_cons_of_ne_nil hds.ne_nil, List.forall_mem_cons, hfirst c hc]
  | @separated c ds hc hds ih =>
    have hlead := natOfDigits_lead_eq_iff hc (.inr rfl) hds
    refine hlead.trans ((and_congr_right fun _ => ih).trans ?_)
    rw [List.dropLast_cons_of_ne_nil (List.cons_ne_nil '_' ds),
      List.dropLast_cons_of_ne_nil hds.ne_nil, List.forall_mem_cons, List.forall_mem_cons,
      hfirst c hc]
    simp

end Settings

open Settings

/-! ## Leading zeros -/

theorem separator_append_inj {separator' ds' : List Char} (hsep : IsSeparator separator)
    (hsep' : IsSeparator separator') (hds : ds.head? ≠ some '_') (hds' : ds'.head? ≠ some '_')
    (h : separator ++ ds = separator' ++ ds') : ds = ds' := by
  rcases hsep with rfl | rfl <;> rcases hsep' with rfl | rfl
  · exact h
  · exact absurd (congrArg List.head? h) hds
  · exact absurd (congrArg List.head? h).symm hds'
  · exact List.tail_eq_of_cons_eq h

/-- Digits start with no mark of a base. -/
theorem first_of_separator {first : Char} {rest : List Char} (hsep : IsSeparator separator)
    (hds : Digits Char.isDigit ds) (h : separator ++ ds = first :: rest) :
    first = '_' ∨ first.isDigit = true := by
  rcases hsep with rfl | rfl
  · obtain ⟨c, cs, rfl, hc⟩ := hds.exists_cons
    exact .inr (List.head_eq_of_cons_eq h ▸ hc)
  · exact .inl (List.head_eq_of_cons_eq h).symm

namespace Program

theorem isBasedDigit_octal_iff : isBasedDigit 'o' c = true ↔ c.isDigit = true ∧ c ≤ '7' := by
  have hoctal : isBasedDigit 'o' c = (decide ('0' ≤ c) && decide (c ≤ '7')) := rfl
  have hval : c.toNat = c.val.toNat := rfl
  simp only [hoctal, isDigit_iff, Bool.and_eq_true, decide_eq_true_eq, Char.le_def,
    UInt32.le_iff_toNat_le, Char.reduceVal, UInt32.reduceToNat]
  omega

theorem isBasedDigit_underscore (mark : Char) : isBasedDigit mark '_' = false := by
  unfold isBasedDigit
  split
  · rfl
  · split <;> rfl

theorem mem_radixes {mark : Char} (h : (mark, base) ∈ radixes) :
    radixes.lookup mark = some base ∧ ¬(mark = '_' ∨ mark.isDigit = true) := by
  simp only [radixes, List.mem_cons, Prod.mk.injEq, List.not_mem_nil, or_false] at h
  rcases h with ⟨rfl, rfl⟩ | ⟨rfl, rfl⟩ | ⟨rfl, rfl⟩ | ⟨rfl, rfl⟩ | ⟨rfl, rfl⟩ | ⟨rfl, rfl⟩ <;>
    exact ⟨rfl, by decide⟩

/-- Digits after a zero are octal. -/
theorem integerValue_leading_iff (hsep : IsSeparator separator) (hds : Digits Char.isDigit ds) :
    IntegerValue ('0' :: (separator ++ ds)) n ↔
      Digits (isBasedDigit 'o') ds ∧ n = natOfDigits 8 ds := by
  constructor
  · intro h
    generalize hcs : '0' :: (separator ++ ds) = cs at h
    cases h with
    | zero =>
      obtain ⟨c, cs, rfl, -⟩ := hds.exists_cons
      simp at hcs
    | decimal hc _ => exact absurd (List.head_eq_of_cons_eq hcs).symm hc
    | octal hsep' hds' =>
      have heq := separator_append_inj hsep hsep' (hds.head_ne rfl) (hds'.head_ne rfl)
        (List.tail_eq_of_cons_eq hcs)
      exact ⟨heq ▸ hds', heq ▸ rfl⟩
    | based hmark _ _ =>
      have hfirst := first_of_separator hsep hds (List.tail_eq_of_cons_eq hcs)
      exact absurd hfirst (mem_radixes hmark).2
  · rintro ⟨hoctal, rfl⟩
    exact .octal hsep hoctal

/-- A text has one value at most. -/
theorem IntegerValue.unique (hn : IntegerValue cs n) (hm : IntegerValue cs m) : n = m := by
  cases hn with
  | zero =>
    generalize hcs : ['0'] = cs at hm
    cases hm with
    | zero => rfl
    | decimal hc _ => exact absurd (List.head_eq_of_cons_eq hcs).symm hc
    | octal _ hds => exact absurd (List.tail_eq_of_cons_eq hcs).symm (by simp [hds.ne_nil])
    | based _ _ _ => cases hcs
  | decimal hc _ =>
    cases hm with
    | decimal _ _ => rfl
    | zero | octal _ _ | based _ _ _ => exact absurd rfl hc
  | octal hsep hds =>
    have hdigits := hds.imp fun c _ hc => (isBasedDigit_octal_iff.1 hc).1
    exact ((integerValue_leading_iff hsep hdigits).1 hm).2.symm
  | @based mark base separator ds hmark hsep hds =>
    generalize hcs : '0' :: mark :: (separator ++ ds) = cs at hm
    obtain ⟨hlookup, hletter⟩ := mem_radixes hmark
    cases hm with
    | zero => cases hcs
    | decimal hc _ => exact absurd (List.head_eq_of_cons_eq hcs).symm hc
    | octal hsep' hds' =>
      have hdigits := hds'.imp fun c _ hc => (isBasedDigit_octal_iff.1 hc).1
      exact absurd (first_of_separator hsep' hdigits (List.tail_eq_of_cons_eq hcs).symm) hletter
    | based hmark' hsep' hds' =>
      have hcs := List.tail_eq_of_cons_eq hcs
      obtain rfl := List.head_eq_of_cons_eq hcs
      obtain rfl := separator_append_inj hsep hsep' (hds.head_ne (isBasedDigit_underscore mark))
        (hds'.head_ne (isBasedDigit_underscore mark)) (List.tail_eq_of_cons_eq hcs)
      obtain rfl := Option.some.inj (hlookup.symm.trans (mem_radixes hmark').1)
      rfl

end Program

open Program

namespace Numeral

/-- Digits after a zero are read alike when they are octal and all but the last are zeros. -/
theorem unambiguous_leading_iff (hsep : IsSeparator separator) (hds : Digits Char.isDigit ds) :
    Unambiguous ('0' :: (separator ++ ds)) ↔
      Digits (isBasedDigit 'o') ds ∧ ∀ z ∈ ds.dropLast, z = '0' ∨ z = '_' := by
  constructor
  · intro h
    generalize hcs : '0' :: (separator ++ ds) = cs at h
    cases h with
    | hex hmark =>
      have hno := first_of_separator hsep hds (List.tail_eq_of_cons_eq hcs)
      rcases hmark with rfl | rfl <;> exact absurd hno (by decide)
    | decimal hc => exact absurd (List.head_eq_of_cons_eq hcs).symm hc
    | @zeros zeros last hzeros hlast =>
      have hsplit := List.dropLast_append_getLast hds.ne_nil
      rw [← hsplit, ← List.append_assoc, ← List.cons_append] at hcs
      obtain ⟨rfl, hend⟩ := List.append_inj' hcs rfl
      obtain rfl := List.singleton_inj.1 hend
      have hdrop (z : Char) (hz : z ∈ ds.dropLast) : z = '0' ∨ z = '_' :=
        hzeros z (List.mem_cons_of_mem _ (List.mem_append_right _ hz))
      refine ⟨hds.imp fun c hc hdigit => isBasedDigit_octal_iff.2 ⟨hdigit, ?_⟩, hdrop⟩
      rw [← hsplit] at hc
      rcases List.mem_append.1 hc with hc | hc
      · rcases hdrop c hc with rfl | rfl
        · decide
        · cases hdigit
      · exact List.mem_singleton.1 hc ▸ hlast
  · rintro ⟨hoctal, hdrop⟩
    have hlast : ds.getLast hds.ne_nil ≤ '7' := (isBasedDigit_octal_iff.1 hoctal.getLast).2
    have hcs : '0' :: (separator ++ ds) =
        ('0' :: (separator ++ ds.dropLast)) ++ [ds.getLast hds.ne_nil] := by
      rw [List.cons_append, List.append_assoc, List.dropLast_append_getLast]
    rw [hcs]
    refine .zeros (fun z hz => ?_) hlast
    simp only [List.mem_cons, List.mem_append] at hz
    rcases hz with rfl | hz | hz
    · exact .inl rfl
    · rcases hsep with rfl | rfl
      · cases hz
      · exact .inr (List.mem_singleton.1 hz)
    · exact hdrop z hz

theorem value_leading (hsep : IsSeparator separator) (hds : Digits Char.isDigit ds) :
    value ('0' :: (separator ++ ds)) = natOfDigits 10 ds := by
  have hno (mark : Char) (rest : List Char) (hmark : ¬(mark = '_' ∨ mark.isDigit = true)) :
      separator ++ ds ≠ mark :: rest := fun h => hmark (first_of_separator hsep hds h)
  have hdecimal : value ('0' :: (separator ++ ds)) = natOfDigits 10 ('0' :: (separator ++ ds)) :=
    value.eq_3 _ (fun cs h => hno 'x' cs (by decide) (List.tail_eq_of_cons_eq h))
      fun cs h => hno 'X' cs (by decide) (List.tail_eq_of_cons_eq h)
  exact hdecimal.trans (natOfDigits_separator hsep)

theorem value_of_head_ne (hc : c ≠ '0') : value (c :: cs) = natOfDigits 10 (c :: cs) :=
  value.eq_3 _ (fun _ h => hc (List.head_eq_of_cons_eq h)) fun _ h => hc (List.head_eq_of_cons_eq h)

/-- Decimal digits are a zero, digits after a zero, or digits that start with another one. -/
theorem Digits.leading_cases (h : Digits Char.isDigit ds) :
    ds = ['0'] ∨
      (∃ separator rest, IsSeparator separator ∧ Digits Char.isDigit rest ∧
        ds = '0' :: (separator ++ rest)) ∨
      ∃ c cs, c ≠ '0' ∧ ds = c :: cs := by
  obtain ⟨c, cs, rfl, -⟩ := h.exists_cons
  by_cases hc : c = '0'
  · subst hc
    cases h with
    | last _ => exact .inl rfl
    | cons _ hds => exact .inr (.inl ⟨[], cs, .inl rfl, hds, rfl⟩)
    | separated _ hds => exact .inr (.inl ⟨['_'], _, .inr rfl, hds, rfl⟩)
  · exact .inr (.inr ⟨c, cs, hc, rfl⟩)

end Numeral

open Numeral (Unambiguous)

/-- Both readings of an unsigned integer agree exactly when a zero in front changes nothing. -/
theorem integerValue_value_iff (h : Unsigned .int u) :
    IntegerValue u (Numeral.value u) ↔ Unambiguous u := by
  cases h with
  | @hex mark separator ds hmark hsep hds =>
    have hvalue : Numeral.value ('0' :: mark :: (separator ++ ds)) = natOfDigits 16 ds := by
      rcases hmark with rfl | rfl <;> exact natOfDigits_separator hsep
    rw [hvalue]
    refine iff_of_true (.based ?_ hsep ?_) (.hex hmark)
    · rcases hmark with rfl | rfl <;> decide
    · rcases hmark with rfl | rfl <;> exact hds
  | decimal h =>
    cases h with
    | int hds =>
      rcases hds.leading_cases with rfl | ⟨separator, rest, hsep, hrest, rfl⟩ | ⟨c, cs, hc, rfl⟩
      · exact iff_of_true .zero (@Unambiguous.zeros [] '0' nofun (by decide))
      · rw [Numeral.value_leading hsep hrest, integerValue_leading_iff hsep hrest,
          Numeral.unambiguous_leading_iff hsep hrest]
        refine and_congr_right fun hoctal => ?_
        rw [eq_comm]
        exact natOfDigits_octal_eq_iff hoctal
      · rw [Numeral.value_of_head_ne hc]
        exact iff_of_true (.decimal hc hds) (.decimal hc)

/-! ## Signs -/

namespace Program

theorem IntegerValue.exists_digit (h : IntegerValue cs n) :
    ∃ c rest, cs = c :: rest ∧ c.isDigit = true := by
  cases h with
  | zero | octal _ _ | based _ _ _ => exact ⟨'0', _, rfl, rfl⟩
  | decimal _ hds => exact hds.exists_cons

theorem IntegerValue.no_minus : ¬IntegerValue ('-' :: cs) n := by
  intro h
  obtain ⟨c, rest, hcs, hc⟩ := h.exists_digit
  rw [← List.head_eq_of_cons_eq hcs] at hc
  cases hc

theorem SignedValue.unique {n m : Int} (hn : SignedValue cs n) (hm : SignedValue cs m) :
    n = m := by
  cases hn with
  | unsigned hn =>
    cases hm with
    | unsigned hm => rw [hn.unique hm]
    | minus _ => exact absurd hn IntegerValue.no_minus
  | minus hn =>
    cases hm with
    | unsigned hm => exact absurd hm IntegerValue.no_minus
    | minus hm => rw [hn.unique hm]

theorem signedValue_unsigned_iff (hc : c.isDigit = true) :
    SignedValue (c :: cs) n ↔ IntegerValue (c :: cs) n := by
  constructor
  · intro h
    generalize hn : (n : Int) = value at h
    cases h with
    | unsigned h => exact Int.ofNat.inj hn ▸ h
    | minus _ => cases hc
  · exact .unsigned

theorem signedValue_minus_iff : SignedValue ('-' :: cs) (-n) ↔ IntegerValue cs n := by
  constructor
  · intro h
    generalize hn : -(n : Int) = value at h
    cases h with
    | unsigned h => exact absurd h IntegerValue.no_minus
    | minus h => exact Int.ofNat.inj (Int.neg_inj.1 hn) ▸ h
  · exact .minus

end Program

namespace Reader

/-- The token and the literal of an integer, by its sign. -/
theorem ofAtom?_int_cases {literal : String} (h : ofAtom? cs = some (.number literal .int)) :
    Unsigned .int (dropSign cs) ∧
      ((cs.head? ≠ some '-' ∧ literal.toList = dropSign cs) ∨
        cs.head? = some '-' ∧ literal.toList = '-' :: dropSign cs) := by
  obtain ⟨sign, hsign, hcs⟩ := exists_sign_dropSign cs
  unfold ofAtom? at h
  split at h
  · rename_i c rest hdrop
    split at h
    · rename_i hc
      obtain ⟨kind, hkind, hnumber⟩ := Option.map_eq_some_iff.1 h
      obtain ⟨rfl, rfl⟩ := Datum.number.inj hnumber
      rw [hdrop] at hcs ⊢
      refine ⟨Numeral.kind?_eq_some_iff.1 hkind, ?_⟩
      rw [String.toList_ofList, hcs, dropPlus_signed hsign hc]
      cases hsign with
      | minus => exact .inr ⟨rfl, rfl⟩
      | plus => exact .inl ⟨by simp, rfl⟩
      | none =>
        refine .inl ⟨?_, rfl⟩
        rintro ⟨⟩
        cases hc
    · cases h
  · cases h

end Reader

theorem Datum.compile_int (literal : String) (cfg : Config) (s : Session) :
    ((Datum.number literal .int).compile cfg).outcome s = (.ok (.literal .int literal), s) := by
  rw [Datum.compile, Datum.check]
  rfl

/-- The emitted text of an integer has the value of the token exactly when a zero in front changes
nothing. -/
theorem integer_value_iff {s : Reader.State} {literal : String} (hmode : s.mode = .between)
    (htoken : IsToken cs) (hread : s.readToken cs = .ok (s.after cs (.number literal .int)))
    (cfg : Config) (session : Session) :
    ∃ e, ((Datum.number literal .int).compile cfg).outcome session = (.ok e, session) ∧
      ∀ k, SignedValue (e.chars k) (Reader.tokenValue cs) ↔ Unambiguous (Reader.dropSign cs) := by
  have hatom : Reader.ofAtom? cs = some (.number literal .int) := by
    rw [Reader.State.readToken_eq hmode htoken] at hread
    cases hd : Reader.ofAtom? cs with
    | none => rw [hd] at hread; cases hread
    | some d =>
      rw [hd] at hread
      have hitems := congrArg Reader.State.items (Except.ok.inj hread)
      exact congrArg some (List.head_eq_of_cons_eq hitems)
  refine ⟨.literal .int literal, Datum.compile_int literal cfg session, fun k => ?_⟩
  change SignedValue literal.toList _ ↔ _
  obtain ⟨hunsigned, ⟨hhead, hliteral⟩ | ⟨hhead, hliteral⟩⟩ := Reader.ofAtom?_int_cases hatom
  · rw [hliteral, Reader.tokenValue, if_neg hhead, ← integerValue_value_iff hunsigned]
    obtain ⟨c, rest, hcs, hc⟩ := hunsigned.exists_cons
    rw [hcs]
    exact signedValue_unsigned_iff hc
  · rw [hliteral, Reader.tokenValue, if_pos hhead, ← integerValue_value_iff hunsigned]
    exact signedValue_minus_iff

/-- A negative integer with an underscore, and a hexadecimal one that loses its plus sign. -/
theorem integer_value_iff_signed :
    (∃ e, ((Datum.number "-1_000" .int).compile {}).outcome {} = (.ok e, {}) ∧
      SignedValue (e.chars 0) (-1000)) ∧
      ∃ e, ((Datum.number "0x_1F" .int).compile {}).outcome {} = (.ok e, {}) ∧
        SignedValue (e.chars 0) 31 := by
  let s : Reader.State := .initial
  have hminus : IsToken "-1_000".toList := .of_all (by decide) (by decide) (by decide)
  have hplus : IsToken "+0x_1F".toList := .of_all (by decide) (by decide) (by decide)
  constructor
  · obtain ⟨e, he, hvalue⟩ := integer_value_iff (s := s) rfl hminus rfl {} {}
    exact ⟨e, he, (hvalue 0).2 (.decimal (by decide))⟩
  · obtain ⟨e, he, hvalue⟩ := integer_value_iff (s := s) rfl hplus rfl {} {}
    exact ⟨e, he, (hvalue 0).2 (.hex (.inl rfl))⟩

/-- A decimal integer with a zero in front becomes an octal one, or none at all. -/
theorem octal_integer_differs :
    read "010 08" = .ok [.number "010" .int, .number "08" .int] ∧
      Reader.tokenValue "010".toList = 10 ∧ Reader.tokenValue "08".toList = 8 ∧
      (∃ e, ((Datum.number "010" .int).compile {}).outcome {} = (.ok e, {}) ∧
        SignedValue (e.chars 0) 8 ∧ ¬SignedValue (e.chars 0) 10) ∧
      ∃ e, ((Datum.number "08" .int).compile {}).outcome {} = (.ok e, {}) ∧
        ∀ n, ¬SignedValue (e.chars 0) n := by
  have height : SignedValue ['0', '1', '0'] 8 :=
    .unsigned (.octal (.inl rfl) (.cons (by decide) (.last (by decide))))
  refine ⟨rfl, rfl, rfl, ⟨_, Datum.compile_int "010" {} {}, ?_, ?_⟩,
    _, Datum.compile_int "08" {} {}, ?_⟩
  · exact height
  · intro hten
    exact absurd (height.unique hten) (by decide)
  · intro n h
    change SignedValue ['0', '8'] n at h
    cases h with
    | unsigned h =>
      obtain ⟨hdigits, -⟩ := (integerValue_leading_iff (.inl rfl) (.last rfl)).1 h
      exact Bool.false_ne_true hdigits.getLast

end SmallLisp
