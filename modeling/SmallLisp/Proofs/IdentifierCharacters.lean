import SmallLisp.Proofs.Naming
import SmallLisp.Proofs.Printing.Literal

/-!
# The characters of translated names

What may not stand in an identifier is replaced before the words of a name are capitalized, and some
letters become several characters then, with an accent of its own after the capital letter. Such an
accent is the only character that gets into an identifier and may not stand there, and it does so
exactly if a capitalized word starts with one of these letters (`identifier_characters_iff`).
-/

namespace SmallLisp

open Text (CodeRange isLetter upperCase caseRuns caseExpansions letterRanges)
open Program (forall_mem_of_all)

deriving instance DecidableEq for CodeRange

namespace Identifier

/-- The characters of identifiers: letters, digits and the underscore. -/
def IsAllowed (c : Char) : Prop := isLetter c ∨ c.isDigit ∨ c = '_'

instance : DecidablePred IsAllowed := fun _ => inferInstanceAs (Decidable (_ ∨ _))

theorem allowed_eq (c : Char) : allowed c = if IsAllowed c then c else '_' := by
  unfold allowed
  congr 1
  simp [IsAllowed, or_assoc]

theorem isAllowed_allowed (c : Char) : IsAllowed (allowed c) := by
  rw [allowed_eq]
  split
  · assumption
  · exact .inr (.inr rfl)

/-- The letters that have an accent of its own in upper case. -/
def accentedLetters : List Char :=
  ['\u01f0', '\u0390', '\u03b0', '\u1e96', '\u1e97', '\u1e98', '\u1e99', '\u1f50', '\u1f52',
    '\u1f54', '\u1f56', '\u1fb6', '\u1fb7', '\u1fc6', '\u1fc7', '\u1fd2', '\u1fd3', '\u1fd6',
    '\u1fd7', '\u1fe2', '\u1fe3', '\u1fe4', '\u1fe6', '\u1fe7', '\u1ff6', '\u1ff7']

/-- Their accents. -/
def accents : List Char :=
  ['\u0300', '\u0301', '\u0308', '\u030a', '\u030c', '\u0313', '\u0331', '\u0342']

set_option maxRecDepth 4000 in
theorem not_isAllowed_of_mem_accents : ∀ d ∈ accents, ¬IsAllowed d :=
  forall_mem_of_all (by decide)

/-! ## Upper-case forms -/

/-- The ranges of letters that upper-case forms are in, which are a few of all ranges. -/
def capitalRanges : List CodeRange :=
  [⟨0x41, 0x5a⟩, ⟨0xc0, 0xd6⟩, ⟨0xd8, 0xf6⟩, ⟨0xf8, 0x2c1⟩, ⟨0x363, 0x374⟩, ⟨0x376, 0x377⟩,
    ⟨0x37f, 0x37f⟩, ⟨0x386, 0x386⟩, ⟨0x388, 0x38a⟩, ⟨0x38c, 0x38c⟩, ⟨0x38e, 0x3a1⟩, ⟨0x3a3, 0x3f5⟩,
    ⟨0x3f7, 0x481⟩, ⟨0x48a, 0x52f⟩, ⟨0x531, 0x556⟩, ⟨0x10a0, 0x10c5⟩, ⟨0x10c7, 0x10c7⟩,
    ⟨0x10cd, 0x10cd⟩, ⟨0x13a0, 0x13f5⟩, ⟨0x1c80, 0x1c8a⟩, ⟨0x1c90, 0x1cba⟩, ⟨0x1cbd, 0x1cbf⟩,
    ⟨0x1e00, 0x1f15⟩, ⟨0x1f18, 0x1f1d⟩, ⟨0x1f20, 0x1f45⟩, ⟨0x1f48, 0x1f4d⟩, ⟨0x1f59, 0x1f59⟩,
    ⟨0x1f5b, 0x1f5b⟩, ⟨0x1f5d, 0x1f5d⟩, ⟨0x1f5f, 0x1f7d⟩, ⟨0x1fb6, 0x1fbc⟩, ⟨0x1fc6, 0x1fcc⟩,
    ⟨0x1fd6, 0x1fdb⟩, ⟨0x1fe0, 0x1fec⟩, ⟨0x1ff6, 0x1ffc⟩, ⟨0x212f, 0x2139⟩, ⟨0x2160, 0x2188⟩,
    ⟨0x24b6, 0x24e9⟩, ⟨0x2c00, 0x2ce4⟩, ⟨0x2ceb, 0x2cee⟩, ⟨0x2cf2, 0x2cf3⟩, ⟨0xa640, 0xa66e⟩,
    ⟨0xa67f, 0xa6ef⟩, ⟨0xa722, 0xa788⟩, ⟨0xa78b, 0xa7dc⟩, ⟨0xa7f1, 0xa805⟩, ⟨0xff21, 0xff3a⟩,
    ⟨0x10400, 0x1049d⟩, ⟨0x104b0, 0x104d3⟩, ⟨0x10570, 0x1057a⟩, ⟨0x1057c, 0x1058a⟩,
    ⟨0x1058c, 0x10592⟩, ⟨0x10594, 0x10595⟩, ⟨0x10c80, 0x10cb2⟩, ⟨0x10d4a, 0x10d65⟩,
    ⟨0x118a0, 0x118df⟩, ⟨0x16e40, 0x16e7f⟩, ⟨0x16ea0, 0x16eb8⟩, ⟨0x1e900, 0x1e943⟩]

def isCapital (n : Nat) : Bool := capitalRanges.any (·.contains n)

set_option maxRecDepth 4000 in
theorem isLetter_of_isCapital {n : Nat} (h : isCapital n) : isLetter (Char.ofNat n) := by
  have hascii : ∀ n < 0x5b, 0x41 ≤ n → isLetter (Char.ofNat n) := by decide
  have hletters : capitalRanges.Sublist (⟨0x41, 0x5a⟩ :: letterRanges) := by decide
  have hranges : ∀ r ∈ capitalRanges, 0x41 ≤ r.first ∧ r.last < 0x5b ∨
      0x80 ≤ r.first ∧ (r.last < 0xd800 ∨ 0xdfff < r.first ∧ r.last < 0x110000) := by
    decide
  obtain ⟨r, hr, hn⟩ := List.any_eq_true.1 h
  obtain ⟨hfirst, hlast⟩ := CodeRange.contains_iff.1 hn
  obtain hrange | ⟨hrange, hvalid⟩ := hranges r hr
  · exact hascii n (by omega) (by omega)
  · have hletter : r ∈ letterRanges := by
      refine (List.mem_cons.1 (hletters.subset hr)).resolve_left ?_
      rintro rfl
      exact absurd hrange (by decide)
    have hn : (Char.ofNat n).toNat = n := by
      have hvalid : n.isValidChar := by
        unfold Nat.isValidChar
        omega
      rw [Char.ofNat, dif_pos hvalid]
      rfl
    rw [isLetter, hn, if_neg (by omega), CodeRange.covers_iff]
    exact ⟨r, hletter, by omega, by omega⟩

set_option maxRecDepth 4000 in
/-- Runs of letters lead to letters. Nearly all of them lead into one range. -/
theorem isLetter_upper? {r : Text.CaseRun} {n m : Nat} (hr : r ∈ caseRuns)
    (h : r.upper? n = some m) : isLetter (Char.ofNat m) := by
  have hall : caseRuns.all fun r =>
      capitalRanges.any (fun l =>
        l.contains r.upper && l.contains (r.upper + (r.last - r.first))) ||
      (List.range (r.last - r.first + 1)).all fun i =>
        i % r.step != 0 || isCapital (r.upper + i) := by
    decide
  unfold Text.CaseRun.upper? at h
  split at h
  · rename_i hn
    cases h
    refine isLetter_of_isCapital ?_
    obtain hrange | hcapitals := Bool.or_eq_true_iff.1 (List.all_eq_true.1 hall r hr)
    · obtain ⟨l, hl, hrange⟩ := List.any_eq_true.1 hrange
      simp only [Bool.and_eq_true, CodeRange.contains_iff] at hrange
      exact List.any_eq_true.2 ⟨l, hl, CodeRange.contains_iff.2 ⟨by omega, by omega⟩⟩
    · have hcapital := List.all_eq_true.1 hcapitals (n - r.first) (List.mem_range.2 (by omega))
      simpa [hn.2.2] using hcapital
  · cases h

theorem isAllowed_upperCase {c d : Char} (hc : IsAllowed c)
    (hlookup : caseExpansions.lookup c.toNat = none) (h : d ∈ upperCase c) : IsAllowed d := by
  unfold upperCase at h
  split at h
  · rename_i hascii
    have hall : ∀ n < 0x80, IsAllowed (Char.ofNat n) → IsAllowed (Char.ofNat n).toUpper := by
      decide
    obtain rfl := List.mem_singleton.1 h
    have hupper := hall c.toNat hascii
    rw [Char.ofNat_toNat] at hupper
    exact hupper hc
  · rw [hlookup] at h
    obtain rfl := List.mem_singleton.1 h
    cases hrun : caseRuns.findSome? (·.upper? c.toNat) with
    | none => rwa [Option.getD_none, Char.ofNat_toNat]
    | some n =>
      obtain ⟨r, hr, hn⟩ := List.exists_of_findSome?_eq_some hrun
      exact .inl (isLetter_upper? hr hn)

/-- In upper case there are accents beside what is allowed, and only for the letters of the list. -/
theorem upperCase_cases {c : Char} (hc : IsAllowed c) :
    (∀ d ∈ upperCase c, d ∈ accents ∨ IsAllowed d) ∧
      (c ∈ accentedLetters ↔ ∃ d ∈ upperCase c, d ∈ accents) := by
  have htable : ∀ e ∈ caseExpansions, 0x80 ≤ e.1 ∧
      (∀ n ∈ e.2, Char.ofNat n ∈ accents ∨ isCapital n) ∧
        (Char.ofNat e.1 ∈ accentedLetters ↔ ∃ n ∈ e.2, Char.ofNat n ∈ accents) := by
    decide
  have hlisted : ∀ c ∈ accentedLetters, caseExpansions.lookup c.toNat ≠ none :=
    forall_mem_of_all (by decide)
  cases hlookup : caseExpansions.lookup c.toNat with
  | none =>
    refine ⟨fun d hd => .inr (isAllowed_upperCase hc hlookup hd), ?_⟩
    refine iff_of_false (fun hmem => hlisted c hmem hlookup) ?_
    rintro ⟨d, hd, haccent⟩
    exact not_isAllowed_of_mem_accents d haccent (isAllowed_upperCase hc hlookup hd)
  | some ns =>
    obtain ⟨before, after, heq, -⟩ := List.lookup_eq_some_iff.1 hlookup
    obtain ⟨hascii, hcases, haccented⟩ := htable (c.toNat, ns) (heq ▸ by simp)
    rw [Char.ofNat_toNat] at haccented
    rw [upperCase, if_neg (by omega), hlookup]
    refine ⟨List.forall_mem_map.2 fun n hn => ?_, haccented.trans (by simp)⟩
    exact (hcases n hn).imp_right fun h => .inl (isLetter_of_isCapital h)

theorem forall_upperCase_iff {c : Char} (hc : IsAllowed c) :
    (∀ d ∈ upperCase c, IsAllowed d) ↔ c ∉ accentedLetters := by
  obtain ⟨hcases, haccented⟩ := upperCase_cases hc
  rw [haccented]
  constructor
  · rintro h ⟨d, hd, haccent⟩
    exact not_isAllowed_of_mem_accents d haccent (h d hd)
  · intro h d hd
    exact (hcases d hd).resolve_left fun haccent => h ⟨d, hd, haccent⟩

/-! ## Words -/

/-- The word starts with a letter that has an accent of its own in upper case. -/
def StartsAccented (w : List Char) : Prop := ∃ c ∈ w.head?, c ∈ accentedLetters

set_option maxRecDepth 4000 in
/-- Replacing what is not allowed leaves these letters as they are and makes no other. -/
theorem allowed_mem_accentedLetters {c : Char} :
    allowed c ∈ accentedLetters ↔ c ∈ accentedLetters := by
  have hletters : ∀ c ∈ accentedLetters, IsAllowed c := forall_mem_of_all (by decide)
  rw [allowed_eq]
  split
  · rfl
  · rename_i hc
    exact iff_of_false (by decide) fun hmem => hc (hletters c hmem)

theorem forall_capitalize_iff {w : List Char} :
    (∀ d ∈ capitalize w, IsAllowed d) ↔ ¬StartsAccented w := by
  cases w with
  | nil => simp [capitalize, StartsAccented]
  | cons c w =>
    have hrest : ∀ d ∈ w.map allowed, IsAllowed d := by
      simp [isAllowed_allowed]
    have hfirst : StartsAccented (c :: w) ↔ c ∈ accentedLetters := by
      simp [StartsAccented]
    rw [capitalize, List.forall_mem_append, forall_upperCase_iff (isAllowed_allowed c),
      allowed_mem_accentedLetters, and_iff_left hrest, hfirst]

/-- The words that are capitalized. -/
def capitalized (exported : Bool) (ws : List (List Char)) : List (List Char) :=
  if exported then ws else ws.tail

theorem forall_joinWords_iff {exported : Bool} {ws : List (List Char)} :
    (∀ d ∈ joinWords exported ws, IsAllowed d) ↔
      ∀ w ∈ capitalized exported ws, ¬StartsAccented w := by
  have hrest (ws : List (List Char)) : (∀ d ∈ ws.flatMap capitalize, IsAllowed d) ↔
      ∀ w ∈ ws, ¬StartsAccented w := by
    simp only [List.mem_flatMap, ← forall_capitalize_iff]
    exact ⟨fun h w hw d hd => h d ⟨w, hw, hd⟩, fun h d ⟨w, hw, hd⟩ => h w hw d hd⟩
  cases ws with
  | nil => cases exported <;> simp [joinWords, capitalized]
  | cons w ws =>
    rw [joinWords, List.forall_mem_append, hrest]
    cases exported with
    | true => simp [capitalized, forall_capitalize_iff]
    | false => simp [capitalized, isAllowed_allowed]

/-- A capitalized word of the name starts with a letter that has an accent of its own in upper
case. -/
def Accented (exported : Bool) (name : List Char) : Prop :=
  ∃ w ∈ capitalized exported (words name), StartsAccented w

theorem forall_chars_iff {exported : Bool} {name : List Char} :
    (∀ d ∈ chars exported name, IsAllowed d) ↔ ¬Accented exported name := by
  rw [Accented, not_exists]
  simp only [not_and, ← forall_joinWords_iff]
  constructor
  · intro h d hd
    by_cases hmark : d = '_'
    · exact .inr (.inr hmark)
    · exact h d ((mem_chars_iff hmark).2 hd)
  · intro h d hd
    by_cases hmark : d = '_'
    · exact .inr (.inr hmark)
    · exact h d ((mem_chars_iff hmark).1 hd)

theorem mem_accents_or_isAllowed {d : Char} {exported : Bool} {name : List Char}
    (h : d ∈ chars exported name) : d ∈ accents ∨ IsAllowed d := by
  obtain hmark | ⟨c, rfl | h⟩ := mem_chars h
  · exact .inr (.inr (.inr hmark))
  · exact .inr (isAllowed_allowed c)
  · exact (upperCase_cases (isAllowed_allowed c)).1 d h

end Identifier

/-! ## References -/

open Identifier (Accented IsAllowed accents)

/-- The names that a chain of selections consists of. -/
def Program.Expr.segments : Expr → List String
  | .ident x => [x]
  | .selector base field => base.segments ++ [field]
  | _ => []

theorem Program.Expr.segments_select (base : Expr) (members : List String) :
    (base.select members).segments = base.segments ++ members := by
  induction members generalizing base with
  | nil => exact (List.append_nil _).symm
  | cons member members ih =>
    exact (ih (.selector base member)).trans (List.append_assoc ..)

/-- The parts of a name that are translated on their own, the members of a package as exported
names. -/
def Identifier.parts (name : String) : List (Bool × List Char) :=
  if Qualified name then
    match Text.split '/' name.toList with
    | [] => []
    | package :: members => (false, package) :: members.map fun member => (true, member)
  else
    [(false, name.toList)]

theorem Program.Expr.segments_ofName (name : String) :
    (Expr.ofName name).segments =
      (Identifier.parts name).map fun part => String.ofList (Identifier.chars part.1 part.2) := by
  by_cases hq : Identifier.Qualified name
  · obtain ⟨package, member, members, hsplit⟩ := split_of_qualified hq
    rw [ofName_of_whole hsplit hq.2, segments_select, Identifier.parts, if_pos hq, hsplit]
    simp [segments]
  · rw [ofName_of_not_qualified hq, Identifier.parts, if_neg hq]
    rfl

/-- All characters of a translated name may stand in an identifier exactly if no word that is
capitalized starts with a letter that has an accent of its own in upper case. The others are such
accents. -/
theorem identifier_characters_iff (name : String) :
    ((∀ d ∈ (Identifier.ofName name).toList, IsAllowed d) ↔ ¬Accented false name.toList) ∧
    ((∀ segment ∈ (Program.Expr.ofName name).segments, ∀ d ∈ segment.toList, IsAllowed d) ↔
      ∀ part ∈ Identifier.parts name, ¬Accented part.1 part.2) ∧
    (∀ d ∈ (Identifier.ofName name).toList, d ∈ accents ∨ IsAllowed d) ∧
    ∀ segment ∈ (Program.Expr.ofName name).segments, ∀ d ∈ segment.toList,
      d ∈ accents ∨ IsAllowed d := by
  rw [Identifier.ofName, String.toList_ofList, Program.Expr.segments_ofName]
  refine ⟨Identifier.forall_chars_iff, ?_, fun d => Identifier.mem_accents_or_isAllowed, ?_⟩
  · simp only [List.forall_mem_map, String.toList_ofList, Identifier.forall_chars_iff]
  · simp only [List.forall_mem_map, String.toList_ofList]
    exact fun part _ d => Identifier.mem_accents_or_isAllowed

set_option maxRecDepth 4000 in
/-- A caron, which may not stand in an identifier, after a capital letter. -/
theorem identifier_characters_caron :
    Identifier.ofName "a-\u01f0" = "aJ\u030c" ∧
      (Program.Expr.ofName "x/\u01f0").segments = ["x", "J\u030c"] ∧
      (¬∀ d ∈ (Identifier.ofName "a-\u01f0").toList, IsAllowed d) ∧
      ¬∀ segment ∈ (Program.Expr.ofName "x/\u01f0").segments, ∀ d ∈ segment.toList,
        IsAllowed d := by
  have hcaron : ¬IsAllowed '\u030c' := by decide
  have hname : Identifier.ofName "a-\u01f0" = "aJ\u030c" := by decide
  have hsegments : (Program.Expr.ofName "x/\u01f0").segments = ["x", "J\u030c"] := by
    decide
  rw [hname, hsegments]
  exact ⟨rfl, rfl, fun h => hcaron (h _ (by decide)),
    fun h => hcaron (h "J\u030c" (by decide) _ (by decide))⟩

end SmallLisp
