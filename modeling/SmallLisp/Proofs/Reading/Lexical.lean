import SmallLisp.Proofs.Reading.Grammar
import SmallLisp.Proofs.Reading.Run

/-!
# Lexical form

`Datum.Lexical` says which names and literals may stand in data: names of symbols are no numbers,
literals of numbers are words of the grammar, and literals of characters are quoted with the five
escapes of Go. These are the atoms that the reader can read back as they stand
(`Atom.readable_iff_lexical`), so all data it returns are of this form (`lexical_of_read`).
-/

namespace SmallLisp

/-- Characters that end a symbol or a number. -/
def Delimiter (c : Char) : Prop :=
  Text.isBlank c = true ∨ c ∈ [',', ';', '(', ')', '[', ']', '"']

/-- The names of symbols. One that starts with a digit after at most one sign would be a number. -/
structure IsSymbol (cs : List Char) : Prop where
  ne_nil : cs ≠ []
  undelimited : ∀ c ∈ cs, ¬Delimiter c
  unescaped : cs.head? ≠ some '\\'
  no_digit : ∀ sign c rest, Numeral.IsSign sign → cs = sign ++ c :: rest → c.isDigit = false

/-- The literals of numbers that are no characters. They never have a plus sign. -/
def IsNumber (kind : NumberKind) (cs : List Char) : Prop :=
  ∃ word, Numeral.Unsigned kind word ∧ (cs = word ∨ cs = '-' :: word)

/-- The literal of a character. -/
inductive IsRune : Char → List Char → Prop
  | plain {c : Char} : c ∉ ['\n', '\t', '\r', '\x27', '\\'] → IsRune c ['\x27', c, '\x27']
  | escaped {c letter : Char} :
    (c, letter) ∈ [('\n', 'n'), ('\t', 't'), ('\r', 'r'), ('\x27', '\x27'), ('\\', '\\')] →
      IsRune c ['\x27', '\\', letter, '\x27']

/-- The names and literals that a datum may have, its parts apart. -/
def Datum.Lexical : Datum → Prop
  | .symbol name => IsSymbol name.toList
  | .number literal .char => ∃ c, IsRune c literal.toList
  | .number literal kind => IsNumber kind literal.toList
  | .call .. | .vector _ | .string _ => True

variable {c : Char} {cs word : List Char} {kind : NumberKind} {ds : List Datum}

/-! ## Characters -/

theorem Reader.isDelimiter_iff : Reader.isDelimiter c = true ↔ Delimiter c := by
  simp only [Reader.isDelimiter, Delimiter, Bool.or_eq_true, beq_iff_eq, List.mem_cons,
    List.not_mem_nil, or_false, or_assoc]

theorem Reader.isDelimiter_eq_false_iff : Reader.isDelimiter c = false ↔ ¬Delimiter c := by
  rw [← Reader.isDelimiter_iff, Bool.not_eq_true]

theorem toNat_of_isHexDigit (h : Numeral.isHexDigit c = true) :
    48 ≤ c.toNat ∧ c.toNat ≤ 57 ∨ 97 ≤ c.toNat ∧ c.toNat ≤ 102 ∨ 65 ≤ c.toNat ∧ c.toNat ≤ 70 := by
  simpa [Numeral.isHexDigit, Char.isDigit, Char.le_def, UInt32.le_iff_toNat_le, or_assoc] using h

theorem not_delimiter_of_isHexDigit (h : Numeral.isHexDigit c = true) : ¬Delimiter c := by
  rintro (hblank | hmem)
  · obtain ⟨r, hr, hfirst, hlast⟩ := Text.CodeRange.covers_iff.1 hblank
    have hc := toNat_of_isHexDigit h
    simp only [Text.blankRanges, List.mem_cons, List.not_mem_nil, or_false] at hr
    rcases hr with rfl | rfl | rfl | rfl | rfl | rfl | rfl | rfl | rfl | rfl <;>
      simp only at hfirst hlast <;> omega
  · simp only [List.mem_cons, List.not_mem_nil, or_false] at hmem
    rcases hmem with rfl | rfl | rfl | rfl | rfl | rfl | rfl <;> cases h

theorem Numeral.Unsigned.undelimited (h : Numeral.Unsigned kind word) (hc : c ∈ word) :
    ¬Delimiter c := by
  rcases h.mem hc with hc | hc
  · exact not_delimiter_of_isHexDigit hc
  · rw [← Reader.isDelimiter_eq_false_iff]
    simp only [List.mem_cons, List.not_mem_nil, or_false] at hc
    rcases hc with rfl | rfl | rfl | rfl | rfl | rfl | rfl <;> rfl

/-! ## Literals of characters -/

theorem Rune.escape_eq_none (h : c ∉ ['\n', '\t', '\r', '\x27', '\\']) : Rune.escape c = none := by
  unfold Rune.escape
  split <;> simp_all

theorem isRune_iff {literal : String} : IsRune c literal.toList ↔ literal = Rune.literal c := by
  have hliteral : (Rune.literal c).toList = '\x27' :: (Rune.quoting.encodeChar c ++ ['\x27']) := by
    rw [Rune.literal, String.toList_ofList]
    simp [Text.Quoting.write, Rune.quoting]
  rw [← String.toList_inj, hliteral]
  generalize literal.toList = cs
  constructor
  · rintro (hplain | hescaped)
    · simp [Text.Quoting.encodeChar, Rune.quoting, Rune.escape_eq_none hplain]
    · simp only [List.mem_cons, Prod.mk.injEq, List.not_mem_nil, or_false] at hescaped
      rcases hescaped with ⟨rfl, rfl⟩ | ⟨rfl, rfl⟩ | ⟨rfl, rfl⟩ | ⟨rfl, rfl⟩ | ⟨rfl, rfl⟩ <;> rfl
  · rintro rfl
    by_cases hplain : c ∈ ['\n', '\t', '\r', '\x27', '\\']
    · simp only [List.mem_cons, List.not_mem_nil, or_false] at hplain
      rcases hplain with rfl | rfl | rfl | rfl | rfl <;> exact .escaped (by decide)
    · have hencode : Rune.quoting.encodeChar c = [c] := by
        simp [Text.Quoting.encodeChar, Rune.quoting, Rune.escape_eq_none hplain]
      rw [hencode]
      exact .plain hplain

theorem IsRune.no_lineBreak (h : IsRune c cs) : '\n' ∉ cs := by
  cases h with
  | plain hplain =>
    have hc : '\n' ≠ c := fun hc => hplain (hc ▸ by decide)
    simp [hc]
  | escaped hescaped =>
    simp only [List.mem_cons, Prod.mk.injEq, List.not_mem_nil, or_false] at hescaped
    rcases hescaped with ⟨-, rfl⟩ | ⟨-, rfl⟩ | ⟨-, rfl⟩ | ⟨-, rfl⟩ | ⟨-, rfl⟩ <;> decide

/-! ## Names and numbers -/

theorem Reader.exists_sign_dropSign (cs : List Char) :
    ∃ sign, Numeral.IsSign sign ∧ cs = sign ++ Reader.dropSign cs := by
  unfold Reader.dropSign
  split
  · exact ⟨['-'], .minus, rfl⟩
  · exact ⟨['+'], .plus, rfl⟩
  · exact ⟨[], .none, rfl⟩

theorem Reader.dropSign_append {sign rest : List Char} (hsign : Numeral.IsSign sign)
    (hc : c.isDigit = true) : Reader.dropSign (sign ++ c :: rest) = c :: rest := by
  cases hsign with
  | plus | minus => rfl
  | none => refine Reader.dropSign_eq_self ?_ ?_ <;> rintro rfl <;> cases hc

theorem Reader.ofAtom?_signed {sign rest : List Char} (hsign : Numeral.IsSign sign)
    (hc : c.isDigit = true) :
    Reader.ofAtom? (sign ++ c :: rest) = (Numeral.kind? (c :: rest)).map
      (.number (String.ofList (Reader.dropPlus (sign ++ c :: rest)))) := by
  simp only [Reader.ofAtom?, Reader.dropSign_append hsign hc, if_pos hc]

/-- A text that is no number is a symbol. -/
theorem Reader.ofAtom?_symbol
    (h : ∀ sign c rest, Numeral.IsSign sign → cs = sign ++ c :: rest → c.isDigit = false) :
    Reader.ofAtom? cs = some (.symbol (String.ofList cs)) := by
  obtain ⟨sign, hsign, hcs⟩ := Reader.exists_sign_dropSign cs
  unfold Reader.ofAtom?
  split
  · rename_i c rest hdrop
    rw [hdrop] at hcs
    rw [if_neg (by simp [h sign c rest hsign hcs])]
  · rfl

theorem isAtom_symbol_iff {name : String} :
    Reader.IsAtom name.toList (.symbol name) ↔ IsSymbol name.toList := by
  constructor
  · rintro ⟨hne, hdelim, hesc, hdatum⟩
    refine ⟨hne, fun c hc => Reader.isDelimiter_eq_false_iff.1 (hdelim c hc), hesc, ?_⟩
    intro sign c rest hsign heq
    by_contra hc
    rw [heq, Reader.ofAtom?_signed hsign (by simpa using hc)] at hdatum
    obtain ⟨kind, -, hkind⟩ := Option.map_eq_some_iff.1 hdatum
    cases hkind
  · rintro ⟨hne, hdelim, hesc, hdigit⟩
    refine ⟨hne, fun c hc => Reader.isDelimiter_eq_false_iff.2 (hdelim c hc), hesc, ?_⟩
    rw [Reader.ofAtom?_symbol hdigit, String.ofList_toList]
    rfl

theorem IsNumber.head_ne {kind : NumberKind} (h : IsNumber kind cs) (hdigit : c.isDigit = false)
    (hminus : c ≠ '-') : cs.head? ≠ some c := by
  obtain ⟨word, hword, rfl | rfl⟩ := h
  · obtain ⟨d, rest, rfl, hd⟩ := hword.exists_cons
    rintro ⟨⟩
    rw [hd] at hdigit
    cases hdigit
  · rintro ⟨⟩
    exact hminus rfl

theorem IsNumber.undelimited (h : IsNumber kind cs) (hc : c ∈ cs) : ¬Delimiter c := by
  obtain ⟨word, hword, rfl | rfl⟩ := h
  · exact hword.undelimited hc
  · rcases List.mem_cons.1 hc with rfl | hc
    · exact Reader.isDelimiter_eq_false_iff.1 rfl
    · exact hword.undelimited hc

theorem isAtom_number_iff {literal : String} :
    Reader.IsAtom literal.toList (.number literal kind) ↔ IsNumber kind literal.toList := by
  obtain ⟨cs, rfl⟩ : ∃ cs, literal = String.ofList cs := ⟨_, String.ofList_toList.symm⟩
  rw [String.toList_ofList]
  constructor
  · rintro ⟨-, -, -, hdatum⟩
    obtain ⟨sign, hsign, hcs⟩ := Reader.exists_sign_dropSign cs
    unfold Reader.ofAtom? at hdatum
    split at hdatum
    · rename_i c rest hdrop
      split at hdatum
      · obtain ⟨_, hkind, hnumber⟩ := Option.map_eq_some_iff.1 hdatum
        simp only [Atom.datum, Datum.number.injEq, String.ofList_inj] at hnumber
        obtain ⟨hplus, rfl⟩ := hnumber
        refine ⟨c :: rest, Numeral.kind?_eq_some_iff.1 hkind, ?_⟩
        rw [hdrop] at hcs
        cases hsign with
        | none => exact .inl hcs
        | minus => exact .inr hcs
        -- The literal would lack the plus sign.
        | plus =>
          rw [hcs, List.singleton_append, Reader.dropPlus] at hplus
          exact absurd hplus.symm (List.cons_ne_self '+' (c :: rest))
      · cases hdatum
    · cases hdatum
  · intro h
    obtain ⟨word, hword, hcs⟩ := id h
    obtain ⟨c, rest, rfl, hc⟩ := hword.exists_cons
    have hkind := Numeral.kind?_eq_some_iff.2 hword
    refine ⟨?_, fun c hc => Reader.isDelimiter_eq_false_iff.2 (h.undelimited hc),
      h.head_ne rfl (by decide), ?_⟩
    · rcases hcs with rfl | rfl <;> exact List.cons_ne_nil _ _
    · rcases hcs with rfl | rfl
      · rw [Reader.ofAtom?_number hc, hkind]
        rfl
      · have hatom : Reader.ofAtom? (['-'] ++ c :: rest) = _ := Reader.ofAtom?_signed .minus hc
        rwa [hkind, List.singleton_append, Reader.dropPlus_eq_self (by decide)] at hatom

/-! ## Data -/

/-- The atoms that are read back as they stand are those of the lexical form. -/
theorem Atom.readable_iff_lexical {a : Atom} : a.Readable ↔ a.datum.Lexical := by
  cases a with
  | symbol name => exact isAtom_symbol_iff
  | string value => exact Iff.rfl
  | number literal kind =>
    cases kind with
    | char => exact exists_congr fun c => isRune_iff.symm
    | int | float | imag => exact isAtom_number_iff

theorem Datum.forall_lexical_iff :
    (∀ d ∈ nodesAll ds, d.Lexical) ↔ ∀ a, .atom a ∈ tokensAll ds → a.Readable := by
  constructor
  · intro h a ha
    exact Atom.readable_iff_lexical.2 (h a.datum (atom_mem_tokensAll.1 ha))
  · intro h d hd
    have hatom (a : Atom) (ha : a.datum = d) : d.Lexical :=
      ha ▸ Atom.readable_iff_lexical.1 (h a (atom_mem_tokensAll.2 (ha ▸ hd)))
    cases d with
    | call callee args => trivial
    | vector elements => trivial
    | number literal kind => exact hatom (.number literal kind) rfl
    | string value => trivial
    | symbol name => exact hatom (.symbol name) rfl

/-- A literal of this form starts with no plus sign and fills no more than one line. -/
theorem Datum.Lexical.literal {literal : String} (h : (Datum.number literal kind).Lexical) :
    literal.toList.head? ≠ some '+' ∧ '\n' ∉ literal.toList := by
  have hnumber {kind : NumberKind} (h : IsNumber kind literal.toList) :
      literal.toList.head? ≠ some '+' ∧ '\n' ∉ literal.toList :=
    ⟨h.head_ne rfl (by decide), fun hmem => h.undelimited hmem (.inl rfl)⟩
  cases kind with
  | int | float | imag => exact hnumber h
  | char =>
    obtain ⟨c, hc⟩ := h
    refine ⟨?_, hc.no_lineBreak⟩
    generalize literal.toList = cs at hc
    cases hc <;> simp

/-- All data that the reader returns are of the lexical form, at every depth. -/
theorem lexical_of_read {source : String} (h : read source = .ok ds) :
    (∀ d ∈ Datum.nodesAll ds, d.Lexical) ∧
      ∀ literal kind, .number literal kind ∈ Datum.nodesAll ds →
        literal.toList.head? ≠ some '+' ∧ '\n' ∉ literal.toList := by
  have hlexical := Datum.forall_lexical_iff.2 (readable_of_read h)
  exact ⟨hlexical, fun literal kind hmem => (hlexical _ hmem).literal⟩

/-- Signs and backslashes inside of atoms: two symbols, a character and a number. -/
theorem lexical_of_read_signs :
    ∃ ds, read "(+-7 -\\x \\( +0x_1F)" = .ok ds ∧
      ds = [.call (.symbol "+-7") [.symbol "-\\x", .number "'('" .char, .number "0x_1F" .int]] ∧
        IsSymbol "+-7".toList ∧ IsSymbol "-\\x".toList ∧ (∃ c, IsRune c "'('".toList) ∧
          IsNumber .int "0x_1F".toList ∧ '\n' ∉ "'('".toList := by
  let ds : List Datum :=
    [.call (.symbol "+-7") [.symbol "-\\x", .number "'('" .char, .number "0x_1F" .int]]
  have hread : read "(+-7 -\\x \\( +0x_1F)" = .ok ds := rfl
  have hnodes (d : Datum) (hd : d ∈ Datum.nodesAll ds) : d.Lexical := (lexical_of_read hread).1 d hd
  refine ⟨ds, hread, rfl, hnodes (.symbol "+-7") ?_, hnodes (.symbol "-\\x") ?_,
    hnodes (.number "'('" .char) ?_, hnodes (.number "0x_1F" .int) ?_,
    ((lexical_of_read hread).2 "'('" .char ?_).2⟩ <;>
  simp [ds, Datum.nodesAll, Datum.nodes]

end SmallLisp
