import SmallLisp.Proofs.Reading.Ending
import SmallLisp.Proofs.Reading.Lexical
import SmallLisp.Proofs.Reading.Spelling

/-!
# Tokens

A token is a longest text without delimiters that starts where no other token is under way. What
the reader makes of it depends on its own text alone (`State.readToken_eq`): one that starts with a
digit after at most one sign is the number that the grammar says or an error, and any other is a
symbol (`read_token_iff_number`).
-/

namespace SmallLisp

open Outcome Numeral

/-- The characters of a token; one that starts with a backslash is a character of the language. -/
structure IsToken (cs : List Char) : Prop where
  ne_nil : cs ≠ []
  undelimited : ∀ c ∈ cs, ¬Delimiter c
  unescaped : cs.head? ≠ some '\\'

variable {cs word rest u sign : List Char} {c : Char} {d : Datum} {e : ReadError}

theorem IsToken.of_all (hne : cs ≠ []) (hdelim : cs.all (!Reader.isDelimiter ·) = true)
    (hesc : cs.head? ≠ some '\\') : IsToken cs :=
  ⟨hne, by simpa [Reader.isDelimiter_eq_false_iff] using hdelim, hesc⟩

namespace Reader

theorem stops_of_delimiter (h : ∀ c ∈ rest.head?, Delimiter c) : Stops rest := by
  cases rest with
  | nil => trivial
  | cons c rest => exact isDelimiter_iff.2 (h c rfl)

theorem dropPlus_signed (hsign : IsSign sign) (hc : c.isDigit = true) :
    dropPlus (sign ++ c :: rest) = if sign = ['+'] then c :: rest else sign ++ c :: rest := by
  cases hsign with
  | plus => rfl
  | minus => rfl
  | none => exact dropPlus_eq_self (by rintro rfl; cases hc)

namespace State

variable {s t : State}

/-- What the reader makes of a token that ends here. -/
def readToken (s : State) (cs : List Char) : Except ReadError State :=
  run s cs >>= endToken

/-- The state after a token that has been read as a datum. -/
def after (s : State) (cs : List Char) (d : Datum) : State :=
  { s.push d with position := cs.foldl Position.advance s.position }

theorem run_atom {start : Position} {chars : List Char} (hmode : s.mode = .atom start chars)
    (hword : ∀ c ∈ word, isDelimiter c = false) :
    run s word = .ok { s with
      position := word.foldl Position.advance s.position
      mode := .atom start (word.reverse ++ chars) } := by
  induction word generalizing s chars with
  | nil =>
    obtain ⟨position, outer, items, mode⟩ := s
    cases hmode
    rfl
  | cons c word ih =>
    obtain ⟨hc, hword⟩ := List.forall_mem_cons.1 hword
    have htake : s.take c = .ok { s with mode := .atom start (c :: chars) } := by
      rw [take, hmode]
      simp only [hc, Bool.false_eq_true, if_false]
    rw [run_cons, step, htake]
    refine (ih rfl hword).trans ?_
    rw [List.reverse_cons, List.append_assoc, List.singleton_append, List.foldl_cons]

theorem run_token (hmode : s.mode = .between) (htoken : IsToken cs) :
    run s cs = .ok { s with
      position := cs.foldl Position.advance s.position
      mode := .atom s.position cs.reverse } := by
  obtain ⟨hne, hdelim, hesc⟩ := htoken
  obtain ⟨c, cs, rfl⟩ := List.exists_cons_of_ne_nil hne
  obtain ⟨hc, hdelim⟩ := List.forall_mem_cons.1 fun c hc => isDelimiter_eq_false_iff.2 (hdelim c hc)
  have hopen : s.take c = .ok { s with mode := .atom s.position [c] } :=
    (take_between hmode c).trans (enter_atom hc fun h => hesc (h ▸ rfl))
  rw [run_cons, step, hopen]
  refine (run_atom rfl hdelim).trans ?_
  rw [List.reverse_cons, List.foldl_cons]

theorem endToken_atom {start : Position} {chars : List Char} (hmode : s.mode = .atom start chars) :
    s.endToken =
      match ofAtom? chars.reverse with
      | some d => .ok (s.push d)
      | none => .error ⟨.invalidNumber (String.ofList chars.reverse), start⟩ := by
  obtain ⟨position, outer, items, mode⟩ := s
  cases hmode
  rfl

/-- A token is read by its own text. -/
theorem readToken_eq (hmode : s.mode = .between) (htoken : IsToken cs) :
    s.readToken cs =
      match ofAtom? cs with
      | some d => .ok (s.after cs d)
      | none => .error ⟨.invalidNumber (String.ofList cs), s.position⟩ := by
  rw [readToken, run_token hmode htoken]
  simp only [bind, Except.bind]
  rw [endToken_atom rfl, List.reverse_reverse]
  cases ofAtom? cs <;> rfl

/-- An atom that ends here may as well be ended before the rest is read. -/
theorem readAll_atom {start : Position} {chars : List Char} (hmode : s.mode = .atom start chars)
    (hstop : Stops rest) : s.readAll rest = s.endToken >>= (·.readAll rest) := by
  cases rest with
  | nil =>
    have hends : ¬s.mode.CutsOff := by rw [hmode]; exact id
    rw [readAll_nil, finish_eq_closed hends, endToken_atom hmode]
    cases ofAtom? chars.reverse <;> rfl
  | cons c rest =>
    have htake : s.take c = s.endToken >>= (·.enter c) := by
      rw [take, hmode]
      simp only [show isDelimiter c = true from hstop, if_true]
    rw [readAll_cons, step, htake, endToken_atom hmode]
    cases ofAtom? chars.reverse with
    | none => rfl
    | some d =>
      change (s.push d).step c >>= _ = (s.push d).readAll (c :: rest)
      rw [readAll_cons]

/-- A token that a delimiter or the end of the text follows is read before what follows. -/
theorem readAll_token (hmode : s.mode = .between) (htoken : IsToken cs) (hstop : Stops rest) :
    s.readAll (cs ++ rest) = s.readToken cs >>= (·.readAll rest) := by
  have hrun := run_token hmode htoken
  rw [readAll, run_append, readToken, hrun]
  exact readAll_atom rfl hstop

end State

end Reader

open Reader

/-- A token that starts with a digit after at most one sign is a number of the grammar, whose
literal lacks a plus sign, or an error that quotes it; any other token is a symbol. -/
theorem read_token_iff_number {before : String} {s : State}
    (hbefore : run .initial before.toList = .ok s) (hmode : s.mode = .between)
    (htoken : IsToken cs) (hrest : ∀ c ∈ rest.head?, Delimiter c) :
    read (before ++ String.ofList (cs ++ rest)) = s.readToken cs >>= (·.readAll rest) ∧
      (∀ sign u, IsSign sign → cs = sign ++ u → (∃ c ∈ u.head?, c.isDigit = true) →
        (∀ t, s.readToken cs = .ok t ↔
          ∃ kind, Unsigned kind u ∧
            t = s.after cs (.number (String.ofList (if sign = ['+'] then u else cs)) kind)) ∧
        ∀ e, s.readToken cs = .error e ↔
          (∀ kind, ¬Unsigned kind u) ∧ e = ⟨.invalidNumber (String.ofList cs), s.position⟩) ∧
      ((∀ sign u, IsSign sign → cs = sign ++ u → ∀ c ∈ u.head?, c.isDigit = false) →
        s.readToken cs = .ok (s.after cs (.symbol (String.ofList cs)))) := by
  refine ⟨?_, fun sign u hsign hcs hdigit => ?_, fun hno => ?_⟩
  · rw [read_append_of_run hbefore, String.toList_ofList]
    exact State.readAll_token hmode htoken (stops_of_delimiter hrest)
  · have hkind : ofAtom? cs = (Numeral.kind? u).map
        (.number (String.ofList (if sign = ['+'] then u else cs))) := by
      obtain ⟨c, hc, hdigit⟩ := hdigit
      obtain ⟨rest, rfl⟩ := List.head?_eq_some_iff.1 hc
      rw [hcs, ofAtom?_signed hsign hdigit, dropPlus_signed hsign hdigit]
    rw [State.readToken_eq hmode htoken, hkind]
    cases hu : Numeral.kind? u with
    | some kind =>
      have hunsigned (k : NumberKind) : Unsigned k u ↔ kind = k := by
        rw [← kind?_eq_some_iff, hu, Option.some.injEq]
      simp [hunsigned, eq_comm]
    | none =>
      have hunsigned (k : NumberKind) : ¬Unsigned k u := by
        rw [← kind?_eq_some_iff, hu]
        nofun
      simp [hunsigned, eq_comm]
  · have hsymbol : ofAtom? cs = some (.symbol (String.ofList cs)) :=
      ofAtom?_symbol fun sign c rest hsign hcs => hno sign (c :: rest) hsign hcs c rfl
    rw [State.readToken_eq hmode htoken, hsymbol]

/-- In a call, a hexadecimal integer with a plus sign, and a number that its underscore spoils. -/
theorem read_token_iff_number_signed :
    ∃ s : State, run .initial "(f ".toList = .ok s ∧ s.mode = .between ∧
      (IsToken "+0x_1F".toList ∧
        s.readToken "+0x_1F".toList =
          .ok (s.after "+0x_1F".toList (.number "0x_1F" .int))) ∧
      IsToken "1._5".toList ∧
        s.readToken "1._5".toList = .error ⟨.invalidNumber "1._5", ⟨1, 4⟩⟩ := by
  let s : State := ⟨⟨1, 4⟩, [⟨.round, ⟨1, 1⟩, []⟩], [.symbol "f"], .between⟩
  have hbefore : run .initial "(f ".toList = .ok s := rfl
  have hrest : ∀ c ∈ [')'].head?, Delimiter c := by simp [Delimiter]
  have hhex : IsToken "+0x_1F".toList := .of_all (by decide) (by decide) (by decide)
  have hpoint : IsToken "1._5".toList := .of_all (by decide) (by decide) (by decide)
  obtain ⟨-, hnumber, -⟩ := read_token_iff_number hbefore rfl hhex hrest
  obtain ⟨hnumber, -⟩ := hnumber ['+'] "0x_1F".toList .plus rfl ⟨'0', rfl, rfl⟩
  obtain ⟨-, herror, -⟩ := read_token_iff_number hbefore rfl hpoint hrest
  obtain ⟨-, herror⟩ := herror [] "1._5".toList .none rfl ⟨'1', rfl, rfl⟩
  refine ⟨s, hbefore, rfl, ⟨hhex, (hnumber _).2 ⟨.int, kind?_eq_some_iff.1 (by decide), rfl⟩⟩,
    hpoint, (herror _).2 ⟨fun kind hkind => ?_, rfl⟩⟩
  have hnone : Numeral.kind? "1._5".toList = none := by decide
  rw [kind?_eq_some_iff.2 hkind] at hnone
  cases hnone

end SmallLisp
