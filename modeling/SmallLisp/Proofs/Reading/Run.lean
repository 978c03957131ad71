import SmallLisp.Outcome
import SmallLisp.Reader
import SmallLisp.Proofs.Reading.Token

/-!
# Runs of the reader as runs of the stack machine

A step of the reader feeds tokens to the stack machine: none while a token is under way, and at
most two when a delimiter ends one (`step_extends`). The atoms among them are `Readable`. So the
reader returns trees of readable atoms only (`readable_of_read`).
-/

namespace SmallLisp

open Outcome

namespace Reader

/-- A text that is read as one atom, whatever delimiter follows it. -/
structure IsAtom (cs : List Char) (a : Atom) : Prop where
  ne_nil : cs ≠ []
  undelimited : ∀ c ∈ cs, isDelimiter c = false
  unescaped : cs.head? ≠ some '\\'
  datum : ofAtom? cs = some a.datum

end Reader

/-- What the reader makes of the text of a symbol or a number is that datum. The literal of a
character is no such text: it is that of a rune of Go. -/
def Atom.Readable : Atom → Prop
  | .symbol name => Reader.IsAtom name.toList (.symbol name)
  | .number literal .char => ∃ c, literal = Rune.literal c
  | .number literal kind => Reader.IsAtom literal.toList (.number literal kind)
  | .string _ => True

namespace Reader

/-! ## Atoms -/

theorem decimalKind?_ne_char (cs : List Char) : Numeral.decimalKind? cs ≠ some .char := by
  unfold Numeral.decimalKind?
  intro h
  obtain ⟨rest, -, h⟩ := Option.bind_eq_some_iff.1 h
  obtain ⟨final, -, h⟩ := Option.bind_eq_some_iff.1 h
  split at h
  · split at h <;> cases h
  · cases h

theorem hexKind?_ne_char (cs : List Char) : Numeral.hexKind? cs ≠ some .char := by
  unfold Numeral.hexKind?
  split <;> nofun

theorem kind?_ne_char (cs : List Char) : Numeral.kind? cs ≠ some .char := by
  unfold Numeral.kind?
  split
  · exact hexKind?_ne_char _
  · exact hexKind?_ne_char _
  · split
    · intro h
      obtain ⟨_, -, h⟩ := Option.map_eq_some_iff.1 h
      cases h
    · exact decimalKind?_ne_char _

theorem dropSign_eq_self {c : Char} {cs : List Char} (hminus : c ≠ '-') (hplus : c ≠ '+') :
    dropSign (c :: cs) = c :: cs := by
  unfold dropSign
  split
  · rename_i heq
    cases heq
    exact absurd rfl hminus
  · rename_i heq
    cases heq
    exact absurd rfl hplus
  · rfl

/-- A plus sign is all that a token loses when it becomes a literal. -/
theorem dropPlus_eq_or (cs : List Char) : dropPlus cs = cs ∨ cs = '+' :: dropPlus cs := by
  unfold dropPlus
  split
  · exact .inr rfl
  · exact .inl rfl

theorem dropPlus_eq_self {c : Char} {cs : List Char} (hplus : c ≠ '+') :
    dropPlus (c :: cs) = c :: cs := by
  obtain h | h := dropPlus_eq_or (c :: cs)
  · exact h
  · cases h
    exact absurd rfl hplus

theorem ofAtom?_number {c : Char} {cs : List Char} (hc : c.isDigit = true) :
    ofAtom? (c :: cs) =
      (Numeral.kind? (c :: cs)).map (.number (String.ofList (c :: cs))) := by
  have hminus : c ≠ '-' := fun h => absurd (h ▸ hc) (by decide)
  have hplus : c ≠ '+' := fun h => absurd (h ▸ hc) (by decide)
  simp only [ofAtom?, dropSign_eq_self hminus hplus, dropPlus_eq_self hplus, if_pos hc]

theorem IsAtom.number {literal : String} {kind : NumberKind}
    (h : IsAtom literal.toList (.number literal kind)) (hkind : kind ≠ .char) :
    (Atom.number literal kind).Readable := by
  cases kind with
  | char => exact absurd rfl hkind
  | int | float | imag => exact h

/-- An atom is readable again: if it is a number with a plus sign, what is left of it is. -/
theorem readable_of_ofAtom? {cs : List Char} {d : Datum} (hne : cs ≠ [])
    (hdelim : ∀ c ∈ cs, isDelimiter c = false) (hesc : cs.head? ≠ some '\\')
    (h : ofAtom? cs = some d) : ∃ a : Atom, d = a.datum ∧ a.Readable := by
  have hofAtom := h
  have hsymbol (hd : some (Datum.symbol (String.ofList cs)) = some d) :
      ∃ a : Atom, d = a.datum ∧ a.Readable := by
    cases hd
    refine ⟨.symbol (String.ofList cs), rfl, ?_⟩
    rw [Atom.Readable, String.toList_ofList]
    exact ⟨hne, hdelim, hesc, h⟩
  unfold ofAtom? at h
  split at h
  · rename_i c rest hsign
    split at h
    · rename_i hc
      obtain ⟨kind, hkind, rfl⟩ := Option.map_eq_some_iff.1 h
      refine ⟨.number (String.ofList (dropPlus cs)) kind, rfl,
        IsAtom.number ?_ fun hk => kind?_ne_char _ (hk ▸ hkind)⟩
      rw [String.toList_ofList]
      obtain hplus | hplus := dropPlus_eq_or cs
      · rw [hplus] at hofAtom ⊢
        exact ⟨hne, hdelim, hesc, hofAtom⟩
      · rw [hplus, dropSign] at hsign
        rw [hsign]
        refine ⟨List.cons_ne_nil c rest, fun e he => ?_, ?_, ?_⟩
        · exact hdelim e (hplus ▸ List.mem_cons_of_mem '+' (hsign ▸ he))
        · rintro ⟨⟩
          exact absurd hc (by decide)
        · rw [ofAtom?_number hc, hkind, Option.map_some]
          rfl
    · exact hsymbol h
  · exact hsymbol h

theorem readable_of_ofRune? {cs : List Char} {d : Datum} (h : ofRune? cs = some d) :
    ∃ a : Atom, d = a.datum ∧ a.Readable := by
  obtain ⟨c, -, rfl⟩ := Option.map_eq_some_iff.1 h
  exact ⟨.number (Rune.literal c) .char, rfl, c, rfl⟩

/-! ## Steps -/

/-- The characters of an atom under way are those of one. -/
def Mode.Valid : Mode → Prop
  | .atom _ chars =>
    chars ≠ [] ∧ (∀ c ∈ chars, isDelimiter c = false) ∧ chars.getLast? ≠ some '\\'
  | _ => True

namespace State

variable {s t u : State} {c : Char} {cs : List Char} {ds : List Datum}

def stack (s : State) : Stack := ⟨s.outer.map fun f => (f.bracket, f.before), s.items⟩

theorem stack_closeList (s : State) (b : Bracket) :
    (s.closeList b).toOption.map stack = s.stack.feed (.closing b) := by
  unfold closeList Stack.feed stack
  cases s.outer with
  | nil => rfl
  | cons f outer =>
    simp only [List.map_cons]
    split
    · cases b with
      | square => rfl
      | round =>
        simp only [Bracket.enclose?]
        cases s.items.reverse <;> rfl
    · rfl

theorem closeList_mode {b : Bracket} (h : s.closeList b = .ok t) : t.mode = .between := by
  unfold closeList at h
  split at h
  · cases h
  · split at h
    · split at h <;> cases h <;> rfl
    · cases h

/-- Readable tokens lead from the stack of `s` to that of `t`, and the token under way in `t` is
valid. -/
structure Extends (s t : State) : Prop where
  tokens : ∃ ts, s.stack.feedAll ts = some t.stack ∧ ∀ a, .atom a ∈ ts → a.Readable
  valid : t.mode.Valid

namespace Extends

theorem same (hstack : t.stack = s.stack) (hvalid : t.mode.Valid) : Extends s t :=
  ⟨⟨[], by rw [hstack, Stack.feedAll_nil], nofun⟩, hvalid⟩

theorem trans (hst : Extends s t) (htu : Extends t u) : Extends s u := by
  obtain ⟨ts, hts, hread⟩ := hst.tokens
  obtain ⟨us, hus, hread'⟩ := htu.tokens
  refine ⟨⟨ts ++ us, by rw [Stack.feedAll_append_of_eq_some hts, hus], fun a ha => ?_⟩, htu.valid⟩
  exact (List.mem_append.1 ha).elim (hread a) (hread' a)

theorem bracket {v : Token} (h : s.stack.feed v = some t.stack) (hvalid : t.mode.Valid)
    (hv : ∀ a, v ≠ .atom a) : Extends s t := by
  refine ⟨⟨[v], by rw [Stack.feedAll_cons, h, Option.bind_some, Stack.feedAll_nil],
    fun a ha => ?_⟩, hvalid⟩
  exact absurd (List.mem_singleton.1 ha).symm (hv a)

theorem push {a : Atom} (ha : a.Readable) : Extends s (s.push a.datum) := by
  refine ⟨⟨[.atom a], rfl, fun b hb => ?_⟩, trivial⟩
  cases List.mem_singleton.1 hb
  exact ha

end Extends

theorem openList_extends (s : State) (b : Bracket) : Extends s (s.openList b) :=
  .bracket (v := .opening b) rfl trivial nofun

theorem closeList_extends {b : Bracket} (h : s.closeList b = .ok t) : Extends s t := by
  refine .bracket (v := .closing b) ?_ (closeList_mode h ▸ trivial) nofun
  rw [← stack_closeList, h]
  rfl

/-- What a character does where no token is under way. -/
theorem enter_cases {r : Except ReadError State} (h : s.enter c = r) :
    (∃ m : Mode, m.Valid ∧ r = .ok { s with mode := m }) ∨
      (∃ b : Bracket, c = b.opener ∧ r = .ok (s.openList b)) ∨
        ∃ b : Bracket, c = b.closer ∧ s.closeList b = r := by
  unfold enter at h
  split at h
  · exact .inl ⟨.between, trivial, h.symm⟩
  split at h
  · exact .inl ⟨.comment, trivial, h.symm⟩
  split at h
  · exact .inr (.inl ⟨.round, ‹_›, h.symm⟩)
  split at h
  · exact .inr (.inl ⟨.square, ‹_›, h.symm⟩)
  split at h
  · exact .inr (.inr ⟨.round, ‹_›, h⟩)
  split at h
  · exact .inr (.inr ⟨.square, ‹_›, h⟩)
  split at h
  · exact .inl ⟨.string s.position [], trivial, h.symm⟩
  split at h
  · exact .inl ⟨.rune s.position [], trivial, h.symm⟩
  -- The first character of an atom: it passed all the tests above.
  · refine .inl ⟨.atom s.position [c], ⟨List.cons_ne_nil _ _, fun e he => ?_, by simpa⟩, h.symm⟩
    cases List.mem_singleton.1 he
    simp_all [isDelimiter]

theorem enter_extends (h : s.enter c = .ok t) : Extends s t := by
  rcases enter_cases h with ⟨m, hm, ht⟩ | ⟨b, -, ht⟩ | ⟨b, -, hclose⟩
  · cases ht
    exact .same rfl hm
  · cases ht
    exact openList_extends s b
  · exact closeList_extends hclose

theorem endToken_extends (hvalid : s.mode.Valid) (h : s.endToken = .ok t) : Extends s t := by
  unfold endToken at h
  split at h
  · rename_i start chars hmode
    rw [hmode] at hvalid
    obtain ⟨hne, hdelim, hlast⟩ := hvalid
    split at h
    · rename_i d hd
      cases h
      obtain ⟨a, rfl, ha⟩ := readable_of_ofAtom? (by simpa) (by simpa) (by simpa) hd
      exact .push ha
    · cases h
  · split at h
    · rename_i d hd
      cases h
      obtain ⟨a, rfl, ha⟩ := readable_of_ofRune? hd
      exact .push ha
    · cases h
  · cases h
    exact .same rfl hvalid

/-- What a character does: it goes on with the token under way, ends a string, is no escape, or
ends the token under way and is entered. -/
theorem take_cases {r : Except ReadError State} (h : s.take c = r) :
    (∃ m : Mode, (s.mode.Valid → m.Valid) ∧ r = .ok { s with mode := m }) ∨
      (∃ value, r = .ok (s.push (.string value))) ∨
        r = .error ⟨.invalidEscape c, s.position⟩ ∨
          s.endToken >>= (·.enter c) = r := by
  obtain ⟨position, outer, items, mode⟩ := s
  cases mode with
  | between => exact .inr (.inr (.inr h))
  | comment =>
    simp only [take] at h
    split at h
    · exact .inl ⟨.between, id, h.symm⟩
    · exact .inl ⟨.comment, id, h.symm⟩
  | string start chars =>
    simp only [take] at h
    split at h
    · exact .inr (.inl ⟨_, h.symm⟩)
    split at h
    · exact .inl ⟨.escape start chars, id, h.symm⟩
    · exact .inl ⟨.string start (c :: chars), id, h.symm⟩
  | escape start chars =>
    simp only [take] at h
    split at h
    · exact .inl ⟨.string start _, id, h.symm⟩
    · exact .inr (.inr (.inl h.symm))
  | atom start chars =>
    simp only [take] at h
    split at h
    · exact .inr (.inr (.inr h))
    · rename_i hc
      refine .inl ⟨.atom start (c :: chars), ?_, h.symm⟩
      rintro ⟨hne, hdelim, hlast⟩
      refine ⟨List.cons_ne_nil _ _, by simpa [hc] using hdelim, ?_⟩
      rwa [List.getLast?_cons_of_ne_nil hne]
  | rune start chars =>
    simp only [take] at h
    split at h
    · exact .inr (.inr (.inr h))
    · exact .inl ⟨.rune start (c :: chars), id, h.symm⟩

theorem take_extends (hvalid : s.mode.Valid) (h : s.take c = .ok t) : Extends s t := by
  rcases take_cases h with ⟨m, hm, ht⟩ | ⟨value, ht⟩ | ht | hend
  · cases ht
    exact .same rfl (hm hvalid)
  · cases ht
    exact .push (a := .string value) trivial
  · cases ht
  · obtain ⟨r, hr, hend⟩ := bind_eq_ok.1 hend
    exact (endToken_extends hvalid hr).trans (enter_extends hend)

theorem step_extends (hvalid : s.mode.Valid) (h : s.step c = .ok t) : Extends s t := by
  obtain ⟨r, hr, h⟩ := bind_eq_ok.1 h
  cases pure_eq_ok.1 h
  have hext := take_extends hvalid hr
  exact ⟨hext.tokens, hext.valid⟩

theorem finish_extends (hvalid : s.mode.Valid) (h : s.finish = .ok ds) :
    ∃ t, Extends s t ∧ t.stack = ⟨[], ds.reverse⟩ := by
  unfold finish at h
  split at h
  · cases h
  · cases h
  · cases h
  · obtain ⟨t, ht, h⟩ := bind_eq_ok.1 h
    refine ⟨t, endToken_extends hvalid ht, ?_⟩
    split at h
    · rename_i houter
      cases pure_eq_ok.1 h
      simp [stack, houter]
    · exact absurd h throw_ne_ok

/-! ## Runs -/

/-- What the reader makes of the rest of a text. -/
def readAll (s : State) (cs : List Char) : Except ReadError (List Datum) :=
  run s cs >>= finish

theorem readAll_nil (s : State) : s.readAll [] = s.finish := rfl

theorem readAll_cons (s : State) (c : Char) (cs : List Char) :
    s.readAll (c :: cs) = s.step c >>= (·.readAll cs) := by
  rw [readAll, run_cons, bind_assoc]
  rfl

theorem readAll_ok (hvalid : s.mode.Valid) (h : s.readAll cs = .ok ds) :
    ∃ ts, s.stack.feedAll ts = some ⟨[], ds.reverse⟩ ∧ ∀ a, .atom a ∈ ts → a.Readable := by
  induction cs generalizing s with
  | nil =>
    obtain ⟨t, hst, ht⟩ := finish_extends hvalid h
    exact ht ▸ hst.tokens
  | cons c cs ih =>
    rw [readAll_cons] at h
    obtain ⟨t, ht, h⟩ := bind_eq_ok.1 h
    have hst := step_extends hvalid ht
    obtain ⟨ts, hts, hread⟩ := hst.tokens
    obtain ⟨us, hus, hread'⟩ := ih hst.valid h
    refine ⟨ts ++ us, by rw [Stack.feedAll_append_of_eq_some hts, hus], fun a ha => ?_⟩
    exact (List.mem_append.1 ha).elim (hread a) (hread' a)

end State

end Reader

/-- All atoms of the data that the reader returns are readable. -/
theorem readable_of_read {source : String} {ds : List Datum} (h : read source = .ok ds) :
    ∀ a, .atom a ∈ Datum.tokensAll ds → a.Readable := by
  obtain ⟨ts, hts, hread⟩ := Reader.State.readAll_ok (s := .initial) trivial h
  rwa [Stack.eq_tokensAll hts]

end SmallLisp
