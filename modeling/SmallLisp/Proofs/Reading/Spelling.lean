import SmallLisp.Proofs.Reading.Run

/-!
# Texts that spell tokens

`Spells ts cs rest` says that the text `cs` spells the tokens `ts` and goes on with `rest`. The
reader then feeds exactly these tokens to the stack machine, whatever `rest` is
(`State.reaches_of_spells`).
-/

namespace SmallLisp.Reader

open Outcome

/-- The end of the text or a delimiter follows, so an atom ends here. -/
def Stops : List Char → Prop
  | [] => True
  | c :: _ => isDelimiter c = true

/-- The text of a string between its quotes. A backslash and a letter stand for one of five
characters; the quote and the backslash are written in no other way. -/
inductive StringText : List Char → List Char → Prop
  | nil : StringText [] []
  | plain {c : Char} {value text : List Char} :
    c ≠ '"' → c ≠ '\\' → StringText value text → StringText (c :: value) (c :: text)
  | escaped {c letter : Char} {value text : List Char} :
    (c, letter) ∈ [('\n', 'n'), ('\t', 't'), ('\r', 'r'), ('"', '"'), ('\\', '\\')] →
      StringText value text → StringText (c :: value) ('\\' :: letter :: text)

inductive Spells : List Token → List Char → List Char → Prop
  | done {rest : List Char} : Spells [] rest rest
  | blank {c : Char} {ts : List Token} {cs rest : List Char} :
    (Text.isBlank c || c == ',') = true → Spells ts cs rest → Spells ts (c :: cs) rest
  /-- A comment goes on to the end of its line. -/
  | comment {body : List Char} {ts : List Token} {cs rest : List Char} :
    (∀ c ∈ body, c ≠ '\n') → Spells ts cs rest → Spells ts (';' :: (body ++ '\n' :: cs)) rest
  | opening {b : Bracket} {ts : List Token} {cs rest : List Char} :
    Spells ts cs rest → Spells (.opening b :: ts) (b.opener :: cs) rest
  | closing {b : Bracket} {ts : List Token} {cs rest : List Char} :
    Spells ts cs rest → Spells (.closing b :: ts) (b.closer :: cs) rest
  | string {value : String} {text : List Char} {ts : List Token} {cs rest : List Char} :
    StringText value.toList text → Spells ts cs rest →
      Spells (.atom (.string value) :: ts) ('"' :: (text ++ '"' :: cs)) rest
  | atom {word : List Char} {a : Atom} {ts : List Token} {cs rest : List Char} :
    IsAtom word a → Stops cs → Spells ts cs rest → Spells (.atom a :: ts) (word ++ cs) rest
  /-- A character after its backslash is taken as it stands, even if it is a delimiter. -/
  | rune {c : Char} {ts : List Token} {cs rest : List Char} :
    Stops cs → Spells ts cs rest →
      Spells (.atom (.number (Rune.literal c) .char) :: ts) ('\\' :: c :: cs) rest

theorem Spells.append {ts us : List Token} {cs mid rest : List Char} (h : Spells ts cs mid)
    (h' : Spells us mid rest) : Spells (ts ++ us) cs rest := by
  induction h with
  | done => exact h'
  | blank hc _ ih => exact .blank hc (ih h')
  | comment hbody _ ih => exact .comment hbody (ih h')
  | opening _ ih => exact .opening (ih h')
  | closing _ ih => exact .closing (ih h')
  | string htext _ ih => exact .string htext (ih h')
  | atom hword hstop _ ih => exact .atom hword hstop (ih h')
  | rune hstop _ ih => exact .rune hstop (ih h')

theorem escapeLetter_eq_some_iff {c letter : Char} :
    Text.escapeLetter c = some letter ↔
      (c, letter) ∈ [('\n', 'n'), ('\t', 't'), ('\r', 'r'), ('"', '"'), ('\\', '\\')] := by
  unfold Text.escapeLetter
  split <;> simp_all [eq_comm]

/-- Every string can be written with its escapes. -/
theorem stringText_encode (value : List Char) : StringText value (Datum.quoting.encode value) := by
  induction value with
  | nil => exact .nil
  | cons c value ih =>
    rw [Text.Quoting.encode_cons]
    cases hletter : Text.escapeLetter c with
    | some letter =>
      have hencode : Datum.quoting.encodeChar c = ['\\', letter] := by
        simp [Text.Quoting.encodeChar, Datum.quoting, Text.letterEscape, hletter]
      rw [hencode]
      exact .escaped (escapeLetter_eq_some_iff.1 hletter) ih
    | none =>
      have hencode : Datum.quoting.encodeChar c = [c] := by
        simp [Text.Quoting.encodeChar, Datum.quoting, Text.letterEscape, hletter]
      have hquote : c ≠ '"' := by rintro rfl; cases hletter
      have hescape : c ≠ '\\' := by rintro rfl; cases hletter
      rw [hencode]
      exact .plain hquote hescape ih

theorem Spells.quoted {value : String} {ts : List Token} {cs rest : List Char}
    (h : Spells ts cs rest) :
    Spells (.atom (.string value) :: ts) (Datum.quoting.write value ++ cs) rest := by
  have hstring := Spells.string (stringText_encode value.toList) h
  rwa [Text.Quoting.write, List.cons_append, List.cons_append, List.append_assoc,
    List.singleton_append]

namespace State

variable {s t : State} {c : Char} {cs mid rest : List Char} {k l : Stack} {m n : Mode}

/-! ## Entering a token -/

theorem take_between (hmode : s.mode = .between) (c : Char) : s.take c = s.enter c := by
  rw [take, hmode]

theorem enter_blank (h : (Text.isBlank c || c == ',') = true) :
    s.enter c = .ok { s with mode := .between } := by
  rw [enter, if_pos h]

theorem enter_opener (s : State) (b : Bracket) : s.enter b.opener = .ok (s.openList b) := by
  cases b <;> rfl

theorem enter_closer (s : State) (b : Bracket) : s.enter b.closer = s.closeList b := by
  cases b <;> rfl

theorem enter_atom (hc : isDelimiter c = false) (hesc : c ≠ '\\') :
    s.enter c = .ok { s with mode := .atom s.position [c] } := by
  simp_all [enter, isDelimiter]

/-! ## Coming to the rest of a text -/

/-- From `s`, where `cs` is still to be read, the reader comes to `rest` in a state with the stack
`k` and the mode `m`. -/
def Reaches (s : State) (cs : List Char) (k : Stack) (m : Mode) (rest : List Char) : Prop :=
  ∃ t : State, t.stack = k ∧ t.mode = m ∧ s.readAll cs = t.readAll rest

namespace Reaches

theorem refl (s : State) (cs : List Char) : s.Reaches cs s.stack s.mode cs := ⟨s, rfl, rfl, rfl⟩

theorem trans (h : s.Reaches cs k m mid)
    (hnext : ∀ t : State, t.stack = k → t.mode = m → t.Reaches mid l n rest) :
    s.Reaches cs l n rest := by
  obtain ⟨t, hstack, hmode, hread⟩ := h
  obtain ⟨u, hstack', hmode', hread'⟩ := hnext t hstack hmode
  exact ⟨u, hstack', hmode', hread.trans hread'⟩

theorem take (h : s.take c = .ok t) : s.Reaches (c :: cs) t.stack t.mode cs := by
  refine ⟨{ t with position := s.position.advance c }, rfl, rfl, ?_⟩
  rw [readAll_cons, step, h]
  rfl

end Reaches

theorem reaches_comment {body : List Char} (hmode : s.mode = .comment)
    (hbody : ∀ c ∈ body, c ≠ '\n') : s.Reaches (body ++ '\n' :: cs) s.stack .between cs := by
  induction body generalizing s with
  | nil =>
    have htake : s.take '\n' = .ok { s with mode := .between } := by rw [take, hmode]; rfl
    exact .take htake
  | cons c body ih =>
    obtain ⟨hc, hbody⟩ := List.forall_mem_cons.1 hbody
    have htake : s.take c = .ok s := by
      rw [take, hmode]
      simp only [if_neg hc]
    exact (Reaches.take htake).trans fun t hstack hmode' =>
      hstack ▸ ih (hmode'.trans hmode) hbody

theorem reaches_stringText {start : Position} {chars value text : List Char}
    (h : StringText value text) (hmode : s.mode = .string start chars) :
    s.Reaches (text ++ cs) s.stack (.string start (value.reverse ++ chars)) cs := by
  induction h generalizing s chars with
  | nil => exact hmode ▸ .refl s cs
  | @plain c _ _ hquote hescape _ ih =>
    have hchar : s.take c = .ok { s with mode := .string start (c :: chars) } := by
      rw [take, hmode]
      simp only [if_neg hquote, if_neg hescape]
    refine (Reaches.take hchar).trans fun t hstack hmode => ?_
    rw [List.reverse_cons, List.append_assoc, List.singleton_append]
    exact hstack ▸ ih hmode
  | @escaped c letter _ _ hletter _ ih =>
    have hescape : s.take '\\' = .ok { s with mode := .escape start chars } := by
      rw [take, hmode]
      rfl
    refine (Reaches.take hescape).trans fun t hstack hmode => ?_
    have hchar : t.take letter = .ok { t with mode := .string start (c :: chars) } := by
      rw [take, hmode]
      simp only [Text.escapedChar_of_escapeLetter (escapeLetter_eq_some_iff.2 hletter)]
    refine (Reaches.take hchar).trans fun u hstack' hmode => ?_
    rw [List.reverse_cons, List.append_assoc, List.singleton_append]
    rw [show s.stack = u.stack from (hstack'.trans hstack).symm]
    exact ih hmode

theorem reaches_atom {start : Position} {chars word : List Char}
    (hmode : s.mode = .atom start chars) (hword : ∀ c ∈ word, isDelimiter c = false) :
    s.Reaches (word ++ cs) s.stack (.atom start (word.reverse ++ chars)) cs := by
  induction word generalizing s chars with
  | nil => exact hmode ▸ .refl s cs
  | cons c word ih =>
    obtain ⟨hc, hword⟩ := List.forall_mem_cons.1 hword
    have htake : s.take c = .ok { s with mode := .atom start (c :: chars) } := by
      rw [take, hmode]
      simp only [hc, Bool.false_eq_true, if_false]
    refine (Reaches.take htake).trans fun t hstack hmode' => ?_
    rw [List.reverse_cons, List.append_assoc, List.singleton_append]
    exact hstack ▸ ih hmode' hword

/-- A token that ends here may as well be ended before the delimiter is taken. -/
theorem readAll_endToken {d : Datum} (hend : s.endToken = .ok (s.push d))
    (htake : ∀ c, isDelimiter c = true → s.take c = s.endToken >>= (·.enter c))
    (hfinish : s.finish = s.endToken >>= finish) (hstop : Stops cs) :
    s.readAll cs = (s.push d).readAll cs := by
  cases cs with
  | nil =>
    rw [readAll_nil, hfinish, hend]
    rfl
  | cons c cs =>
    rw [readAll_cons, readAll_cons, step, step, htake c hstop, hend, take_between rfl c]
    rfl

theorem reaches_endAtom {start : Position} {chars : List Char} {a : Atom}
    (hmode : s.mode = .atom start chars) (ha : ofAtom? chars.reverse = some a.datum)
    (hstop : Stops cs) : s.Reaches cs (s.stack.push a) .between cs := by
  have hend : s.endToken = .ok (s.push a.datum) := by
    rw [endToken, hmode]
    simp only [ha]
  refine ⟨s.push a.datum, rfl, rfl, readAll_endToken hend (fun c hc => ?_) ?_ hstop⟩
  · rw [take, hmode]
    simp only [hc, if_true]
  · rw [hend, finish, hmode]
    simp only [hend]
    rfl

theorem reaches_endRune {start : Position} (hmode : s.mode = .rune start [c])
    (hstop : Stops cs) :
    s.Reaches cs (s.stack.push (.number (Rune.literal c) .char)) .between cs := by
  have hend : s.endToken = .ok (s.push (.number (Rune.literal c) .char)) := by
    rw [endToken, hmode]
    rfl
  refine ⟨s.push _, rfl, rfl, readAll_endToken hend (fun e he => ?_) ?_ hstop⟩
  · rw [take, hmode]
    simp [he]
  · rw [hend, finish, hmode]
    simp only [hend]
    rfl

/-! ## Whole atoms -/

theorem reaches_afterString {value : String} {text : List Char} (hmode : s.mode = .between)
    (htext : StringText value.toList text) :
    s.Reaches ('"' :: (text ++ '"' :: cs)) (s.stack.push (.string value)) .between cs := by
  have hopen : s.take '"' = .ok { s with mode := .string s.position [] } :=
    (take_between hmode _).trans rfl
  refine (Reaches.take hopen).trans fun t hstack hmode => ?_
  refine (reaches_stringText htext hmode).trans fun u hstack' hmode => ?_
  have hclose : u.take '"' = .ok (u.push (.string value)) := by
    rw [take, hmode]
    simp
  rw [show s.stack = u.stack from (hstack'.trans hstack).symm]
  exact .take hclose

theorem reaches_afterAtom {word : List Char} {a : Atom} (hmode : s.mode = .between)
    (hword : IsAtom word a) (hstop : Stops cs) :
    s.Reaches (word ++ cs) (s.stack.push a) .between cs := by
  obtain ⟨hne, hdelim, hesc, hdatum⟩ := hword
  obtain ⟨c, word, rfl⟩ := List.exists_cons_of_ne_nil hne
  obtain ⟨hc, hdelim⟩ := List.forall_mem_cons.1 hdelim
  have hopen : s.take c = .ok { s with mode := .atom s.position [c] } :=
    (take_between hmode _).trans (enter_atom hc fun h => hesc (h ▸ rfl))
  refine (Reaches.take hopen).trans fun t hstack hmode => ?_
  refine (reaches_atom hmode hdelim).trans fun u hstack' hmode => ?_
  rw [show s.stack = u.stack from (hstack'.trans hstack).symm]
  exact reaches_endAtom hmode (by simpa using hdatum) hstop

theorem reaches_afterRune (hmode : s.mode = .between) (hstop : Stops cs) :
    s.Reaches ('\\' :: c :: cs) (s.stack.push (.number (Rune.literal c) .char)) .between cs := by
  have hopen : s.take '\\' = .ok { s with mode := .rune s.position [] } :=
    (take_between hmode _).trans rfl
  refine (Reaches.take hopen).trans fun t hstack hmode => ?_
  have hchar : t.take c = .ok { t with mode := .rune s.position [c] } := by
    rw [take, hmode]
    rfl
  refine (Reaches.take hchar).trans fun u hstack' hmode => ?_
  rw [show s.stack = u.stack from (hstack'.trans hstack).symm]
  exact reaches_endRune hmode hstop

/-- The stack that the reader reaches is the one that the spelled tokens build. -/
theorem reaches_of_spells {ts : List Token} (h : Spells ts cs rest) (hmode : s.mode = .between)
    (hfeed : s.stack.feedAll ts = some k) : s.Reaches cs k .between rest := by
  induction h generalizing s with
  | done =>
    cases hfeed
    exact hmode ▸ .refl s _
  | blank hc _ ih =>
    have htake := (take_between hmode _).trans (enter_blank hc)
    exact (Reaches.take htake).trans fun t hstack hmode' => ih hmode' (hstack ▸ hfeed)
  | comment hbody _ ih =>
    have htake : s.take ';' = .ok { s with mode := .comment } :=
      (take_between hmode _).trans rfl
    refine (Reaches.take htake).trans fun t hstack hmode' => ?_
    refine (reaches_comment hmode' hbody).trans fun u hstack' hmode'' => ?_
    exact ih hmode'' (by rw [hstack', hstack]; exact hfeed)
  | @opening b _ _ _ _ ih =>
    have htake := (take_between hmode _).trans (enter_opener s b)
    exact (Reaches.take htake).trans fun t hstack hmode' => ih hmode' (hstack ▸ hfeed)
  | @closing b _ _ _ _ ih =>
    obtain ⟨l, hl, hfeed⟩ := Option.bind_eq_some_iff.1 hfeed
    obtain ⟨t, ht, rfl⟩ := Option.map_eq_some_iff.1 ((stack_closeList s b).trans hl)
    have htake := (take_between hmode _).trans ((enter_closer s b).trans (toOption_eq_some.1 ht))
    refine (Reaches.take htake).trans fun u hstack hmode' => ih ?_ (hstack ▸ hfeed)
    exact hmode'.trans (closeList_mode (toOption_eq_some.1 ht))
  | string htext _ ih =>
    exact (reaches_afterString hmode htext).trans fun t hstack hmode => ih hmode (hstack ▸ hfeed)
  | atom hword hstop _ ih =>
    exact (reaches_afterAtom hmode hword hstop).trans fun t hstack hmode =>
      ih hmode (hstack ▸ hfeed)
  | rune hstop _ ih =>
    exact (reaches_afterRune hmode hstop).trans fun t hstack hmode => ih hmode (hstack ▸ hfeed)

theorem finish_between {ds : List Datum} (hmode : s.mode = .between)
    (hstack : s.stack = ⟨[], ds.reverse⟩) : s.finish = .ok ds := by
  obtain ⟨position, outer, items, mode⟩ := s
  cases hmode
  simp only [stack, Stack.mk.injEq, List.map_eq_nil_iff] at hstack
  obtain ⟨rfl, rfl⟩ := hstack
  simp [finish, endToken, bind, Except.bind, pure, Except.pure]

/-- A text that spells the tokens of data, and nothing else, is read as these data. -/
theorem readAll_of_spells {ts : List Token} {ds : List Datum} (h : Spells ts cs [])
    (hmode : s.mode = .between) (hfeed : s.stack.feedAll ts = some ⟨[], ds.reverse⟩) :
    s.readAll cs = .ok ds := by
  obtain ⟨t, hstack, hmode', hread⟩ := reaches_of_spells h hmode hfeed
  rw [hread, readAll_nil, finish_between hmode' hstack]

end State

/-- A text that spells the tokens of data is read as these data. -/
theorem read_of_spells {source : String} {ds : List Datum}
    (h : Spells (Datum.tokensAll ds) source.toList []) : read source = .ok ds := by
  have hfeed : Stack.empty.feedAll (Datum.tokensAll ds) = some ⟨[], ds.reverse⟩ := by
    rw [Stack.feedAll_tokensAll, Stack.empty, List.append_nil]
  exact State.readAll_of_spells (s := .initial) h rfl hfeed

end SmallLisp.Reader
