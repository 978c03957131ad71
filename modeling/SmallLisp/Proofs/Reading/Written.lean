import SmallLisp.Proofs.Reading.Spelling

/-!
# Reading what was written

The text of readable data spells their tokens, as far as the first rune literal. Such a literal
is written as one of Go, and the quote at its start is to the reader the start of a symbol
(`Reader.State.readAll_quote`). So data with a rune literal are read as other data, and data
without one as themselves (`read_text_eq_iff_no_rune`).
-/

namespace SmallLisp

namespace Reader

/-- The text `cs` is that of data with the tokens `ts`, and of `rest`: it spells the tokens, or
those before the first rune literal. -/
inductive Prints (ts : List Token) (cs rest : List Char) : Prop
  | plain : Spells ts cs rest → (∀ literal, .atom (.number literal .char) ∉ ts) → Prints ts cs rest
  | broken {before after : List Token} {literal : String} {mid : List Char} :
    ts = before ++ .atom (.number literal .char) :: after → Spells before cs ('\x27' :: mid) →
      Prints ts cs rest

namespace Prints

theorem append {ts us : List Token} {cs mid rest : List Char} (h : Prints ts cs mid)
    (h' : Prints us mid rest) : Prints (ts ++ us) cs rest := by
  cases h with
  | broken htokens hspells =>
    exact .broken (by rw [htokens, List.append_assoc, List.cons_append]) hspells
  | plain hspells hnone =>
    cases h' with
    | broken htokens' hspells' =>
      exact .broken (by rw [htokens', List.append_assoc]) (hspells.append hspells')
    | plain hspells' hnone' =>
      refine .plain (hspells.append hspells') fun literal hmem => ?_
      exact (List.mem_append.1 hmem).elim (hnone literal) (hnone' literal)

theorem space (cs : List Char) : Prints [] (' ' :: cs) cs := .plain (.blank rfl .done) nofun

theorem opening (b : Bracket) (cs : List Char) : Prints [.opening b] (b.opener :: cs) cs :=
  .plain (.opening .done) (by simp)

theorem closing (b : Bracket) (cs : List Char) : Prints [.closing b] (b.closer :: cs) cs :=
  .plain (.closing .done) (by simp)

theorem atom {a : Atom} {rest : List Char} (ha : a.Readable) (hstop : Stops rest) :
    Prints [.atom a] (a.datum.chars ++ rest) rest := by
  cases a with
  | string value => exact .plain (.quoted .done) (by simp)
  | symbol name => exact .plain (.atom ha hstop .done) (by simp)
  | number literal kind =>
    cases kind with
    | char =>
      obtain ⟨c, rfl⟩ := ha
      obtain ⟨mid, hmid⟩ : ∃ mid, (Rune.literal c).toList ++ rest = '\x27' :: mid := by
        rw [Rune.literal, String.toList_ofList]
        exact ⟨_, rfl⟩
      have hspells : Spells [] ((Rune.literal c).toList ++ rest) ('\x27' :: mid) := hmid ▸ .done
      exact .broken (List.nil_append _).symm hspells
    | int | float | imag => exact .plain (.atom ha hstop .done) (by simp)

end Prints

end Reader

open Reader Outcome

namespace Datum

theorem stops_charsAfter (ds : List Datum) {rest : List Char} (hstop : Stops rest) :
    Stops (charsAfter ds ++ rest) := by
  cases ds with
  | nil => exact hstop
  | cons d ds => rfl

mutual

theorem prints : ∀ (d : Datum) (rest : List Char), (∀ a, .atom a ∈ d.tokens → a.Readable) →
    Stops rest → Prints d.tokens (d.chars ++ rest) rest
  | .call callee args, rest, hread, _ => by
    have hclose : Stops (Bracket.round.closer :: rest) := rfl
    have hcallee := prints callee (charsAfter args ++ Bracket.round.closer :: rest)
      (fun a ha => hread a (by simp [tokens, ha])) (stops_charsAfter args hclose)
    have hargs := printsAfter args (Bracket.round.closer :: rest)
      (fun a ha => hread a (by simp [tokens, ha])) hclose
    have h := (Prints.opening .round _).append
      ((hcallee.append hargs).append (.closing .round rest))
    simpa [tokens, chars, Bracket.opener, Bracket.closer] using h
  | .vector [], rest, _, _ => (Prints.opening .square _).append (.closing .square rest)
  | .vector (d :: ds), rest, hread, _ => by
    have hclose : Stops (Bracket.square.closer :: rest) := rfl
    have hd := prints d (charsAfter ds ++ Bracket.square.closer :: rest)
      (fun a ha => hread a (by simp [tokens, tokensAll, ha])) (stops_charsAfter ds hclose)
    have hds := printsAfter ds (Bracket.square.closer :: rest)
      (fun a ha => hread a (by simp [tokens, tokensAll, ha])) hclose
    have h := (Prints.opening .square _).append ((hd.append hds).append (.closing .square rest))
    simpa [tokens, tokensAll, chars, Bracket.opener, Bracket.closer] using h
  | .number literal kind, rest, hread, hstop =>
    .atom (a := .number literal kind) (hread _ (List.mem_singleton_self _)) hstop
  | .string value, rest, _, hstop => .atom (a := .string value) trivial hstop
  | .symbol name, rest, hread, hstop =>
    .atom (a := .symbol name) (hread _ (List.mem_singleton_self _)) hstop

theorem printsAfter : ∀ (ds : List Datum) (rest : List Char),
    (∀ a, .atom a ∈ tokensAll ds → a.Readable) → Stops rest →
      Prints (tokensAll ds) (charsAfter ds ++ rest) rest
  | [], rest, _, _ => .plain .done nofun
  | d :: ds, rest, hread, hstop => by
    have hd := prints d (charsAfter ds ++ rest) (fun a ha => hread a (by simp [tokensAll, ha]))
      (stops_charsAfter ds hstop)
    have hds := printsAfter ds rest (fun a ha => hread a (by simp [tokensAll, ha])) hstop
    have h := (Prints.space _).append (hd.append hds)
    simpa [tokensAll, charsAfter] using h

end

/-- A text of several data: those after the first have a space before them. -/
theorem toList_intercalate_text (d : Datum) (ds : List Datum) :
    (" ".intercalate ((d :: ds).map text)).toList = d.chars ++ charsAfter ds := by
  rw [String.toList_intercalate]
  induction ds generalizing d with
  | nil => simp [text, charsAfter]
  | cons e ds ih => simp_all [text, charsAfter]

theorem printsAll {ds : List Datum} (hread : ∀ a, .atom a ∈ tokensAll ds → a.Readable) :
    Prints (tokensAll ds) (" ".intercalate (ds.map text)).toList [] := by
  cases ds with
  | nil => exact .plain .done nofun
  | cons d ds =>
    have hend : Stops [] := trivial
    have hd := prints d (charsAfter ds ++ []) (fun a ha => hread a (by simp [tokensAll, ha]))
      (stops_charsAfter ds hend)
    have hds := printsAfter ds [] (fun a ha => hread a (by simp [tokensAll, ha])) hend
    rw [toList_intercalate_text, ← List.append_nil (charsAfter ds)]
    exact hd.append hds

end Datum

namespace Reader

theorem ofAtom?_quote (cs : List Char) :
    ofAtom? ('\x27' :: cs) = some (Atom.symbol (String.ofList ('\x27' :: cs))).datum := by
  rw [ofAtom?, dropSign_eq_self (by decide) (by decide)]
  rfl

namespace State

theorem readAll_endAtom {s : State} {start : Position} {chars cs : List Char} {a : Atom}
    {ds : List Datum} (hmode : s.mode = .atom start chars)
    (ha : ofAtom? chars.reverse = some a.datum) (hstop : Stops cs) (h : s.readAll cs = .ok ds) :
    ∃ ts, s.stack.feedAll (.atom a :: ts) = some ⟨[], ds.reverse⟩ := by
  obtain ⟨t, hstack, hmode', hread⟩ := reaches_endAtom hmode ha hstop
  obtain ⟨ts, hts, -⟩ := readAll_ok (by rw [hmode']; trivial) (hread.symm.trans h)
  exact ⟨ts, by rw [Stack.feedAll_cons, Stack.feed, Option.bind_some, ← hstack, hts]⟩

/-- An atom that starts with a quote is a symbol, wherever it ends. -/
theorem readAll_quote {s : State} {start : Position} {chars cs : List Char} {ds : List Datum}
    (hmode : s.mode = .atom start (chars ++ ['\x27'])) (h : s.readAll cs = .ok ds) :
    ∃ name ts, s.stack.feedAll (.atom (.symbol name) :: ts) = some ⟨[], ds.reverse⟩ := by
  induction cs generalizing s chars with
  | nil =>
    have ha := (congrArg ofAtom? List.reverse_concat).trans (ofAtom?_quote chars.reverse)
    have hstop : Stops [] := trivial
    exact ⟨_, readAll_endAtom hmode ha hstop h⟩
  | cons c cs ih =>
    cases hc : isDelimiter c with
    | true =>
      have ha := (congrArg ofAtom? List.reverse_concat).trans (ofAtom?_quote chars.reverse)
      have hstop : Stops (c :: cs) := hc
      exact ⟨_, readAll_endAtom hmode ha hstop h⟩
    | false =>
      have htake : s.take c = .ok { s with mode := .atom start (c :: chars ++ ['\x27']) } := by
        rw [take, hmode]
        simp only [hc, Bool.false_eq_true, if_false]
        rfl
      obtain ⟨t, hstack, hmode', hread⟩ := Reaches.take htake
      exact hstack ▸ ih hmode' (hread.symm.trans h)

theorem readAll_quote_between {s : State} {cs : List Char} {ds : List Datum}
    (hmode : s.mode = .between) (h : s.readAll ('\x27' :: cs) = .ok ds) :
    ∃ name ts, s.stack.feedAll (.atom (.symbol name) :: ts) = some ⟨[], ds.reverse⟩ := by
  have htake : s.take '\x27' = .ok { s with mode := .atom s.position ([] ++ ['\x27']) } :=
    (take_between hmode _).trans (enter_atom rfl (by decide))
  obtain ⟨t, hstack, hmode', hread⟩ := Reaches.take htake
  exact hstack ▸ readAll_quote hmode' (hread.symm.trans h)

end State

end Reader

/-- Reading undoes writing, unless there is a rune literal. -/
theorem read_text_eq_iff_no_rune {source : String} {ds : List Datum} (h : read source = .ok ds) :
    read (" ".intercalate (ds.map Datum.text)) = .ok ds ↔
      ∀ literal, .number literal .char ∉ Datum.nodesAll ds := by
  have hnodes : (∀ literal, .number literal .char ∉ Datum.nodesAll ds) ↔
      ∀ literal, Token.atom (.number literal .char) ∉ Datum.tokensAll ds :=
    forall_congr' fun literal =>
      not_congr (Datum.atom_mem_tokensAll (a := .number literal .char)).symm
  have hfeed : Stack.empty.feedAll (Datum.tokensAll ds) = some ⟨[], ds.reverse⟩ := by
    rw [Stack.feedAll_tokensAll, Stack.empty, List.append_nil]
  rw [hnodes]
  cases Datum.printsAll (readable_of_read h) with
  | plain hspells hnone =>
    exact iff_of_true (State.readAll_of_spells (s := .initial) hspells rfl hfeed) hnone
  | @broken before after literal mid htokens hspells =>
    have hmem : Token.atom (.number literal .char) ∈ Datum.tokensAll ds := by simp [htokens]
    refine iff_of_false (fun hread => ?_) fun hnone => hnone literal hmem
    rw [htokens, Stack.feedAll_append] at hfeed
    obtain ⟨k, hk, -⟩ := Option.bind_eq_some_iff.1 hfeed
    obtain ⟨t, rfl, hmode, hrest⟩ := State.reaches_of_spells (s := .initial) hspells rfl hk
    obtain ⟨name, ts, hts⟩ := State.readAll_quote_between hmode (hrest.symm.trans hread)
    -- The tokens that were read have a symbol where the data have the rune.
    have hother := Stack.eq_tokensAll ((Stack.feedAll_append_of_eq_some hk).trans hts)
    rw [htokens, List.append_cancel_left_eq] at hother
    cases hother

/-- A call is read back; a closing bracket after a backslash is not. -/
theorem read_text_eq_iff_no_rune_closer :
    (∃ ds, read "(f +1 [\"\\t\"])" = .ok ds ∧ read (" ".intercalate (ds.map Datum.text)) = .ok ds) ∧
      ∃ ds, read "\\) x" = .ok ds ∧ read (" ".intercalate (ds.map Datum.text)) ≠ .ok ds := by
  have hcall : read "(f +1 [\"\\t\"])" =
      .ok [.call (.symbol "f") [.number "1" .int, .vector [.string "\t"]]] := rfl
  have hrune : read "\\) x" = .ok [.number "')'" .char, .symbol "x"] := rfl
  refine ⟨⟨_, hcall, (read_text_eq_iff_no_rune hcall).2 ?_⟩, _, hrune, fun hread => ?_⟩
  · simp [Datum.nodesAll, Datum.nodes]
  · exact (read_text_eq_iff_no_rune hrune).1 hread "')'" (by simp [Datum.nodesAll, Datum.nodes])

end SmallLisp
