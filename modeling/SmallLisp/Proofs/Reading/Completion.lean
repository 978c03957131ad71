import SmallLisp.Proofs.Reading.Ending
import SmallLisp.Proofs.Reading.Spelling

/-!
# Incomplete texts and wrong texts

The errors of the reader are of two kinds (`ReadError.Cause.endsEarly`). Those of the first are
found only at the end of a text: the token under way can be ended, and then the open lists can be
closed, so the text is the start of one that can be read. Those of the second are found in the text
itself, or in an atom at its end that a line break ends as well; no text on further lines changes
them (`read_error_early_or_final`).
-/

namespace SmallLisp

open Outcome

namespace Stack

/-- Tokens that close all open lists. An atom before each bracket keeps calls from being empty. -/
def closing : List (Bracket × List Datum) → List Token
  | [] => []
  | (b, _) :: outer => .atom (.symbol "x") :: .closing b :: closing outer

theorem exists_enclose? (b : Bracket) {ds : List Datum} (h : ds ≠ []) :
    ∃ d, b.enclose? ds = some d := by
  obtain ⟨d, ds, rfl⟩ := List.exists_cons_of_ne_nil h
  cases b with
  | round => exact ⟨.call d ds, rfl⟩
  | square => exact ⟨.vector (d :: ds), rfl⟩

theorem feedAll_closing (outer : List (Bracket × List Datum)) (items : List Datum) :
    ∃ ds, feedAll ⟨outer, items⟩ (closing outer) = some ⟨[], ds⟩ := by
  induction outer generalizing items with
  | nil => exact ⟨items, rfl⟩
  | cons f outer ih =>
    obtain ⟨b, before⟩ := f
    have hne : (Datum.symbol "x" :: items).reverse ≠ [] := by simp
    obtain ⟨d, hd⟩ := exists_enclose? b hne
    obtain ⟨ds, hds⟩ := ih (d :: before)
    refine ⟨ds, ?_⟩
    rw [closing, feedAll_cons, feed, Option.bind_some, feedAll_cons, push, Atom.datum,
      feed_closing hd, Option.bind_some, hds]

end Stack

namespace Reader

variable {s t : State} {c : Char} {cs : List Char} {e : ReadError} {b : Bracket}

def closingText : List (Bracket × List Datum) → List Char
  | [] => []
  | (b, _) :: outer => 'x' :: b.closer :: closingText outer

theorem spells_closingText (outer : List (Bracket × List Datum)) :
    Spells (Stack.closing outer) (closingText outer) [] := by
  induction outer with
  | nil => exact .done
  | cons f outer ih =>
    obtain ⟨b, before⟩ := f
    have hatom : IsAtom ['x'] (.symbol "x") :=
      ⟨by decide, List.forall_mem_singleton.2 rfl, by decide, rfl⟩
    have hstop : Stops (b.closer :: closingText outer) := by cases b <;> rfl
    exact .atom hatom hstop (.closing ih)

namespace State

/-! ## Completing a text -/

theorem reaches_quote {start : Position} {chars : List Char}
    (hmode : s.mode = .string start chars) :
    s.Reaches ('"' :: cs) (s.stack.push (.string (String.ofList chars.reverse))) .between cs := by
  have hclose : s.take '"' = .ok (s.push (.string (String.ofList chars.reverse))) := by
    rw [take, hmode]
    rfl
  exact .take hclose

theorem reaches_escapedQuote {start : Position} {chars : List Char}
    (hmode : s.mode = .escape start chars) :
    s.Reaches ('"' :: '"' :: cs)
      (s.stack.push (.string (String.ofList ('"' :: chars).reverse))) .between cs := by
  have hquote : s.take '"' = .ok { s with mode := .string start ('"' :: chars) } := by
    rw [take, hmode]
    rfl
  refine (Reaches.take hquote).trans fun t hstack hmode => ?_
  rw [show s.stack = t.stack from hstack.symm]
  exact reaches_quote hmode

theorem reaches_missingRune {start : Position} (hmode : s.mode = .rune start []) :
    s.Reaches ('x' :: '\n' :: cs)
      (s.stack.push (.number (Rune.literal 'x') .char)) .between cs := by
  have hchar : s.take 'x' = .ok { s with mode := .rune start ['x'] } := by
    rw [take, hmode]
    rfl
  refine (Reaches.take hchar).trans fun t hstack hmode => ?_
  rw [show s.stack = t.stack from hstack.symm]
  have hstop : Stops ('\n' :: cs) := rfl
  refine (reaches_endRune hmode hstop).trans fun u hstack' hmode' => ?_
  have hbreak := (take_between hmode' '\n').trans (enter_blank rfl)
  exact hstack' ▸ .take hbreak

/-- The token under way can be ended, and the reader is ready for another one. -/
theorem exists_ending (h : s.finish = .error e) (he : e.cause.endsEarly = true) :
    ∃ text k, ∀ cs, s.Reaches (text ++ cs) k .between cs := by
  by_cases hmode : s.mode.CutsOff
  · cases hm : s.mode with
    | between | comment | atom =>
      rw [hm] at hmode
      exact hmode.elim
    | string start chars => exact ⟨['"'], _, fun cs => reaches_quote hm⟩
    | escape start chars => exact ⟨['"', '"'], _, fun cs => reaches_escapedQuote hm⟩
    | rune start chars =>
      cases chars with
      | nil => exact ⟨['x', '\n'], _, fun cs => reaches_missingRune hm⟩
      | cons c chars =>
        rw [hm] at hmode
        exact hmode.elim
  · rw [finish_eq_closed hmode] at h
    rcases bind_eq_error.1 h with h | ⟨t, ht, -⟩
    · rw [endToken_error h] at he
      cases he
    · have hbreak : s.take '\n' = .ok { t with mode := .between } := by
        rw [take_lineBreak hmode, ht]
        rfl
      exact ⟨['\n'], _, fun cs => .take hbreak⟩

theorem readAll_closingText (hmode : s.mode = .between) :
    ∃ ds, s.readAll (closingText s.stack.outer) = .ok ds := by
  obtain ⟨ds, hfeed⟩ := Stack.feedAll_closing s.stack.outer s.stack.items
  refine ⟨ds.reverse, readAll_of_spells (spells_closingText _) hmode ?_⟩
  rw [List.reverse_reverse]
  exact hfeed

theorem exists_completion (h : s.finish = .error e) (he : e.cause.endsEarly = true) :
    ∃ text ds, s.readAll text = .ok ds := by
  obtain ⟨text, k, hreach⟩ := exists_ending h he
  obtain ⟨t, hstack, hmode, hread⟩ := hreach (closingText k.outer)
  obtain ⟨ds, hds⟩ := readAll_closingText hmode
  exact ⟨text ++ closingText k.outer, ds, by rw [hread, ← hstack, hds]⟩

theorem readAll_lineBreak_error (h : s.finish = .error e) (he : e.cause.endsEarly = false)
    (cs : List Char) : s.readAll ('\n' :: cs) = .error e := by
  obtain ⟨hmode, hend⟩ := endToken_of_finish h he
  rw [readAll_cons, step, take_lineBreak hmode, hend]
  rfl

end State

end Reader

open Reader

/-- A text that ends too early can be completed; another error stays whatever lines follow. -/
theorem read_error_early_or_final {source : String} {e : ReadError} (h : read source = .error e) :
    (e.cause.endsEarly = true → ∃ rest ds, read (source ++ rest) = .ok ds) ∧
      (e.cause.endsEarly = false → ∀ rest, read (source ++ "\n" ++ rest) = .error e) := by
  rcases bind_eq_error.1 h with hrun | ⟨s, hrun, hfinish⟩
  · refine ⟨fun he => ?_, fun _ rest => ?_⟩
    · rw [State.run_error hrun] at he
      cases he
    · rw [String.append_assoc, read_append_of_error hrun]
  · refine ⟨fun he => ?_, fun he rest => ?_⟩
    · obtain ⟨text, ds, hds⟩ := State.exists_completion hfinish he
      exact ⟨String.ofList text, ds, by rw [read_append_of_run hrun, String.toList_ofList, hds]⟩
    · have hlines : ("\n" ++ rest).toList = '\n' :: rest.toList := by simp
      rw [String.append_assoc, read_append_of_run hrun, hlines,
        State.readAll_lineBreak_error hfinish he]

/-- A string that is cut off after a backslash, in two open lists, and a number that is none. -/
theorem read_error_early_or_final_nested :
    read "[(f \"\\" = .error ⟨.unterminatedString, ⟨1, 5⟩⟩ ∧
      (∃ rest ds, read ("[(f \"\\" ++ rest) = .ok ds) ∧
        read "(f 1x" = .error ⟨.invalidNumber "1x", ⟨1, 4⟩⟩ ∧
          ∀ rest, read ("(f 1x" ++ "\n" ++ rest) = .error ⟨.invalidNumber "1x", ⟨1, 4⟩⟩ :=
  ⟨rfl, (read_error_early_or_final rfl).1 rfl, rfl, (read_error_early_or_final rfl).2 rfl⟩

end SmallLisp
