import SmallLisp.Proofs.Reading.Run

/-!
# The end of a text

At the end of a text the token under way is ended, unless it is cut off (`Mode.CutsOff`), and no
list may be open (`State.closed`). A line break ends the same tokens (`State.take_lineBreak`). That
a text ends too early is an error of its own, which is never found before its end
(`State.run_error`).
-/

namespace SmallLisp

open Outcome

/-- Whether the error is that a text ends too early. -/
def ReadError.Cause.endsEarly : ReadError.Cause → Bool
  | .unexpectedEnd _ | .unterminatedString => true
  | .unexpectedCloser _ | .emptyCall | .invalidEscape _ | .invalidNumber _ | .invalidRune _ => false

namespace Reader

/-- The end of the text cuts off the token under way: a string, or a backslash without a
character. -/
def Mode.CutsOff : Mode → Prop
  | .string _ _ | .escape _ _ | .rune _ [] => True
  | .between | .comment | .atom _ _ | .rune _ (_ :: _) => False

namespace State

variable {s : State} {c : Char} {cs : List Char} {e : ReadError} {b : Bracket}

/-- The data of a text that ends where no token is under way. -/
def closed (s : State) : Except ReadError (List Datum) :=
  match s.outer with
  | [] => .ok s.items.reverse
  | f :: _ => .error ⟨.unexpectedEnd (.closer f.bracket), s.position⟩

theorem finish_of_cutsOff (hmode : s.mode.CutsOff) :
    ∃ e, s.finish = .error e ∧ e.cause.endsEarly = true := by
  obtain ⟨position, outer, items, mode⟩ := s
  cases mode with
  | between | comment | atom => exact hmode.elim
  | string start chars | escape start chars => exact ⟨⟨.unterminatedString, start⟩, rfl, rfl⟩
  | rune start chars =>
    cases chars with
    | nil => exact ⟨⟨.unexpectedEnd .character, start⟩, rfl, rfl⟩
    | cons c chars => exact hmode.elim

theorem finish_eq_closed (hmode : ¬s.mode.CutsOff) : s.finish = s.endToken >>= closed := by
  obtain ⟨position, outer, items, mode⟩ := s
  cases mode with
  | string | escape => exact absurd trivial hmode
  | between | comment | atom => rfl
  | rune start chars =>
    cases chars with
    | nil => exact absurd trivial hmode
    | cons c chars => rfl

/-- A line break ends every token that the end of the text ends. -/
theorem take_lineBreak (hmode : ¬s.mode.CutsOff) :
    s.take '\n' = s.endToken >>= fun t => .ok { t with mode := .between } := by
  obtain ⟨position, outer, items, mode⟩ := s
  cases mode with
  | string | escape => exact absurd trivial hmode
  | between | comment | atom => rfl
  | rune start chars =>
    cases chars with
    | nil => exact absurd trivial hmode
    | cons c chars => rfl

/-! ## Errors in a text -/

theorem closeList_error (h : s.closeList b = .error e) : e.cause.endsEarly = false := by
  unfold closeList at h
  split at h
  · cases h
    rfl
  · split at h
    · split at h <;> cases h
      rfl
    · cases h
      rfl

theorem enter_error (h : s.enter c = .error e) : e.cause.endsEarly = false := by
  rcases enter_cases h with ⟨m, -, he⟩ | ⟨b, -, he⟩ | ⟨b, -, hclose⟩
  · cases he
  · cases he
  · exact closeList_error hclose

theorem endToken_error (h : s.endToken = .error e) : e.cause.endsEarly = false := by
  unfold endToken at h
  split at h
  · split at h <;> cases h
    rfl
  · split at h <;> cases h
    rfl
  · cases h

theorem take_error (h : s.take c = .error e) : e.cause.endsEarly = false := by
  rcases take_cases h with ⟨m, -, he⟩ | ⟨value, he⟩ | he | hend
  · cases he
  · cases he
  · cases he
    rfl
  · rcases bind_eq_error.1 hend with h | ⟨t, -, h⟩
    · exact endToken_error h
    · exact enter_error h

theorem step_error (h : s.step c = .error e) : e.cause.endsEarly = false := by
  rcases bind_eq_error.1 h with h | ⟨t, -, h⟩
  · exact take_error h
  · cases h

theorem run_error (h : run s cs = .error e) : e.cause.endsEarly = false := by
  induction cs generalizing s with
  | nil => cases h
  | cons c cs ih =>
    rcases bind_eq_error.1 h with h | ⟨t, -, h⟩
    · exact step_error h
    · exact ih h

theorem closed_error (h : s.closed = .error e) : e.cause.endsEarly = true := by
  unfold closed at h
  split at h <;> cases h
  rfl

/-- Any other error at the end of a text is one of the token under way. -/
theorem endToken_of_finish (h : s.finish = .error e) (he : e.cause.endsEarly = false) :
    ¬s.mode.CutsOff ∧ s.endToken = .error e := by
  have hmode : ¬s.mode.CutsOff := by
    intro hmode
    obtain ⟨e', he', hearly⟩ := finish_of_cutsOff hmode
    rw [h] at he'
    cases he'
    rw [he] at hearly
    cases hearly
  refine ⟨hmode, ?_⟩
  rw [finish_eq_closed hmode] at h
  rcases bind_eq_error.1 h with h | ⟨t, -, h⟩
  · exact h
  · rw [closed_error h] at he
    cases he

end State

end Reader

open Reader

theorem read_append_of_run {source : String} {s : State} (h : run .initial source.toList = .ok s)
    (rest : String) : read (source ++ rest) = s.readAll rest.toList := by
  rw [read, readChars, String.toList_append, run_append, h]
  rfl

theorem read_append_of_error {source : String} {e : ReadError}
    (h : run .initial source.toList = .error e) (rest : String) :
    read (source ++ rest) = .error e := by
  rw [read, readChars, String.toList_append, run_append, h]
  rfl

end SmallLisp
