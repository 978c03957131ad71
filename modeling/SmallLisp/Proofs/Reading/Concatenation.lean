import SmallLisp.Proofs.Reading.Ending

/-!
# Reading one text after another

After a text that can be read and a line break, no token is under way and no list is open. The
reader then does with the second text what it does with this text alone, only further down: its
data come after those of the first text, and its errors some lines later (`State.readAll_lower`).
So reading is compositional (`read_concatenation`).
-/

namespace SmallLisp

open Outcome

/-! ## Places further down -/

/-- The place `n` lines further down. -/
def Position.lower (n : Nat) (p : Position) : Position := ⟨p.line + n, p.column⟩

theorem Position.advance_lower (n : Nat) (p : Position) (c : Char) :
    (p.lower n).advance c = (p.advance c).lower n := by
  unfold advance lower
  split
  · rw [Nat.add_right_comm]
  · rfl

theorem Position.line_foldl_advance (p : Position) (cs : List Char) :
    (cs.foldl advance p).line = p.line + cs.count '\n' := by
  induction cs generalizing p with
  | nil => rfl
  | cons c cs ih =>
    rw [List.foldl_cons, ih, advance]
    by_cases hc : c = '\n'
    · rw [if_pos hc, hc, List.count_cons_self, Nat.add_right_comm, Nat.add_assoc]
    · rw [if_neg hc, List.count_cons_of_ne hc]

def ReadError.lower (n : Nat) (e : ReadError) : ReadError := ⟨e.cause, e.position.lower n⟩

/-- The outcome `y` is `x` further down: the same error, or a value that stems from the same. -/
inductive Lowers (n : Nat) (f : α → β) : Except ReadError α → Except ReadError β → Prop
  | ok (a : α) : Lowers n f (.ok a) (.ok (f a))
  | error (e : ReadError) : Lowers n f (.error e) (.error (e.lower n))

theorem Lowers.bind {n : Nat} {f : α → β} {g : γ → δ} {x : Except ReadError α}
    {y : Except ReadError β} {u : α → Except ReadError γ} {v : β → Except ReadError δ}
    (hx : Lowers n f x y) (hu : ∀ a, Lowers n g (u a) (v (f a))) :
    Lowers n g (x >>= u) (y >>= v) := by
  cases hx with
  | ok a => exact hu a
  | error e => exact .error e

theorem Lowers.eq_ok {n : Nat} {f : α → β} {a : α} {y : Except ReadError β}
    (h : Lowers n f (.ok a) y) : y = .ok (f a) := by
  cases h
  rfl

theorem Lowers.eq_error {n : Nat} {f : α → β} {e : ReadError} {y : Except ReadError β}
    (h : Lowers n f (.error e) y) : y = .error (e.lower n) := by
  cases h
  rfl

namespace Reader

variable {n : Nat} {base ds : List Datum} {s t : State} {cs : List Char}

def Mode.lower (n : Nat) : Mode → Mode
  | .between => .between
  | .comment => .comment
  | .string start chars => .string (start.lower n) chars
  | .escape start chars => .escape (start.lower n) chars
  | .atom start chars => .atom (start.lower n) chars
  | .rune start chars => .rune (start.lower n) chars

/-- Puts the data `base` before those of a list, if `outer` has no lists around it. As always, the
last datum comes first. -/
def onBase (base : List Datum) : (outer : List Frame) → List Datum → List Datum
  | [], items => items ++ base
  | _ :: _, items => items

@[simp] theorem onBase_cons (outer : List Frame) (d : Datum) (items : List Datum) :
    onBase base outer (d :: items) = d :: onBase base outer items := by
  cases outer <;> rfl

def lowerFrames (n : Nat) (base : List Datum) : List Frame → List Frame
  | [] => []
  | f :: outer =>
    ⟨f.bracket, f.opened.lower n, onBase base outer f.before⟩ :: lowerFrames n base outer

namespace State

/-- The same state after `n` more lines, which hold the data `base`. -/
def lower (n : Nat) (base : List Datum) (s : State) : State :=
  ⟨s.position.lower n, lowerFrames n base s.outer, onBase base s.outer s.items, s.mode.lower n⟩

theorem push_lower (s : State) (d : Datum) :
    Lowers n (lower n base) (.ok (s.push d)) (.ok ((s.lower n base).push d)) := by
  have hpush : (s.lower n base).push d = (s.push d).lower n base := by
    simp only [push, lower, Mode.lower, onBase_cons]
  rw [hpush]
  exact .ok _

theorem closeList_cons {f : Frame} {outer : List Frame} (s : State) (b : Bracket)
    (houter : s.outer = f :: outer) :
    s.closeList b =
      if f.bracket = b then
        match b.enclose? s.items.reverse with
        | some d => .ok { s with outer := outer, items := d :: f.before, mode := .between }
        | none => .error ⟨.emptyCall, f.opened⟩
      else .error ⟨.unexpectedCloser b, s.position⟩ := by
  simp only [closeList, houter]
  cases b with
  | square => rfl
  | round => cases s.items.reverse <;> rfl

theorem closeList_lower (s : State) (b : Bracket) :
    Lowers n (lower n base) (s.closeList b) ((s.lower n base).closeList b) := by
  obtain ⟨position, outer, items, mode⟩ := s
  cases outer with
  | nil => exact .error _
  | cons f outer =>
    rw [closeList_cons _ b rfl, closeList_cons _ b rfl]
    simp only [lower, onBase.eq_2]
    split
    · cases b.enclose? items.reverse with
      | none => exact .error _
      | some d =>
        simp only [← onBase_cons]
        exact .ok _
    · exact .error _

theorem enter_lower (s : State) (c : Char) :
    Lowers n (lower n base) (s.enter c) ((s.lower n base).enter c) := by
  unfold enter
  split
  · exact .ok _
  split
  · exact .ok _
  split
  · exact .ok (s.openList .round)
  split
  · exact .ok (s.openList .square)
  split
  · exact closeList_lower s .round
  split
  · exact closeList_lower s .square
  split
  · exact .ok _
  split
  · exact .ok _
  · exact .ok _

theorem endToken_lower (s : State) :
    Lowers n (lower n base) s.endToken (s.lower n base).endToken := by
  obtain ⟨position, outer, items, mode⟩ := s
  cases mode with
  | between | comment | string | escape => exact .ok _
  | atom start chars =>
    simp only [endToken, lower, Mode.lower]
    split
    · exact push_lower _ _
    · exact .error _
  | rune start chars =>
    simp only [endToken, lower, Mode.lower]
    split
    · exact push_lower _ _
    · exact .error _

theorem take_lower (s : State) (c : Char) :
    Lowers n (lower n base) (s.take c) ((s.lower n base).take c) := by
  have hend : Lowers n (lower n base) (s.endToken >>= (·.enter c))
      ((s.lower n base).endToken >>= (·.enter c)) :=
    (endToken_lower s).bind fun t => enter_lower t c
  obtain ⟨position, outer, items, mode⟩ := s
  cases mode with
  | between => exact enter_lower _ c
  | comment =>
    simp only [take, lower, Mode.lower]
    split <;> exact .ok _
  | string start chars =>
    simp only [take, lower, Mode.lower]
    split
    · exact push_lower _ _
    split <;> exact .ok _
  | escape start chars =>
    simp only [take, lower, Mode.lower]
    split
    · exact .ok _
    · exact .error _
  | atom start chars =>
    simp only [take, lower, Mode.lower]
    split
    · exact hend
    · exact .ok _
  | rune start chars =>
    simp only [take, lower, Mode.lower]
    split
    · exact hend
    · exact .ok _

theorem step_lower (s : State) (c : Char) :
    Lowers n (lower n base) (s.step c) ((s.lower n base).step c) := by
  refine (take_lower s c).bind fun t => ?_
  have hposition : (s.lower n base).position.advance c = (s.position.advance c).lower n :=
    Position.advance_lower n s.position c
  rw [hposition]
  exact .ok _

theorem closed_lower (s : State) :
    Lowers n (base.reverse ++ ·) s.closed (s.lower n base).closed := by
  obtain ⟨position, outer, items, mode⟩ := s
  cases outer with
  | nil =>
    simp only [closed, lower, lowerFrames, onBase, List.reverse_append]
    exact .ok _
  | cons f outer => exact .error _

theorem finish_lower (s : State) :
    Lowers n (base.reverse ++ ·) s.finish (s.lower n base).finish := by
  have hend : Lowers n (base.reverse ++ ·) (s.endToken >>= closed)
      ((s.lower n base).endToken >>= closed) :=
    (endToken_lower s).bind closed_lower
  obtain ⟨position, outer, items, mode⟩ := s
  cases mode with
  | string | escape => exact .error _
  | between | comment | atom => exact hend
  | rune start chars =>
    cases chars with
    | nil => exact .error _
    | cons c chars => exact hend

theorem readAll_lower (s : State) (cs : List Char) :
    Lowers n (base.reverse ++ ·) (s.readAll cs) ((s.lower n base).readAll cs) := by
  induction cs generalizing s with
  | nil => exact finish_lower s
  | cons c cs ih =>
    rw [readAll_cons, readAll_cons]
    exact (step_lower s c).bind ih

/-! ## The line break between two texts -/

/-- After a text that can be read and a line break, the reader starts anew on the next line. -/
theorem step_lineBreak (h : s.finish = .ok ds) :
    s.step '\n' = .ok (State.initial.lower s.position.line ds.reverse) := by
  have hmode : ¬s.mode.CutsOff := by
    intro hmode
    obtain ⟨e, he, -⟩ := finish_of_cutsOff hmode
    rw [h] at he
    cases he
  rw [finish_eq_closed hmode] at h
  obtain ⟨t, ht, hclosed⟩ := bind_eq_ok.1 h
  obtain ⟨position, outer, items, mode⟩ := t
  cases outer with
  | cons f outer => cases hclosed
  | nil =>
    cases hclosed
    rw [step, take_lineBreak hmode, ht, List.reverse_reverse, lower, initial, Position.lower,
      Position.start, Nat.add_comm 1 s.position.line]
    rfl

theorem run_position (h : run s cs = .ok t) :
    t.position = cs.foldl Position.advance s.position := by
  induction cs generalizing s with
  | nil =>
    cases h
    rfl
  | cons c cs ih =>
    obtain ⟨u, hu, h⟩ := bind_eq_ok.1 h
    obtain ⟨v, -, hv⟩ := bind_eq_ok.1 hu
    cases pure_eq_ok.1 hv
    exact ih h

end State

end Reader

open Reader

/-- Reading is compositional: the data of a text after a line break come after those of the text
before it, and an error in it is only found further down. -/
theorem read_concatenation {first : String} {ds : List Datum} (h : read first = .ok ds)
    (second : String) :
    (∀ es, read second = .ok es → read (first ++ "\n" ++ second) = .ok (ds ++ es)) ∧
      ∀ e, read second = .error e →
        read (first ++ "\n" ++ second) = .error
          ⟨e.cause, e.position.line + (1 + first.toList.count '\n'), e.position.column⟩ := by
  obtain ⟨s, hrun, hfinish⟩ := bind_eq_ok.1 h
  have hline : s.position.line = 1 + first.toList.count '\n' := by
    rw [State.run_position hrun, Position.line_foldl_advance]
    rfl
  have hread : read (first ++ "\n" ++ second) =
      (State.initial.lower s.position.line ds.reverse).readAll second.toList := by
    have hlines : ("\n" ++ second).toList = '\n' :: second.toList := by simp
    rw [String.append_assoc, read_append_of_run hrun, hlines, State.readAll_cons,
      State.step_lineBreak hfinish]
    rfl
  have hlower : Lowers s.position.line (ds ++ ·) (read second)
      (read (first ++ "\n" ++ second)) := by
    have hsecond : Lowers s.position.line (ds.reverse.reverse ++ ·) _ _ :=
      State.readAll_lower .initial second.toList
    rw [List.reverse_reverse] at hsecond
    exact hread ▸ hsecond
  rw [← hline]
  constructor
  · intro es hes
    rw [hes] at hlower
    exact hlower.eq_ok
  · intro e he
    rw [he] at hlower
    exact hlower.eq_error

/-- A comment at the end of the first text does not reach into the second one. -/
theorem read_concatenation_comment :
    read "(f)\n; no" = .ok [.call (.symbol "f") []] ∧
      (read "x" = .ok [.symbol "x"] ∧
        read ("(f)\n; no" ++ "\n" ++ "x") = .ok [.call (.symbol "f") [], .symbol "x"]) ∧
          read "\n x)" = .error ⟨.unexpectedCloser .round, ⟨2, 3⟩⟩ ∧
            read ("(f)\n; no" ++ "\n" ++ "\n x)") = .error ⟨.unexpectedCloser .round, ⟨4, 3⟩⟩ := by
  have hfirst : read "(f)\n; no" = .ok [.call (.symbol "f") []] := rfl
  exact ⟨hfirst, ⟨rfl, (read_concatenation hfirst "x").1 [.symbol "x"] rfl⟩,
    rfl, (read_concatenation hfirst "\n x)").2 _ rfl⟩

end SmallLisp
