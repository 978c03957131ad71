import SmallLisp.CompileError
import SmallLisp.Term

/-! Sessions: what is kept from one compilation to the next, and checks that run in one. A check
that fails keeps the numbers it has used. -/

namespace SmallLisp

structure Session where
  /-- The next number for generated names. -/
  next : Nat := 0
  /-- The loops whose bodies are being checked, innermost first. -/
  loops : List Loop := []
  deriving DecidableEq

/-- A computation in a session that may fail. Its changes to the session stay when it fails. -/
abbrev Check := ExceptT CompileError (StateM Session)

namespace Check

/-- The outcome of a check, and the session after it. -/
def outcome {α : Type} (x : Check α) (s : Session) : Except CompileError α × Session :=
  (ExceptT.run x).run s

def fail {α : Type} (e : CompileError) : Check α := fun s => (.error e, s)

def ofExcept {α : Type} (x : Except CompileError α) : Check α := fun s => (x, s)

/-- Takes two numbers, for the flag and the result of a loop, and returns the first of them. -/
def reserve : Check Nat := fun s => (.ok s.next, { s with next := s.next + 2 })

/-- The innermost loop, if there is one. -/
def innermost : Check Loop := fun s =>
  match s.loops with
  | [] => (.error .recurOutsideLoop, s)
  | loop :: _ => (.ok loop, s)

/-- Runs a check inside a loop, and leaves the loop also when the check fails. -/
def inside {α : Type} (loop : Loop) (x : Check α) : Check α := fun s =>
  let (result, t) := x { s with loops := loop :: s.loops }
  (result, { t with loops := t.loops.tail })

end Check

end SmallLisp
