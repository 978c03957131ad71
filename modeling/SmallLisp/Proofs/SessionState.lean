import SmallLisp.Proofs.SessionNames

/-!
# The state of a session

What a step leaves behind, whether it succeeds or fails (`session_state`): the loops are as they
were, and the next number has grown by two for each loop that the step came to. An expression that
compiles has come to all its loops. So between the steps of a session no loop is open.
-/

namespace SmallLisp

open Check

namespace Step

theorem outcome_compile (cfg : Config) (step : Step) (s : Session) :
    ∃ k ≤ (Datum.callsToAll "loop" step.data).length,
      ((step.compile cfg).outcome s).2 = ⟨s.next + 2 * k, s.loops⟩ := by
  obtain ⟨k, hk, htakes⟩ := step.compile_takes cfg
  obtain ⟨j, hj, hs, -⟩ := htakes s
  exact ⟨j, Nat.le_trans hj hk, hs⟩

/-- The session goes on after each step from where the step left it. -/
theorem outputs_cons (cfg : Config) (step : Step) (steps : List Step) (s : Session) :
    (outputs cfg (step :: steps) s).2 =
      (outputs cfg steps ((step.compile cfg).outcome s).2).2 := by
  rw [outputs]
  generalize (step.compile cfg).outcome s = r
  obtain ⟨r, s'⟩ := r
  cases r <;> rfl

theorem state_outputs (cfg : Config) (steps : List Step) (s : Session) :
    ∃ k ≤ (Datum.callsToAll "loop" (steps.flatMap data)).length,
      (outputs cfg steps s).2 = ⟨s.next + 2 * k, s.loops⟩ := by
  induction steps generalizing s with
  | nil => exact ⟨0, Nat.le_refl 0, rfl⟩
  | cons step steps ih =>
    obtain ⟨j, hj, hstep⟩ := step.outcome_compile cfg s
    obtain ⟨k, hk, hsteps⟩ := ih ⟨s.next + 2 * j, s.loops⟩
    refine ⟨j + k, ?_, ?_⟩
    · rw [List.flatMap_cons, Datum.callsToAll_append, List.length_append]
      exact Nat.add_le_add hj hk
    · rw [outputs_cons, hstep, hsteps, Nat.mul_add, Nat.add_assoc]

end Step

/-- An expression that compiles takes two numbers for each of its loops. -/
theorem Datum.next_of_compile {cfg : Config} {d : Datum} (s : Session)
    (h : (d.compile cfg).outcome s = (.ok e, s')) :
    s'.next = s.next + 2 * (d.callsTo "loop").length := by
  obtain ⟨t, u, ht, he⟩ := bind_eq_ok.1 h
  cases he
  obtain ⟨j, -, hs, heq⟩ := d.check_takes s
  rw [ht] at hs heq
  obtain rfl := heq t rfl
  exact congrArg Session.next hs

/-- Steps leave the loops of a session as they were and take no number back, also when they fail.
They take two numbers for a call to `loop` in their data, and at most once for each call; an
expression that compiles takes them for all of its calls. -/
theorem session_state (cfg : Config) :
    (∀ (step : Step) (s : Session), ∃ k ≤ (Datum.callsToAll "loop" step.data).length,
      ((step.compile cfg).outcome s).2 = ⟨s.next + 2 * k, s.loops⟩) ∧
    (∀ (d : Datum) e s s', (d.compile cfg).outcome s = (.ok e, s') →
      s'.next = s.next + 2 * (d.callsTo "loop").length) ∧
    ∀ steps, (Step.outputs cfg steps {}).2.loops = [] := by
  refine ⟨Step.outcome_compile cfg, fun d e s s' h => Datum.next_of_compile s h, fun steps => ?_⟩
  obtain ⟨k, -, hs⟩ := Step.state_outputs cfg steps {}
  rw [hs]

end SmallLisp
