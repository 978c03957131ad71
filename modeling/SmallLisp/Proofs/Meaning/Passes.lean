import SmallLisp.Proofs.Meaning.Simulation

/-!
# Passes

A loop as a function: between the passes of a loop the scopes have one shape (`Loop.scopes`), which
says whether another pass follows, with which values, and what the result is so far. One pass leads
from such scopes to such scopes (`Loop.pass`), so that the passes are the rounds of the function
that the loop means (`Loop.repeats_eq_rounds`).
-/

namespace SmallLisp

open Program

variable {h : Host} {cfg : Config} {names : List String} {n : Nat}

namespace Loop

/-- The variables of the function that a loop becomes: the names, and the result. -/
def frame (l : Loop) (xs : List String) (vs : List h.Value) (u : h.Value) : Env h :=
  (Env.empty.setAll (xs.map Identifier.ofName) vs).set l.resultName u

/-- The scopes between passes: the flag in the header, the variables of the function, and what is
around it. -/
def scopes (l : Loop) (xs : List String) (b : Bool) (vs : List h.Value) (u : h.Value)
    (sc : Scopes h) : Scopes h :=
  Env.empty.set l.flagName (h.bool b) :: l.frame xs vs u :: sc

variable {l : Loop} {xs : List String} {b c : Bool} {vs vs' : List h.Value} {u v : h.Value}
  {sc : Scopes h} {w : h.World} {ρ : Env h}

theorem declare_result :
    Scopes.declare [l.resultName] [u] (Env.empty.setAll (xs.map Identifier.ofName) vs :: sc) =
      some (l.frame xs vs u :: sc) := by
  refine Scopes.declare_single l.isGenerated_resultName.ne_blank ?_
  rw [Env.setAll_of_not_mem (generated_not_mem l.isGenerated_resultName xs), Env.empty_apply]

theorem define_flag :
    Scopes.define [l.flagName] [h.bool b] (Env.empty :: l.frame xs vs u :: sc) =
      some (l.scopes xs b vs u sc) :=
  Scopes.define_single l.isGenerated_flagName.ne_blank rfl

theorem lookup_flag : Scopes.lookup l.flagName (l.scopes xs b vs u sc) = some (h.bool b) := by
  rw [scopes, Scopes.lookup_set, if_pos rfl]

theorem lookup_result : Scopes.lookup l.resultName (l.frame xs vs u :: sc) = some u := by
  rw [frame, Scopes.lookup_set, if_pos rfl]

theorem assign_flag :
    Scopes.assign l.flagName (h.bool c) (l.scopes xs b vs u sc) =
      some (l.scopes xs c vs u sc) := by
  rw [scopes, Scopes.assign_some (by rw [Env.set_self]; rfl), Env.set_set]
  rfl

theorem assign_result :
    Scopes.assign l.resultName v (l.scopes xs b vs u sc) = some (l.scopes xs b vs v sc) := by
  have hne : l.resultName ≠ l.flagName := Ne.symm Identifier.flag_ne_result
  rw [scopes, frame, Scopes.assign_none (by rw [Env.set_of_ne hne, Env.empty_apply]),
    Scopes.assign_some (by rw [Env.set_self]; rfl), Env.set_set]
  rfl

theorem assignAll_names (hblank : "_" ∉ xs.map Identifier.ofName) (hlen : vs.length = xs.length)
    (hlen' : vs'.length = xs.length) :
    Scopes.assignAll (xs.map Identifier.ofName) vs' (l.scopes xs b vs u sc) =
      some (l.scopes xs b vs' u sc) := by
  have hresult := generated_not_mem l.isGenerated_resultName xs
  have hflag := generated_not_mem l.isGenerated_flagName xs
  have hset : ∀ x ∈ xs.map Identifier.ofName, (l.frame xs vs u x).isSome := by
    intro x hx
    rw [frame, Env.set_of_ne (ne_of_mem_of_not_mem hx hresult)]
    exact Env.isSome_setAll (by rw [hlen, List.length_map]) hx _
  rw [← List.length_map Identifier.ofName] at hlen'
  rw [scopes, Scopes.assignAll_none, Scopes.assignAll_some hset hblank hlen', frame,
    Env.setAll_set_comm hresult, Env.setAll_setAll hlen']
  · rfl
  · intro x hx
    rw [Env.set_of_ne (ne_of_mem_of_not_mem hx hflag), Env.empty_apply]

theorem evalTest_flag :
    Expr.evalTest h n (some l.flag) (l.scopes xs b vs u sc) w =
      pure (b, l.scopes xs b vs u sc, w) := by
  simp only [Expr.evalTest, flag, Expr.eval, Scopes.select_some lookup_flag, pure_bind,
    h.truth_bool]

theorem repeats_clear {pass : Scopes h → h.World → h.Result (Flow h × Scopes h × h.World)} :
    repeats (Expr.evalTest h n (some l.flag)) pass k (l.scopes xs false vs u sc) w =
      pure (.next, l.scopes xs false vs u sc, w) := by
  rw [repeats, evalTest_flag]
  rfl

theorem agrees_frame (hn : Naming names) (ha : Agrees cfg names sc ρ) (hxs : xs ⊆ names)
    (hr : ∀ x ∈ xs, Identifier.ofName x ∉ cfg.reserved) (hresult : l.resultName ∉ cfg.reserved) :
    Agrees cfg names (l.frame xs vs u :: sc) (ρ.setAll xs vs) :=
  (ha.block.setAll hn hxs hr vs).generated l.isGenerated_resultName hresult

theorem agrees_scopes (hn : Naming names) (ha : Agrees cfg names sc ρ) (hxs : xs ⊆ names)
    (hr : ∀ x ∈ xs, Identifier.ofName x ∉ cfg.reserved) (hflag : l.flagName ∉ cfg.reserved)
    (hresult : l.resultName ∉ cfg.reserved) :
    Agrees cfg names (l.scopes xs b vs u sc) (ρ.setAll xs vs) :=
  (agrees_frame hn ha hxs hr hresult).block.generated l.isGenerated_flagName hflag

/-! ## One pass -/

section

variable {es : List Expr} {e : Expr} {E : Meaning h (List h.Value)} {D : Meaning h h.Value}
  (ht : l.targets = xs.map ([·])) (hxs : xs ⊆ names)
  (hblank : "_" ∉ xs.map Identifier.ofName) (hes : EvaluatesAll h cfg names n es E)
  (he : Simulates h cfg names n (some xs) (l :: ls) e D)

include ht hxs hblank

/-- In the body of the loop a `recur` gives the names their next values and sets the flag. -/
theorem lands (again : Again h) {K : h.Value × Scopes h × h.World → h.Result β}
    (hlen : vs.length = xs.length)
    (hK : ∀ vs' w, vs'.length = xs.length →
      K (h.nil, Env.empty :: l.scopes xs true vs' u sc, w) = again vs' w >>= fun r =>
        K (r.1, Env.empty :: l.scopes xs false vs u sc, r.2)) :
    Lands names again K l xs (Env.empty :: l.scopes xs false vs u sc) where
  targets := ht
  subset := hxs
  next vs' w hlen' := by
    refine ⟨Env.empty :: l.scopes xs false vs' u sc, Env.empty :: l.scopes xs true vs' u sc,
      ?_, ?_, hK vs' w hlen'⟩
    · rw [Scopes.assignAll_block, assignAll_names hblank hlen hlen', Option.map_some]
    · rw [Scopes.assign_block, assign_flag, Option.map_some]

include hes he

/-- What follows a pass after a `recur` is what follows another call of the loop. -/
theorem pass (ha : ∀ b, Agrees cfg names (l.scopes xs b vs u sc) ρ) (hlen : vs.length = xs.length)
    (again : Again h) {K : Flow h × Scopes h × h.World → h.Result β}
    (hK : ∀ vs' w, vs'.length = xs.length →
      K (.next, Env.empty :: l.scopes xs true vs' h.nil sc, w) = again vs' w >>= fun r =>
        K (.next, Env.empty :: l.scopes xs false vs r.1 sc, r.2)) :
    Stmt.execAll h n
        (.set l.flag (.bool false) :: es.map .expr ++ [.set (.ident l.resultName) e])
        (Env.empty :: l.scopes xs true vs u sc) w >>= K =
      (do
        let (_, w) ← E again ρ w
        D again ρ w) >>= fun r => K (.next, Env.empty :: l.scopes xs false vs r.1 sc, r.2) := by
  have hfalse : Scopes.lookup "false" (Env.empty :: l.scopes xs true vs u sc) = none :=
    (ha true).block.reserved _ cfg.false_mem_reserved
  have hresult (vs : List h.Value) (b : Bool) (v : h.Value) :
      Scopes.assign l.resultName v (Env.empty :: l.scopes xs b vs u sc) =
        some (Env.empty :: l.scopes xs b vs v sc) := by
    rw [Scopes.assign_block, assign_result, Option.map_some]
  rw [List.cons_append, Stmt.execAll, flag, Stmt.exec_set l.isGenerated_flagName.ne_blank,
    Expr.eval_false hfalse]
  simp only [pure_bind, Scopes.assign_block, assign_flag, Option.map_some, Host.require_some,
    hes.effects (ha false).block again, bind_assoc, Stmt.execAll,
    Stmt.exec_set l.isGenerated_resultName.ne_blank]
  refine bind_congr fun r => ?_
  rw [he (fun r => do
    let sc ← h.require (r.2.1.assign l.resultName r.1)
    K (.next, sc, r.2.2)) again _ ρ r.2 (ha false).block]
  · simp only [hresult, Host.require_some, pure_bind]
  · intro ys hys
    obtain rfl := Option.some.inj hys
    refine ⟨l, rfl, lands ht hxs hblank again hlen fun vs' w hlen' => ?_⟩
    simp only [hresult, Host.require_some, pure_bind]
    exact hK vs' w hlen'

/-! ## All passes -/

/-- By induction on the number of passes that are left: what follows a set flag is another round. -/
theorem repeats_eq_rounds
    (ha : ∀ b vs u, Agrees cfg names (l.scopes xs b vs u sc) (ρ.setAll xs vs))
    {body : Again h → Again h}
    (hbody : ∀ again vs w, body again vs w = (do
      let (_, w) ← E again (ρ.setAll xs vs) w
      D again (ρ.setAll xs vs) w))
    {K : Flow h × Scopes h × h.World → h.Result β} {K' : h.Value × h.World → h.Result β}
    (hK : ∀ vs u w, K (.next, l.scopes xs false vs u sc, w) = K' (u, w))
    (k : Nat) (hlen : vs.length = xs.length) :
    repeats (Expr.evalTest h n (some l.flag))
        (fun sc w => do
          let (flow, sc, w) ← Stmt.execAll h n
            (.set l.flag (.bool false) :: es.map .expr ++ [.set (.ident l.resultName) e])
            (Env.empty :: sc) w
          match flow with
          | .next => Stmt.execIn h n none sc.tail w
          | .ret v => return (.ret v, sc.tail, w))
        k (l.scopes xs true vs u sc) w >>= K =
      rounds body k vs w >>= K' := by
  induction k generalizing vs u w with
  | zero =>
    rw [repeats, evalTest_flag]
    rfl
  | succ k ih =>
    rw [repeats, evalTest_flag, rounds, hbody]
    simp only [pure_bind, if_pos, bind_assoc]
    rw [pass ht hxs hblank hes he (fun b => ha b vs u) hlen (rounds body k)]
    · simp only [bind_assoc]
      refine bind_congr fun r => bind_congr fun r' => ?_
      exact (congrArg (· >>= K) repeats_clear).trans (hK vs r'.1 r'.2)
    · intro vs' w hlen'
      refine (ih hlen').trans (bind_congr fun r => ?_)
      exact (hK vs r.1 r.2).symm.trans (congrArg (· >>= K) repeats_clear).symm

end

end Loop

theorem Evaluates.loop (hn : Naming names) {l : Loop} {xs : List String}
    (ht : l.targets = xs.map ([·])) (hxs : xs ⊆ names)
    (hr : ∀ x ∈ xs, Identifier.ofName x ∉ cfg.reserved) (hflag : l.flagName ∉ cfg.reserved)
    (hresult : l.resultName ∉ cfg.reserved) (hb : Declares h cfg names n ss xs B)
    (hB : ∀ again ρ w r, B again ρ w = .ok r → r.1.length = xs.length)
    (hes : EvaluatesAll h cfg names n es E)
    (he : Simulates h cfg names n (some xs) (l :: ls) e D) :
    Evaluates h cfg names n (cfg.closure (l.passes cfg ss (es.map .expr) e)) (fun again ρ w => do
      let (vs, w) ← B again ρ w
      rounds (fun again vs w => do
        let (_, w) ← E again (ρ.setAll xs vs) w
        D again (ρ.setAll xs vs) w) n vs w) := by
  intro again sc ρ w ha
  have hblank : "_" ∉ xs.map Identifier.ofName := by
    intro hmem
    obtain ⟨x, hx, heq⟩ := List.mem_map.1 hmem
    exact hr x hx (heq ▸ cfg.blank_mem_reserved)
  rw [Config.eval_closure, Loop.passes, Stmt.execAll_append,
    hb again _ sc ρ w ha.block fun _ _ => rfl]
  simp only [bind_assoc, pure_bind]
  refine bind_congr_ok fun r hvs => ?_
  have hlen : r.1.length = xs.length := hB _ _ _ _ hvs
  have htrue : Scopes.lookup "true" (Env.empty :: l.frame xs r.1 h.nil :: sc) = none :=
    (Loop.agrees_frame hn ha hxs hr hresult).block.reserved _ cfg.true_mem_reserved
  simp only [Stmt.execAll, Stmt.exec, List.map_cons, List.map_nil, Loop.declare_result,
    Host.require_some, pure_bind, Stmt.execIn, Loop.flag, Stmt.exec_define, Expr.eval_true htrue,
    Loop.define_flag, bind_assoc]
  refine Loop.repeats_eq_rounds ht hxs hblank hes he
    (fun b vs u => Loop.agrees_scopes hn ha hxs hr hflag hresult) (fun _ _ _ => rfl)
    (fun vs u w => ?_) n hlen
  simp only [Loop.scopes, List.tail_cons, Expr.eval, Scopes.select_some Loop.lookup_result,
    pure_bind]
  rfl

end SmallLisp
