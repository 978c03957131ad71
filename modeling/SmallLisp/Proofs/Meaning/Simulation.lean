import SmallLisp.Proofs.Meaning.Fragment
import SmallLisp.Proofs.Naming

/-!
# Simulation

`Simulates` relates an expression of a program to a meaning of data. Followed by anything (`K`), the
expression does what the meaning does, and then the same follows in unchanged scopes. Only where a
`recur` stands are the scopes changed: there what follows has to make the next pass (`Lands`). If
the parts of a form are simulated, so is the form by what is emitted for it.
-/

namespace SmallLisp

open Program

variable {h : Host} {cfg : Config} {names : List String} {n : Nat}

/-! ## The run-time library -/

/-- What emitted text refers to in the core package are the functions of the run-time library. -/
structure Host.Provides (h : Host) (cfg : Config) : Prop where
  operator : ∀ op w, (cfg.coreHelper op.helper).resolve h w = h.require (h.operator op w)
  get : ∀ w, (cfg.coreFunction "get").resolve h w = h.require (h.get w)

/-- Where the core package has one name in emitted text, the functions of the run-time library are
those that the host has in this package. -/
theorem Host.provides_iff (hcore : Identifier.ofName cfg.corePackage = cfg.corePackage) :
    h.Provides cfg ↔
      (∀ op w, h.global [cfg.corePackage, op.helper] w = h.operator op w) ∧
        ∀ w, h.global [cfg.corePackage, "Get"] w = h.get w := by
  have hget : cfg.coreFunction "get" = cfg.coreHelper "Get" := by
    obtain ⟨hone, hne⟩ := Identifier.split_ofName cfg.corePackage
    rw [hcore] at hone hne
    rw [Config.coreFunction, Expr.ofName_member hone hne (by decide), hcore]
    rfl
  have hresolve (name : String) (w : h.World) :
      (cfg.coreHelper name).resolve h w = h.require (h.global [cfg.corePackage, name] w) := rfl
  constructor
  · intro hp
    refine ⟨fun op w => h.require_inj (hp.operator op w), fun w => h.require_inj ?_⟩
    rw [← hresolve, ← hget, hp.get]
  · rintro ⟨hoperator, hmember⟩
    refine ⟨fun op w => ?_, fun w => ?_⟩
    · rw [hresolve, hoperator]
    · rw [hget, hresolve, hmember]

/-! ## Scopes and environments -/

/-- The variables of names have the values of the names, and no variable has a reserved name. -/
structure Agrees (cfg : Config) (names : List String) (sc : Scopes h) (ρ : Env h) : Prop where
  lookup : ∀ x ∈ names, sc.lookup (Identifier.ofName x) = ρ x
  reserved : ∀ x ∈ cfg.reserved, sc.lookup x = none

namespace Agrees

variable {sc : Scopes h} {ρ : Env h} {F : Env h} {x : String} {v : h.Value} {w : h.World}

theorem block (ha : Agrees cfg names sc ρ) : Agrees cfg names (Env.empty :: sc) ρ :=
  ⟨ha.lookup, ha.reserved⟩

theorem lookup_reserved (ha : Agrees cfg names (F :: sc) ρ) (hr : x ∉ cfg.reserved) {y : String}
    (hy : y ∈ cfg.reserved) : Scopes.lookup y (F.set x v :: sc) = none := by
  rw [Scopes.lookup_set, if_neg (ne_of_mem_of_not_mem hy hr)]
  exact ha.reserved y hy

theorem set (hn : Naming names) (ha : Agrees cfg names (F :: sc) ρ) (hx : x ∈ names)
    (hr : Identifier.ofName x ∉ cfg.reserved) :
    Agrees cfg names (F.set (Identifier.ofName x) v :: sc) (ρ.set x v) where
  lookup y hy := by
    rw [Scopes.lookup_set]
    split
    · rename_i heq
      rw [hn.injective y hy x hx heq, Env.set_self]
    · rename_i hne
      rw [Env.set_of_ne fun heq => hne (congrArg _ heq)]
      exact ha.lookup y hy
  reserved _ hy := ha.lookup_reserved hr hy

theorem setAll (hn : Naming names) (ha : Agrees cfg names (F :: sc) ρ) {xs : List String}
    (hxs : xs ⊆ names) (hr : ∀ x ∈ xs, Identifier.ofName x ∉ cfg.reserved) (vs : List h.Value) :
    Agrees cfg names (F.setAll (xs.map Identifier.ofName) vs :: sc) (ρ.setAll xs vs) := by
  induction xs generalizing vs F ρ with
  | nil => exact ha
  | cons x xs ih =>
    cases vs with
    | nil => exact ha
    | cons v vs =>
      exact ih (ha.set hn (hxs (.head _)) (hr x (.head _))) (fun y hy => hxs (.tail _ hy))
        (fun y hy => hr y (.tail _ hy)) vs

theorem generated (ha : Agrees cfg names (F :: sc) ρ) (hx : Identifier.IsGenerated x)
    (hr : x ∉ cfg.reserved) : Agrees cfg names (F.set x v :: sc) ρ where
  lookup y hy := by
    have hne : Identifier.ofName y ≠ x := by
      rintro rfl
      exact Identifier.not_isGenerated_ofName y hx
    rw [Scopes.lookup_set, if_neg hne]
    exact ha.lookup y hy
  reserved _ hy := ha.lookup_reserved hr hy

end Agrees

/-! ## What follows -/

/-- Once a `recur` has given the names of the loop their next values and set the flag, what follows
its value `nil` is what follows the value of another call of the loop. -/
structure Lands (names : List String) (again : Again h)
    (K : h.Value × Scopes h × h.World → h.Result β) (l : Loop) (xs : List String)
    (sc : Scopes h) : Prop where
  targets : l.targets = xs.map ([·])
  subset : xs ⊆ names
  next : ∀ vs w, vs.length = xs.length → ∃ sc' sc'',
    sc.assignAll (xs.map Identifier.ofName) vs = some sc' ∧
    sc'.assign l.flagName (h.bool true) = some sc'' ∧
    K (h.nil, sc'', w) = again vs w >>= fun r => K (r.1, sc, r.2)

/-- What follows in a block that declares other names follows around it. -/
theorem Lands.block {again : Again h} {K K' : h.Value × Scopes h × h.World → h.Result β}
    {sc : Scopes h} {F : Env h} (hl : Lands names again K l xs sc)
    (hF : ∀ x ∈ xs, F (Identifier.ofName x) = none)
    (hflag : F l.flagName = none)
    (hK : ∀ v sc w, K' (v, F :: sc, w) = K (v, sc, w)) : Lands names again K' l xs (F :: sc) where
  targets := hl.targets
  subset := hl.subset
  next vs w hlen := by
    obtain ⟨sc', sc'', hassign, hset, hnext⟩ := hl.next vs w hlen
    refine ⟨F :: sc', F :: sc'', ?_, ?_, ?_⟩
    · rw [Scopes.assignAll_none, hassign, Option.map_some]
      intro x hx
      obtain ⟨y, hy, rfl⟩ := List.mem_map.1 hx
      exact hF y hy
    · rw [Scopes.assign_none hflag, hset, Option.map_some]
    · simp only [hK, hnext]

/-- What a part of a source program does, given what a `recur` there does. -/
abbrev Meaning (h : Host) (α : Type) : Type := Again h → Env h → h.World → h.Result (α × h.World)

/-- The expression does what is meant, and what follows depends on its value. -/
def Simulates (h : Host) (cfg : Config) (names : List String) (n : Nat) (k : Option (List String))
    (ls : List Loop) (e : Expr) (D : Meaning h h.Value) : Prop :=
  ∀ ⦃β : Type⦄ (K : h.Value × Scopes h × h.World → h.Result β) again sc ρ w,
    Agrees cfg names sc ρ → (∀ xs ∈ k, ∃ l ∈ ls.head?, Lands names again K l xs sc) →
    e.eval h n sc w >>= K = D again ρ w >>= fun r => K (r.1, sc, r.2)

/-- The expression does what is meant. -/
def Evaluates (h : Host) (cfg : Config) (names : List String) (n : Nat) (e : Expr)
    (D : Meaning h h.Value) : Prop :=
  ∀ again sc ρ w, Agrees cfg names sc ρ →
    e.eval h n sc w = D again ρ w >>= fun r => pure (r.1, sc, r.2)

def EvaluatesAll (h : Host) (cfg : Config) (names : List String) (n : Nat) (es : List Expr)
    (D : Meaning h (List h.Value)) : Prop :=
  ∀ again sc ρ w, Agrees cfg names sc ρ →
    Expr.evalAll h n es sc w = D again ρ w >>= fun r => pure (r.1, sc, r.2)

/-- The statements declare names that are new in the current block, with the values meant. -/
def Declares (h : Host) (cfg : Config) (names : List String) (n : Nat) (ss : List Stmt)
    (xs : List String) (D : Meaning h (List h.Value)) : Prop :=
  ∀ again F sc ρ w, Agrees cfg names (F :: sc) ρ →
    (∀ x ∈ xs, F (Identifier.ofName x) = none) →
    Stmt.execAll h n ss (F :: sc) w = D again ρ w >>= fun r =>
      pure (.next, F.setAll (xs.map Identifier.ofName) r.1 :: sc, r.2)

theorem Simulates.evaluates (he : Simulates h cfg names n none ls e D) :
    Evaluates h cfg names n e D := by
  intro again sc ρ w ha
  rw [← bind_pure (e.eval h n sc w)]
  exact he pure again sc ρ w ha nofun

theorem Evaluates.simulates (he : Evaluates h cfg names n e D) :
    Simulates h cfg names n k ls e D := by
  intro β K again sc ρ w ha _
  rw [he again sc ρ w ha, bind_assoc]
  simp only [pure_bind]

/-! ## Atoms and calls -/

namespace Evaluates

theorem nil : Evaluates h cfg names n .nil fun _ _ w => pure (h.nil, w) := by
  intro again sc ρ w ha
  exact Expr.eval_nil (ha.reserved _ cfg.nil_mem_reserved)

theorem symbol (hn : Naming names) (hx : x ∈ names) :
    Evaluates h cfg names n (.ofName x) fun again ρ w =>
      (Datum.symbol x).eval h n again ρ w := by
  intro again sc ρ w ha
  have hlookup := ha.lookup x hx
  simp only [Datum.eval, hn.ofName hx]
  cases hv : ρ x with
  | none =>
    rw [hv] at hlookup
    rw [Expr.eval_of_root? rfl hlookup, bind_assoc]
    rfl
  | some v =>
    rw [hv] at hlookup
    rw [Expr.eval, Scopes.select_some hlookup]
    rfl

theorem composite (hs : EvaluatesAll h cfg names n es D) :
    Evaluates h cfg names n (.composite type es) (fun again ρ w => do
      let (vs, w) ← D again ρ w
      return h.slice vs w) := by
  intro again sc ρ w ha
  rw [Expr.eval, hs again sc ρ w ha]
  simp only [bind_assoc, pure_bind]

theorem not (he : Evaluates h cfg names n e D) :
    Evaluates h cfg names n (.not e) (fun again ρ w => do
      let (v, w) ← D again ρ w
      let b ← h.truth v
      return (h.bool !b, w)) := by
  intro again sc ρ w ha
  rw [Expr.eval, he again sc ρ w ha]
  simp only [bind_assoc, pure_bind]

/-- A call of a name. -/
theorem call (hroot : f.root? = some x) (hf : Evaluates h cfg names n f C)
    (hs : EvaluatesAll h cfg names n es D) :
    Evaluates h cfg names n (.call f es) (fun again ρ w => do
      let (v, w) ← C again ρ w
      let (vs, w) ← D again ρ w
      h.call v vs w) := by
  intro again sc ρ w ha
  rw [Expr.eval_call hroot, hf again sc ρ w ha]
  simp only [bind_assoc, pure_bind, hs again sc ρ _ ha]

/-- A call of a function of the run-time library. -/
theorem coreCall {R : h.World → h.Result h.Value} (hroot : f.root? = some x) (hx : x ∈ cfg.reserved)
    (hf : ∀ w, f.resolve h w = R w) (hs : EvaluatesAll h cfg names n es D) :
    Evaluates h cfg names n (.call f es) (fun again ρ w => do
      let v ← R w
      let (vs, w) ← D again ρ w
      h.call v vs w) := by
  have hcore : Evaluates h cfg names n f fun _ _ w => do
      let v ← R w
      return (v, w) := by
    intro again sc ρ w ha
    rw [Expr.eval_of_root? hroot (ha.reserved x hx), hf, bind_assoc]
    rfl
  intro again sc ρ w ha
  rw [call hroot hcore hs again sc ρ w ha]
  simp only [bind_assoc, pure_bind]

theorem logic (he : Evaluates h cfg names n e C) (ha : Evaluates h cfg names n a D) :
    Evaluates h cfg names n (.logic op e a) (fun again ρ w => do
      let (v, w) ← C again ρ w
      let b ← h.truth v
      if b = op.decisive then
        return (h.bool b, w)
      else
        let (v, w) ← D again ρ w
        let b ← h.truth v
        return (h.bool b, w)) := by
  intro again sc ρ w hsc
  rw [Expr.eval, he again sc ρ w hsc]
  simp only [bind_assoc, pure_bind, ha again sc ρ _ hsc]
  refine bind_congr fun r => bind_congr fun b => ?_
  split
  · rw [pure_bind]
  · simp only [bind_assoc, pure_bind]

end Evaluates

/-- Each expression does what its datum means. -/
abbrev EvaluateData (h : Host) (cfg : Config) (names : List String) (n : Nat) :
    List Expr → List Datum → Prop :=
  List.Forall₂ fun e d => Evaluates h cfg names n e fun again ρ w => d.eval h n again ρ w

theorem EvaluateData.all (hs : EvaluateData h cfg names n es ds) :
    EvaluatesAll h cfg names n es fun again ρ w => Datum.evalAll h n again ds ρ w := by
  intro again sc ρ w ha
  induction hs generalizing w with
  | nil => simp only [Expr.evalAll, Datum.evalAll, pure_bind]
  | cons hd _ ih =>
    simp only [Expr.evalAll, Datum.evalAll, hd again sc ρ _ ha, bind_assoc, pure_bind, ih]

theorem Evaluates.logics {C : Meaning h h.Value}
    (hs : EvaluateData h cfg names n es ds) (he : Evaluates h cfg names n e C) :
    Evaluates h cfg names n (es.foldl (.logic op) e) (fun again ρ w => do
      let (v, w) ← C again ρ w
      Datum.evalLogic h n again op v ds ρ w) := by
  induction hs generalizing e C with
  | nil =>
    intro again sc ρ w ha
    simp only [Datum.evalLogic, bind_assoc, pure_bind]
    exact he again sc ρ w ha
  | cons hd _ ih =>
    intro again sc ρ w ha
    rw [List.foldl_cons, ih (he.logic hd) again sc ρ w ha]
    simp only [Datum.evalLogic, bind_assoc]
    refine bind_congr fun r => bind_congr fun b => ?_
    split
    · rename_i hb
      rw [pure_bind, pure_bind, hb, Datum.evalLogic_decisive, pure_bind]
    · simp only [bind_assoc, pure_bind]

/-! ## Closures -/

theorem Config.eval_closure {body : List Stmt} {sc : Scopes h} {w : h.World} :
    (cfg.closure body).eval h n sc w = (do
      let (flow, sc, w) ← Stmt.execAll h n body (Env.empty :: sc) w
      let v ← h.require flow.value?
      return (v, sc.tail, w)) := by
  rw [closure, Expr.eval]

theorem Config.eval_closure_branch {t y z : Expr} {sc : Scopes h} {w : h.World} :
    (cfg.closure [.branch t [.ret [y]] (some [.ret [z]])]).eval h n sc w = (do
      let (v, sc, w) ← t.eval h n (Env.empty :: sc) w
      let b ← h.truth v
      let (v, sc, w) ← (if b then y else z).eval h n (Env.empty :: sc) w
      return (v, sc.tail.tail, w)) := by
  simp only [eval_closure, Stmt.execAll, Stmt.exec, Stmt.execElse, bind_assoc, pure_bind]
  refine bind_congr fun r => bind_congr fun b => ?_
  cases b <;> simp [Flow.value?]

theorem Simulates.cond (ht : Evaluates h cfg names n t T) (hy : Simulates h cfg names n k ls y Y)
    (hz : Simulates h cfg names n k ls z Z) :
    Simulates h cfg names n k ls (cfg.closure [.branch t [.ret [y]] (some [.ret [z]])])
      (fun again ρ w => do
        let (v, w) ← T again ρ w
        let b ← h.truth v
        if b then Y again ρ w else Z again ρ w) := by
  intro β K again sc ρ w ha hl
  have hl : ∀ xs ∈ k, ∃ l ∈ ls.head?, Lands names again
      (fun r => K (r.1, r.2.1.tail.tail, r.2.2)) l xs (Env.empty :: Env.empty :: sc) := by
    intro xs hxs
    obtain ⟨l, hhead, hl⟩ := hl xs hxs
    have hl : Lands names again (fun r => K (r.1, r.2.1.tail, r.2.2)) l xs (Env.empty :: sc) :=
      hl.block (fun _ _ => rfl) rfl fun _ _ _ => rfl
    exact ⟨l, hhead, hl.block (fun _ _ => rfl) rfl fun _ _ _ => rfl⟩
  rw [Config.eval_closure_branch, ht again _ ρ w ha.block]
  simp only [bind_assoc, pure_bind]
  refine bind_congr fun r => bind_congr fun b => ?_
  cases b
  · exact hz _ again _ ρ r.2 ha.block.block hl
  · exact hy _ again _ ρ r.2 ha.block.block hl

theorem EvaluatesAll.effects (hs : EvaluatesAll h cfg names n es D) {sc : Scopes h} {ρ : Env h}
    (ha : Agrees cfg names sc ρ) (again : Again h) (ss : List Stmt) (w : h.World) :
    Stmt.execAll h n (es.map .expr ++ ss) sc w = (do
      let (_, w) ← D again ρ w
      Stmt.execAll h n ss sc w) := by
  rw [Stmt.execAll_exprs, hs again sc ρ w ha]
  simp only [bind_assoc, pure_bind]

/-- Each binding has the names of its datum, and does what the value means. -/
abbrev EvaluateBindings (h : Host) (cfg : Config) (names : List String) (n : Nat) :
    List (Binding Term) → List (Binding Datum) → Prop :=
  List.Forall₂ fun c b => c.targets = b.targets ∧
    Evaluates h cfg names n (c.value.emit cfg) fun again ρ w => b.value.eval h n again ρ w

theorem Declares.nil : Declares h cfg names n [] [] fun _ _ w => pure ([], w) := by
  intro again F sc ρ w ha hF
  rw [Stmt.execAll, pure_bind]
  rfl

theorem Declares.cons (hn : Naming names) (hx : x ∈ names)
    (hr : Identifier.ofName x ∉ cfg.reserved) (hxs : xs ⊆ names) (hnew : x ∉ xs)
    (he : Evaluates h cfg names n e C) (hss : Declares h cfg names n ss xs D) :
    Declares h cfg names n (.assign .define [.ofName x] [e] :: ss) (x :: xs) (fun again ρ w => do
      let (v, w) ← C again ρ w
      let (vs, w) ← D again (ρ.set x v) w
      return (v :: vs, w)) := by
  intro again F sc ρ w ha hF
  have hblank : Identifier.ofName x ≠ "_" := (ne_of_mem_of_not_mem cfg.blank_mem_reserved hr).symm
  have hdefine (v : h.Value) : Scopes.define [Identifier.ofName x] [v] (F :: sc) =
      some (F.set (Identifier.ofName x) v :: sc) := Scopes.define_single hblank (hF x (.head _))
  have hF (v : h.Value) : ∀ y ∈ xs,
      F.set (Identifier.ofName x) v (Identifier.ofName y) = none := by
    intro y hy
    have hne : y ≠ x := ne_of_mem_of_not_mem hy hnew
    rw [Env.set_of_ne fun heq => hne (hn.injective y (hxs hy) x hx heq)]
    exact hF y (.tail _ hy)
  have hstmt : Stmt.assign .define [.ofName x] [e] = .define (.ident (Identifier.ofName x)) e := by
    rw [hn.ofName hx, Stmt.define]
  rw [Stmt.execAll, hstmt, Stmt.exec_define, he again _ ρ w ha]
  simp only [bind_assoc, pure_bind, hdefine, Host.require_some]
  refine bind_congr fun r => ?_
  rw [hss again _ sc _ r.2 (ha.set hn hx hr) (hF r.1)]
  rfl

theorem EvaluateBindings.declares (hcs : EvaluateBindings h cfg names n cs bs)
    (hn : Naming names) (hp : Binding.Plain cfg names bs) :
    Declares h cfg names n (Term.emitBindings cfg cs) (Binding.names bs) fun again ρ w =>
      Binding.evalAll h n again bs ρ w := by
  induction hcs with
  | nil =>
    simp only [Binding.evalAll]
    exact .nil
  | @cons c b cs bs hcb _ ih =>
    obtain ⟨x, hx, htargets, hnew⟩ := hp.head
    obtain ⟨ht, he⟩ := hcb
    obtain ⟨xs, d⟩ := b
    obtain rfl : xs = [x] := htargets
    obtain ⟨ys, t⟩ := c
    obtain rfl : ys = [x] := ht
    simp only [Binding.evalAll]
    exact .cons hn hx (hp.unreserved x (.head _)) hp.tail.subset hnew he (ih hp.tail)

theorem Simulates.letIn (hn : Naming names) {xs : List String} (hxs : xs ⊆ names)
    (hr : ∀ x ∈ xs, Identifier.ofName x ∉ cfg.reserved) (hk : ∀ ys ∈ k, ∀ x ∈ xs, x ∉ ys)
    (hb : Declares h cfg names n ss xs B) (hes : EvaluatesAll h cfg names n es E)
    (he : Simulates h cfg names n k ls e D) :
    Simulates h cfg names n k ls (cfg.closure (ss ++ es.map .expr ++ [.ret [e]]))
      (fun again ρ w => do
        let (vs, w) ← B again ρ w
        let (_, w) ← E again (ρ.setAll xs vs) w
        D again (ρ.setAll xs vs) w) := by
  intro β K again sc ρ w ha hl
  rw [Config.eval_closure, List.append_assoc, Stmt.execAll_append,
    hb again _ sc ρ w ha.block fun _ _ => rfl]
  simp only [bind_assoc, pure_bind]
  refine bind_congr fun r => ?_
  have ha := ha.block.setAll hn hxs hr r.1
  simp only [hes.effects ha again, Stmt.execAll_ret, bind_assoc, pure_bind, Flow.value?,
    Host.require_some]
  refine bind_congr fun r' => he _ again _ _ r'.2 ha fun ys hys => ?_
  obtain ⟨l, hhead, hl⟩ := hl ys hys
  refine ⟨l, hhead, hl.block (fun y hy => ?_) ?_ fun _ _ _ => rfl⟩
  · have hnew : y ∉ xs := fun hmem => hk ys hys y hmem hy
    rw [Env.setAll_of_not_mem (hn.ofName_not_mem hxs (hl.subset hy) hnew), Env.empty_apply]
  · rw [Env.setAll_of_not_mem (generated_not_mem l.isGenerated_flagName xs), Env.empty_apply]

/-- All names take their values at once, after the values are evaluated. -/
theorem Loop.exec_update (hn : Naming names) {l : Loop} {xs : List String}
    (ht : l.targets = xs.map ([·])) (hxs : xs ⊆ names) {es : List Expr}
    (hlen : es.length = xs.length) {sc : Scopes h} {w : h.World} :
    Stmt.execAll h n (l.update es) sc w = (do
      let (vs, sc, w) ← Expr.evalAll h n es sc w
      let sc ← h.require (sc.assignAll (xs.map Identifier.ofName) vs)
      return (.next, sc, w)) := by
  have hall : l.targets.all (·.length == 1) = true := by simp [ht]
  have hflat : l.targets.flatten = xs := by
    rw [ht, ← List.flatMap_def, List.flatMap_singleton']
  rw [update, if_pos hall, hflat]
  cases xs with
  | nil =>
    obtain rfl := List.length_eq_zero_iff.1 hlen
    simp [ht, Stmt.execAll, Expr.evalAll, Scopes.assignAll]
  | cons x xs =>
    have hne : l.targets.isEmpty = false := by rw [ht]; rfl
    rw [hne, if_neg Bool.false_ne_true]
    simp only [Stmt.execAll, Stmt.exec, hn.targets hxs, Host.require_some, bind_assoc, pure_bind]

theorem Simulates.recur (hn : Naming names) {l : Loop} {xs : List String}
    (hlen : es.length = l.targets.length) (hes : EvaluatesAll h cfg names n es D)
    (hD : ∀ again ρ w r, D again ρ w = .ok r → r.1.length = es.length) :
    Simulates h cfg names n (some xs) (l :: ls)
      (cfg.closure (l.update es ++ [.set l.flag (.bool true), .ret [.nil]]))
      (fun again ρ w => do
        let (vs, w) ← D again ρ w
        again vs w) := by
  intro β K again sc ρ w ha hl
  obtain ⟨l', hhead, hl⟩ := hl xs rfl
  cases hhead
  have hlen : es.length = xs.length := by rw [hlen, hl.targets, List.length_map]
  rw [Config.eval_closure, Stmt.execAll_append, Loop.exec_update hn hl.targets hl.subset hlen,
    hes again _ ρ w ha.block]
  simp only [bind_assoc, pure_bind]
  refine bind_congr_ok fun r hr => ?_
  obtain ⟨sc', sc'', hassign, hset, hnext⟩ := hl.next r.1 r.2 ((hD _ _ _ _ hr).trans hlen)
  have htrue : Scopes.lookup "true" (Env.empty :: sc') = none := by
    rw [Scopes.lookup_empty]
    exact Scopes.lookup_assignAll hassign (ha.reserved _ cfg.true_mem_reserved)
  have hnil : Scopes.lookup "nil" (Env.empty :: sc'') = none := by
    have hnil := Scopes.lookup_assignAll hassign (ha.reserved _ cfg.nil_mem_reserved)
    rw [Scopes.lookup_empty]
    exact Scopes.lookup_assign hset hnil
  rw [Scopes.assignAll_block, hassign, ← hnext]
  simp only [Option.map_some, Host.require_some, pure_bind, bind_assoc, Stmt.execAll, Loop.flag,
    Stmt.exec_set l.isGenerated_flagName.ne_blank, Expr.eval_true htrue, Scopes.assign_block, hset,
    Stmt.exec, Expr.eval_nil hnil, Flow.value?]
  rfl

end SmallLisp
