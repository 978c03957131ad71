import SmallLisp.Proofs.Renaming
import SmallLisp.Proofs.SessionState

/-!
# Independence of the history of a session

What a session has compiled before, or failed to compile, changes later outputs only in the numbers
of generated names. A check from a session with all numbers increased by `k` fails with the same
error, or finds the same term with its numbers increased (`Datum.check_shift`); and to increase the
numbers in a term is to renumber the generated names in its expression (`Term.emit_shift`). So it is
with all steps of a session (`compile_renumbered`).
-/

namespace SmallLisp

open Program Identifier

/-! ## Renumbering names -/

namespace Identifier

/-- Adds `k` to the number of a generated name, and leaves other names as they are. -/
def renumber (k : Nat) (x : String) : String :=
  match number? "continue" x, number? "result" x with
  | some n, _ => generated "continue" (n + k)
  | none, some n => generated "result" (n + k)
  | none, none => x

@[simp] theorem renumber_flag (k n : Nat) :
    renumber k (generated "continue" n) = generated "continue" (n + k) := by
  rw [renumber, number?_generated]

@[simp] theorem renumber_result (k n : Nat) :
    renumber k (generated "result" n) = generated "result" (n + k) := by
  have hflag : number? "continue" (generated "result" n) = none :=
    Option.eq_none_iff_forall_ne_some.2 fun m h => flag_ne_result (number?_eq_some.1 h).symm
  rw [renumber, hflag, number?_generated]

theorem renumber_fixesSource (k : Nat) : FixesSource (renumber k) := by
  intro x hx
  have hnone (hint : String) (h : hint = "continue" ∨ hint = "result") : number? hint x = none := by
    refine Option.eq_none_iff_forall_ne_some.2 fun n hn => hx ⟨n, ?_⟩
    obtain rfl | rfl := h
    · exact .inl (number?_eq_some.1 hn)
    · exact .inr (number?_eq_some.1 hn)
  rw [renumber, hnone "continue" (.inl rfl), hnone "result" (.inr rfl)]

end Identifier

/-! ## Increasing the numbers of loops -/

def Loop.shift (k : Nat) (l : Loop) : Loop := { l with number := l.number + k }

def Session.shift (k : Nat) (s : Session) : Session := ⟨s.next + k, s.loops.map (·.shift k)⟩

namespace Term

mutual

def shift (k : Nat) : Term → Term
  | .symbol name => .symbol name
  | .number literal kind => .number literal kind
  | .string value => .string value
  | .vector elements => .vector (shiftAll k elements)
  | .call callee args => .call (callee.shift k) (shiftAll k args)
  | .not operand => .not (operand.shift k)
  | .operator op args => .operator op (shiftAll k args)
  | .logic op first rest => .logic op (first.shift k) (shiftAll k rest)
  | .loop n bindings effects result =>
    .loop (n + k) (shiftBindings k bindings) (shiftAll k effects) (result.shift k)
  | .recur l values => .recur (l.shift k) (shiftAll k values)
  | .assert type value => .assert type (value.shift k)
  | .get args => .get (shiftAll k args)
  | .letIn bindings effects result =>
    .letIn (shiftBindings k bindings) (shiftAll k effects) (result.shift k)
  | .cond test yes no => .cond (test.shift k) (yes.shift k) (shiftElse k no)
  | .fn params effects result => .fn params (shiftAll k effects) (result.shift k)

def shiftAll (k : Nat) : List Term → List Term
  | [] => []
  | t :: ts => t.shift k :: shiftAll k ts

def shiftBindings (k : Nat) : List (Binding Term) → List (Binding Term)
  | [] => []
  | ⟨targets, value⟩ :: bs => ⟨targets, value.shift k⟩ :: shiftBindings k bs

def shiftElse (k : Nat) : Option Term → Option Term
  | none => none
  | some t => some (t.shift k)

end

theorem targets_shiftBindings (k : Nat) (bs : List (Binding Term)) :
    (shiftBindings k bs).map (·.targets) = bs.map (·.targets) := by
  induction bs with
  | nil => rfl
  | cons b bs ih => exact congrArg (b.targets :: ·) ih

end Term

/-! ## Checks with increased numbers -/

namespace Check

/-- In a session with all numbers increased by `k`, the check `y` does what `x` does without: it
fails with the same error or returns the image of the same value, and the numbers of the session
after it are increased by `k` as well. -/
def Shifts (k : Nat) (f : α → β) (x : Check α) (y : Check β) : Prop :=
  ∀ s, y.outcome (s.shift k) = ((x.outcome s).1.map f, (x.outcome s).2.shift k)

theorem Shifts.pure {f : α → β} {a : α} : Shifts k f (pure a) (pure (f a)) := fun _ => rfl

theorem Shifts.fail {f : α → β} {e : CompileError} : Shifts k f (fail e) (fail e) := fun _ => rfl

theorem Shifts.ofExcept {x : Except CompileError α} : Shifts k id (ofExcept x) (ofExcept x) := by
  intro s
  cases x <;> rfl

theorem Shifts.reserve : Shifts k (· + k) reserve reserve := by
  intro s
  rw [outcome_reserve, outcome_reserve, Session.shift, Session.shift, Except.map,
    Nat.add_right_comm]

theorem Shifts.innermost : Shifts k (·.shift k) innermost innermost
  | ⟨_, []⟩ | ⟨_, _ :: _⟩ => rfl

theorem Shifts.bind {f : α → β} {g : γ → δ} {x : Check α} {y : Check β} {u : α → Check γ}
    {v : β → Check δ} (hx : Shifts k f x y) (hu : ∀ a, Shifts k g (u a) (v (f a))) :
    Shifts k g (x >>= u) (y >>= v) := by
  intro s
  rw [outcome_bind, outcome_bind, hx s]
  generalize x.outcome s = r
  obtain ⟨r, s'⟩ := r
  cases r with
  | error e => rfl
  | ok a => exact hu a s'

theorem Shifts.inside {f : α → β} {l : Loop} {x : Check α} {y : Check β} (hx : Shifts k f x y) :
    Shifts k f (inside l x) (inside (l.shift k) y) := by
  intro ⟨m, ls⟩
  have h := hx ⟨m, l :: ls⟩
  rw [Session.shift, outcome_inside, outcome_inside]
  rw [Session.shift, List.map_cons] at h
  rw [h]
  simp [Session.shift, List.map_tail]

end Check

open Check in
private theorem checks_shift (k : Nat) :
    (∀ d : Datum, Shifts k (·.shift k) d.check d.check) ∧
    (∀ f, Shifts k (·.shift k) (Datum.checkForm f) (Datum.checkForm f)) ∧
    (∀ bs, Shifts k (Term.shiftBindings k) (Datum.checkBindings bs) (Datum.checkBindings bs)) ∧
    (∀ ds, Shifts k (Term.shiftAll k) (Datum.checkAll ds) (Datum.checkAll ds)) := by
  apply Datum.check_induction
  case symbol | number | string => intros; rw [Datum.check]; exact .pure
  case vector => intro ds ih; rw [Datum.check]; exact ih.bind fun _ => .pure
  case malformed =>
    intro callee args e he
    rw [Datum.check_of_error he]
    exact .fail
  case form =>
    intro callee args f hf ih
    rw [Datum.check_of_form hf]
    exact ih
  case call =>
    intro callee args ih ihs
    rw [Datum.checkForm]
    exact ih.bind fun _ => ihs.bind fun _ => .pure
  case not | operator | assert | get =>
    intros
    rename_i ih
    rw [Datum.checkForm]
    exact ih.bind fun _ => .pure
  case logic =>
    intro op first rest ih ihs
    rw [Datum.checkForm]
    exact ih.bind fun _ => ihs.bind fun _ => .pure
  case loop =>
    intro bs ds d ihb ihs ih
    rw [Datum.checkForm]
    refine Shifts.reserve.bind fun n => ihb.bind fun cs => ?_
    refine Shifts.bind (f := Prod.map (Term.shiftAll k) (Term.shift k))
      (Shifts.inside (l := ⟨n, bs.map (·.targets)⟩) (ihs.bind fun ts => ih.bind fun t => ?_))
      fun body => ?_
    · exact .pure
    · exact .pure
  case recur =>
    intro ds ihs
    rw [Datum.checkForm]
    refine Shifts.innermost.bind fun l => ?_
    rw [Loop.shift]
    split
    · exact ihs.bind fun _ => .pure
    · exact .fail
  case letIn =>
    intro bs ds d ihb ihs ih
    rw [Datum.checkForm]
    exact ihb.bind fun _ => ihs.bind fun _ => ih.bind fun _ => .pure
  case cond =>
    intro test yes iht ihy
    rw [Datum.checkForm]
    exact iht.bind fun _ => ihy.bind fun _ => .pure
  case condElse =>
    intro test yes no iht ihy ihn
    rw [Datum.checkForm]
    exact iht.bind fun _ => ihy.bind fun _ => ihn.bind fun _ => .pure
  case fn =>
    intro ps ds d ihs ih
    rw [Datum.checkForm]
    exact ihs.bind fun _ => ih.bind fun _ => .pure
  case noBindings => rw [Datum.checkBindings]; exact .pure
  case binding =>
    intro xs d bs ih ihb
    rw [Datum.checkBindings]
    exact ih.bind fun _ => ihb.bind fun _ => .pure
  case nil => rw [Datum.checkAll]; exact .pure
  case cons =>
    intro d ds ih ihs
    rw [Datum.checkAll]
    exact ih.bind fun _ => ihs.bind fun _ => .pure

theorem Datum.check_shift (k : Nat) (d : Datum) : Check.Shifts k (·.shift k) d.check d.check :=
  (checks_shift k).1 d

theorem Datum.checkAll_shift (k : Nat) (ds : List Datum) :
    Check.Shifts k (Term.shiftAll k) (checkAll ds) (checkAll ds) := (checks_shift k).2.2.2 ds

/-! ## Expressions of terms with increased numbers -/

theorem Loop.flag_shift (k : Nat) (l : Loop) :
    (l.shift k).flag = l.flag.mapNames (renumber k) := by
  rw [flag, flag, Expr.mapNames, renumber_flag]
  rfl

theorem Loop.resultName_shift (k : Nat) (l : Loop) :
    (l.shift k).resultName = renumber k l.resultName := by
  rw [resultName, resultName, renumber_result, shift, Nat.add_right_comm]

theorem Loop.passes_shift (k : Nat) (l : Loop) (cfg : Config) (bindings effects : List Stmt)
    (result : Expr) :
    (l.shift k).passes cfg (Stmt.mapNamesAll (renumber k) bindings)
        (Stmt.mapNamesAll (renumber k) effects) (result.mapNames (renumber k)) =
      Stmt.mapNamesAll (renumber k) (l.passes cfg bindings effects result) := by
  have hbool (b : Bool) := (renumber_fixesSource k).bool b
  simp only [passes, flag_shift, resultName_shift, Stmt.mapNamesAll_eq_map, List.map_append,
    List.map_cons, List.map_nil, Stmt.define, Stmt.set, Stmt.mapNames, Stmt.mapNamesIn,
    Expr.mapNamesIn, Expr.mapNamesAll, Expr.mapNames, hbool]

namespace Term

mutual

theorem emit_shift {cfg : Config} (hcore : ¬IsGenerated cfg.corePackage) (k : Nat) :
    ∀ t : Term, (t.shift k).emit cfg = (t.emit cfg).mapNames (renumber k)
  | .symbol name => ((renumber_fixesSource k).reference name).symm
  | .number .. | .string _ => rfl
  | .vector elements => by
    rw [shift, emit, emit, Expr.mapNames, emitAll_shift hcore k elements]
  | .call callee args => by
    rw [shift, emit, emit, Expr.mapNames, emit_shift hcore k callee, emitAll_shift hcore k args]
  | .not operand => by rw [shift, emit, emit, Expr.mapNames, emit_shift hcore k operand]
  | .operator op args => by
    rw [shift, emit, emit, Expr.mapNames, (renumber_fixesSource k).coreHelper hcore,
      emitAll_shift hcore k args]
  | .logic op first rest => by
    rw [shift, emit, emit, mapNames_logics, emit_shift hcore k first, emitAll_shift hcore k rest]
  | .loop n bindings effects result => by
    rw [shift, emit, emit, mapNames_closure, ← Loop.passes_shift, targets_shiftBindings,
      emitBindings_shift hcore k bindings, emitEffects_shift hcore k effects,
      emit_shift hcore k result]
    rfl
  | .recur l values => by
    rw [shift, emit, emit, mapNames_closure, Stmt.mapNamesAll_eq_map, List.map_append,
      ← Stmt.mapNamesAll_eq_map, (renumber_fixesSource k).update, emitAll_shift hcore k values,
      Loop.flag_shift]
    simp only [List.map_cons, List.map_nil, Stmt.set, Stmt.mapNames, Expr.mapNamesAll,
      (renumber_fixesSource k).bool, (renumber_fixesSource k).nil]
    rfl
  | .assert type value => by rw [shift, emit, emit, Expr.mapNames, emit_shift hcore k value]
  | .get args => by
    rw [shift, emit, emit, Expr.mapNames, (renumber_fixesSource k).coreFunction,
      emitAll_shift hcore k args]
  | .letIn bindings effects result => by
    rw [shift, emit, emit, mapNames_closure, emitBindings_shift hcore k bindings,
      emitEffects_shift hcore k effects, emit_shift hcore k result]
    simp only [Stmt.mapNamesAll_eq_map, List.map_append, List.map_cons, List.map_nil,
      Stmt.mapNames, Expr.mapNamesAll]
  | .cond test yes no => by
    rw [shift, emit, emit, mapNames_closure, emit_shift hcore k test, emit_shift hcore k yes,
      emitElse_shift hcore k no]
    rfl
  | .fn params effects result => by
    rw [shift, emit, emit, Expr.mapNames, (renumber_fixesSource k).groups,
      emitEffects_shift hcore k effects, emit_shift hcore k result]
    simp only [Stmt.mapNamesAll_eq_map, List.map_append, List.map_cons, List.map_nil,
      Stmt.mapNames, Expr.mapNamesAll]

theorem emitAll_shift {cfg : Config} (hcore : ¬IsGenerated cfg.corePackage) (k : Nat) :
    ∀ ts, emitAll cfg (shiftAll k ts) = Expr.mapNamesAll (renumber k) (emitAll cfg ts)
  | [] => rfl
  | t :: ts => by
    rw [shiftAll, emitAll, emitAll, Expr.mapNamesAll, emit_shift hcore k t,
      emitAll_shift hcore k ts]

theorem emitEffects_shift {cfg : Config} (hcore : ¬IsGenerated cfg.corePackage) (k : Nat) :
    ∀ ts, emitEffects cfg (shiftAll k ts) = Stmt.mapNamesAll (renumber k) (emitEffects cfg ts)
  | [] => rfl
  | t :: ts => by
    rw [shiftAll, emitEffects, emitEffects, Stmt.mapNamesAll, Stmt.mapNames,
      emit_shift hcore k t, emitEffects_shift hcore k ts]

theorem emitBindings_shift {cfg : Config} (hcore : ¬IsGenerated cfg.corePackage) (k : Nat) :
    ∀ bs, emitBindings cfg (shiftBindings k bs) =
      Stmt.mapNamesAll (renumber k) (emitBindings cfg bs)
  | [] => rfl
  | ⟨targets, value⟩ :: bs => by
    rw [shiftBindings, emitBindings, emitBindings, Stmt.mapNamesAll, Stmt.mapNames,
      (renumber_fixesSource k).targets, emit_shift hcore k value, emitBindings_shift hcore k bs]
    rfl

theorem emitElse_shift {cfg : Config} (hcore : ¬IsGenerated cfg.corePackage) (k : Nat) :
    ∀ t?, emitElse cfg (shiftElse k t?) = (emitElse cfg t?).mapNames (renumber k)
  | none => (renumber_fixesSource k).nil.symm
  | some t => by rw [shiftElse, emitElse, emitElse, emit_shift hcore k t]

end

end Term

/-! ## The top level -/

def TopLevel.shift (k : Nat) : TopLevel → TopLevel
  | .define name value => .define name (value.shift k)
  | .discard value => .discard (value.shift k)

def SourceFile.shift (k : Nat) (f : SourceFile) : SourceFile :=
  { f with items := f.items.map (·.shift k) }

namespace Datum

open Check

theorem checkTopLevel_shift (k : Nat) (d : Datum) :
    Shifts k (·.shift k) d.checkTopLevel d.checkTopLevel := by
  unfold checkTopLevel
  split
  · unfold checkDefinition
    split
    · exact (check_shift k _).bind fun _ => .pure
    · exact .fail
    · exact .fail
  · exact (checkAll_shift k _).bind fun _ => .pure
  · exact (check_shift k _).bind fun _ => .pure
  · exact .fail

theorem checkItems_shift (k : Nat) (ds : List Datum) :
    Shifts k (·.map (·.shift k)) (checkItems ds) (checkItems ds) := by
  induction ds with
  | nil => exact .pure
  | cons d ds ih => exact (d.checkTopLevel_shift k).bind fun _ => ih.bind fun _ => .pure

theorem checkFile_shift (k : Nat) (ds : List Datum) :
    Shifts k (·.shift k) (checkFile ds) (checkFile ds) := by
  unfold checkFile
  split
  · exact Shifts.ofExcept.bind fun _ => (checkItems_shift k _).bind fun _ => .pure
  · exact (checkItems_shift k _).bind fun _ => .pure

end Datum

theorem mapNames_entryBody (f : String → String) (body : List Stmt) :
    Stmt.mapNamesAll f (entryBody body) = entryBody (Stmt.mapNamesAll f body) := by
  obtain rfl | ⟨init, last, rfl⟩ := body.eq_nil_or_concat
  · rfl
  · cases last <;>
      simp [entryBody, Stmt.mapNamesAll_eq_map, Expr.mapNamesAll_eq_map, Stmt.mapNames]

theorem FixesSource.definition {f : String → String} (hf : FixesSource f) (cfg : Config)
    (name : String) (value : Expr) :
    (SmallLisp.definition cfg (ofName name) value).mapNames f =
      SmallLisp.definition cfg (ofName name) (value.mapNames f) := by
  cases value with
  | func signature body =>
    rw [Expr.mapNames, SmallLisp.definition, SmallLisp.definition]
    by_cases hentry : ofName name = cfg.entryPoint
    · rw [if_pos hentry, if_pos hentry, Decl.mapNames, hf.identifier, mapNames_entryBody]
      rfl
    · rw [if_neg hentry, if_neg hentry, Decl.mapNames, hf.identifier]
  | _ =>
    simp [SmallLisp.definition, Decl.mapNames, Expr.mapNames, Expr.mapNamesAll, hf.identifier]

theorem TopLevel.emit_shift {cfg : Config} (hcore : ¬IsGenerated cfg.corePackage) (k : Nat)
    (i : TopLevel) : (i.shift k).emit cfg = (i.emit cfg).mapNames (renumber k) := by
  have hf := renumber_fixesSource k
  cases i with
  | define name value =>
    rw [shift, emit, emit, hf.definition, Term.emit_shift hcore]
  | discard value =>
    rw [shift, emit, emit, discarded, discarded, Decl.mapNames, Term.emit_shift hcore,
      List.map_singleton, hf.unmarked rfl]
    rfl

theorem SourceFile.emit_shift {cfg : Config} (hcore : ¬IsGenerated cfg.corePackage) (k : Nat)
    (f : SourceFile) : (f.shift k).emit cfg = (f.emit cfg).mapNames (renumber k) := by
  have hitems : (f.shift k).items.map (·.emit cfg) =
      (f.items.map (·.emit cfg)).map (·.mapNames (renumber k)) := by
    rw [shift, List.map_map, List.map_map]
    exact List.map_congr_left fun i _ => i.emit_shift hcore k
  have himports (p : Package) :
      p.importDecls.map (·.mapNames (renumber k)) = p.importDecls := by
    unfold Package.importDecls
    split <;> rfl
  unfold emit
  rw [hitems]
  cases h : f.package? with
  | none => simp [shift, h, File.mapNames]
  | some p => simp [shift, h, himports, File.mapNames]

/-! ## Steps -/

def Output.mapNames (f : String → String) (o : Output) : Output :=
  ⟨Expr.mapNamesAll f o.exprs, o.decls.map (·.mapNames f)⟩

theorem Check.Shifts.emit {f : α → α} {g : β → β} {e : α → β} {x : Check α} (hx : Shifts k f x x)
    (he : ∀ a, e (f a) = g (e a)) :
    Shifts k g (do let a ← x; return e a) (do let a ← x; return e a) := by
  refine hx.bind fun a => ?_
  rw [he]
  exact .pure

section

variable {cfg : Config} (hcore : ¬IsGenerated cfg.corePackage)
include hcore

theorem Datum.compile_shift (k : Nat) (d : Datum) :
    Check.Shifts k (·.mapNames (renumber k)) (d.compile cfg) (d.compile cfg) :=
  (d.check_shift k).emit (Term.emit_shift hcore k)

theorem Step.compile_shift (k : Nat) (step : Step) :
    Check.Shifts k (·.mapNames (renumber k)) (step.compile cfg) (step.compile cfg) := by
  cases step with
  | expr d => exact (d.compile_shift hcore k).emit fun _ => rfl
  | exprs ds =>
    exact ((Datum.checkAll_shift k ds).emit (Term.emitAll_shift hcore k)).emit fun _ => rfl
  | topLevel d =>
    exact ((d.checkTopLevel_shift k).emit (TopLevel.emit_shift hcore k)).emit fun _ => rfl
  | file ds =>
    exact ((Datum.checkFile_shift k ds).emit (SourceFile.emit_shift hcore k)).emit fun _ => rfl

end

/-- An expression compiled with all numbers increased by `k` either fails with the same error, or
is the same but for its generated names, whose numbers are increased by `k`, as are those of the
session after it. So every step of a session puts out what it would in a new session, with the
generated names renumbered, or fails as it would there. -/
theorem compile_renumbered {cfg : Config} (hcore : ¬IsGenerated cfg.corePackage) :
    (∀ (d : Datum) (ls : List Loop) (m k : Nat),
      (d.compile cfg).outcome ⟨m + k, ls.map (·.shift k)⟩ =
        (((d.compile cfg).outcome ⟨m, ls⟩).1.map (·.mapNames (renumber k)),
          ((d.compile cfg).outcome ⟨m, ls⟩).2.shift k)) ∧
    ∀ (steps : List Step) (step : Step), ∃ k,
      (Step.outputs cfg steps {}).2 = ⟨k, []⟩ ∧
      (step.compile cfg).outcome ⟨k, []⟩ =
        (((step.compile cfg).outcome {}).1.map (·.mapNames (renumber k)),
          ((step.compile cfg).outcome {}).2.shift k) := by
  refine ⟨fun d ls m k => d.compile_shift hcore k ⟨m, ls⟩, fun steps step => ?_⟩
  obtain ⟨k, -, hs⟩ := Step.state_outputs cfg steps {}
  refine ⟨2 * k, hs.trans (by rw [Nat.zero_add]), ?_⟩
  have h := step.compile_shift hcore (2 * k) {}
  rwa [Session.shift, Nat.zero_add] at h

/-- A loop compiled after two other loops. -/
theorem compile_renumbered_endlessLoop :
    ¬IsGenerated (Config.corePackage {}) ∧ renumber 4 "__continue0" = "__continue4" ∧
      (endlessLoop.compile {}).outcome ⟨4, []⟩ =
        (.ok ((endlessLoopTerm.emit {}).mapNames (renumber 4)), ⟨6, []⟩) := by
  have hcore : ¬IsGenerated (Config.corePackage {}) := not_isGenerated_of_unmarked rfl
  have hnew : (endlessLoop.compile {}).outcome ⟨0, []⟩ =
      (.ok (endlessLoopTerm.emit {}), ⟨2, []⟩) :=
    Check.outcome_seq endlessLoop_checked.check rfl
  refine ⟨hcore, renumber_flag 4 0, ?_⟩
  have h := (compile_renumbered hcore).1 endlessLoop [] 0 4
  rw [hnew] at h
  exact h

end SmallLisp
