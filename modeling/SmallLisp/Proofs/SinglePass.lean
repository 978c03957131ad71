import SmallLisp.Proofs.Emitted
import SmallLisp.Proofs.Session

/-!
# Compilation in a single pass

What a datum is compiled to is emitted once all of it is checked. That is the same as one pass over
the source that emits each part as soon as it is checked: every form is compiled by compiling its
parts from left to right, with the numbers taken and the loops entered on the way
(`Datum.compile_eq`, `Datum.compileForm_eq`), and so is a call at the top level
(`Datum.compileTopLevel_eq`). The configuration chooses names in what is put together from the
results, but no check. The equations of the other parts of a file are `Datum.compileItems_cons` and
`Datum.compileFile_eq`.
-/

namespace SmallLisp

open Program

/-- What is done with the result of a check may be done inside the loop or after it. -/
theorem Check.inside_map {l : Loop} {x : Check α} {f : α → β} :
    (inside l do let a ← x; return f a) = (do let a ← inside l x; return f a) := by
  funext ⟨m, ls⟩
  change (inside l (x >>= _)).outcome ⟨m, ls⟩ = (inside l x >>= _).outcome ⟨m, ls⟩
  rw [outcome_inside, outcome_bind, outcome_bind, outcome_inside]
  obtain ⟨r, s⟩ := x.outcome ⟨m, l :: ls⟩
  cases r <;> rfl

namespace Datum

variable (cfg : Config)

def compileForm (f : Form) : Check Expr := do
  let t ← checkForm f
  return t.emit cfg

/-- Compiles the declarations for bindings. -/
def compileBindings (bs : List (Binding Datum)) : Check (List Stmt) := do
  let bs ← checkBindings bs
  return Term.emitBindings cfg bs

theorem compile_eq (d : Datum) :
    d.compile cfg =
      match d with
      | .symbol name => pure (.ofName name)
      | .number literal kind => pure (.literal kind.literalKind literal)
      | .string value => pure (.string value)
      | .vector elements => do
        let es ← compileAll cfg elements
        return .composite (.slice cfg.any) es
      | .call callee args =>
        match Form.ofCall callee args with
        | .error e => Check.fail e
        | .ok f => compileForm cfg f := by
  cases d with
  | call callee args =>
    cases hf : Form.ofCall callee args with
    | error e =>
      simp only [compile, check_of_error hf, hf]
      rfl
    | ok f => simp only [compile, check_of_form hf, hf, compileForm]
  | vector elements =>
    simp only [compile, compileAll, check, bind_assoc, pure_bind, Term.emit]
  | _ => simp only [compile, check, pure_bind, Term.emit]

theorem compileAll_eq (ds : List Datum) :
    compileAll cfg ds =
      match ds with
      | [] => pure []
      | d :: ds => do
        let e ← d.compile cfg
        let es ← compileAll cfg ds
        return e :: es := by
  cases ds <;>
    simp only [compile, compileAll, checkAll, bind_assoc, pure_bind, Term.emitAll]

theorem compileBindings_eq (bs : List (Binding Datum)) :
    compileBindings cfg bs =
      match bs with
      | [] => pure []
      | ⟨targets, value⟩ :: bs => do
        let e ← value.compile cfg
        let ss ← compileBindings cfg bs
        return .assign .define (targets.map Expr.ofName) [e] :: ss := by
  cases bs with
  | nil => simp only [compileBindings, checkBindings, pure_bind, Term.emitBindings]
  | cons b bs =>
    obtain ⟨targets, value⟩ := b
    simp only [compile, compileBindings, checkBindings, bind_assoc, pure_bind, Term.emitBindings]

theorem compileForm_eq (f : Form) :
    compileForm cfg f =
      match f with
      | .call callee args => do
        let e ← callee.compile cfg
        let es ← compileAll cfg args
        return .call e es
      | .not operand => do
        let e ← operand.compile cfg
        return .not e
      | .operator op args => do
        let es ← compileAll cfg args
        return .call (cfg.coreHelper op.helper) es
      | .logic op first rest => do
        let e ← first.compile cfg
        let es ← compileAll cfg rest
        return es.foldl (.logic op) e
      | .loop bindings effects result => do
        let n ← Check.reserve
        let ss ← compileBindings cfg bindings
        let l : Loop := ⟨n, bindings.map (·.targets)⟩
        let (es, e) ← Check.inside l do
          let es ← compileAll cfg effects
          let e ← result.compile cfg
          return (es, e)
        return cfg.closure (l.passes cfg ss (es.map .expr) e)
      | .recur args => do
        let l ← Check.innermost
        if args.length = l.targets.length then
          let es ← compileAll cfg args
          return cfg.closure (l.update es ++ [.set l.flag (.bool true), .ret [.nil]])
        else
          Check.fail (.recurCount l.targets.length args.length)
      | .assert type value => do
        let e ← value.compile cfg
        return .assert e (.ofName type)
      | .get args => do
        let es ← compileAll cfg args
        return .call (cfg.coreFunction "get") es
      | .letIn bindings effects result => do
        let ss ← compileBindings cfg bindings
        let es ← compileAll cfg effects
        let e ← result.compile cfg
        return cfg.closure (ss ++ es.map .expr ++ [.ret [e]])
      | .cond test yes no => do
        let t ← test.compile cfg
        let y ← yes.compile cfg
        let z ← match no with
          | none => pure .nil
          | some no => no.compile cfg
        return cfg.closure [.branch t [.ret [y]] (some [.ret [z]])]
      | .fn params effects result => do
        let es ← compileAll cfg effects
        let e ← result.compile cfg
        return .func ⟨params.groups cfg, [cfg.any]⟩ (es.map .expr ++ [.ret [e]]) := by
  cases f with
  | loop bindings effects result =>
    have hbody (l : Loop) :
        (Check.inside l do
          let es ← compileAll cfg effects
          let e ← result.compile cfg
          return (es, e)) =
        (do
          let r ← Check.inside l do
            let ts ← checkAll effects
            let t ← result.check
            return (ts, t)
          return (Term.emitAll cfg r.1, r.2.emit cfg)) := by
      rw [← Check.inside_map]
      simp only [compile, compileAll, bind_assoc, pure_bind]
    simp only [hbody, compileForm, checkForm, compileBindings, bind_assoc, pure_bind, Term.emit,
      emitEffects_eq]
    rfl
  | recur args =>
    simp only [compileForm, checkForm, compileAll, bind_assoc]
    refine bind_congr fun l => ?_
    split
    · simp only [bind_assoc, pure_bind, Term.emit]
    · rfl
  | cond test yes no =>
    cases no <;>
      simp only [compileForm, checkForm, compile, bind_assoc, pure_bind, Term.emit, Term.emitElse]
  | _ =>
    simp only [compileForm, checkForm, compile, compileAll, compileBindings, bind_assoc, pure_bind,
      Term.emit, emitEffects_eq]

theorem compileTopLevel_eq (d : Datum) :
    d.compileTopLevel cfg =
      match d with
      | .call (.symbol "def") args =>
        match args with
        | .symbol name :: value :: _ => do
          let e ← value.compile cfg
          return definition cfg (Identifier.ofName name) e
        | d :: _ :: _ => Check.fail (.argument "def" (.definedName d))
        | _ => Check.fail (.argumentCount "def" (.atLeast 2) args.length)
      | .call (.symbol "ns") args => do
        let es ← compileAll cfg args
        return discarded (.call (.ofName "ns") es)
      | .call callee args => do
        let e ← (Datum.call callee args).compile cfg
        return discarded e
      | d => Check.fail (.topLevel d) := by
  unfold compileTopLevel
  split
  · rename_i args
    obtain _ | ⟨d, _ | ⟨value, rest⟩⟩ := args
    · rfl
    · cases d <;> rfl
    · cases d with
      | symbol name =>
        simp only [checkTopLevel, checkDefinition, compile, bind_assoc, pure_bind, TopLevel.emit]
      | _ => rfl
  · simp only [checkTopLevel, compileAll, bind_assoc, pure_bind, TopLevel.emit, Term.emit]
  · simp only [checkTopLevel, compile, bind_assoc, pure_bind, TopLevel.emit]
  · rename_i hcall
    cases d with
    | call callee args => exact (hcall _ _ rfl).elim
    | _ => rfl

end Datum

end SmallLisp
