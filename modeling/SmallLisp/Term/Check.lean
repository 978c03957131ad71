import SmallLisp.Form.Size
import SmallLisp.Session

/-! Checking data: each datum becomes a term, or the first error in it is found. The shape of a
call is checked before its parts, and the parts from left to right. The initial values of a loop
are outside the loop: a `recur` there belongs to the loop around it. -/

namespace SmallLisp.Datum

mutual

def check (d : Datum) : Check Term :=
  match d with
  | .symbol name => pure (.symbol name)
  | .number literal kind => pure (.number literal kind)
  | .string value => pure (.string value)
  | .vector elements => do
    let elements ← checkAll elements
    return .vector elements
  | .call callee args =>
    match _h : Form.ofCall callee args with
    | .error e => Check.fail e
    | .ok f => checkForm f
termination_by 3 * d.size
decreasing_by
  · simp only [size]
    omega
  · have := Form.size_ofCall _h
    omega

def checkForm (f : Form) : Check Term :=
  match f with
  | .call callee args => do
    let callee ← check callee
    let args ← checkAll args
    return .call callee args
  | .not operand => do
    let operand ← check operand
    return .not operand
  | .operator op args => do
    let args ← checkAll args
    return .operator op args
  | .logic op first rest => do
    let first ← check first
    let rest ← checkAll rest
    return .logic op first rest
  | .loop bindings effects result => do
    let number ← Check.reserve
    let terms ← checkBindings bindings
    let (effects, result) ← Check.inside ⟨number, bindings.map (·.targets)⟩ do
      let effects ← checkAll effects
      let result ← check result
      return (effects, result)
    return .loop number terms effects result
  | .recur args => do
    let loop ← Check.innermost
    if args.length = loop.targets.length then
      let values ← checkAll args
      return .recur loop values
    else
      Check.fail (.recurCount loop.targets.length args.length)
  | .assert type value => do
    let value ← check value
    return .assert type value
  | .get args => do
    let args ← checkAll args
    return .get args
  | .letIn bindings effects result => do
    let bindings ← checkBindings bindings
    let effects ← checkAll effects
    let result ← check result
    return .letIn bindings effects result
  | .cond test yes no => do
    let test ← check test
    let yes ← check yes
    match no with
    | none => return .cond test yes none
    | some no => do
      let no ← check no
      return .cond test yes (some no)
  | .fn params effects result => do
    let effects ← checkAll effects
    let result ← check result
    return .fn params effects result
termination_by 3 * f.size + 2
decreasing_by all_goals
  simp only [Form.size, Option.elim]
  omega

def checkAll (ds : List Datum) : Check (List Term) :=
  match ds with
  | [] => pure []
  | d :: ds => do
    let t ← check d
    let ts ← checkAll ds
    return t :: ts
termination_by 3 * sizes ds + 1
decreasing_by
  · simp only [sizes]
    omega
  · have := size_pos d
    simp only [sizes]
    omega

def checkBindings (bs : List (Binding Datum)) : Check (List (Binding Term)) :=
  match bs with
  | [] => pure []
  | ⟨targets, value⟩ :: bs => do
    let value ← check value
    let rest ← checkBindings bs
    return ⟨targets, value⟩ :: rest
termination_by 3 * Binding.sizes bs + 1
decreasing_by
  · simp only [Binding.sizes]
    omega
  · have := size_pos value
    simp only [Binding.sizes]
    omega

end

theorem check_of_error {callee : Datum} {args : List Datum} {e : CompileError}
    (h : Form.ofCall callee args = .error e) : (call callee args).check = Check.fail e := by
  rw [check]
  split
  · rename_i e' he
    cases h.symm.trans he
    rfl
  · simp_all

theorem check_of_form {callee : Datum} {args : List Datum} {f : Form}
    (h : Form.ofCall callee args = .ok f) : (call callee args).check = checkForm f := by
  rw [check]
  split
  · simp_all
  · rename_i g hg
    cases h.symm.trans hg
    rfl

/-- What is checked of a call is the form that it is read as. -/
theorem check_congr {callee callee' : Datum} {args args' : List Datum}
    (h : Form.ofCall callee args = Form.ofCall callee' args') :
    (call callee args).check = (call callee' args').check := by
  cases hf : Form.ofCall callee args with
  | error e => rw [check_of_error hf, check_of_error (h ▸ hf)]
  | ok f => rw [check_of_form hf, check_of_form (h ▸ hf)]

/-- Induction along a check: from the parts that are checked to the whole. The parts of a call are
those of the form it is read as. -/
theorem check_induction {ofDatum : Datum → Prop} {ofForm : Form → Prop}
    {ofBindings : List (Binding Datum) → Prop} {ofAll : List Datum → Prop}
    (symbol : ∀ name, ofDatum (.symbol name))
    (number : ∀ literal kind, ofDatum (.number literal kind))
    (string : ∀ value, ofDatum (.string value))
    (vector : ∀ elements, ofAll elements → ofDatum (.vector elements))
    (malformed : ∀ callee args e, Form.ofCall callee args = .error e →
      ofDatum (.call callee args))
    (form : ∀ callee args f, Form.ofCall callee args = .ok f → ofForm f →
      ofDatum (.call callee args))
    (call : ∀ callee args, ofDatum callee → ofAll args → ofForm (.call callee args))
    (not : ∀ operand, ofDatum operand → ofForm (.not operand))
    (operator : ∀ op args, ofAll args → ofForm (.operator op args))
    (logic : ∀ op first rest, ofDatum first → ofAll rest → ofForm (.logic op first rest))
    (loop : ∀ bindings effects result, ofBindings bindings → ofAll effects → ofDatum result →
      ofForm (.loop bindings effects result))
    (recur : ∀ args, ofAll args → ofForm (.recur args))
    (assert : ∀ type value, ofDatum value → ofForm (.assert type value))
    (get : ∀ args, ofAll args → ofForm (.get args))
    (letIn : ∀ bindings effects result, ofBindings bindings → ofAll effects → ofDatum result →
      ofForm (.letIn bindings effects result))
    (cond : ∀ test yes, ofDatum test → ofDatum yes → ofForm (.cond test yes none))
    (condElse : ∀ test yes no, ofDatum test → ofDatum yes → ofDatum no →
      ofForm (.cond test yes (some no)))
    (fn : ∀ params effects result, ofAll effects → ofDatum result →
      ofForm (.fn params effects result))
    (noBindings : ofBindings [])
    (binding : ∀ targets value bs, ofDatum value → ofBindings bs →
      ofBindings (⟨targets, value⟩ :: bs))
    (nil : ofAll [])
    (cons : ∀ d ds, ofDatum d → ofAll ds → ofAll (d :: ds)) :
    (∀ d, ofDatum d) ∧ (∀ f, ofForm f) ∧ (∀ bs, ofBindings bs) ∧ (∀ ds, ofAll ds) := by
  refine check.mutual_induct ofDatum ofForm ofBindings ofAll symbol number string vector malformed
    form call not operator logic loop (fun args hargs => ?_) assert get letIn
    (fun test yes no htest hyes hno => ?_) fn noBindings binding nil cons
  · exact recur args (hargs ⟨0, []⟩)
  · cases no with
    | none => exact cond test yes htest hyes
    | some no => exact condElse test yes no htest hyes hno

end SmallLisp.Datum
