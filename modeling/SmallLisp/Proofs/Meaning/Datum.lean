import SmallLisp.Form.Size
import SmallLisp.Proofs.Meaning.Program
import SmallLisp.Term.Emit

/-!
# Meaning of data

A `loop` is a function of its names that is called at once, and `recur` calls it again: `again` is
the call that a `recur` in the place of the datum makes. Bindings are evaluated in order, each in
sight of those before it. Each loop that is entered may make `n` rounds.
-/

namespace SmallLisp

open Program

/-- A call of a loop, given the values of its names. -/
abbrev Again (h : Host) : Type := List h.Value → h.World → h.Result (h.Value × h.World)

/-- The function that calls itself in its body, at most `k` rounds deep. -/
def rounds {h : Host} (body : Again h → Again h) : Nat → Again h
  | 0, _, w => .error (.unfinished w)
  | k + 1, vs, w => body (rounds body k) vs w

/-- The names of bindings, in order. -/
def Binding.names (bs : List (Binding α)) : List String := bs.flatMap (·.targets)

mutual

def Datum.eval (h : Host) (n : Nat) (again : Again h) (d : Datum) (ρ : Env h) (w : h.World) :
    h.Result (h.Value × h.World) :=
  match d with
  | .symbol x =>
    match ρ x with
    | some v => return (v, w)
    | none => do
      let v ← (Expr.ofName x).resolve h w
      return (v, w)
  | .number literal kind => return (h.literal kind.literalKind literal, w)
  | .string value => return (h.literal .string value, w)
  | .vector elements => do
    let (vs, w) ← Datum.evalAll h n again elements ρ w
    return h.slice vs w
  | .call callee args =>
    match _h : Form.ofCall callee args with
    | .error _ => .error .stuck
    | .ok f => f.eval h n again ρ w
termination_by 3 * d.size
decreasing_by
  · simp only [Datum.size]
    omega
  · have := Form.size_ofCall _h
    omega

def Form.eval (h : Host) (n : Nat) (again : Again h) (f : Form) (ρ : Env h) (w : h.World) :
    h.Result (h.Value × h.World) :=
  match f with
  | .call callee args => do
    let (v, w) ← callee.eval h n again ρ w
    let (vs, w) ← Datum.evalAll h n again args ρ w
    h.call v vs w
  | .not operand => do
    let (v, w) ← operand.eval h n again ρ w
    let b ← h.truth v
    return (h.bool !b, w)
  | .operator op args => do
    let v ← h.require (h.operator op w)
    let (vs, w) ← Datum.evalAll h n again args ρ w
    h.call v vs w
  | .logic op first rest => do
    let (v, w) ← first.eval h n again ρ w
    Datum.evalLogic h n again op v rest ρ w
  | .loop bindings effects result => do
    let (vs, w) ← Binding.evalAll h n again bindings ρ w
    rounds (fun again vs w => do
      let (_, w) ← Datum.evalAll h n again effects (ρ.setAll (Binding.names bindings) vs) w
      result.eval h n again (ρ.setAll (Binding.names bindings) vs) w) n vs w
  | .recur args => do
    let (vs, w) ← Datum.evalAll h n again args ρ w
    again vs w
  | .get args => do
    let v ← h.require (h.get w)
    let (vs, w) ← Datum.evalAll h n again args ρ w
    h.call v vs w
  | .letIn bindings effects result => do
    let (vs, w) ← Binding.evalAll h n again bindings ρ w
    let (_, w) ← Datum.evalAll h n again effects (ρ.setAll (Binding.names bindings) vs) w
    result.eval h n again (ρ.setAll (Binding.names bindings) vs) w
  | .cond test yes no => do
    let (v, w) ← test.eval h n again ρ w
    let b ← h.truth v
    if b then
      yes.eval h n again ρ w
    else
      match no with
      | none => return (h.nil, w)
      | some no => no.eval h n again ρ w
  | .assert .. | .fn .. => .error .stuck
termination_by 3 * f.size + 2
decreasing_by all_goals
  simp only [Form.size, Option.elim]
  omega

def Datum.evalAll (h : Host) (n : Nat) (again : Again h) (ds : List Datum)
    (ρ : Env h) (w : h.World) : h.Result (List h.Value × h.World) :=
  match ds with
  | [] => return ([], w)
  | d :: ds => do
    let (v, w) ← d.eval h n again ρ w
    let (vs, w) ← Datum.evalAll h n again ds ρ w
    return (v :: vs, w)
termination_by 3 * Datum.sizes ds + 1
decreasing_by
  · simp only [Datum.sizes]
    omega
  · have := Datum.size_pos d
    simp only [Datum.sizes]
    omega

/-- The rest of a chain after the value `v`, up to the operand that decides it. -/
def Datum.evalLogic (h : Host) (n : Nat) (again : Again h) (op : LogicOp)
    (v : h.Value) (ds : List Datum) (ρ : Env h) (w : h.World) : h.Result (h.Value × h.World) :=
  match ds with
  | [] => return (v, w)
  | d :: ds => do
    let b ← h.truth v
    if b = op.decisive then
      return (h.bool b, w)
    else
      let (v, w) ← d.eval h n again ρ w
      let b ← h.truth v
      Datum.evalLogic h n again op (h.bool b) ds ρ w
termination_by 3 * Datum.sizes ds + 1
decreasing_by
  · simp only [Datum.sizes]
    omega
  · have := Datum.size_pos d
    simp only [Datum.sizes]
    omega

/-- The values of bindings of one name each. -/
def Binding.evalAll (h : Host) (n : Nat) (again : Again h)
    (bs : List (Binding Datum)) (ρ : Env h) (w : h.World) : h.Result (List h.Value × h.World) :=
  match bs with
  | [] => return ([], w)
  | ⟨[x], d⟩ :: bs => do
    let (v, w) ← d.eval h n again ρ w
    let (vs, w) ← Binding.evalAll h n again bs (ρ.set x v) w
    return (v :: vs, w)
  | _ :: _ => .error .stuck
termination_by 3 * Binding.sizes bs + 1
decreasing_by
  · simp only [Binding.sizes]
    omega
  · have := Datum.size_pos d
    simp only [Binding.sizes]
    omega

end

theorem Datum.eval_call {h : Host} {again : Again h} {ρ : Env h} {w : h.World}
    (hf : Form.ofCall callee args = .ok f) :
    (Datum.call callee args).eval h n again ρ w = f.eval h n again ρ w := by
  rw [Datum.eval]
  split
  · simp_all
  · rename_i g hg
    cases hf.symm.trans hg
    rfl

/-- Nothing after the operand that decides a chain is evaluated. -/
theorem Datum.evalLogic_decisive {again : Again h} {ds : List Datum} {ρ : Env h} {w : h.World} :
    Datum.evalLogic h n again op (h.bool op.decisive) ds ρ w =
      pure (h.bool op.decisive, w) := by
  cases ds with
  | nil => rw [Datum.evalLogic]
  | cons d ds => rw [Datum.evalLogic, h.truth_bool, pure_bind, if_pos rfl]

theorem Binding.length_of_evalAll {again : Again h} {bs : List (Binding Datum)} {ρ : Env h}
    {w : h.World} {r : List h.Value × h.World} (hr : evalAll h n again bs ρ w = .ok r) :
    r.1.length = (Binding.names bs).length := by
  induction bs generalizing ρ w r with
  | nil =>
    rw [evalAll] at hr
    cases hr
    rfl
  | cons b bs ih =>
    unfold evalAll at hr
    split at hr
    · contradiction
    · rename_i x d cs heq
      obtain ⟨rfl, rfl⟩ := List.cons.inj heq
      obtain ⟨a, -, hr⟩ := Outcome.bind_eq_ok.1 hr
      obtain ⟨a', ha', hr⟩ := Outcome.bind_eq_ok.1 hr
      cases hr
      exact congrArg (· + 1) (ih ha')
    · cases hr

theorem Datum.length_of_evalAll {again : Again h} {ds : List Datum} {ρ : Env h}
    {w : h.World} {r : List h.Value × h.World} (hr : evalAll h n again ds ρ w = .ok r) :
    r.1.length = ds.length := by
  induction ds generalizing w r with
  | nil =>
    rw [evalAll] at hr
    cases hr
    rfl
  | cons d ds ih =>
    rw [evalAll] at hr
    obtain ⟨a, -, hr⟩ := Outcome.bind_eq_ok.1 hr
    obtain ⟨a', ha', hr⟩ := Outcome.bind_eq_ok.1 hr
    cases hr
    exact congrArg (· + 1) (ih ha')

end SmallLisp
