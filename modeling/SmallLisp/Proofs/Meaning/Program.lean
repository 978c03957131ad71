import Mathlib.Data.List.Induction
import SmallLisp.Proofs.Meaning.Host
import SmallLisp.Reference

/-!
# Meaning of programs

Every block has variables of its own. `:=` and `var` declare them in the current block, `=` first
evaluates all values and then assigns them to the innermost variables of its names, and a function
that is called where it stands sees and assigns the variables around it. Each loop that is entered
may make `n` passes. Where Go leaves the order of operands open, it is from left to right. What Go
rejects before a program runs, such as a variable that is not used, is not considered.
-/

namespace SmallLisp.Program

/-- The variables in scope: those of each block, innermost first. -/
abbrev Scopes (h : Host) : Type := List (Env h)

namespace Scopes

variable {h : Host}

def lookup (x : String) : Scopes h → Option h.Value
  | [] => none
  | F :: sc => (F x).or (lookup x sc)

/-- The innermost variable of the name takes the value. -/
def assign (x : String) (v : h.Value) : Scopes h → Option (Scopes h)
  | [] => none
  | F :: sc => if (F x).isSome then some (F.set x v :: sc) else (assign x v sc).map (F :: ·)

/-- Each name takes its value. The blank name takes none. -/
def assignAll : List String → List h.Value → Scopes h → Option (Scopes h)
  | [], [], sc => some sc
  | x :: xs, v :: vs, sc =>
    if x = "_" then assignAll xs vs sc else (assign x v sc).bind (assignAll xs vs)
  | _, _, _ => none

/-- Gives each name that is not blank its value in a block. -/
def put (xs : List String) (vs : List h.Value) (F : Env h) : Env h :=
  ((xs.zip vs).filter (·.1 != "_")).foldl (fun F p => F.set p.1 p.2) F

/-- Declares names in the current block, where at least one of them must be new. -/
def define (xs : List String) (vs : List h.Value) : Scopes h → Option (Scopes h)
  | [] => none
  | F :: sc =>
    if xs.length = vs.length ∧ xs.any fun x => x != "_" && (F x).isNone then
      some (put xs vs F :: sc)
    else
      none

/-- Declares names in the current block, where all of them must be new. -/
def declare (xs : List String) (vs : List h.Value) : Scopes h → Option (Scopes h)
  | [] => none
  | F :: sc =>
    if xs.length = vs.length ∧ xs.all fun x => x == "_" || (F x).isNone then
      some (put xs vs F :: sc)
    else
      none

/-- The value of what a path selects. Nothing can be selected from a variable. -/
def select (sc : Scopes h) (path : List String) (w : h.World) : h.Result h.Value :=
  match path with
  | [x] =>
    match sc.lookup x with
    | some v => pure v
    | none => h.read [x] w
  | root :: _ => if (sc.lookup root).isSome then .error .stuck else h.read path w
  | [] => .error .stuck

end Scopes

namespace Expr

def name? : Expr → Option String
  | .ident x => some x
  | _ => none

/-- The names from a package to one of its members. -/
def path? : Expr → Option (List String)
  | .ident x => some [x]
  | .selector base field => base.path?.map (· ++ [field])
  | _ => none

/-- The name that a path starts with. -/
def root? : Expr → Option String
  | .ident x => some x
  | .selector base _ => base.root?
  | _ => none

end Expr

/-- What a reference stands for where no block declares its root. -/
def Expr.resolve (h : Host) (e : Expr) (w : h.World) : h.Result h.Value := do
  let path ← h.require e.path?
  h.read path w

/-- How statements end: the next one follows, or the function returns. -/
inductive Flow (h : Host) where
  | next
  | ret (v : h.Value)

def Flow.value? {h : Host} : Flow h → Option h.Value
  | .next => none
  | .ret v => some v

/-- Passes as long as the test holds, at most `k`. -/
def repeats {h : Host} (test : Scopes h → h.World → h.Result (Bool × Scopes h × h.World))
    (pass : Scopes h → h.World → h.Result (Flow h × Scopes h × h.World)) (k : Nat) (sc : Scopes h)
    (w : h.World) : h.Result (Flow h × Scopes h × h.World) := do
  let (again, sc, w) ← test sc w
  if again then
    match k with
    | 0 => .error (.unfinished w)
    | k + 1 =>
      let (flow, sc, w) ← pass sc w
      match flow with
      | .next => repeats test pass k sc w
      | .ret v => return (.ret v, sc, w)
  else
    return (.next, sc, w)

mutual

def Expr.eval (h : Host) (n : Nat) (e : Expr) (sc : Scopes h) (w : h.World) :
    h.Result (h.Value × Scopes h × h.World) :=
  match e with
  | .ident x => do
    let v ← sc.select [x] w
    return (v, sc, w)
  | .selector base field => do
    let path ← h.require (Expr.selector base field).path?
    let v ← sc.select path w
    return (v, sc, w)
  | .literal kind text => return (h.literal kind text, sc, w)
  | .call (.func ⟨[], _⟩ body) [] => do
    let (flow, sc, w) ← Stmt.execAll h n body (Env.empty :: sc) w
    let v ← h.require flow.value?
    return (v, sc.tail, w)
  | .call callee args => do
    let (f, sc, w) ← callee.eval h n sc w
    let (vs, sc, w) ← Expr.evalAll h n args sc w
    let (v, w) ← h.call f vs w
    return (v, sc, w)
  | .composite _ elements => do
    let (vs, sc, w) ← Expr.evalAll h n elements sc w
    let (v, w) := h.slice vs w
    return (v, sc, w)
  | .not operand => do
    let (v, sc, w) ← operand.eval h n sc w
    let b ← h.truth v
    return (h.bool !b, sc, w)
  | .logic op left right => do
    let (v, sc, w) ← left.eval h n sc w
    let b ← h.truth v
    if b = op.decisive then
      return (h.bool b, sc, w)
    else
      let (v, sc, w) ← right.eval h n sc w
      let b ← h.truth v
      return (h.bool b, sc, w)
  | .func .. | .assert .. => .error .stuck

def Expr.evalAll (h : Host) (n : Nat) (es : List Expr) (sc : Scopes h) (w : h.World) :
    h.Result (List h.Value × Scopes h × h.World) :=
  match es with
  | [] => return ([], sc, w)
  | e :: es => do
    let (v, sc, w) ← e.eval h n sc w
    let (vs, sc, w) ← Expr.evalAll h n es sc w
    return (v :: vs, sc, w)

def Stmt.exec (h : Host) (n : Nat) (s : Stmt) (sc : Scopes h) (w : h.World) :
    h.Result (Flow h × Scopes h × h.World) :=
  match s with
  | .assign op targets values => do
    let (vs, sc, w) ← Expr.evalAll h n values sc w
    let xs ← h.require (targets.mapM Expr.name?)
    let sc ← h.require <|
      match op with
      | .define => sc.define xs vs
      | .assign => sc.assignAll xs vs
    return (.next, sc, w)
  | .var xs _ [] => do
    let sc ← h.require (sc.declare xs (xs.map fun _ => h.nil))
    return (.next, sc, w)
  | .var xs _ values => do
    let (vs, sc, w) ← Expr.evalAll h n values sc w
    let sc ← h.require (sc.declare xs vs)
    return (.next, sc, w)
  | .branch test yes no => do
    let (v, sc, w) ← test.eval h n sc w
    let b ← h.truth v
    let (flow, sc, w) ←
      if b then Stmt.execAll h n yes (Env.empty :: sc) w
      else Stmt.execElse h n no (Env.empty :: sc) w
    return (flow, sc.tail, w)
  | .loop init test post body => do
    let (_, sc, w) ← Stmt.execIn h n init (Env.empty :: sc) w
    let (flow, sc, w) ← repeats (Expr.evalTest h n test)
      (fun sc w => do
        let (flow, sc, w) ← Stmt.execAll h n body (Env.empty :: sc) w
        match flow with
        | .next => Stmt.execIn h n post sc.tail w
        | .ret v => return (.ret v, sc.tail, w))
      n sc w
    return (flow, sc.tail, w)
  | .ret [value] => do
    let (v, sc, w) ← value.eval h n sc w
    return (.ret v, sc, w)
  | .ret _ => .error .stuck
  | .expr value => do
    let (_, sc, w) ← value.eval h n sc w
    return (.next, sc, w)

/-- The statements of a block, up to the first that returns. -/
def Stmt.execAll (h : Host) (n : Nat) (ss : List Stmt) (sc : Scopes h) (w : h.World) :
    h.Result (Flow h × Scopes h × h.World) :=
  match ss with
  | [] => return (.next, sc, w)
  | s :: ss => do
    let (flow, sc, w) ← s.exec h n sc w
    match flow with
    | .next => Stmt.execAll h n ss sc w
    | .ret v => return (.ret v, sc, w)

def Stmt.execElse (h : Host) (n : Nat) (no : Option (List Stmt)) (sc : Scopes h) (w : h.World) :
    h.Result (Flow h × Scopes h × h.World) :=
  match no with
  | none => return (.next, sc, w)
  | some body => Stmt.execAll h n body sc w

def Stmt.execIn (h : Host) (n : Nat) (s : Option Stmt) (sc : Scopes h) (w : h.World) :
    h.Result (Flow h × Scopes h × h.World) :=
  match s with
  | none => return (.next, sc, w)
  | some s => s.exec h n sc w

/-- A loop without a test goes on. -/
def Expr.evalTest (h : Host) (n : Nat) (test : Option Expr) (sc : Scopes h) (w : h.World) :
    h.Result (Bool × Scopes h × h.World) :=
  match test with
  | none => return (true, sc, w)
  | some e => do
    let (v, sc, w) ← e.eval h n sc w
    let b ← h.truth v
    return (b, sc, w)

end

/-! ## Scopes -/

namespace Scopes

variable {h : Host} {x y root : String} {xs path : List String} {v : h.Value} {vs : List h.Value}
  {F : Env h} {sc sc' : Scopes h} {w : h.World}

@[simp] theorem lookup_empty : lookup x (Env.empty :: sc) = lookup x sc := rfl

theorem lookup_cons_none (hF : F x = none) : lookup x (F :: sc) = lookup x sc := by
  rw [lookup, hF, Option.none_or]

theorem lookup_set : lookup y (F.set x v :: sc) = if y = x then some v else lookup y (F :: sc) := by
  split
  · rename_i hy
    rw [hy, lookup, Env.set_self, Option.some_or]
  · rename_i hy
    rw [lookup, Env.set_of_ne hy, lookup]

theorem select_some (hx : sc.lookup x = some v) : sc.select [x] w = pure v := by
  rw [select, hx]

theorem select_none (hx : sc.lookup root = none) :
    sc.select (root :: path) w = h.read (root :: path) w := by
  cases path with
  | nil => rw [select, hx]
  | cons field path =>
    rw [select, hx, Option.isSome_none, if_neg Bool.false_ne_true]
    exact nofun

theorem assign_some (hx : (F x).isSome) : assign x v (F :: sc) = some (F.set x v :: sc) :=
  if_pos hx

theorem assign_none (hx : F x = none) : assign x v (F :: sc) = (assign x v sc).map (F :: ·) := by
  rw [assign, hx, Option.isSome_none, if_neg Bool.false_ne_true]

theorem assign_block :
    assign x v (Env.empty :: sc) = (assign x v sc).map (Env.empty :: ·) := assign_none rfl

theorem assignAll_some (hF : ∀ x ∈ xs, (F x).isSome) (hblank : "_" ∉ xs)
    (hlen : vs.length = xs.length) :
    assignAll xs vs (F :: sc) = some (F.setAll xs vs :: sc) := by
  induction xs generalizing vs F with
  | nil =>
    obtain rfl := List.length_eq_zero_iff.1 hlen
    rfl
  | cons x xs ih =>
    obtain ⟨v, vs, rfl⟩ := List.exists_cons_of_length_eq_add_one hlen
    have hx : x ≠ "_" := by
      rintro rfl
      exact hblank (.head _)
    rw [assignAll, if_neg hx, assign_some (hF x (.head _)), Option.bind_some]
    refine ih (fun y hy => ?_) (fun hmem => hblank (.tail _ hmem)) (Nat.succ.inj hlen)
    by_cases hyx : y = x
    · rw [hyx, Env.set_self]
      rfl
    · rw [Env.set_of_ne hyx]
      exact hF y (.tail _ hy)

theorem assignAll_none (hF : ∀ x ∈ xs, F x = none) :
    assignAll xs vs (F :: sc) = (assignAll xs vs sc).map (F :: ·) := by
  induction xs generalizing vs sc with
  | nil => cases vs <;> rfl
  | cons x xs ih =>
    cases vs with
    | nil => rfl
    | cons v vs =>
      have ih {sc : Scopes h} :
          assignAll xs vs (F :: sc) = (assignAll xs vs sc).map (F :: ·) :=
        ih fun y hy => hF y (.tail _ hy)
      rw [assignAll, assignAll]
      split
      · exact ih
      · rw [assign_none (hF x (.head _))]
        cases assign x v sc with
        | none => rfl
        | some sc => exact ih

theorem assignAll_block :
    assignAll xs vs (Env.empty :: sc) = (assignAll xs vs sc).map (Env.empty :: ·) :=
  assignAll_none fun _ _ => rfl

/-- An assignment declares nothing. -/
theorem lookup_assign (ha : assign x v sc = some sc') (hy : sc.lookup y = none) :
    sc'.lookup y = none := by
  induction sc generalizing sc' with
  | nil => cases ha
  | cons F sc ih =>
    obtain ⟨hF, hsc⟩ := Option.or_eq_none_iff.1 hy
    rw [assign] at ha
    split at ha
    · rename_i hx
      cases ha
      have hyx : y ≠ x := by
        rintro rfl
        rw [hF] at hx
        cases hx
      rw [lookup_set, if_neg hyx]
      exact hy
    · obtain ⟨sc'', hx, rfl⟩ := Option.map_eq_some_iff.1 ha
      rw [lookup_cons_none hF]
      exact ih hx hsc

theorem lookup_assignAll (ha : assignAll xs vs sc = some sc') (hy : sc.lookup y = none) :
    sc'.lookup y = none := by
  induction xs generalizing vs sc with
  | nil => cases vs <;> cases ha; exact hy
  | cons x xs ih =>
    cases vs with
    | nil => cases ha
    | cons v vs =>
      rw [assignAll] at ha
      split at ha
      · exact ih ha hy
      · obtain ⟨sc'', hx, ha⟩ := Option.bind_eq_some_iff.1 ha
        exact ih ha (lookup_assign hx hy)

theorem put_single (hx : x ≠ "_") : put [x] [v] F = F.set x v := by
  simp [put, hx]

theorem define_single (hx : x ≠ "_") (hF : F x = none) :
    define [x] [v] (F :: sc) = some (F.set x v :: sc) := by
  simp [define, put_single, hx, hF]

theorem declare_single (hx : x ≠ "_") (hF : F x = none) :
    declare [x] [v] (F :: sc) = some (F.set x v :: sc) := by
  simp [declare, put_single, hx, hF]

end Scopes

/-! ## References -/

namespace Expr

theorem path?_of_root? : ∀ {e : Expr}, e.root? = some x → ∃ path, e.path? = some (x :: path)
  | .ident _, he => ⟨[], congrArg (·.map ([·])) he⟩
  | .selector _ field, he =>
    have ⟨path, h⟩ := path?_of_root? (by exact he)
    ⟨path ++ [field], congrArg (·.map (· ++ [field])) h⟩

theorem root?_selectors (f : α → String) (xs : List α) :
    (xs.foldl (fun base a => .selector base (f a)) (.ident x) : Expr).root? = some x := by
  induction xs using List.reverseRecOn with
  | nil => rfl
  | append_singleton xs a ih => rw [List.foldl_append]; exact ih

theorem root?_ofName (name : String) : ∃ root, (ofName name).root? = some root := by
  unfold ofName
  split
  · split
    · exact ⟨_, rfl⟩
    · exact ⟨_, root?_selectors _ _⟩
  · exact ⟨_, rfl⟩

variable {h : Host} {n : Nat} {sc : Scopes h} {w : h.World}

theorem eval_ident {x : String} :
    (Expr.ident x).eval h n sc w = (do
      let v ← sc.select [x] w
      return (v, sc, w)) := rfl

theorem eval_selector {base : Expr} {field : String} :
    (Expr.selector base field).eval h n sc w = (do
      let path ← h.require (Expr.selector base field).path?
      let v ← sc.select path w
      return (v, sc, w)) := rfl

theorem evalAll_nil : Expr.evalAll h n [] sc w = pure ([], sc, w) := rfl

theorem evalAll_cons {e : Expr} {es : List Expr} :
    Expr.evalAll h n (e :: es) sc w = (do
      let (v, sc, w) ← e.eval h n sc w
      let (vs, sc, w) ← Expr.evalAll h n es sc w
      return (v :: vs, sc, w)) := rfl

theorem eval_of_root? {e : Expr} (he : e.root? = some x) (hx : sc.lookup x = none) :
    e.eval h n sc w = (do
      let v ← e.resolve h w
      return (v, sc, w)) := by
  obtain ⟨path, hpath⟩ := path?_of_root? he
  cases e with
  | ident y =>
    cases he
    rw [eval_ident, Scopes.select_none hx, resolve, path?, h.require_some, pure_bind]
  | selector base field =>
    rw [eval_selector, resolve, hpath, h.require_some, pure_bind, pure_bind,
      Scopes.select_none hx]
  | _ => cases he

theorem eval_nil (hsc : sc.lookup "nil" = none) :
    Expr.nil.eval h n sc w = pure (h.nil, sc, w) := by
  rw [Expr.nil, eval_ident, Scopes.select_none hsc, h.read_nil, pure_bind]

theorem eval_true (hsc : sc.lookup "true" = none) :
    (Expr.bool true).eval h n sc w = pure (h.bool true, sc, w) := by
  rw [Expr.bool, if_pos rfl, eval_ident, Scopes.select_none hsc, h.read_true, pure_bind]

theorem eval_false (hsc : sc.lookup "false" = none) :
    (Expr.bool false).eval h n sc w = pure (h.bool false, sc, w) := by
  rw [Expr.bool, if_neg Bool.false_ne_true, eval_ident, Scopes.select_none hsc, h.read_false,
    pure_bind]

/-- What is called is no function literal. -/
theorem eval_call {e : Expr} {es : List Expr} (he : e.root? = some x) :
    (Expr.call e es).eval h n sc w = (do
      let (f, sc, w) ← e.eval h n sc w
      let (vs, sc, w) ← Expr.evalAll h n es sc w
      let (v, w) ← h.call f vs w
      return (v, sc, w)) := by
  cases e with
  | ident | selector => rfl
  | _ => cases he

end Expr

/-! ## Statements -/

section

variable {h : Host} {n : Nat} {sc : Scopes h} {w : h.World}

namespace Stmt

theorem execAll_nil : execAll h n [] sc w = pure (.next, sc, w) := rfl

theorem execAll_cons {s : Stmt} {ss : List Stmt} :
    execAll h n (s :: ss) sc w = (do
      let (flow, sc, w) ← s.exec h n sc w
      match flow with
      | .next => execAll h n ss sc w
      | .ret v => return (.ret v, sc, w)) := rfl

theorem exec_expr {e : Expr} :
    (Stmt.expr e).exec h n sc w = (do
      let (_, sc, w) ← e.eval h n sc w
      return (.next, sc, w)) := rfl

theorem exec_ret {e : Expr} :
    (Stmt.ret [e]).exec h n sc w = (do
      let (v, sc, w) ← e.eval h n sc w
      return (.ret v, sc, w)) := rfl

/-- One name takes the value of one expression. -/
theorem exec_assign {op : AssignOp} {x : String} {e : Expr} :
    (Stmt.assign op [.ident x] [e]).exec h n sc w = (do
      let (v, sc, w) ← e.eval h n sc w
      let sc ← h.require <|
        match op with
        | .define => sc.define [x] [v]
        | .assign => sc.assignAll [x] [v]
      return (.next, sc, w)) := by
  have hexec : (Stmt.assign op [.ident x] [e]).exec h n sc w = (do
      let (vs, sc, w) ← Expr.evalAll h n [e] sc w
      let xs ← h.require (some [x])
      let sc ← h.require <|
        match op with
        | .define => sc.define xs vs
        | .assign => sc.assignAll xs vs
      return (.next, sc, w)) := rfl
  rw [hexec, Expr.evalAll_cons]
  simp only [Expr.evalAll_nil, h.require_some, bind_assoc, pure_bind]

theorem execAll_append {ss ts : List Stmt} :
    execAll h n (ss ++ ts) sc w = (do
      let (flow, sc, w) ← execAll h n ss sc w
      match flow with
      | .next => execAll h n ts sc w
      | .ret v => return (.ret v, sc, w)) := by
  induction ss generalizing sc w with
  | nil => rw [List.nil_append, execAll_nil, pure_bind]
  | cons s ss ih =>
    simp only [List.cons_append, execAll_cons, bind_assoc]
    congr 1
    funext ⟨flow, sc, w⟩
    cases flow with
    | next => exact ih
    | ret v => rfl

theorem execAll_exprs {es : List Expr} {ss : List Stmt} :
    execAll h n (es.map .expr ++ ss) sc w = (do
      let (_, sc, w) ← Expr.evalAll h n es sc w
      execAll h n ss sc w) := by
  induction es generalizing sc w with
  | nil => rw [List.map_nil, List.nil_append, Expr.evalAll_nil, pure_bind]
  | cons e es ih =>
    simp only [List.map_cons, List.cons_append, execAll_cons, exec_expr, Expr.evalAll_cons,
      bind_assoc, pure_bind, ih]

theorem execAll_ret {e : Expr} :
    execAll h n [.ret [e]] sc w = (do
      let (v, sc, w) ← e.eval h n sc w
      return (.ret v, sc, w)) := by
  simp only [execAll_cons, exec_ret, bind_assoc, pure_bind]

theorem exec_define {x : String} {e : Expr} :
    (define (.ident x) e).exec h n sc w = (do
      let (v, sc, w) ← e.eval h n sc w
      let sc ← h.require (sc.define [x] [v])
      return (.next, sc, w)) := exec_assign

theorem exec_set {x : String} {e : Expr} (hx : x ≠ "_") :
    (set (.ident x) e).exec h n sc w = (do
      let (v, sc, w) ← e.eval h n sc w
      let sc ← h.require (sc.assign x v)
      return (.next, sc, w)) := by
  simp [set, exec_assign, Scopes.assignAll, hx]

end Stmt

end

end SmallLisp.Program
