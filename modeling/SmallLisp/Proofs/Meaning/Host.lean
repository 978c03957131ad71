import SmallLisp.Form

/-!
# Hosts

What the meaning of a program depends on besides the program: the values and the state of the
world, the functions of the run-time library, the names of packages and what a call of their
functions does. A host is a parameter wherever something is evaluated, so what is proved holds for
every run-time library.
-/

namespace SmallLisp

open Program

/-- How an evaluation ends that yields no value. -/
inductive Stop (Failure World : Type) where
  | panic (failure : Failure) (world : World)
  /-- There is no such name, or a condition is no boolean. -/
  | stuck
  /-- A loop has made all the passes it may make, or a call does not return. -/
  | unfinished (world : World)

structure Host where
  Value : Type
  World : Type
  Failure : Type
  nil : Value
  bool : Bool → Value
  literal : LiteralKind → String → Value
  slice : List Value → World → Value × World
  /-- The value of a name that no block declares, or of what is selected from it. -/
  global : List String → World → Option Value
  /-- The function of the run-time library that an operator calls. -/
  operator : Operator → World → Option Value
  /-- The function of the run-time library that `get` calls. -/
  get : World → Option Value
  /-- The boolean that a value is in the place of a condition. -/
  test : Value → Option Bool
  call : Value → List Value → World → Except (Stop Failure World) (Value × World)
  test_bool : ∀ b, test (bool b) = some b
  global_nil : ∀ w, global ["nil"] w = some nil
  global_true : ∀ w, global ["true"] w = some (bool true)
  global_false : ∀ w, global ["false"] w = some (bool false)

namespace Host

abbrev Result (h : Host) (α : Type) : Type := Except (Stop h.Failure h.World) α

variable (h : Host)

/-- What must be there; without it an evaluation is stuck. -/
def require : Option α → h.Result α
  | some a => .ok a
  | none => .error .stuck

def read (path : List String) (w : h.World) : h.Result h.Value := h.require (h.global path w)

def truth (v : h.Value) : h.Result Bool := h.require (h.test v)

@[simp] theorem require_some (a : α) : h.require (some a) = pure a := rfl

@[simp] theorem require_none : (h.require none : h.Result α) = .error .stuck := rfl

theorem require_inj {a b : Option α} (hab : h.require a = h.require b) : a = b := by
  cases a <;> cases b <;> cases hab <;> rfl

@[simp] theorem truth_bool (b : Bool) : h.truth (h.bool b) = pure b := by
  rw [truth, h.test_bool, require_some]

@[simp] theorem read_nil (w : h.World) : h.read ["nil"] w = pure h.nil := by
  rw [read, h.global_nil, require_some]

@[simp] theorem read_true (w : h.World) : h.read ["true"] w = pure (h.bool true) := by
  rw [read, h.global_true, require_some]

@[simp] theorem read_false (w : h.World) : h.read ["false"] w = pure (h.bool false) := by
  rw [read, h.global_false, require_some]

end Host

theorem bind_congr_ok {x : Except ε α} {f g : α → Except ε β}
    (hfg : ∀ a, x = .ok a → f a = g a) : x >>= f = x >>= g := by
  cases x with
  | error e => rfl
  | ok a => exact hfg a rfl

/-- The operand that decides a chain, whatever follows it. -/
def Program.LogicOp.decisive : LogicOp → Bool
  | .and => false
  | .or => true

/-! ## Environments -/

/-- The values of names: the variables that one block declares, or all that are in scope. -/
abbrev Env (h : Host) : Type := String → Option h.Value

namespace Env

variable {h : Host}

def empty : Env h := fun _ => none

def set (x : String) (v : h.Value) (ρ : Env h) : Env h := fun y => if y = x then some v else ρ y

/-- Gives each name its value, in order. -/
def setAll : List String → List h.Value → Env h → Env h
  | x :: xs, v :: vs, ρ => setAll xs vs (ρ.set x v)
  | _, _, ρ => ρ

@[simp] theorem empty_apply (x : String) : (empty : Env h) x = none := rfl

@[simp] theorem set_self (x : String) (v : h.Value) (ρ : Env h) : ρ.set x v x = some v :=
  if_pos rfl

theorem set_of_ne {x y : String} (hne : y ≠ x) (v : h.Value) (ρ : Env h) : ρ.set x v y = ρ y :=
  if_neg hne

theorem set_set (x : String) (u v : h.Value) (ρ : Env h) : (ρ.set x u).set x v = ρ.set x v := by
  funext y
  by_cases hy : y = x
  · rw [hy, set_self, set_self]
  · rw [set_of_ne hy, set_of_ne hy, set_of_ne hy]

theorem set_comm {x y : String} (hne : x ≠ y) (u v : h.Value) (ρ : Env h) :
    (ρ.set x u).set y v = (ρ.set y v).set x u := by
  funext z
  by_cases hx : z = x
  · subst hx
    rw [set_of_ne hne, set_self, set_self]
  · by_cases hy : z = y
    · subst hy
      rw [set_self, set_of_ne hx, set_self]
    · rw [set_of_ne hy, set_of_ne hx, set_of_ne hx, set_of_ne hy]

theorem setAll_of_not_mem {xs : List String} {x : String} (hx : x ∉ xs) (vs : List h.Value)
    (ρ : Env h) : ρ.setAll xs vs x = ρ x := by
  induction xs generalizing vs ρ with
  | nil => rfl
  | cons y xs ih =>
    cases vs with
    | nil => rfl
    | cons v vs =>
      have hne : x ≠ y := by
        rintro rfl
        exact hx (.head _)
      rw [setAll, ih fun hmem => hx (.tail _ hmem), set_of_ne hne]

/-- New values for all the names hide the old ones. -/
theorem setAll_congr {xs : List String} {vs : List h.Value} (hlen : vs.length = xs.length)
    {ρ σ : Env h} (heq : ∀ x, x ∉ xs → ρ x = σ x) : ρ.setAll xs vs = σ.setAll xs vs := by
  induction xs generalizing vs ρ σ with
  | nil =>
    rw [List.length_eq_zero_iff.1 hlen]
    exact funext fun x => heq x List.not_mem_nil
  | cons y xs ih =>
    obtain ⟨v, vs, rfl⟩ := List.exists_cons_of_length_eq_add_one hlen
    refine ih (Nat.succ.inj hlen) fun x hx => ?_
    by_cases hxy : x = y
    · rw [hxy, set_self, set_self]
    · rw [set_of_ne hxy, set_of_ne hxy]
      exact heq x fun hmem => (List.mem_cons.1 hmem).elim hxy hx

theorem setAll_set_comm {xs : List String} {x : String} (hx : x ∉ xs) (vs : List h.Value)
    (v : h.Value) (ρ : Env h) : (ρ.set x v).setAll xs vs = (ρ.setAll xs vs).set x v := by
  induction xs generalizing vs ρ with
  | nil => rfl
  | cons y xs ih =>
    cases vs with
    | nil => rfl
    | cons u vs =>
      have hne : x ≠ y := by
        rintro rfl
        exact hx (.head _)
      rw [setAll, setAll, set_comm hne, ih fun hmem => hx (.tail _ hmem)]

theorem isSome_setAll {xs : List String} {vs : List h.Value} (hlen : vs.length = xs.length)
    {x : String} (hx : x ∈ xs) (ρ : Env h) : (ρ.setAll xs vs x).isSome := by
  induction xs generalizing vs ρ with
  | nil => cases hx
  | cons y xs ih =>
    obtain ⟨v, vs, rfl⟩ := List.exists_cons_of_length_eq_add_one hlen
    by_cases hmem : x ∈ xs
    · exact ih (Nat.succ.inj hlen) hmem _
    · obtain rfl := (List.mem_cons.1 hx).resolve_right hmem
      rw [setAll, setAll_of_not_mem hmem, set_self]
      rfl

theorem setAll_setAll {xs : List String} {vs us : List h.Value} (hlen : vs.length = xs.length)
    (ρ : Env h) : (ρ.setAll xs us).setAll xs vs = ρ.setAll xs vs :=
  setAll_congr hlen fun _ hx => setAll_of_not_mem hx us ρ

end Env

end SmallLisp
