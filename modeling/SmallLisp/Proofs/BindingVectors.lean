import SmallLisp.Outcome
import SmallLisp.TopLevel.Emit

/-!
# Binding vectors

A vector is read as bindings exactly if it is what they are written as, in one of the two shapes
(`Binding.ofDatum_eq_ok`). Where each name has a value of its own both shapes can be written, and a
form means the same with either (`binding_shapes_agree`).
-/

namespace SmallLisp

open Outcome

namespace Binding

variable {form : String} {d : Datum} {ds : List Datum} {b : Binding Datum}
  {bs : List (Binding Datum)}

/-- The names and, last, their value. -/
def written (b : Binding Datum) : List Datum := b.targets.map .symbol ++ [b.value]

/-- All bindings in one vector. -/
def flat (bs : List (Binding Datum)) : Datum := .vector (bs.flatMap written)

/-- A vector for each binding. -/
def nested (bs : List (Binding Datum)) : Datum := .vector (bs.map fun b => .vector b.written)

theorem written_of_single {x : String} (h : b.targets = [x]) :
    b.written = [.symbol x, b.value] := by
  rw [written, h]
  rfl

/-! ## Reading what is written -/

theorem target_eq_ok {x : String} : target form d = .ok x ↔ d = .symbol x := by
  cases d <;> simp [target]

theorem targets_eq_ok {xs : List String} :
    ds.mapM (target form) = .ok xs ↔ ds = xs.map .symbol := by
  induction ds generalizing xs with
  | nil => cases xs <;> simp [pure, Except.pure]
  | cons d ds ih =>
    simp only [List.mapM_cons, bind_eq_ok, pure_eq_ok, target_eq_ok, ih]
    cases xs with
    | nil => simp
    | cons y ys => simp

/-- A list of even length is cut into pairs with nothing left over. -/
theorem ofPairs_eq_ok : ds.length % 2 = 0 ∧ ofPairs form ds = .ok bs ↔
    ds = bs.flatMap written ∧ ∀ b ∈ bs, ∃ x, b.targets = [x] := by
  fun_induction ofPairs form ds generalizing bs with
  | case1 name value rest ih =>
    simp only [bind_eq_ok, pure_eq_ok, target_eq_ok]
    constructor
    · rintro ⟨heven, x, rfl, cs, hcs, rfl⟩
      obtain ⟨rfl, hone⟩ := ih.1 ⟨by simp only [List.length_cons] at heven; omega, hcs⟩
      exact ⟨rfl, List.forall_mem_cons.2 ⟨⟨x, rfl⟩, hone⟩⟩
    · rintro ⟨hds, hone⟩
      cases bs with
      | nil => cases hds
      | cons b bs =>
        obtain ⟨⟨x, hx⟩, hrest⟩ := List.forall_mem_cons.1 hone
        rw [List.flatMap_cons, written_of_single hx] at hds
        cases hds
        obtain ⟨heven, hcs⟩ := ih.2 ⟨rfl, hrest⟩
        refine ⟨by simp only [List.length_cons]; omega, x, rfl, bs, hcs, ?_⟩
        rw [← hx]
  | case2 ds hne =>
    constructor
    · rintro ⟨heven, hbs⟩
      cases hbs
      cases ds with
      | nil => exact ⟨rfl, List.forall_mem_nil _⟩
      | cons d ds =>
        cases ds with
        | nil => cases heven
        | cons e ds => exact absurd rfl (hne d e ds)
    · rintro ⟨rfl, hone⟩
      cases bs with
      | nil => exact ⟨rfl, rfl⟩
      | cons b bs =>
        obtain ⟨x, hx⟩ := hone b List.mem_cons_self
        refine absurd ?_ (hne (.symbol x) b.value (bs.flatMap written))
        rw [List.flatMap_cons, written_of_single hx]
        rfl

theorem ofVector_eq_ok : ofVector form d = .ok b ↔ d = .vector b.written ∧ b.targets ≠ [] := by
  constructor
  · intro h
    unfold ofVector at h
    split at h
    · cases h
    · rename_i value hvalue
      split at h
      · cases h
      · rename_i hempty
        obtain ⟨xs, hxs, h⟩ := bind_eq_ok.1 h
        obtain rfl := pure_eq_ok.1 h
        cases d with
        | vector elements =>
          simp only [Datum.elements?, Option.getD_some] at hvalue hxs hempty
          obtain ⟨ds, rfl⟩ := List.getLast?_eq_some_iff.1 hvalue
          rw [List.dropLast_concat] at hxs hempty
          obtain rfl := targets_eq_ok.1 hxs
          exact ⟨rfl, by simpa using hempty⟩
        | _ => cases hvalue
  · rintro ⟨rfl, hne⟩
    have htargets : (b.targets.map Datum.symbol).mapM (target form) = .ok b.targets :=
      targets_eq_ok.2 rfl
    simp only [ofVector, written, Datum.elements?, Option.getD_some, List.getLast?_concat,
      List.dropLast_concat, htargets]
    rw [if_neg (by simpa using hne)]
    rfl

theorem ofVectors_eq_ok : ofVectors form ds = .ok bs ↔
    ds = bs.map (fun b => .vector b.written) ∧ ∀ b ∈ bs, b.targets ≠ [] := by
  induction ds generalizing bs with
  | nil => cases bs <;> simp [ofVectors]
  | cons d ds ih =>
    simp only [ofVectors, bind_eq_ok, pure_eq_ok, ofVector_eq_ok, ih]
    constructor
    · rintro ⟨b, ⟨rfl, hb⟩, cs, ⟨rfl, hcs⟩, rfl⟩
      exact ⟨rfl, List.forall_mem_cons.2 ⟨hb, hcs⟩⟩
    · rintro ⟨hds, hne⟩
      cases bs with
      | nil => cases hds
      | cons b bs =>
        cases hds
        obtain ⟨hb, hbs⟩ := List.forall_mem_cons.1 hne
        exact ⟨b, ⟨rfl, hb⟩, bs, ⟨rfl, hbs⟩, rfl⟩

/-- A vector is read as the bindings that it is written from. In one vector each binding has one
name; with a vector for each binding there is at least one of them. -/
theorem ofDatum_eq_ok : ofDatum form d = .ok bs ↔
    (d = flat bs ∧ ∀ b ∈ bs, ∃ x, b.targets = [x]) ∨
      (bs ≠ [] ∧ d = nested bs ∧ ∀ b ∈ bs, b.targets ≠ []) := by
  constructor
  · intro h
    unfold ofDatum at h
    split at h
    · rename_i elements
      split at h
      · rename_i hvectors
        obtain ⟨rfl, hne⟩ := ofVectors_eq_ok.1 h
        refine .inr ⟨?_, rfl, hne⟩
        rintro rfl
        cases hvectors
      · split at h
        · cases h
        · obtain ⟨rfl, hone⟩ := ofPairs_eq_ok.1 ⟨by omega, h⟩
          exact .inl ⟨rfl, hone⟩
    · cases h
  · rintro (⟨rfl, hone⟩ | ⟨hbs, rfl, hne⟩)
    · obtain ⟨heven, hpairs⟩ : _ ∧ ofPairs form _ = .ok bs := ofPairs_eq_ok.2 ⟨rfl, hone⟩
      -- a symbol stands first, so the vector is not taken for one of vectors
      have hflat : (!(bs.flatMap written).isEmpty &&
          (bs.flatMap written).all (·.elements?.isSome)) = false := by
        cases bs with
        | nil => rfl
        | cons b bs =>
          obtain ⟨x, hx⟩ := hone b List.mem_cons_self
          rw [List.flatMap_cons, written_of_single hx]
          rfl
      rw [flat, ofDatum, hflat, if_neg Bool.false_ne_true, if_neg (by omega), hpairs]
    · have hvectors : (!(bs.map fun b => Datum.vector b.written).isEmpty &&
          (bs.map fun b => Datum.vector b.written).all (·.elements?.isSome)) = true := by
        simp [hbs, Datum.elements?]
      rw [nested, ofDatum, hvectors, if_pos rfl, ofVectors_eq_ok]
      exact ⟨rfl, hne⟩

/-! ## Pairs -/

/-- One name and its value. -/
def ofPair (p : String × Datum) : Binding Datum := ⟨[p.1], p.2⟩

theorem ofDatum_flat (form : String) (pairs : List (String × Datum)) :
    ofDatum form (flat (pairs.map ofPair)) = .ok (pairs.map ofPair) :=
  ofDatum_eq_ok.2 (.inl ⟨rfl, List.forall_mem_map.2 fun p _ => ⟨p.1, rfl⟩⟩)

theorem ofDatum_nested (form : String) (pairs : List (String × Datum)) :
    ofDatum form (nested (pairs.map ofPair)) = .ok (pairs.map ofPair) := by
  cases pairs with
  | nil => rfl
  | cons p pairs =>
    exact ofDatum_eq_ok.2 (.inr ⟨List.cons_ne_nil _ _, rfl,
      List.forall_mem_map.2 fun p _ => List.cons_ne_nil p.1 []⟩)

end Binding

open Binding (flat nested ofPair)

/-- Of its first argument a form sees the bindings only. -/
theorem Form.ofCall_bindings {bindings bindings' : Datum}
    (h : ∀ form, Binding.ofDatum form bindings = Binding.ofDatum form bindings')
    (body : List Datum) :
    ofCall (.symbol "let") (bindings :: body) = ofCall (.symbol "let") (bindings' :: body) ∧
      ofCall (.symbol "loop") (bindings :: body) =
        ofCall (.symbol "loop") (bindings' :: body) := by
  change ofKeyword "let" _ .letIn = ofKeyword "let" _ .letIn ∧
    ofKeyword "loop" _ .loop = ofKeyword "loop" _ .loop
  cases body with
  | nil => exact ⟨rfl, rfl⟩
  | cons first rest => simp only [ofKeyword, h, and_self]

/-- With the same names and values both shapes are read as the same bindings, and compile to the
same in every state. In either shape no part of a vector that is read is lost: it is the vector that
its bindings are written as. -/
theorem binding_shapes_agree :
    (∀ form (pairs : List (String × Datum)),
      Binding.ofDatum form (flat (pairs.map ofPair)) = .ok (pairs.map ofPair) ∧
        Binding.ofDatum form (nested (pairs.map ofPair)) = .ok (pairs.map ofPair)) ∧
    (∀ (pairs : List (String × Datum)) (body : List Datum) (cfg : Config) (s : Session),
      ((Datum.call (.symbol "let") (flat (pairs.map ofPair) :: body)).compile cfg).outcome s =
        ((Datum.call (.symbol "let") (nested (pairs.map ofPair) :: body)).compile cfg).outcome s ∧
      ((Datum.call (.symbol "loop") (flat (pairs.map ofPair) :: body)).compile cfg).outcome s =
        ((Datum.call (.symbol "loop") (nested (pairs.map ofPair) :: body)).compile cfg).outcome
          s) ∧
    ∀ form (d : Datum) (bs : List (Binding Datum)), Binding.ofDatum form d = .ok bs ↔
      (d = flat bs ∧ ∀ b ∈ bs, ∃ x, b.targets = [x]) ∨
        (bs ≠ [] ∧ d = nested bs ∧ ∀ b ∈ bs, b.targets ≠ []) := by
  refine ⟨fun form pairs => ⟨Binding.ofDatum_flat form pairs, Binding.ofDatum_nested form pairs⟩,
    fun pairs body cfg s => ?_, fun form d bs => Binding.ofDatum_eq_ok⟩
  have hbindings (form : String) : Binding.ofDatum form (flat (pairs.map ofPair)) =
      Binding.ofDatum form (nested (pairs.map ofPair)) :=
    (Binding.ofDatum_flat form pairs).trans (Binding.ofDatum_nested form pairs).symm
  obtain ⟨hlet, hloop⟩ := Form.ofCall_bindings hbindings body
  rw [Datum.compile, Datum.compile, Datum.compile, Datum.compile, Datum.check_congr hlet,
    Datum.check_congr hloop]
  exact ⟨rfl, rfl⟩

end SmallLisp
