import SmallLisp.Form
import SmallLisp.Outcome

/-! The parts of a form are parts of its call: together they have fewer nodes (`size_ofCall`). -/

namespace SmallLisp

open Outcome

theorem Datum.sizes_dropLast_add_getLast {ds : List Datum} (h : ds ≠ []) :
    sizes ds.dropLast + (ds.getLast h).size = sizes ds := by
  conv => rhs; rw [← List.dropLast_concat_getLast h]
  simp [sizes]

theorem Datum.size_le_sizes_of_mem {d : Datum} {ds : List Datum} (h : d ∈ ds) :
    d.size ≤ sizes ds := by
  induction ds with
  | nil => simp at h
  | cons e es ih =>
    rcases List.mem_cons.1 h with rfl | h
    · simp [sizes]
    · have := ih h
      simp only [sizes]
      omega

namespace Binding

/-- Number of nodes of the values. -/
def sizes : List (Binding Datum) → Nat
  | [] => 0
  | b :: bs => b.value.size + sizes bs

theorem sizes_ofPairs {form : String} {ds : List Datum} {bs : List (Binding Datum)}
    (h : ofPairs form ds = .ok bs) : sizes bs ≤ Datum.sizes ds := by
  fun_induction ofPairs form ds generalizing bs with
  | case1 name value rest ih =>
    obtain ⟨t, -, h⟩ := bind_eq_ok.1 h
    obtain ⟨cs, hcs, h⟩ := bind_eq_ok.1 h
    obtain rfl := pure_eq_ok.1 h
    have := ih hcs
    simp only [sizes, Datum.sizes]
    omega
  | case2 => simp_all [sizes]

theorem size_ofVector {form : String} {d : Datum} {b : Binding Datum}
    (h : ofVector form d = .ok b) : b.value.size ≤ d.size := by
  unfold ofVector at h
  split at h
  · simp at h
  · rename_i value hv
    have hb : b.value = value := by
      split at h
      · simp at h
      · obtain ⟨ts, -, h⟩ := bind_eq_ok.1 h
        obtain rfl := pure_eq_ok.1 h
        rfl
    cases d with
    | vector elements =>
      have := Datum.size_le_sizes_of_mem (List.mem_of_getLast? hv)
      simp only [Datum.elements?, Option.getD_some] at this
      simp only [hb, Datum.size]
      omega
    | _ => simp [Datum.elements?] at hv

theorem sizes_ofVectors {form : String} {ds : List Datum} {bs : List (Binding Datum)}
    (h : ofVectors form ds = .ok bs) : sizes bs ≤ Datum.sizes ds := by
  induction ds generalizing bs with
  | nil => simp_all [ofVectors, sizes]
  | cons d ds ih =>
    obtain ⟨b, hb, h⟩ := bind_eq_ok.1 h
    obtain ⟨cs, hcs, h⟩ := bind_eq_ok.1 h
    obtain rfl := pure_eq_ok.1 h
    have := ih hcs
    have := size_ofVector hb
    simp only [sizes, Datum.sizes]
    omega

theorem sizes_ofDatum {form : String} {d : Datum} {bs : List (Binding Datum)}
    (h : ofDatum form d = .ok bs) : sizes bs ≤ d.size := by
  unfold ofDatum at h
  split at h
  · rename_i elements
    suffices sizes bs ≤ Datum.sizes elements by simp only [Datum.size]; omega
    split at h
    · exact sizes_ofVectors h
    · split at h
      · simp at h
      · exact sizes_ofPairs h
  · simp at h

end Binding

namespace Form

/-- Number of nodes of the parts. -/
def size : Form → Nat
  | .call callee args => callee.size + Datum.sizes args
  | .not operand => operand.size
  | .operator _ args => Datum.sizes args
  | .logic _ first rest => first.size + Datum.sizes rest
  | .loop bindings effects result => Binding.sizes bindings + (Datum.sizes effects + result.size)
  | .recur args => Datum.sizes args
  | .assert _ value => value.size
  | .get args => Datum.sizes args
  | .letIn bindings effects result => Binding.sizes bindings + (Datum.sizes effects + result.size)
  | .cond test yes no => test.size + yes.size + (no.elim 0 Datum.size)
  | .fn _ effects result => Datum.sizes effects + result.size

/-- A form with bindings and a body is no larger than its arguments. -/
private theorem body_le {bindings first : Datum} {rest : List Datum} {n : Nat}
    (h : n ≤ bindings.size) :
    n + (Datum.sizes (first :: rest).dropLast +
      ((first :: rest).getLast (List.cons_ne_nil first rest)).size) ≤
        Datum.sizes (bindings :: first :: rest) := by
  rw [Datum.sizes_dropLast_add_getLast]
  simp only [Datum.sizes] at *
  omega

theorem size_ofKeyword {name : String} {args : List Datum} {keyword : Keyword} {f : Form}
    (h : ofKeyword name args keyword = .ok f) : f.size ≤ Datum.sizes args := by
  cases keyword with
  | loop =>
    simp only [ofKeyword] at h
    split at h
    · obtain ⟨bs, hbs, h⟩ := bind_eq_ok.1 h
      split at h
      · obtain rfl := pure_eq_ok.1 h
        exact body_le (Binding.sizes_ofDatum hbs)
      · exact absurd h throw_ne_ok
    · simp at h
  | letIn =>
    simp only [ofKeyword] at h
    split at h
    · obtain ⟨bs, hbs, h⟩ := bind_eq_ok.1 h
      obtain rfl := pure_eq_ok.1 h
      exact body_le (Binding.sizes_ofDatum hbs)
    · simp at h
  | fn =>
    simp only [ofKeyword] at h
    split at h
    · rename_i params first rest
      obtain ⟨ps, -, h⟩ := bind_eq_ok.1 h
      obtain rfl := pure_eq_ok.1 h
      have h : 0 + (Datum.sizes (first :: rest).dropLast + _) ≤ _ :=
        body_le (Nat.zero_le params.size)
      rwa [Nat.zero_add] at h
    · simp at h
  | operator | recur | get =>
    obtain rfl := Except.ok.inj h
    simp [size]
  | define | package => simp [ofKeyword] at h
  | not | logic | assert | cond =>
    simp only [ofKeyword] at h
    split at h <;> simp only [Except.ok.injEq, reduceCtorEq] at h
    all_goals
      subst h
      simp [size, Datum.sizes, Datum.size, Nat.add_assoc]

theorem size_ofCall {callee : Datum} {args : List Datum} {f : Form}
    (h : ofCall callee args = .ok f) : f.size < (Datum.call callee args).size := by
  have hplain : (Form.call callee args).size < (Datum.call callee args).size := by
    simp only [size, Datum.size]
    omega
  unfold ofCall at h
  split at h
  · split at h
    · have := size_ofKeyword h
      simp only [Datum.size]
      omega
    · obtain rfl := Except.ok.inj h
      exact hplain
  · obtain rfl := Except.ok.inj h
    exact hplain

end Form

end SmallLisp
