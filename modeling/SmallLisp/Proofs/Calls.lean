import SmallLisp.Proofs.BindingVectors

/-!
# Calls to a name inside data

`Datum.callsTo name d` lists the arguments of all calls to `name` in `d`, at any depth, an inner
call before the one around it. A form has the calls of its parts, and its call may be one more
(`callsTo_ofCall`): no part of a call that holds calls is dropped or duplicated when its shape is
read.
-/

namespace SmallLisp

open Outcome

namespace Keyword

/-- The reserved names for a keyword. -/
def names : Keyword → List String
  | .not => ["!", "not"]
  | .operator .add => ["+"]
  | .operator .sub => ["-"]
  | .operator .mul => ["*"]
  | .operator .div => ["/"]
  | .operator .mod => ["mod"]
  | .operator .eq => ["="]
  | .operator .ne => ["not="]
  | .operator .lt => ["<"]
  | .operator .le => ["<="]
  | .operator .gt => [">"]
  | .operator .ge => [">="]
  | .logic .and => ["and"]
  | .logic .or => ["or"]
  | .loop => ["loop"]
  | .recur => ["recur"]
  | .assert => ["assert"]
  | .get => ["get"]
  | .letIn => ["let"]
  | .cond => ["if"]
  | .fn => ["fn"]
  | .define => ["def"]
  | .package => ["ns"]

theorem mem_names_of_ofName? {x : String} {k : Keyword} (h : ofName? x = some k) :
    x ∈ k.names := by
  unfold ofName? at h
  split at h <;> cases h <;> simp [names]

end Keyword

namespace Datum

mutual

def callsTo (name : String) : Datum → List (List Datum)
  | .call callee args =>
    callee.callsTo name ++ callsToAll name args ++
      if callee.symbol? = some name then [args] else []
  | .vector elements => callsToAll name elements
  | .number .. | .string _ | .symbol _ => []

def callsToAll (name : String) : List Datum → List (List Datum)
  | [] => []
  | d :: ds => d.callsTo name ++ callsToAll name ds

end

@[simp] theorem callsToAll_append {name : String} {ds es : List Datum} :
    callsToAll name (ds ++ es) = callsToAll name ds ++ callsToAll name es := by
  induction ds with
  | nil => rfl
  | cons d ds ih => simp [callsToAll, ih]

theorem callsToAll_dropLast_getLast {name : String} {ds : List Datum} (h : ds ≠ []) :
    callsToAll name ds.dropLast ++ (ds.getLast h).callsTo name = callsToAll name ds := by
  conv => rhs; rw [← List.dropLast_concat_getLast h]
  simp [callsToAll]

end Datum

namespace Binding

/-- The calls in the values. -/
def callsTo (name : String) (bs : List (Binding Datum)) : List (List Datum) :=
  bs.flatMap (·.value.callsTo name)

theorem callsToAll_written {name : String} (b : Binding Datum) :
    Datum.callsToAll name b.written = b.value.callsTo name := by
  have hsymbols (xs : List String) : Datum.callsToAll name (xs.map .symbol) = [] := by
    induction xs with
    | nil => rfl
    | cons x xs ih => simp [Datum.callsToAll, Datum.callsTo, ih]
  simp [written, Datum.callsToAll, hsymbols]

theorem callsTo_ofDatum {form name : String} {d : Datum} {bs : List (Binding Datum)}
    (h : ofDatum form d = .ok bs) : d.callsTo name = callsTo name bs := by
  have hflat (bs : List (Binding Datum)) : (flat bs).callsTo name = callsTo name bs := by
    rw [flat, Datum.callsTo, callsTo]
    induction bs with
    | nil => rfl
    | cons b bs ih =>
      rw [List.flatMap_cons, List.flatMap_cons, Datum.callsToAll_append, callsToAll_written, ih]
  have hnested (bs : List (Binding Datum)) : (nested bs).callsTo name = callsTo name bs := by
    rw [nested, Datum.callsTo, callsTo]
    induction bs with
    | nil => rfl
    | cons b bs ih =>
      rw [List.map_cons, List.flatMap_cons, Datum.callsToAll, Datum.callsTo, callsToAll_written,
        ih]
  obtain ⟨rfl, -⟩ | ⟨-, rfl, -⟩ := ofDatum_eq_ok.1 h
  · exact hflat bs
  · exact hnested bs

end Binding

namespace Params

theorem callsTo_restOfElements {form name x : String} {ds : List Datum}
    (h : restOfElements form ds = .ok x) : Datum.callsToAll name ds = [] := by
  unfold restOfElements at h
  split at h
  · rfl
  · cases h
  · cases h

theorem callsTo_ofElements {form name : String} {ds : List Datum} {ps : Params}
    (h : ofElements form ds = .ok ps) : Datum.callsToAll name ds = [] := by
  fun_induction ofElements form ds generalizing ps with
  | case1 => rfl
  | case2 ds =>
    obtain ⟨x, hx, -⟩ := bind_eq_ok.1 h
    simp [Datum.callsToAll, Datum.callsTo, callsTo_restOfElements hx]
  | case3 x ds hx ih =>
    obtain ⟨qs, hqs, -⟩ := bind_eq_ok.1 h
    simp [Datum.callsToAll, Datum.callsTo, ih hqs]
  | case4 => cases h

theorem callsTo_ofDatum {form name : String} {d : Datum} {ps : Params}
    (h : ofDatum form d = .ok ps) : d.callsTo name = [] := by
  cases d with
  | vector elements => exact callsTo_ofElements h
  | _ => cases h

end Params

namespace Form

/-- The calls in the parts of a form. -/
def callsTo (name : String) : Form → List (List Datum)
  | .call callee args => callee.callsTo name ++ Datum.callsToAll name args
  | .not operand => operand.callsTo name
  | .operator _ args => Datum.callsToAll name args
  | .logic _ first rest => first.callsTo name ++ Datum.callsToAll name rest
  | .loop bindings effects result =>
    Binding.callsTo name bindings ++ Datum.callsToAll name effects ++ result.callsTo name
  | .recur args => Datum.callsToAll name args
  | .assert _ value => value.callsTo name
  | .get args => Datum.callsToAll name args
  | .letIn bindings effects result =>
    Binding.callsTo name bindings ++ Datum.callsToAll name effects ++ result.callsTo name
  | .cond test yes no => test.callsTo name ++ yes.callsTo name ++ no.elim [] (·.callsTo name)
  | .fn _ effects result => Datum.callsToAll name effects ++ result.callsTo name

theorem callsTo_ofKeyword {form name : String} {args : List Datum} {keyword : Keyword} {f : Form}
    (h : ofKeyword form args keyword = .ok f) : Datum.callsToAll name args = f.callsTo name := by
  cases keyword with
  | loop =>
    simp only [ofKeyword] at h
    split at h
    · obtain ⟨bs, hbs, h⟩ := bind_eq_ok.1 h
      split at h
      · obtain rfl := pure_eq_ok.1 h
        simp only [callsTo, List.append_assoc, Datum.callsToAll_dropLast_getLast,
          ← Binding.callsTo_ofDatum hbs]
        rfl
      · exact absurd h throw_ne_ok
    · cases h
  | letIn =>
    simp only [ofKeyword] at h
    split at h
    · obtain ⟨bs, hbs, h⟩ := bind_eq_ok.1 h
      obtain rfl := pure_eq_ok.1 h
      simp only [callsTo, List.append_assoc, Datum.callsToAll_dropLast_getLast,
        ← Binding.callsTo_ofDatum hbs]
      rfl
    · cases h
  | fn =>
    simp only [ofKeyword] at h
    split at h
    · obtain ⟨ps, hps, h⟩ := bind_eq_ok.1 h
      obtain rfl := pure_eq_ok.1 h
      rw [callsTo, Datum.callsToAll_dropLast_getLast, Datum.callsToAll,
        Params.callsTo_ofDatum hps, List.nil_append]
    · cases h
  | operator | recur | get =>
    cases h
    rfl
  | define | package => cases h
  | not | logic | assert | cond =>
    simp only [ofKeyword] at h
    split at h <;> cases h
    all_goals simp [callsTo, Datum.callsToAll, Datum.callsTo]

theorem callsTo_ofCall {name : String} {callee : Datum} {args : List Datum} {f : Form}
    (h : ofCall callee args = .ok f) :
    (Datum.call callee args).callsTo name =
      f.callsTo name ++ if callee.symbol? = some name then [args] else [] := by
  rw [Datum.callsTo]
  congr 1
  unfold ofCall at h
  split at h
  · split at h
    · exact callsTo_ofKeyword h
    · cases h
      rfl
  · cases h
    rfl

/-! ## Keywords -/

/-- The keyword that a form belongs to. -/
def keyword? : Form → Option Keyword
  | .call .. => none
  | .not _ => some .not
  | .operator op _ => some (.operator op)
  | .logic op .. => some (.logic op)
  | .loop .. => some .loop
  | .recur _ => some .recur
  | .assert .. => some .assert
  | .get _ => some .get
  | .letIn .. => some .letIn
  | .cond .. => some .cond
  | .fn .. => some .fn

theorem keyword?_ofKeyword {name : String} {args : List Datum} {keyword : Keyword} {f : Form}
    (h : ofKeyword name args keyword = .ok f) : f.keyword? = some keyword := by
  cases keyword with
  | loop =>
    simp only [ofKeyword] at h
    split at h
    · obtain ⟨_, -, h⟩ := bind_eq_ok.1 h
      split at h
      · cases h
        rfl
      · exact absurd h throw_ne_ok
    · cases h
  | letIn | fn =>
    simp only [ofKeyword] at h
    split at h
    · obtain ⟨_, -, h⟩ := bind_eq_ok.1 h
      cases h
      rfl
    · cases h
  | operator | recur | get =>
    cases h
    rfl
  | define | package => cases h
  | not | logic | assert | cond =>
    simp only [ofKeyword] at h
    split at h <;> cases h
    all_goals rfl

/-- The name at the head of a call decides what form it has, if it has one. -/
theorem keyword?_ofCall {callee : Datum} {args : List Datum} {f : Form}
    (h : ofCall callee args = .ok f) : f.keyword? = callee.symbol?.bind Keyword.ofName? := by
  unfold ofCall at h
  split at h
  · rename_i name
    rw [Datum.symbol?, Option.bind_some]
    split at h
    · rename_i keyword hk
      rw [hk]
      exact keyword?_ofKeyword h
    · rename_i hk
      cases h
      exact hk.symm
  · rename_i hsymbol
    cases h
    cases callee with
    | symbol x => exact absurd rfl (hsymbol x)
    | _ => rfl

/-! ## Calls to `recur` -/

theorem ofCall_recur {args : List Datum} : ofCall (.symbol "recur") args = .ok (.recur args) := rfl

theorem eq_recur_of_ofCall {callee : Datum} {args ds : List Datum}
    (h : ofCall callee args = .ok (.recur ds)) : callee = .symbol "recur" ∧ ds = args := by
  obtain ⟨x, hx, hk⟩ := Option.bind_eq_some_iff.1 (keyword?_ofCall h).symm
  obtain rfl := List.mem_singleton.1 (Keyword.mem_names_of_ofName? hk)
  cases callee with
  | symbol y =>
    cases hx
    cases ofCall_recur.symm.trans h
    exact ⟨rfl, rfl⟩
  | _ => cases hx

end Form

end SmallLisp
