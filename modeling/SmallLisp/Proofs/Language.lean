import Mathlib.Data.List.Forall2
import SmallLisp.Proofs.Checked
import SmallLisp.TopLevel.Emit

/-!
# The language

`Datum.WellFormed c d`: the datum `d` is an expression of the language where the innermost open
loop has `c` bindings, or where no loop is open. The judgement speaks of data as they are written.
The compiler accepts exactly the well-formed data, whatever its state is (`compile_accepts_iff`).
-/

namespace SmallLisp

open Outcome

namespace Datum

/-! ## The judgement -/

/-- Symbols and their values in turn. -/
inductive FlatBindings : List Datum → List Datum → Prop
  | nil : FlatBindings [] []
  | cons : FlatBindings ds values → FlatBindings (.symbol x :: value :: ds) (value :: values)

/-- Symbols, at least one, and last their value. -/
inductive NestedBinding : Datum → Datum → Prop
  | mk {xs : List String} : xs ≠ [] → NestedBinding (.vector (xs.map .symbol ++ [value])) value

/-- The datum is a binding vector, of either shape, with these values. -/
inductive BindingVector : Datum → List Datum → Prop
  | flat : FlatBindings ds values → BindingVector (.vector ds) values
  | nested : ds ≠ [] → List.Forall₂ NestedBinding ds values → BindingVector (.vector ds) values

/-- A vector of symbols. The mark may only stand before the last one, which is another symbol. -/
inductive ParameterVector : Datum → Prop
  | plain {xs : List String} : "&" ∉ xs → ParameterVector (.vector (xs.map .symbol))
  | rest {xs : List String} : "&" ∉ xs → x ≠ "&" →
    ParameterVector (.vector (xs.map .symbol ++ [.symbol "&", .symbol x]))

/-- A call to `recur` can be reached through arguments of calls. -/
inductive ReachesRecur : Datum → Prop
  | here : ReachesRecur (.call (.symbol "recur") args)
  | argument : d ∈ args → ReachesRecur d → ReachesRecur (.call callee args)

/-- The names that announce a form, or are not allowed in an expression. -/
def reservedNames : List String :=
  ["!", "not", "+", "-", "*", "/", "mod", "=", "not=", "<", "<=", ">", ">=", "get", "and", "or",
    "if", "assert", "fn", "let", "loop", "recur", "def", "ns"]

inductive WellFormed : Option Nat → Datum → Prop
  | symbol : WellFormed c (.symbol x)
  | number : WellFormed c (.number literal kind)
  | string : WellFormed c (.string value)
  | vector : (∀ d ∈ elements, WellFormed c d) → WellFormed c (.vector elements)
  /-- The callee is no symbol. -/
  | apply : callee.symbol? = none → WellFormed c callee → (∀ d ∈ args, WellFormed c d) →
    WellFormed c (.call callee args)
  | named : x ∉ reservedNames → (∀ d ∈ args, WellFormed c d) → WellFormed c (.call (.symbol x) args)
  | not : x ∈ ["!", "not"] → WellFormed c d → WellFormed c (.call (.symbol x) [d])
  | operator : x ∈ ["+", "-", "*", "/", "mod", "=", "not=", "<", "<=", ">", ">=", "get"] →
    (∀ d ∈ args, WellFormed c d) → WellFormed c (.call (.symbol x) args)
  | logic : x ∈ ["and", "or"] → args ≠ [] → (∀ d ∈ args, WellFormed c d) →
    WellFormed c (.call (.symbol x) args)
  | cond : args.length = 2 ∨ args.length = 3 → (∀ d ∈ args, WellFormed c d) →
    WellFormed c (.call (.symbol "if") args)
  | assert : WellFormed c value → WellFormed c (.call (.symbol "assert") [.symbol type, value])
  /-- The body of a function is in the loop that the function is in. -/
  | fn : ParameterVector params → body ≠ [] → (∀ d ∈ body, WellFormed c d) →
    WellFormed c (.call (.symbol "fn") (params :: body))
  | letIn : BindingVector bindings values → body ≠ [] → (∀ d ∈ values, WellFormed c d) →
    (∀ d ∈ body, WellFormed c d) → WellFormed c (.call (.symbol "let") (bindings :: body))
  /-- The values are outside the loop. -/
  | loop : BindingVector bindings values → body ≠ [] → (∃ d ∈ body, ReachesRecur d) →
    (∀ d ∈ values, WellFormed c d) → (∀ d ∈ body, WellFormed (some values.length) d) →
    WellFormed c (.call (.symbol "loop") (bindings :: body))
  | recur : (∀ d ∈ args, WellFormed (some args.length) d) →
    WellFormed (some args.length) (.call (.symbol "recur") args)

/-! ## Calls to `recur` -/

theorem anyRecur_iff {ds : List Datum} : anyRecur ds = true ↔ ∃ d ∈ ds, d.hasRecur = true := by
  induction ds with
  | nil => simp [anyRecur]
  | cons d ds ih => simp [anyRecur, ih]

mutual

theorem ReachesRecur.of_hasRecur : ∀ {d : Datum}, d.hasRecur = true → ReachesRecur d
  | .call callee args, h => by
    obtain h | h := Bool.or_eq_true_iff.1 (hasRecur.eq_def _ ▸ h)
    · cases callee with
      | symbol x =>
        obtain rfl := Option.some.inj (beq_iff_eq.1 h)
        exact .here
      | _ => cases h
    · obtain ⟨d, hd, hr⟩ := ReachesRecur.of_anyRecur h
      exact .argument hd hr

theorem ReachesRecur.of_anyRecur :
    ∀ {ds : List Datum}, anyRecur ds = true → ∃ d ∈ ds, ReachesRecur d
  | d :: ds, h => by
    obtain h | h := Bool.or_eq_true_iff.1 (anyRecur.eq_def _ ▸ h)
    · exact ⟨d, List.mem_cons_self, .of_hasRecur h⟩
    · obtain ⟨e, he, hr⟩ := ReachesRecur.of_anyRecur h
      exact ⟨e, List.mem_cons_of_mem d he, hr⟩

end

theorem ReachesRecur.hasRecur {d : Datum} (h : ReachesRecur d) : d.hasRecur = true := by
  induction h with
  | here => rw [Datum.hasRecur]; rfl
  | argument hd _ ih =>
    rw [Datum.hasRecur, anyRecur_iff.2 ⟨_, hd, ih⟩, Bool.or_true]

end Datum

/-! ## Binding vectors -/

namespace Binding

open Datum

theorem flatBindings_iff {ds values : List Datum} : FlatBindings ds values ↔
    ∃ bs : List (Binding Datum), ds = bs.flatMap written ∧ (∀ b ∈ bs, ∃ x, b.targets = [x]) ∧
      bs.map (·.value) = values := by
  constructor
  · intro h
    induction h with
    | nil => exact ⟨[], rfl, nofun, rfl⟩
    | @cons ds values x value _ ih =>
      obtain ⟨bs, rfl, hone, rfl⟩ := ih
      exact ⟨⟨[x], value⟩ :: bs, rfl, List.forall_mem_cons.2 ⟨⟨x, rfl⟩, hone⟩, rfl⟩
  · rintro ⟨bs, rfl, hone, rfl⟩
    induction bs with
    | nil => exact .nil
    | cons b bs ih =>
      obtain ⟨⟨x, hx⟩, hrest⟩ := List.forall_mem_cons.1 hone
      rw [List.flatMap_cons, written_of_single hx]
      exact .cons (ih hrest)

theorem nestedBindings_iff {ds values : List Datum} : List.Forall₂ NestedBinding ds values ↔
    ∃ bs : List (Binding Datum), ds = bs.map (fun b => .vector b.written) ∧
      (∀ b ∈ bs, b.targets ≠ []) ∧ bs.map (·.value) = values := by
  constructor
  · intro h
    induction h with
    | nil => exact ⟨[], rfl, nofun, rfl⟩
    | cons hd _ ih =>
      obtain ⟨bs, rfl, hne, rfl⟩ := ih
      cases hd with
      | mk hxs => exact ⟨⟨_, _⟩ :: bs, rfl, List.forall_mem_cons.2 ⟨hxs, hne⟩, rfl⟩
  · rintro ⟨bs, rfl, hne, rfl⟩
    rw [List.forall₂_map_left_iff, List.forall₂_map_right_iff, List.forall₂_same]
    exact fun b hb => .mk (hne b hb)

/-- The judgement describes the vectors that are read. -/
theorem bindingVector_iff (form : String) {d : Datum} {values : List Datum} :
    BindingVector d values ↔ ∃ bs, ofDatum form d = .ok bs ∧ bs.map (·.value) = values := by
  constructor
  · rintro (h | ⟨hne, h⟩)
    · obtain ⟨bs, rfl, hone, hvalues⟩ := flatBindings_iff.1 h
      exact ⟨bs, ofDatum_eq_ok.2 (.inl ⟨rfl, hone⟩), hvalues⟩
    · obtain ⟨bs, rfl, htargets, hvalues⟩ := nestedBindings_iff.1 h
      exact ⟨bs, ofDatum_eq_ok.2 (.inr ⟨by simpa using hne, rfl, htargets⟩), hvalues⟩
  · rintro ⟨bs, h, hvalues⟩
    obtain ⟨rfl, hone⟩ | ⟨hne, rfl, htargets⟩ := ofDatum_eq_ok.1 h
    · exact .flat (flatBindings_iff.2 ⟨bs, rfl, hone, hvalues⟩)
    · exact .nested (by simpa using hne) (nestedBindings_iff.2 ⟨bs, rfl, htargets, hvalues⟩)

end Binding

/-! ## Parameter vectors -/

namespace Params

open Datum

theorem eq_of_restOfElements {form x : String} {ds : List Datum}
    (h : restOfElements form ds = .ok x) : x ≠ "&" ∧ ds = [.symbol x] := by
  unfold restOfElements at h
  split at h
  · split at h
    · cases h
    · rename_i hx
      cases h
      exact ⟨hx, rfl⟩
  · cases h
  · cases h

theorem eq_of_ofElements {form : String} {ds : List Datum} {ps : Params}
    (h : ofElements form ds = .ok ps) :
    "&" ∉ ps.names ∧ (ds = ps.names.map .symbol ∨
      ∃ x, x ≠ "&" ∧ ds = ps.names.map .symbol ++ [.symbol "&", .symbol x]) := by
  fun_induction ofElements form ds generalizing ps with
  | case1 =>
    cases h
    exact ⟨List.not_mem_nil, .inl rfl⟩
  | case2 ds =>
    obtain ⟨x, hx, h⟩ := bind_eq_ok.1 h
    obtain rfl := pure_eq_ok.1 h
    obtain ⟨hne, rfl⟩ := eq_of_restOfElements hx
    exact ⟨List.not_mem_nil, .inr ⟨x, hne, rfl⟩⟩
  | case3 x ds hx ih =>
    obtain ⟨qs, hqs, h⟩ := bind_eq_ok.1 h
    obtain rfl := pure_eq_ok.1 h
    obtain ⟨hmark, hds⟩ := ih hqs
    refine ⟨fun hmem => ?_, ?_⟩
    · obtain hmem | hmem := List.mem_cons.1 hmem
      · exact hx hmem.symm
      · exact hmark hmem
    · obtain rfl | ⟨y, hy, rfl⟩ := hds
      · exact .inl rfl
      · exact .inr ⟨y, hy, rfl⟩
  | case4 => cases h

theorem parameterVector_of_ofDatum {form : String} {d : Datum} {ps : Params}
    (h : ofDatum form d = .ok ps) : ParameterVector d := by
  cases d with
  | vector elements =>
    obtain ⟨hmark, rfl | ⟨x, hx, rfl⟩⟩ := eq_of_ofElements h
    · exact .plain hmark
    · exact .rest hmark hx
  | _ => cases h

theorem ofElements_append {form : String} {xs : List String} {ds : List Datum} {ps : Params}
    (hmark : "&" ∉ xs) (h : ofElements form ds = .ok ps) :
    ofElements form (xs.map .symbol ++ ds) = .ok ⟨xs ++ ps.names, ps.rest?⟩ := by
  induction xs with
  | nil => exact h
  | cons x xs ih =>
    have hx : x ≠ restMark := fun hx => hmark (hx ▸ List.mem_cons_self)
    rw [List.map_cons, List.cons_append, ofElements, if_neg hx,
      ih fun hmem => hmark (List.mem_cons_of_mem x hmem)]
    rfl

theorem ofDatum_of_parameterVector (form : String) {d : Datum} (h : ParameterVector d) :
    ∃ ps, ofDatum form d = .ok ps := by
  cases h with
  | @plain xs hmark =>
    have hnil : ofElements form [] = .ok ⟨[], none⟩ := rfl
    have h := ofElements_append hmark hnil
    exact ⟨_, by rwa [List.append_nil] at h⟩
  | @rest x xs hmark hx =>
    have hrest : ofElements form [.symbol "&", .symbol x] = .ok ⟨[], some x⟩ := by
      rw [ofElements, if_pos (show "&" = restMark from rfl), restOfElements,
        if_neg (show x ≠ restMark from hx)]
      rfl
    exact ⟨_, ofElements_append hmark hrest⟩

end Params

/-! ## Keywords -/

theorem Keyword.ofName?_of_mem_names {x : String} {k : Keyword} (h : x ∈ k.names) :
    ofName? x = some k := by
  cases k with
  | operator op | logic op => cases op <;> (obtain rfl := List.mem_singleton.1 h; rfl)
  | not => obtain rfl | rfl := List.mem_pair.1 h <;> rfl
  | _ => obtain rfl := List.mem_singleton.1 h; rfl

theorem Keyword.ofName?_eq_none_iff {x : String} : ofName? x = none ↔ x ∉ Datum.reservedNames := by
  constructor
  · intro h hx
    simp only [Datum.reservedNames, List.mem_cons, List.not_mem_nil, or_false] at hx
    rcases hx with rfl | rfl | rfl | rfl | rfl | rfl | rfl | rfl | rfl | rfl | rfl | rfl | rfl |
      rfl | rfl | rfl | rfl | rfl | rfl | rfl | rfl | rfl | rfl | rfl <;> cases h
  · intro h
    unfold ofName?
    split <;> first | rfl | exact absurd (by decide) h

theorem Keyword.of_mem_operators {x : String}
    (h : x ∈ ["+", "-", "*", "/", "mod", "=", "not=", "<", "<=", ">", ">=", "get"]) :
    x = "get" ∨ ∃ op, x ∈ names (.operator op) := by
  simp only [List.mem_cons, List.not_mem_nil, or_false] at h
  rcases h with rfl | rfl | rfl | rfl | rfl | rfl | rfl | rfl | rfl | rfl | rfl | rfl
  · exact .inr ⟨.add, .head _⟩
  · exact .inr ⟨.sub, .head _⟩
  · exact .inr ⟨.mul, .head _⟩
  · exact .inr ⟨.div, .head _⟩
  · exact .inr ⟨.mod, .head _⟩
  · exact .inr ⟨.eq, .head _⟩
  · exact .inr ⟨.ne, .head _⟩
  · exact .inr ⟨.lt, .head _⟩
  · exact .inr ⟨.le, .head _⟩
  · exact .inr ⟨.gt, .head _⟩
  · exact .inr ⟨.ge, .head _⟩
  · exact .inl rfl

theorem Keyword.of_mem_logic {x : String} (h : x ∈ ["and", "or"]) :
    ∃ op, x ∈ names (.logic op) := by
  obtain rfl | rfl := List.mem_pair.1 h
  · exact ⟨.and, .head _⟩
  · exact ⟨.or, .head _⟩

/-- A call that has a form: the form of the keyword at its head, or a plain call. -/
theorem Form.ofCall_eq_ok {callee : Datum} {args : List Datum} {f : Form}
    (h : ofCall callee args = .ok f) :
    (∃ x k, callee = .symbol x ∧ x ∈ k.names ∧ ofKeyword x args k = .ok f) ∨
      f = .call callee args ∧ ∀ x, callee = .symbol x → x ∉ Datum.reservedNames := by
  unfold ofCall at h
  split at h
  · rename_i x
    split at h
    · rename_i k hk
      exact .inl ⟨x, k, rfl, Keyword.mem_names_of_ofName? hk, h⟩
    · rename_i hk
      cases h
      refine .inr ⟨rfl, fun y hy => ?_⟩
      cases hy
      exact Keyword.ofName?_eq_none_iff.1 hk
  · rename_i hsymbol
    cases h
    exact .inr ⟨rfl, fun x hx => absurd hx (hsymbol x)⟩

theorem Form.ofCall_keyword {x : String} {args : List Datum} {k : Keyword} (hx : x ∈ k.names) :
    ofCall (.symbol x) args = ofKeyword x args k := by
  simp only [ofCall, Keyword.ofName?_of_mem_names hx]

theorem Form.ofCall_named {x : String} {args : List Datum} (hx : x ∉ Datum.reservedNames) :
    ofCall (.symbol x) args = .ok (.call (.symbol x) args) := by
  simp only [ofCall, Keyword.ofName?_eq_none_iff.2 hx]

/-! ## Accepted data are well formed -/

/-- The parts of a form are well formed where they stand. -/
def Form.WellFormed (c : Option Nat) : Form → Prop
  | .call callee args => callee.WellFormed c ∧ ∀ d ∈ args, d.WellFormed c
  | .not operand => operand.WellFormed c
  | .operator _ args => ∀ d ∈ args, d.WellFormed c
  | .logic _ first rest => ∀ d ∈ first :: rest, d.WellFormed c
  | .loop bindings effects result =>
    (∀ d ∈ bindings.map (·.value), d.WellFormed c) ∧
      ∀ d ∈ effects ++ [result], d.WellFormed (some bindings.length)
  | .recur args => c = some args.length ∧ ∀ d ∈ args, d.WellFormed c
  | .assert _ value => value.WellFormed c
  | .get args => ∀ d ∈ args, d.WellFormed c
  | .letIn bindings effects result =>
    (∀ d ∈ bindings.map (·.value), d.WellFormed c) ∧ ∀ d ∈ effects ++ [result], d.WellFormed c
  | .cond test yes no => ∀ d ∈ test :: yes :: no.toList, d.WellFormed c
  | .fn _ effects result => ∀ d ∈ effects ++ [result], d.WellFormed c

namespace Form

open Datum

theorem wellFormed_keyword {x : String} {args : List Datum} {k : Keyword} {f : Form}
    (hx : x ∈ k.names) (hk : ofKeyword x args k = .ok f) (h : f.WellFormed c) :
    (Datum.call (.symbol x) args).WellFormed c := by
  cases k with
  | not =>
    simp only [ofKeyword] at hk
    split at hk <;> cases hk
    exact .not hx h
  | operator op =>
    cases hk
    exact .operator (by cases op <;> simp_all [Keyword.names]) h
  | logic op =>
    simp only [ofKeyword] at hk
    split at hk <;> cases hk
    exact .logic (by cases op <;> simp_all [Keyword.names]) (List.cons_ne_nil _ _) h
  | loop =>
    obtain rfl := List.mem_singleton.1 hx
    simp only [ofKeyword] at hk
    split at hk
    · obtain ⟨bs, hbs, hk⟩ := bind_eq_ok.1 hk
      split at hk
      · rename_i hrecur
        cases hk
        rw [WellFormed, List.dropLast_concat_getLast, ← List.length_map (·.value)] at h
        exact .loop ((Binding.bindingVector_iff _).2 ⟨bs, hbs, rfl⟩) (List.cons_ne_nil _ _)
          (ReachesRecur.of_anyRecur hrecur) h.1 h.2
      · cases hk
    · cases hk
  | recur =>
    obtain rfl := List.mem_singleton.1 hx
    cases hk
    obtain ⟨rfl, h⟩ := h
    exact .recur h
  | assert =>
    obtain rfl := List.mem_singleton.1 hx
    simp only [ofKeyword] at hk
    split at hk <;> cases hk
    exact .assert h
  | get =>
    obtain rfl := List.mem_singleton.1 hx
    cases hk
    exact .operator (by decide) h
  | letIn =>
    obtain rfl := List.mem_singleton.1 hx
    simp only [ofKeyword] at hk
    split at hk
    · obtain ⟨bs, hbs, hk⟩ := bind_eq_ok.1 hk
      cases hk
      rw [WellFormed, List.dropLast_concat_getLast] at h
      exact .letIn ((Binding.bindingVector_iff _).2 ⟨bs, hbs, rfl⟩) (List.cons_ne_nil _ _) h.1 h.2
    · cases hk
  | cond =>
    obtain rfl := List.mem_singleton.1 hx
    simp only [ofKeyword] at hk
    split at hk <;> cases hk
    · exact .cond (.inl rfl) h
    · exact .cond (.inr rfl) h
  | fn =>
    obtain rfl := List.mem_singleton.1 hx
    simp only [ofKeyword] at hk
    split at hk
    · obtain ⟨ps, hps, hk⟩ := bind_eq_ok.1 hk
      cases hk
      rw [WellFormed, List.dropLast_concat_getLast] at h
      exact .fn (Params.parameterVector_of_ofDatum hps) (List.cons_ne_nil _ _) h
    · cases hk
  | define | package => cases hk

theorem wellFormed_ofCall {callee : Datum} {args : List Datum} {f : Form}
    (hf : ofCall callee args = .ok f) (h : f.WellFormed c) :
    (Datum.call callee args).WellFormed c := by
  obtain ⟨x, k, rfl, hx, hk⟩ | ⟨rfl, hplain⟩ := ofCall_eq_ok hf
  · exact wellFormed_keyword hx hk h
  · cases callee with
    | symbol x => exact .named (hplain x rfl) h.2
    | _ => exact .apply rfl h.1 h.2

end Form

/-- The number of bindings of the innermost loop, if there is one. -/
def Loop.innermostArity (ls : List Loop) : Option Nat := ls.head?.map (·.targets.length)

theorem Loop.innermostArity_cons (bs : List (Binding Datum)) (n : Nat) (ls : List Loop) :
    innermostArity (⟨n, bs.map (·.targets)⟩ :: ls) = some bs.length := by
  rw [innermostArity, List.head?_cons, Option.map_some, List.length_map]

theorem forall_mem_concat {P : Datum → Prop} {ds : List Datum} {d : Datum} (hs : ∀ e ∈ ds, P e)
    (h : P d) : ∀ e ∈ ds ++ [d], P e :=
  List.forall_mem_append.2 ⟨hs, List.forall_mem_singleton.2 h⟩

open Loop

mutual

theorem Checked.wellFormed : Checked ls m d t n → d.WellFormed (innermostArity ls)
  | .symbol => .symbol
  | .number => .number
  | .string => .string
  | .vector hs => .vector hs.wellFormed
  | .call hf h => Form.wellFormed_ofCall hf h.wellFormed

theorem CheckedForm.wellFormed : CheckedForm ls m f t n → f.WellFormed (innermostArity ls)
  | .call h hs => ⟨h.wellFormed, hs.wellFormed⟩
  | .not h | .assert h => h.wellFormed
  | .operator hs | .get hs => hs.wellFormed
  | .logic h hs => List.forall_mem_cons.2 ⟨h.wellFormed, hs.wellFormed⟩
  | .loop hb hs h => by
    have hbody := forall_mem_concat hs.wellFormed h.wellFormed
    rw [innermostArity_cons] at hbody
    exact ⟨hb.wellFormed, hbody⟩
  | .recur hlen hs => ⟨congrArg some hlen.symm, hs.wellFormed⟩
  | .letIn hb hs h => ⟨hb.wellFormed, forall_mem_concat hs.wellFormed h.wellFormed⟩
  | .cond ht hy =>
    List.forall_mem_cons.2 ⟨ht.wellFormed, List.forall_mem_cons.2 ⟨hy.wellFormed, nofun⟩⟩
  | .condElse ht hy hn =>
    List.forall_mem_cons.2 ⟨ht.wellFormed,
      List.forall_mem_cons.2 ⟨hy.wellFormed, List.forall_mem_singleton.2 hn.wellFormed⟩⟩
  | .fn hs h => forall_mem_concat hs.wellFormed h.wellFormed

theorem CheckedAll.wellFormed :
    CheckedAll ls m ds ts n → ∀ d ∈ ds, d.WellFormed (innermostArity ls)
  | .nil => nofun
  | .cons h hs => List.forall_mem_cons.2 ⟨h.wellFormed, hs.wellFormed⟩

theorem CheckedBindings.wellFormed :
    CheckedBindings ls m bs cs n → ∀ d ∈ bs.map (·.value), d.WellFormed (innermostArity ls)
  | .nil => nofun
  | .cons h hb => List.forall_mem_cons.2 ⟨h.wellFormed, hb.wellFormed⟩

end

/-! ## Well-formed data are accepted -/

/-- Inside the loops the datum is accepted, whatever the next number is. -/
def Accepted (ls : List Loop) (d : Datum) : Prop := ∀ m, ∃ t n, Checked ls m d t n

/-- The form is accepted inside the loops, whatever the next number is. -/
def Form.Accepted (ls : List Loop) (f : Form) : Prop := ∀ m, ∃ t n, CheckedForm ls m f t n

namespace Accepted

theorem call {callee : Datum} {args : List Datum} {f : Form}
    (hf : Form.ofCall callee args = .ok f) (h : f.Accepted ls) :
    Accepted ls (.call callee args) := by
  intro m
  obtain ⟨t, n, h⟩ := h m
  exact ⟨t, n, .call hf h⟩

theorem keyword {x : String} {args : List Datum} {k : Keyword} {f : Form} (hx : x ∈ k.names)
    (hk : Form.ofKeyword x args k = .ok f) (h : f.Accepted ls) :
    Accepted ls (.call (.symbol x) args) := call ((Form.ofCall_keyword hx).trans hk) h

theorem all {ds : List Datum} (h : ∀ d ∈ ds, Accepted ls d) (m : Nat) :
    ∃ ts n, CheckedAll ls m ds ts n := by
  induction ds generalizing m with
  | nil => exact ⟨[], m, .nil⟩
  | cons d ds ih =>
    obtain ⟨hd, hds⟩ := List.forall_mem_cons.1 h
    obtain ⟨t, k, ht⟩ := hd m
    obtain ⟨ts, n, hts⟩ := ih hds k
    exact ⟨t :: ts, n, .cons ht hts⟩

theorem bindings {bs : List (Binding Datum)} (h : ∀ d ∈ bs.map (·.value), Accepted ls d) (m : Nat) :
    ∃ cs n, CheckedBindings ls m bs cs n := by
  induction bs generalizing m with
  | nil => exact ⟨[], m, .nil⟩
  | cons b bs ih =>
    obtain ⟨hb, hbs⟩ := List.forall_mem_cons.1 h
    obtain ⟨t, k, ht⟩ := hb m
    obtain ⟨cs, n, hcs⟩ := ih hbs k
    exact ⟨⟨b.targets, t⟩ :: cs, n, .cons ht hcs⟩

/-- The effects and the result of a body. -/
theorem body {ds : List Datum} (hne : ds ≠ []) (h : ∀ d ∈ ds, Accepted ls d) (m : Nat) :
    ∃ ts k t n, CheckedAll ls m ds.dropLast ts k ∧ Checked ls k (ds.getLast hne) t n := by
  obtain ⟨ts, k, hts⟩ := all (fun d hd => h d (List.dropLast_subset ds hd)) m
  obtain ⟨t, n, ht⟩ := h _ (List.getLast_mem hne) k
  exact ⟨ts, k, t, n, hts, ht⟩

end Accepted

theorem Datum.WellFormed.accepted {d : Datum} (h : d.WellFormed c) :
    ∀ ls, innermostArity ls = c → Accepted ls d := by
  induction h with
  | symbol => exact fun ls _ m => ⟨_, m, .symbol⟩
  | number => exact fun ls _ m => ⟨_, m, .number⟩
  | string => exact fun ls _ m => ⟨_, m, .string⟩
  | vector _ ih =>
    intro ls hls m
    obtain ⟨ts, n, hts⟩ := Accepted.all (fun d hd => ih d hd ls hls) m
    exact ⟨_, n, .vector hts⟩
  | @apply _ callee args hcallee _ _ ih ihs =>
    intro ls hls
    have hf : Form.ofCall callee args = .ok (.call callee args) := by
      cases callee with
      | symbol x => cases hcallee
      | _ => rfl
    refine .call hf fun m => ?_
    obtain ⟨t, k, ht⟩ := ih ls hls m
    obtain ⟨ts, n, hts⟩ := Accepted.all (fun d hd => ihs d hd ls hls) k
    exact ⟨_, n, .call ht hts⟩
  | named hx _ ihs =>
    refine fun ls hls => .call (Form.ofCall_named hx) fun m => ?_
    obtain ⟨ts, n, hts⟩ := Accepted.all (fun d hd => ihs d hd ls hls) m
    exact ⟨_, n, .call .symbol hts⟩
  | not hx _ ih =>
    refine fun ls hls => .keyword (k := .not) hx rfl fun m => ?_
    obtain ⟨t, n, ht⟩ := ih ls hls m
    exact ⟨_, n, .not ht⟩
  | @operator x args _ hx _ ihs =>
    intro ls hls
    obtain rfl | ⟨op, hop⟩ := Keyword.of_mem_operators hx
    · refine .keyword (k := .get) (.head _) rfl fun m => ?_
      obtain ⟨ts, n, hts⟩ := Accepted.all (fun d hd => ihs d hd ls hls) m
      exact ⟨_, n, .get hts⟩
    · refine .keyword hop rfl fun m => ?_
      obtain ⟨ts, n, hts⟩ := Accepted.all (fun d hd => ihs d hd ls hls) m
      exact ⟨_, n, .operator hts⟩
  | @logic x args _ hx hne _ ihs =>
    intro ls hls
    obtain ⟨first, rest, rfl⟩ := List.exists_cons_of_ne_nil hne
    obtain ⟨hfirst, hrest⟩ := List.forall_mem_cons.1 ihs
    obtain ⟨op, hop⟩ := Keyword.of_mem_logic hx
    refine .keyword hop rfl fun m => ?_
    obtain ⟨t, k, ht⟩ := hfirst ls hls m
    obtain ⟨ts, n, hts⟩ := Accepted.all (fun d hd => hrest d hd ls hls) k
    exact ⟨_, n, .logic ht hts⟩
  | @cond args _ hlen _ ihs =>
    intro ls hls
    have haccepted := fun d hd => ihs d hd ls hls
    obtain hlen | hlen := hlen
    · obtain ⟨test, yes, rfl⟩ := List.length_eq_two.1 hlen
      refine .keyword (k := .cond) (.head _) rfl fun m => ?_
      obtain ⟨t, j, ht⟩ := haccepted test (by simp) m
      obtain ⟨u, n, hu⟩ := haccepted yes (by simp) j
      exact ⟨_, n, .cond ht hu⟩
    · obtain ⟨test, yes, no, rfl⟩ := List.length_eq_three.1 hlen
      refine .keyword (k := .cond) (.head _) rfl fun m => ?_
      obtain ⟨t, j, ht⟩ := haccepted test (by simp) m
      obtain ⟨u, k, hu⟩ := haccepted yes (by simp) j
      obtain ⟨v, n, hv⟩ := haccepted no (by simp) k
      exact ⟨_, n, .condElse ht hu hv⟩
  | assert _ ih =>
    refine fun ls hls => .keyword (k := .assert) (.head _) rfl fun m => ?_
    obtain ⟨t, n, ht⟩ := ih ls hls m
    exact ⟨_, n, .assert ht⟩
  | @fn params body _ hparams hne _ ihs =>
    intro ls hls
    obtain ⟨first, rest, rfl⟩ := List.exists_cons_of_ne_nil hne
    obtain ⟨ps, hps⟩ := Params.ofDatum_of_parameterVector "fn" hparams
    refine .keyword (k := .fn) (.head _) (bind_eq_ok.2 ⟨ps, hps, rfl⟩) fun m => ?_
    obtain ⟨ts, k, t, n, hts, ht⟩ := Accepted.body hne (fun d hd => ihs d hd ls hls) m
    exact ⟨_, n, .fn hts ht⟩
  | @letIn bindings values body _ hb hne _ _ ihb ihs =>
    intro ls hls
    obtain ⟨first, rest, rfl⟩ := List.exists_cons_of_ne_nil hne
    obtain ⟨bs, hbs, rfl⟩ := (Binding.bindingVector_iff "let").1 hb
    refine .keyword (k := .letIn) (.head _) (bind_eq_ok.2 ⟨bs, hbs, rfl⟩) fun m => ?_
    obtain ⟨cs, j, hcs⟩ := Accepted.bindings (fun d hd => ihb d hd ls hls) m
    obtain ⟨ts, k, t, n, hts, ht⟩ := Accepted.body hne (fun d hd => ihs d hd ls hls) j
    exact ⟨_, n, .letIn hcs hts ht⟩
  | @loop bindings values body _ hb hne hrecur _ _ ihb ihs =>
    intro ls hls
    obtain ⟨first, rest, rfl⟩ := List.exists_cons_of_ne_nil hne
    obtain ⟨bs, hbs, rfl⟩ := (Binding.bindingVector_iff "loop").1 hb
    obtain ⟨d, hd, hr⟩ := hrecur
    have hany : Datum.anyRecur (first :: rest) = true := anyRecur_iff.2 ⟨d, hd, hr.hasRecur⟩
    refine .keyword (k := .loop) (.head _) (bind_eq_ok.2 ⟨bs, hbs, if_pos hany⟩) fun m => ?_
    obtain ⟨cs, j, hcs⟩ := Accepted.bindings (fun d hd => ihb d hd ls hls) (m + 2)
    have harity := innermostArity_cons bs m ls
    rw [← List.length_map (·.value)] at harity
    obtain ⟨ts, k, t, n, hts, ht⟩ := Accepted.body hne (fun d hd => ihs d hd _ harity) j
    exact ⟨_, n, .loop hcs hts ht⟩
  | @recur args _ ihs =>
    intro ls hls
    cases ls with
    | nil => cases hls
    | cons l ls =>
      refine .keyword (k := .recur) (.head _) rfl fun m => ?_
      obtain ⟨ts, n, hts⟩ := Accepted.all (fun d hd => ihs d hd _ hls) m
      exact ⟨_, n, .recur (Option.some.inj hls).symm hts⟩

/-- In any state of a session, an expression compiles if and only if it is well formed where the
innermost open loop has as many bindings as that of the session, or where no loop is open. -/
theorem compile_accepts_iff (cfg : Config) (d : Datum) (s : Session) :
    (∃ e s', (d.compile cfg).outcome s = (.ok e, s')) ↔
      d.WellFormed (s.loops.head?.map (·.targets.length)) := by
  constructor
  · rintro ⟨e, s', h⟩
    obtain ⟨t, u, ht, -⟩ := Check.bind_eq_ok.1 h
    obtain ⟨n, -, hc⟩ := Checked.of_check ht
    exact hc.wellFormed
  · intro h
    obtain ⟨t, n, hc⟩ := h.accepted s.loops rfl s.next
    exact ⟨_, _, Check.outcome_seq hc.check rfl⟩

end SmallLisp
