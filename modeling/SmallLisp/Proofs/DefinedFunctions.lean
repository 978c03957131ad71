import SmallLisp.Proofs.Language
import SmallLisp.Proofs.Mentions

/-!
# Definitions of functions

A definition declares a function exactly if its value is written as one, by itself or as the one
operand of chains: no other form is compiled to a function literal (`Checked.wrapsFunction_iff`).
The declared function does what the literal does. It evaluates the forms of its body, each once and
in order, and where the program starts it returns nothing, so that the last form is evaluated for
its effects as well (`definition_declares`).
-/

namespace SmallLisp

open Program Outcome

/-! ## Values that are written as functions -/

/-- The datum is a call to `fn` with the arguments `args`, by itself or as the one operand of
chains. -/
inductive Datum.WrapsFunction (args : List Datum) : Datum → Prop
  | fn : WrapsFunction args (.call (.symbol "fn") args)
  | chain : x ∈ ["and", "or"] → WrapsFunction args d → WrapsFunction args (.call (.symbol x) [d])

namespace Form

theorem eq_of_ofCall_fn {callee result : Datum} {args effects : List Datum} {ps : Params}
    (h : ofCall callee args = .ok (.fn ps effects result)) :
    callee = .symbol "fn" ∧
      ∃ params, Params.ofDatum "fn" params = .ok ps ∧ args = params :: (effects ++ [result]) := by
  obtain ⟨x, k, rfl, hx, hk⟩ | ⟨hplain, -⟩ := ofCall_eq_ok h
  · cases keyword?_ofKeyword hk
    obtain rfl := List.mem_singleton.1 hx
    simp only [ofKeyword] at hk
    split at hk
    · rename_i params first rest
      obtain ⟨ps, hps, hk⟩ := bind_eq_ok.1 hk
      cases hk
      exact ⟨rfl, params, hps, by rw [List.dropLast_concat_getLast]⟩
    · cases hk
  · cases hplain

theorem eq_of_ofCall_logic {callee first : Datum} {args rest : List Datum} {op : LogicOp}
    (h : ofCall callee args = .ok (.logic op first rest)) :
    ∃ x ∈ ["and", "or"], callee = .symbol x ∧ args = first :: rest := by
  obtain ⟨x, k, rfl, hx, hk⟩ | ⟨hplain, -⟩ := ofCall_eq_ok h
  · cases keyword?_ofKeyword hk
    refine ⟨x, ?_, rfl, ?_⟩
    · cases op <;> simp_all [Keyword.names]
    · simp only [ofKeyword] at hk
      split at hk <;> cases hk
      rfl
  · cases hplain

end Form

theorem CheckedAll.concat : CheckedAll ls m ds ts k → Checked ls k d t n →
    CheckedAll ls m (ds ++ [d]) (ts ++ [t]) n
  | .nil, h => .cons h .nil
  | .cons h hs, h' => .cons h (hs.concat h')

/-- What is written as a function is checked as one: its body is that of the term. -/
theorem Checked.of_wrapsFunction (hd : d.WrapsFunction args) (h : Checked ls m d t n) :
    ∃ params forms ps ts r, args = params :: forms ∧ Params.ofDatum "fn" params = .ok ps ∧
      CheckedAll ls m forms (ts ++ [r]) n ∧ t.function? = some (ps, ts, r) := by
  induction hd generalizing t with
  | fn =>
    cases h with
    | call hf h =>
      have hkeyword := Form.keyword?_ofCall hf
      cases h with
      | fn hs h =>
        obtain ⟨-, params, hps, rfl⟩ := Form.eq_of_ofCall_fn hf
        exact ⟨params, _, _, _, _, rfl, hps, hs.concat h, rfl⟩
      | _ => cases hkeyword
  | chain hx _ ih =>
    cases h with
    | call hf h =>
      obtain rfl | rfl := List.mem_pair.1 hx
      all_goals
        cases hf
        cases h with
        | logic h hs =>
          cases hs
          obtain ⟨params, forms, ps, ts, r, hargs, hps, hforms, ht⟩ := ih h
          exact ⟨params, forms, ps, ts, r, hargs, hps, hforms, ht⟩

theorem Checked.wrapsFunction (ht : t.function? = some (ps, ts, r)) (h : Checked ls m d t n) :
    ∃ args, d.WrapsFunction args := by
  refine Term.of_function? (motive := fun t => ∀ d m n, Checked ls m d t n →
    ∃ args, d.WrapsFunction args) ht ?_ ?_ d m n h
  · intro d m n h
    cases h with
    | call hf h =>
      cases h
      obtain ⟨rfl, -⟩ := Form.eq_of_ofCall_fn hf
      exact ⟨_, .fn⟩
  · intro op t ih d m n h
    cases h with
    | call hf h =>
      cases h with
      | logic h hs =>
        cases hs
        obtain ⟨x, hx, rfl, rfl⟩ := Form.eq_of_ofCall_logic hf
        obtain ⟨args, hd⟩ := ih _ _ _ h
        exact ⟨args, .chain hx hd⟩

theorem Checked.wrapsFunction_iff (h : Checked ls m d t n) :
    (∃ args, d.WrapsFunction args) ↔ t.function?.isSome := by
  rw [Option.isSome_iff_exists]
  constructor
  · rintro ⟨args, hd⟩
    obtain ⟨_, _, ps, ts, r, -, -, -, ht⟩ := h.of_wrapsFunction hd
    exact ⟨_, ht⟩
  · rintro ⟨⟨ps, ts, r⟩, ht⟩
    exact h.wrapsFunction ht

/-! ## Declarations -/

/-- The literal that a call to `fn` with the arguments `args` is compiled to: the forms after the
parameters are evaluated, each once and in order, and the value of the last is returned. -/
structure FunctionLiteral (cfg : Config) (s : Session) (args : List Datum) (e : Expr)
    (s' : Session) (signature : Signature) (initial : List Expr) (last : Expr) : Prop where
  value : e = .func signature (initial.map .expr ++ [.ret [last]])
  parts : ∃ params forms ps, args = params :: forms ∧ Params.ofDatum "fn" params = .ok ps ∧
    signature = ⟨ps.groups cfg, [cfg.any]⟩ ∧
    (Datum.compileAll cfg forms).outcome s = (.ok (initial ++ [last]), s')

theorem emitAll_concat {cfg : Config} {ts : List Term} {t : Term} :
    Term.emitAll cfg (ts ++ [t]) = Term.emitAll cfg ts ++ [t.emit cfg] := by
  induction ts with
  | nil => rfl
  | cons t ts ih => exact congrArg (_ :: ·) ih

theorem Checked.functionLiteral (hd : d.WrapsFunction args) (h : Checked ls m d t n) :
    ∃ signature initial last,
      FunctionLiteral cfg ⟨m, ls⟩ args (t.emit cfg) ⟨n, ls⟩ signature initial last := by
  obtain ⟨params, forms, ps, ts, r, hargs, hps, hforms, ht⟩ := h.of_wrapsFunction hd
  refine ⟨⟨ps.groups cfg, [cfg.any]⟩, Term.emitAll cfg ts, r.emit cfg, ?_,
    params, forms, ps, hargs, hps, rfl, ?_⟩
  · rw [Term.emit_of_function? cfg ht, Term.emit, emitEffects_eq]
  · rw [← emitAll_concat]
    exact Check.outcome_seq hforms.check rfl

theorem CheckedItem.of_definition (h : CheckedItem ls m (.call (.symbol "def") args) i n) :
    ∃ name value rest t, args = .symbol name :: value :: rest ∧ i = .define name t ∧
      Checked ls m value t n := by
  generalize hd : Datum.call (.symbol "def") args = d at h
  cases h with
  | define h =>
    cases hd
    exact ⟨_, _, _, _, rfl, rfl, h⟩
  | package => simp at hd
  | call h =>
    cases hd
    cases h with
    | call hf _ => cases hf

/-- What a definition of `name` declares for a function literal. -/
theorem definition_func {cfg : Config} {name : String} {signature : Signature}
    {initial : List Expr} {last : Expr} :
    definition cfg name (.func signature (initial.map .expr ++ [.ret [last]])) =
      if name = cfg.entryPoint then
        .func name { signature with results := [] } (initial.map .expr ++ [.expr last])
      else
        .func name signature (initial.map .expr ++ [.ret [last]]) := by
  rw [definition, entryBody_concat_ret]
  rfl

/-- A definition declares a function exactly if its value is written as one. Any other value is that
of a variable. The function has the parameters of the literal, and its result and its body, too,
unless the program starts there: then it has no result, and the last expression of its body is
evaluated like those before it. -/
theorem definition_declares {cfg : Config} {args : List Datum} {s s' : Session} {decl : Decl}
    (h : ((Datum.call (.symbol "def") args).compileTopLevel cfg).outcome s = (.ok decl, s')) :
    ∃ name value rest e, args = .symbol name :: value :: rest ∧
      (value.compile cfg).outcome s = (.ok e, s') ∧
      ((∃ x signature body, decl = .func x signature body) ↔
        ∃ parts, value.WrapsFunction parts) ∧
      ((¬∃ parts, value.WrapsFunction parts) → decl = .var [Identifier.ofName name] none [e]) ∧
      ∀ parts, value.WrapsFunction parts → ∃ signature initial last,
        FunctionLiteral cfg s parts e s' signature initial last ∧
        (Identifier.ofName name ≠ cfg.entryPoint → decl = .func (Identifier.ofName name) signature
          (initial.map .expr ++ [.ret [last]])) ∧
        (Identifier.ofName name = cfg.entryPoint → decl = .func (Identifier.ofName name)
          { signature with results := [] } (initial.map .expr ++ [.expr last])) := by
  obtain ⟨i, u, hi, he⟩ := Check.bind_eq_ok.1 h
  cases he
  obtain ⟨n, rfl, hchecked⟩ := CheckedItem.of_checkTopLevel hi
  obtain ⟨name, d, rest, t, rfl, rfl, hvalue⟩ := hchecked.of_definition
  have hvar (hd : ¬∃ parts, d.WrapsFunction parts) :
      definition cfg (Identifier.ofName name) (t.emit cfg) =
        .var [Identifier.ofName name] none [t.emit cfg] := by
    rw [hvalue.wrapsFunction_iff, Bool.not_eq_true, Option.isSome_eq_false_iff,
      Option.isNone_iff_eq_none] at hd
    exact definition_eq_var (Term.emit_ne_func hd)
  refine ⟨name, d, rest, t.emit cfg, rfl, Check.outcome_seq hvalue.check rfl, ?_, hvar, ?_⟩
  · constructor
    · rintro ⟨x, signature, body, hdecl⟩
      by_contra hd
      cases (hvar hd).symm.trans hdecl
    · rintro ⟨parts, hd⟩
      obtain ⟨signature, initial, last, hliteral⟩ := hvalue.functionLiteral hd
      rw [TopLevel.emit, hliteral.value, definition_func]
      split
      · exact ⟨_, _, _, rfl⟩
      · exact ⟨_, _, _, rfl⟩
  · intro parts hd
    obtain ⟨signature, initial, last, hliteral⟩ := hvalue.functionLiteral hd
    refine ⟨signature, initial, last, hliteral, ?_, ?_⟩
    · intro hname
      rw [TopLevel.emit, hliteral.value, definition_func, if_neg hname]
    · intro hname
      rw [TopLevel.emit, hliteral.value, definition_func, if_pos hname]

/-! ## A function in a chain, where the program starts -/

/-- `(fn [] (greet) (loop [i 0] (recur i)))`, of which these are the arguments. -/
def greetForms : List Datum := [.vector [], .call (.symbol "greet") [], endlessLoop]

/-- `(or (fn [] (greet) (loop [i 0] (recur i))))` -/
def chainedGreet : Datum := .call (.symbol "or") [.call (.symbol "fn") greetForms]

theorem definition_declares_entryChain :
    chainedGreet.WrapsFunction greetForms ∧
    ∃ decl s, ((Datum.call (.symbol "def") [.symbol "main", chainedGreet]).compileTopLevel
        {}).outcome {} = (.ok decl, s) ∧
      ∃ e signature initial last,
        FunctionLiteral {} {} greetForms e s signature initial last ∧
        decl = .func "main" { signature with results := [] }
          (initial.map .expr ++ [.expr last]) := by
  have hwraps : chainedGreet.WrapsFunction greetForms := .chain (by decide) .fn
  have hgreet : Checked [] 0 (.call (.symbol "greet") []) (.call (.symbol "greet") []) 0 :=
    .call rfl (.call .symbol .nil)
  have hvalue : Checked [] 0 chainedGreet (.logic .or
      (.fn ⟨[], none⟩ [.call (.symbol "greet") []] endlessLoopTerm) []) 2 :=
    .call rfl (.logic (.call rfl (.fn (.cons hgreet .nil) endlessLoop_checked)) .nil)
  have hcompile : ((Datum.call (.symbol "def") [.symbol "main", chainedGreet]).compileTopLevel
      {}).outcome {} = (.ok _, ⟨2, []⟩) :=
    Check.outcome_seq (Check.outcome_seq hvalue.check rfl) rfl
  obtain ⟨name, value, rest, e, hargs, -, -, -, hfunction⟩ := definition_declares hcompile
  cases hargs
  obtain ⟨signature, initial, last, hliteral, -, hdecl⟩ := hfunction greetForms hwraps
  exact ⟨hwraps, _, _, hcompile, e, signature, initial, last, hliteral, hdecl rfl⟩

end SmallLisp
