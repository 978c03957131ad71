import SmallLisp.Proofs.SessionNames

/-!
# Returns in emitted programs

Every function literal of an emitted program has the type of all values as its one result, ends in
a terminating statement, and returns one value wherever it returns (`Term.emit_disciplined`). So
does every declared function but the one where the program starts, which has no result and does not
return (`compileFile_returns`).
-/

namespace SmallLisp

open Program

namespace Program

/-! ## Functions and their returns -/

mutual

/-- The function literals in an expression, at any depth. -/
def Expr.funcs : Expr → List (Signature × List Stmt)
  | .ident _ | .literal .. => []
  | .selector base _ => base.funcs
  | .call callee args => callee.funcs ++ Expr.funcsAll args
  | .composite _ elements => Expr.funcsAll elements
  | .func signature body => (signature, body) :: Stmt.funcsAll body
  | .assert value _ => value.funcs
  | .not operand => operand.funcs
  | .logic _ left right => left.funcs ++ right.funcs

def Expr.funcsAll : List Expr → List (Signature × List Stmt)
  | [] => []
  | e :: es => e.funcs ++ Expr.funcsAll es

def Stmt.funcs : Stmt → List (Signature × List Stmt)
  | .assign _ targets values => Expr.funcsAll targets ++ Expr.funcsAll values
  | .var _ _ values => Expr.funcsAll values
  | .branch test yes no => test.funcs ++ Stmt.funcsAll yes ++ Stmt.funcsElse no
  | .loop init test post body =>
    Stmt.funcsIn init ++ Expr.funcsIn test ++ Stmt.funcsIn post ++ Stmt.funcsAll body
  | .ret values => Expr.funcsAll values
  | .expr value => value.funcs

def Stmt.funcsAll : List Stmt → List (Signature × List Stmt)
  | [] => []
  | s :: ss => s.funcs ++ Stmt.funcsAll ss

def Stmt.funcsElse : Option (List Stmt) → List (Signature × List Stmt)
  | none => []
  | some body => Stmt.funcsAll body

def Stmt.funcsIn : Option Stmt → List (Signature × List Stmt)
  | none => []
  | some s => s.funcs

def Expr.funcsIn : Option Expr → List (Signature × List Stmt)
  | none => []
  | some e => e.funcs

end

/-- The function literals in a declaration; the declared function is none. -/
def Decl.funcs : Decl → List (Signature × List Stmt)
  | .func _ _ body => Stmt.funcsAll body
  | .var _ _ values => Expr.funcsAll values
  | .imports _ => []

namespace Stmt

mutual

/-- The values of each return in a statement. Those of function literals in it are not among
them. -/
def returns : Stmt → List (List Expr)
  | .ret values => [values]
  | .branch _ yes no => returnsAll yes ++ returnsElse no
  | .loop init _ post body => returnsIn init ++ returnsIn post ++ returnsAll body
  | .assign .. | .var .. | .expr _ => []

def returnsAll : List Stmt → List (List Expr)
  | [] => []
  | s :: ss => s.returns ++ returnsAll ss

def returnsElse : Option (List Stmt) → List (List Expr)
  | none => []
  | some body => returnsAll body

def returnsIn : Option Stmt → List (List Expr)
  | none => []
  | some s => s.returns

end

/-- Statements after which control does not go on: a return, and a condition both of whose
branches end in such a statement. -/
inductive Terminates : Stmt → Prop
  | ret : Terminates (.ret values)
  | branch : yes.getLast? = some s → Terminates s → no.getLast? = some t → Terminates t →
    Terminates (.branch test yes (some no))

theorem returnsAll_append (ss ts : List Stmt) :
    returnsAll (ss ++ ts) = returnsAll ss ++ returnsAll ts := by
  induction ss with
  | nil => rfl
  | cons s ss ih => rw [List.cons_append, returnsAll, ih, returnsAll, List.append_assoc]

theorem returnsAll_exprs (es : List Expr) : returnsAll (es.map .expr) = [] := by
  induction es with
  | nil => rfl
  | cons e es ih => exact ih

theorem funcsAll_append (ss ts : List Stmt) :
    funcsAll (ss ++ ts) = funcsAll ss ++ funcsAll ts := by
  induction ss with
  | nil => rfl
  | cons s ss ih => rw [List.cons_append, funcsAll, ih, funcsAll, List.append_assoc]

theorem funcsAll_exprs (es : List Expr) : funcsAll (es.map .expr) = Expr.funcsAll es := by
  induction es with
  | nil => rfl
  | cons e es ih => rw [List.map_cons, funcsAll, ih, funcs, Expr.funcsAll]

theorem funcsAll_ret (values : List Expr) : funcsAll [.ret values] = Expr.funcsAll values :=
  List.append_nil _

end Stmt

theorem Expr.funcs_selectors (f : α → String) (base : Expr) (xs : List α) :
    (xs.foldl (fun b a => .selector b (f a)) base : Expr).funcs = base.funcs := by
  induction xs generalizing base with
  | nil => rfl
  | cons x xs ih => rw [List.foldl_cons, ih, funcs]

theorem Expr.funcs_ofName (name : String) : (ofName name).funcs = [] := by
  unfold ofName
  split
  · split
    · rfl
    · exact funcs_selectors _ _ _
  · rfl

theorem Expr.funcsAll_ofName (names : List String) : funcsAll (names.map ofName) = [] := by
  induction names with
  | nil => rfl
  | cons name names ih => rw [List.map_cons, funcsAll, funcs_ofName, ih, List.append_nil]

theorem Expr.funcs_logics (op : LogicOp) (e : Expr) (es : List Expr) :
    (es.foldl (.logic op) e).funcs = e.funcs ++ funcsAll es := by
  induction es generalizing e with
  | nil => exact (List.append_nil _).symm
  | cons a es ih => rw [List.foldl_cons, ih, funcs, funcsAll, List.append_assoc]

end Program

/-! ## Disciplined functions -/

/-- What Go asks of a function with one result: its body ends in a terminating statement, and all
its returns carry one value. -/
structure Disciplined (cfg : Config) (signature : Signature) (body : List Stmt) : Prop where
  results : signature.results = [cfg.any]
  terminates : ∃ s, body.getLast? = some s ∧ s.Terminates
  returns : ∀ values ∈ Stmt.returnsAll body, values.length = 1

/-- All these functions are disciplined. -/
def AllDisciplined (cfg : Config) (fs : List (Signature × List Stmt)) : Prop :=
  ∀ f ∈ fs, Disciplined cfg f.1 f.2

namespace AllDisciplined

variable {cfg : Config} {fs gs : List (Signature × List Stmt)}

theorem nil : AllDisciplined cfg [] := nofun

theorem append (hf : AllDisciplined cfg fs) (hg : AllDisciplined cfg gs) :
    AllDisciplined cfg (fs ++ gs) := List.forall_mem_append.2 ⟨hf, hg⟩

/-- A literal whose body only falls through to its last statement, which returns one value. -/
theorem func {signature : Signature} {body : List Stmt} {e : Expr}
    (hresults : signature.results = [cfg.any]) (hreturns : Stmt.returnsAll body = [])
    (hbody : AllDisciplined cfg (Stmt.funcsAll body)) (he : AllDisciplined cfg e.funcs) :
    AllDisciplined cfg (Expr.func signature (body ++ [.ret [e]])).funcs := by
  refine List.forall_mem_cons.2 ⟨⟨hresults, ⟨_, List.getLast?_concat, .ret⟩, ?_⟩, ?_⟩
  · rw [Stmt.returnsAll_append, hreturns]
    simp [Stmt.returnsAll, Stmt.returns]
  · rw [Stmt.funcsAll_append, Stmt.funcsAll_ret]
    exact hbody.append (he.append .nil)

end AllDisciplined

/-! ## Emitted terms -/

namespace AllDisciplined

variable {cfg : Config}

theorem closure {body : List Stmt} {e : Expr} (hreturns : Stmt.returnsAll body = [])
    (hbody : AllDisciplined cfg (Stmt.funcsAll body)) (he : AllDisciplined cfg e.funcs) :
    AllDisciplined cfg (cfg.closure (body ++ [.ret [e]])).funcs :=
  (func rfl hreturns hbody he).append .nil

/-- A condition in a function of its own: each of its branches returns one value. -/
theorem branch {test yes no : Expr} (htest : AllDisciplined cfg test.funcs)
    (hyes : AllDisciplined cfg yes.funcs) (hno : AllDisciplined cfg no.funcs) :
    AllDisciplined cfg
      (cfg.closure [.branch test [.ret [yes]] (some [.ret [no]])]).funcs := by
  refine append (List.forall_mem_cons.2 ⟨⟨rfl, ⟨_, rfl, .branch rfl .ret rfl .ret⟩, ?_⟩, ?_⟩) .nil
  · simp [Stmt.returnsAll, Stmt.returns, Stmt.returnsElse]
  · have hfuncs : Stmt.funcsAll [.branch test [.ret [yes]] (some [.ret [no]])] =
        test.funcs ++ yes.funcs ++ no.funcs := by
      simp [Stmt.funcsAll, Stmt.funcs, Stmt.funcsElse, Expr.funcsAll]
    rw [hfuncs]
    exact (htest.append hyes).append hno

end AllDisciplined

theorem funcsAll_emitEffects (cfg : Config) (ts : List Term) :
    Stmt.funcsAll (Term.emitEffects cfg ts) = Expr.funcsAll (Term.emitAll cfg ts) := by
  rw [emitEffects_eq, Stmt.funcsAll_exprs]

theorem returnsAll_emitEffects (cfg : Config) (ts : List Term) :
    Stmt.returnsAll (Term.emitEffects cfg ts) = [] := by
  rw [emitEffects_eq, Stmt.returnsAll_exprs]

theorem returnsAll_emitBindings (cfg : Config) (bs : List (Binding Term)) :
    Stmt.returnsAll (Term.emitBindings cfg bs) = [] := by
  induction bs with
  | nil => rfl
  | cons b bs ih => exact ih

/-- One assignment for each list of names. -/
private theorem funcsAll_assigns (xss : List (List String)) {values : List Expr}
    (h : AllDisciplined cfg (Expr.funcsAll values)) :
    AllDisciplined cfg (Stmt.funcsAll
      (xss.zipWith (fun xs value => .assign .assign (xs.map Expr.ofName) [value]) values)) := by
  induction xss generalizing values with
  | nil => exact .nil
  | cons xs xss ih =>
    cases values with
    | nil => exact .nil
    | cons value values =>
      obtain ⟨hvalue, hvalues⟩ := List.forall_mem_append.1 h
      rw [List.zipWith_cons_cons, Stmt.funcsAll, Stmt.funcs, Expr.funcsAll_ofName, List.nil_append]
      exact (AllDisciplined.append hvalue .nil).append (ih hvalues)

theorem Loop.funcsAll_update (l : Loop) {values : List Expr}
    (h : AllDisciplined cfg (Expr.funcsAll values)) :
    AllDisciplined cfg (Stmt.funcsAll (l.update values)) := by
  unfold Loop.update
  split
  · split
    · exact .nil
    · rw [Stmt.funcsAll, Stmt.funcs, Expr.funcsAll_ofName, List.nil_append]
      exact h.append .nil
  · exact funcsAll_assigns _ h

theorem Loop.returnsAll_update (l : Loop) (values : List Expr) :
    Stmt.returnsAll (l.update values) = [] := by
  unfold Loop.update
  split
  · split <;> rfl
  · generalize l.targets = xss
    induction xss generalizing values with
    | nil => rfl
    | cons xs xss ih =>
      cases values with
      | nil => rfl
      | cons value values => exact ih values

/-- The body of the function that a loop becomes, before its return. -/
theorem Loop.passes_disciplined (l : Loop) {bindings effects : List Stmt} {result : Expr}
    (hbindings : AllDisciplined cfg (Stmt.funcsAll bindings))
    (hreturns : Stmt.returnsAll bindings = [])
    (heffects : AllDisciplined cfg (Stmt.funcsAll effects))
    (hreturns' : Stmt.returnsAll effects = []) (hresult : AllDisciplined cfg result.funcs) :
    AllDisciplined cfg (cfg.closure (l.passes cfg bindings effects result)).funcs := by
  have hpasses : l.passes cfg bindings effects result =
      (bindings ++ [.var [l.resultName] (some cfg.any) [],
        l.stmt (.set l.flag (.bool false) :: effects ++ [.set (.ident l.resultName) result])]) ++
        [.ret [.ident l.resultName]] := by
    simp [Loop.passes]
  rw [hpasses]
  refine .closure ?_ ?_ .nil
  · simp [Stmt.returnsAll_append, hreturns, hreturns', Stmt.returnsAll, Stmt.returns,
      Stmt.returnsIn, Stmt.define, Stmt.set]
  · have hloop : Stmt.funcsAll [.var [l.resultName] (some cfg.any) [],
        l.stmt (.set l.flag (.bool false) :: effects ++ [.set (.ident l.resultName) result])] =
        Stmt.funcsAll effects ++ result.funcs := by
      simp [Stmt.funcsAll_append, Stmt.funcsAll, Stmt.funcs, Stmt.funcsIn, Expr.funcsIn,
        Expr.funcsAll, Expr.funcs, Stmt.define, Stmt.set, Loop.flag, Expr.bool]
    rw [Stmt.funcsAll_append, hloop]
    exact hbindings.append (heffects.append hresult)

namespace Term

variable (cfg : Config)

mutual

theorem emit_disciplined : ∀ t : Term, AllDisciplined cfg (t.emit cfg).funcs
  | .symbol name => by
    rw [emit, Expr.funcs_ofName]
    exact .nil
  | .number .. | .string _ => .nil
  | .vector elements => emitAll_disciplined elements
  | .call callee args => (emit_disciplined callee).append (emitAll_disciplined args)
  | .not operand => emit_disciplined operand
  | .operator _ args => emitAll_disciplined args
  | .logic op first rest => by
    rw [emit, Expr.funcs_logics]
    exact (emit_disciplined first).append (emitAll_disciplined rest)
  | .loop n bindings effects result => by
    rw [emit]
    refine Loop.passes_disciplined _ (emitBindings_disciplined bindings)
      (returnsAll_emitBindings cfg bindings) ?_ (returnsAll_emitEffects cfg effects)
      (emit_disciplined result)
    rw [funcsAll_emitEffects]
    exact emitAll_disciplined effects
  | .recur l values => by
    rw [emit, List.append_cons]
    refine .closure ?_ ?_ .nil
    · rw [Stmt.returnsAll_append, Loop.returnsAll_update]
      rfl
    · rw [Stmt.funcsAll_append]
      exact (l.funcsAll_update (emitAll_disciplined values)).append .nil
  | .assert _ value => emit_disciplined value
  | .get args => by
    rw [emit, Expr.funcs, Config.coreFunction, Expr.funcs_ofName]
    exact emitAll_disciplined args
  | .letIn bindings effects result => by
    rw [emit]
    refine .closure ?_ ?_ (emit_disciplined result)
    · rw [Stmt.returnsAll_append, returnsAll_emitBindings, returnsAll_emitEffects]
      rfl
    · rw [Stmt.funcsAll_append, funcsAll_emitEffects]
      exact (emitBindings_disciplined bindings).append (emitAll_disciplined effects)
  | .cond test yes no =>
    .branch (emit_disciplined test) (emit_disciplined yes) (emitElse_disciplined no)
  | .fn params effects result => by
    refine .func rfl (returnsAll_emitEffects cfg effects) ?_ (emit_disciplined result)
    rw [funcsAll_emitEffects]
    exact emitAll_disciplined effects

theorem emitAll_disciplined : ∀ ts, AllDisciplined cfg (Expr.funcsAll (emitAll cfg ts))
  | [] => .nil
  | t :: ts => (emit_disciplined t).append (emitAll_disciplined ts)

theorem emitBindings_disciplined : ∀ bs, AllDisciplined cfg (Stmt.funcsAll (emitBindings cfg bs))
  | [] => .nil
  | ⟨targets, value⟩ :: bs => by
    rw [emitBindings, Stmt.funcsAll, Stmt.funcs, Expr.funcsAll_ofName, List.nil_append]
    exact ((emit_disciplined value).append .nil).append (emitBindings_disciplined bs)

theorem emitElse_disciplined : ∀ t?, AllDisciplined cfg (emitElse cfg t?).funcs
  | none => .nil
  | some t => emit_disciplined t

end

end Term

/-! ## Declarations -/

/-- What Go asks of the functions in a declaration. The function where the program starts has no
result, so it does not return. -/
structure DisciplinedDecl (cfg : Config) (decl : Decl) : Prop where
  literals : ∀ f ∈ decl.funcs, Disciplined cfg f.1 f.2
  declared : ∀ name signature body, decl = .func name signature body → name ≠ cfg.entryPoint →
    Disciplined cfg signature body
  entry : ∀ signature body, decl = .func cfg.entryPoint signature body →
    signature.results = [] ∧ Stmt.returnsAll body = []

theorem entryBody_concat_ret (body : List Stmt) (values : List Expr) :
    entryBody (body ++ [.ret values]) = body ++ values.map .expr := by
  rw [entryBody, List.getLast?_concat, List.dropLast_concat]

theorem Checked.disciplined_definition (h : Checked ls m d t n) (cfg : Config) (name : String) :
    DisciplinedDecl cfg (definition cfg name (t.emit cfg)) := by
  have hliterals := t.emit_disciplined cfg
  unfold definition
  split
  · rename_i signature body ht
    obtain ⟨hfunc, hbody⟩ := List.forall_mem_cons.1 (ht ▸ hliterals :)
    split
    · rename_i hname
      obtain ⟨ps, effects, result, he⟩ := h.emitsFunction ht
      rw [he.body, Stmt.funcsAll_append, Stmt.funcsAll_ret] at hbody
      obtain ⟨heffects, hresult⟩ := List.forall_mem_append.1 hbody
      rw [he.body, entryBody_concat_ret]
      refine ⟨?_, ?_, ?_⟩
      · rw [Decl.funcs, Stmt.funcsAll_append, Stmt.funcsAll_exprs]
        exact AllDisciplined.append heffects hresult
      · rintro _ _ _ ⟨⟩ hne
        exact absurd hname hne
      · rintro _ _ ⟨⟩
        rw [Stmt.returnsAll_append, returnsAll_emitEffects]
        exact ⟨rfl, rfl⟩
    · rename_i hname
      refine ⟨hbody, ?_, ?_⟩
      · rintro _ _ _ ⟨⟩ -
        exact hfunc
      · rintro _ _ ⟨⟩
        exact absurd rfl hname
  · exact ⟨AllDisciplined.append hliterals .nil, nofun, nofun⟩

theorem CheckedItem.disciplined (h : CheckedItem ls m d i n) (cfg : Config) :
    DisciplinedDecl cfg (i.emit cfg) := by
  cases i with
  | define name t =>
    cases h with
    | define h => exact h.disciplined_definition cfg _
  | discard t => exact ⟨AllDisciplined.append (t.emit_disciplined cfg) .nil, nofun, nofun⟩

theorem CheckedItems.disciplined (h : CheckedItems ls m ds is n) (cfg : Config) :
    ∀ i ∈ is, DisciplinedDecl cfg (i.emit cfg) := by
  induction h with
  | nil => nofun
  | cons h _ ih => exact List.forall_mem_cons.2 ⟨h.disciplined cfg, ih⟩

/-- In a file that compiles, every function literal has the type of all values as its one result,
ends in a terminating statement, and returns one value wherever it returns. So does every declared
function but the one where the program starts: that one has no result and does not return. -/
theorem compileFile_returns {cfg : Config} {ds : List Datum} {s s' : Session} {f : File}
    (h : (Datum.compileFile cfg ds).outcome s = (.ok f, s')) :
    ∀ decl ∈ f.decls, DisciplinedDecl cfg decl := by
  obtain ⟨source, u, hcheck, he⟩ := Check.bind_eq_ok.1 h
  cases he
  obtain ⟨_, _, -, hitems⟩ := CheckedItems.of_checkFile hcheck
  have hdecls : ∀ decl ∈ source.items.map (·.emit cfg), DisciplinedDecl cfg decl :=
    List.forall_mem_map.2 (hitems.disciplined cfg)
  unfold SourceFile.emit
  split
  · exact hdecls
  · rename_i package _
    refine List.forall_mem_append.2 ⟨fun decl hdecl => ?_, hdecls⟩
    unfold Package.importDecls at hdecl
    split at hdecl
    · cases hdecl
    · obtain rfl := List.mem_singleton.1 hdecl
      exact ⟨nofun, nofun, nofun⟩

/-- `(def main (fn [] (loop [i 0] (recur i))))` -/
def entryLoop : Datum :=
  .call (.symbol "def") [.symbol "main", .call (.symbol "fn") [.vector [], endlessLoop]]

theorem compileFile_returns_entryLoop :
    ∃ f s, (Datum.compileFile {} [entryLoop]).outcome {} = (.ok f, s) ∧
      ∀ decl ∈ f.decls, DisciplinedDecl {} decl := by
  have hfn : Checked [] 0 (.call (.symbol "fn") [.vector [], endlessLoop])
      (.fn ⟨[], none⟩ [] endlessLoopTerm) 2 := .call rfl (.fn .nil endlessLoop_checked)
  have hcompile : (Datum.compileFile {} [entryLoop]).outcome {} = (.ok _, ⟨2, []⟩) :=
    Check.outcome_seq (Check.outcome_seq (Check.outcome_seq
      (Check.outcome_seq hfn.check rfl) (Check.outcome_seq rfl rfl)) rfl) rfl
  exact ⟨_, _, hcompile, compileFile_returns hcompile⟩

end SmallLisp
