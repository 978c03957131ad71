import SmallLisp.Proofs.FreshNames

/-!
# Generated names in a session

A session compiles expressions, definitions and whole files one after the other, and goes on after
a step that fails. Over all its outputs no generated name is declared twice, each is used where it
is bound, and no name of a source is translated to one (`session_generated_names`). The alias of an
imported package is the one name of a source that is declared as it is written, so one that looks
like a generated name is declared beside it. Aliases are left out here; where none of them looks
like a generated name they may be counted in (`WellNamed.distinct_aliases`).
-/

namespace SmallLisp

open Program Identifier

/-! ## Sessions -/

/-- What is compiled in one step of a session. -/
inductive Step where
  | expr (d : Datum)
  | exprs (ds : List Datum)
  | topLevel (d : Datum)
  | file (ds : List Datum)

/-- The output of a step. -/
structure Output where
  exprs : List Expr
  decls : List Decl

namespace Output

def items (o : Output) : List (Place × Item) :=
  Expr.itemsAll [] o.exprs ++ o.decls.flatMap Decl.items

/-- All names declared in an output, at any depth, but for the aliases of imports. -/
def declared (o : Output) : List String :=
  o.decls.flatMap Decl.names ++ o.items.flatMap (·.2.declared)

def aliases (o : Output) : List String := o.decls.flatMap Decl.aliases

end Output

namespace Step

def compile (cfg : Config) : Step → Check Output
  | .expr d => do
    let e ← d.compile cfg
    return ⟨[e], []⟩
  | .exprs ds => do
    let es ← Datum.compileAll cfg ds
    return ⟨es, []⟩
  | .topLevel d => do
    let decl ← d.compileTopLevel cfg
    return ⟨[], [decl]⟩
  | .file ds => do
    let f ← Datum.compileFile cfg ds
    return ⟨[], f.decls⟩

/-- The outputs of the steps that succeed, and the session after the last step. -/
def outputs (cfg : Config) : List Step → Session → List Output × Session
  | [], s => ([], s)
  | step :: steps, s =>
    match (step.compile cfg).outcome s with
    | (.ok o, s') => (o :: (outputs cfg steps s').1, (outputs cfg steps s').2)
    | (.error _, s') => outputs cfg steps s'

/-- The data of a step. -/
def data : Step → List Datum
  | .expr d => [d]
  | .exprs ds => ds
  | .topLevel d => [d]
  | .file ds => ds

end Step

/-! ## Steps keep the session -/

open Check in
/-- A step takes numbers for calls to `loop` in its data, and at most once for each. -/
theorem Step.compile_takes (cfg : Config) (step : Step) :
    ∃ k ≤ (Datum.callsToAll "loop" step.data).length, Takes k (step.compile cfg) := by
  cases step with
  | expr d =>
    refine ⟨_, ?_, Takes.bind ((Datum.check_takes d).bind fun _ => .pure) fun _ => .pure⟩
    simp [data, Datum.callsToAll]
  | exprs ds =>
    exact ⟨_, Nat.le_refl _,
      Takes.bind ((Datum.checkAll_takes ds).bind fun _ => .pure) fun _ => .pure⟩
  | topLevel d =>
    obtain ⟨k, hk, hd⟩ := d.checkTopLevel_takes
    refine ⟨k, ?_, Takes.bind (hd.bind fun _ => .pure) fun _ => .pure⟩
    simpa [data, Datum.callsToAll] using hk
  | file ds =>
    obtain ⟨k, hk, hds⟩ := Datum.checkFile_takes ds
    exact ⟨k, hk, Takes.bind (hds.bind fun _ => .pure) fun _ => .pure⟩

theorem Step.compile_keeps (cfg : Config) (step : Step) : (step.compile cfg).Keeps := by
  obtain ⟨k, -, h⟩ := step.compile_takes cfg
  exact h.keeps

/-! ## Tidy outputs -/

theorem Checked.tidy_definition (hcore : ¬IsGenerated cfg.corePackage)
    (h : Checked [] m d t n) (name : String) :
    Tidy m n (definition cfg name (t.emit cfg)).items := by
  obtain hi | ⟨_, _, ps, effects, result, he, hi⟩ := h.items_definition name
  · rw [hi]
    exact h.emitsTidy hcore [] false .nil
  · obtain ⟨ds, d, k, hs, h⟩ := he.checked
    obtain ⟨hp, heffects⟩ := (hs.emitTidy hcore).effects Ready.nil
    rw [hi, Stmt.itemsAll_append]
    exact .params not_isGenerated_of_mem_groups
      (heffects.append (.expr (h.emitsTidy hcore _ false hp)))

/-- The names and items of declarations: no name is generated, and the items are tidy. -/
structure TidyDecls (m n : Nat) (decls : List Decl) : Prop where
  names : ∀ x ∈ decls.flatMap Decl.names, ¬IsGenerated x
  items : Tidy m n (decls.flatMap Decl.items)

theorem TidyDecls.append (hds : TidyDecls m k ds) (hes : TidyDecls k n es) :
    TidyDecls m n (ds ++ es) where
  names x hx := by
    rw [List.flatMap_append] at hx
    obtain hx | hx := List.mem_append.1 hx
    · exact hds.names x hx
    · exact hes.names x hx
  items := List.flatMap_append ▸ hds.items.append hes.items

theorem CheckedItem.tidyDecls (hcore : ¬IsGenerated cfg.corePackage)
    (h : CheckedItem [] m d i n) : TidyDecls m n [i.emit cfg] := by
  cases i with
  | define x t =>
    cases h with
    | define h =>
      refine ⟨fun y hy => ?_, ?_⟩
      · rw [List.flatMap_singleton, TopLevel.emit, names_definition] at hy
        obtain rfl := List.mem_singleton.1 hy
        exact not_isGenerated_ofName x
      · rw [List.flatMap_singleton]
        exact h.tidy_definition hcore _
  | discard t =>
    obtain ⟨f, h⟩ := h.form
    refine ⟨fun y hy => ?_, ?_⟩
    · obtain rfl := List.mem_singleton.1 hy
      exact not_isGenerated_of_unmarked rfl
    · rw [List.flatMap_singleton]
      have htidy := h.emitsTidy hcore [] false .nil
      rwa [← List.append_nil (Expr.items _ _ _)] at htidy

theorem CheckedItems.tidyDecls (hcore : ¬IsGenerated cfg.corePackage)
    (h : CheckedItems [] m ds is n) : TidyDecls m n (is.map (·.emit cfg)) := by
  induction h with
  | nil => exact ⟨nofun, .nil⟩
  | cons h _ ih => exact (h.tidyDecls hcore).append ih

theorem TidyDecls.emit {f : SourceFile} (h : TidyDecls m n (f.items.map (·.emit cfg))) :
    TidyDecls m n (f.emit cfg).decls := by
  unfold SourceFile.emit
  split
  · exact h
  · rename_i package _
    have himports : TidyDecls m m package.importDecls := by
      unfold Package.importDecls
      split
      · exact ⟨nofun, .nil⟩
      · exact ⟨nofun, .nil⟩
    exact himports.append h

theorem Output.fresh_exprs (h : Tidy m n (Expr.itemsAll [] es)) :
    Fresh m n (Output.mk es []).declared ∧ Scoped (Output.mk es []).items := by
  rw [Output.declared, Output.items, List.flatMap_nil, List.flatMap_nil, List.append_nil]
  exact ⟨h.fresh, h.bound⟩

theorem Output.fresh_decls (h : TidyDecls m n ds) :
    Fresh m n (Output.mk [] ds).declared ∧ Scoped (Output.mk [] ds).items :=
  ⟨(Fresh.of_none h.names).append h.items.fresh, h.items.bound⟩

/-- The output of a step that succeeds: the names in it are fresh, and the session goes on with the
next number after them. -/
theorem Step.compile_fresh (hcore : ¬IsGenerated cfg.corePackage) {step : Step} {o : Output}
    (h : (step.compile cfg).outcome ⟨m, []⟩ = (.ok o, s)) :
    ∃ n, s = ⟨n, []⟩ ∧ Fresh m n o.declared ∧ Scoped o.items := by
  cases step with
  | expr d =>
    obtain ⟨e, s', hd, ho⟩ := Check.bind_eq_ok.1 h
    obtain ⟨t, s'', ht, he⟩ := Check.bind_eq_ok.1 hd
    cases he
    cases ho
    obtain ⟨n, hs, hc⟩ := Checked.of_check ht
    have htidy := (hc.emitsTidy hcore [] false .nil).append .nil
    exact ⟨n, hs, Output.fresh_exprs htidy⟩
  | exprs ds =>
    obtain ⟨es, s', hds, ho⟩ := Check.bind_eq_ok.1 h
    obtain ⟨ts, s'', hts, he⟩ := Check.bind_eq_ok.1 hds
    cases he
    cases ho
    obtain ⟨n, hs, hc⟩ := CheckedAll.of_checkAll hts
    exact ⟨n, hs, Output.fresh_exprs ((hc.emitTidy hcore).all .nil)⟩
  | topLevel d =>
    obtain ⟨decl, s', hd, ho⟩ := Check.bind_eq_ok.1 h
    obtain ⟨i, s'', hi, he⟩ := Check.bind_eq_ok.1 hd
    cases he
    cases ho
    obtain ⟨n, hs, hc⟩ := CheckedItem.of_checkTopLevel hi
    exact ⟨n, hs, Output.fresh_decls (hc.tidyDecls hcore)⟩
  | file ds =>
    obtain ⟨f, s', hf, ho⟩ := Check.bind_eq_ok.1 h
    obtain ⟨source, s'', hsource, he⟩ := Check.bind_eq_ok.1 hf
    cases he
    cases ho
    obtain ⟨_, n, hs, hc⟩ := CheckedItems.of_checkFile hsource
    exact ⟨n, hs, Output.fresh_decls (hc.tidyDecls hcore).emit⟩

/-! ## Whole sessions -/

/-- The invariant of a session: outside all loops, the numbers of the generated names so far are
less than the next one. A step that fails may take numbers, but puts out no names. -/
theorem Step.outputs_fresh (hcore : ¬IsGenerated cfg.corePackage) (steps : List Step) (m : Nat) :
    ∃ n, (Step.outputs cfg steps ⟨m, []⟩).2 = ⟨n, []⟩ ∧
      Fresh m n ((Step.outputs cfg steps ⟨m, []⟩).1.flatMap Output.declared) ∧
      ∀ o ∈ (Step.outputs cfg steps ⟨m, []⟩).1, Scoped o.items := by
  induction steps generalizing m with
  | nil => exact ⟨m, rfl, .of_none nofun, nofun⟩
  | cons step steps ih =>
    rw [Step.outputs]
    split
    · rename_i o s h
      obtain ⟨k, rfl, hfresh, hscoped⟩ := step.compile_fresh hcore h
      obtain ⟨n, hs, ihfresh, ihscoped⟩ := ih k
      exact ⟨n, hs, hfresh.append ihfresh, List.forall_mem_cons.2 ⟨hscoped, ihscoped⟩⟩
    · rename_i e s h
      obtain ⟨hloops, hle⟩ := step.compile_keeps cfg ⟨m, []⟩
      rw [h] at hloops hle
      obtain ⟨k, loops⟩ := s
      obtain rfl : loops = [] := hloops
      obtain ⟨n, hs, ihfresh, ihscoped⟩ := ih k
      exact ⟨n, hs, ihfresh.weaken hle, ihscoped⟩

/-- No generated name is declared twice in the outputs, and wherever one is used, the function
called at once that declares it is around the place. -/
structure WellNamed (os : List Output) : Prop where
  distinct : (os.flatMap Output.declared).Pairwise fun x y => IsGenerated x → x ≠ y
  bound : ∀ o ∈ os, ∀ p x, (p, .name x) ∈ o.items → IsGenerated x → p.Bound x

/-- Where no alias looks like a generated name, none is declared twice even with the aliases among
the names declared. -/
theorem WellNamed.distinct_aliases {os : List Output} (h : WellNamed os)
    (ha : ∀ o ∈ os, ∀ x ∈ o.aliases, ¬IsGenerated x) :
    (os.flatMap fun o => o.aliases ++ o.declared).Pairwise fun x y => IsGenerated x → x ≠ y := by
  obtain ⟨hself, hother⟩ := List.pairwise_flatMap.1 h.distinct
  refine List.pairwise_flatMap.2 ⟨fun o ho => ?_, hother.imp_of_mem fun {o o'} ho ho' hnew => ?_⟩
  · refine List.pairwise_append.2 ⟨?_, hself o ho, fun x hx _ _ hg => absurd hg (ha o ho x hx)⟩
    exact List.pairwise_of_forall_mem_list fun x hx _ _ hg => absurd hg (ha o ho x hx)
  · intro x hx y hy hg heq
    obtain hx | hx := List.mem_append.1 hx
    · exact ha o ho x hx hg
    · obtain hy | hy := List.mem_append.1 hy
      · exact ha o' ho' y hy (heq ▸ hg)
      · exact hnew x hx y hy hg heq

/-- The outputs of a session are well named, also if some of its steps fail; and no identifier or
reference that a source name becomes is generated. -/
theorem session_generated_names {cfg : Config} (hcore : ¬IsGenerated cfg.corePackage)
    (steps : List Step) :
    WellNamed (Step.outputs cfg steps {}).1 ∧
      (∀ name, ¬IsGenerated (ofName name)) ∧
      ∀ name p q c x, (q, .name x) ∈ (Expr.ofName name).items p c → ¬IsGenerated x := by
  obtain ⟨n, -, hfresh, hscoped⟩ := Step.outputs_fresh hcore steps 0
  refine ⟨⟨hfresh.distinct, hscoped⟩, not_isGenerated_ofName, fun name p q c x hx => ?_⟩
  obtain ⟨root, hi⟩ := Expr.items_ofName p c name
  rw [hi] at hx
  cases List.mem_singleton.1 hx
  exact not_isGenerated_ofChars false root

/-- `(loop [i 0] (recur i))` -/
def endlessLoop : Datum :=
  .call (.symbol "loop") [.vector [.symbol "i", .number "0" .int],
    .call (.symbol "recur") [.symbol "i"]]

/-- Between two loops stands a `recur` outside of any. -/
theorem session_generated_names_failing :
    ¬IsGenerated (Config.corePackage {}) ∧
      WellNamed (Step.outputs {}
        [.expr endlessLoop, .exprs [.call (.symbol "recur") []], .topLevel endlessLoop] {}).1 :=
  have hcore := not_isGenerated_of_unmarked rfl
  ⟨hcore, (session_generated_names hcore _).1⟩

/-- What `endlessLoop` is checked to be. -/
def endlessLoopTerm : Term :=
  .loop 0 [⟨["i"], .number "0" .int⟩] [] (.recur ⟨0, [["i"]]⟩ [.symbol "i"])

theorem endlessLoop_checked : Checked [] 0 endlessLoop endlessLoopTerm 2 :=
  .call rfl (.loop (.cons .number .nil) .nil (.call rfl (.recur rfl (.cons .symbol .nil))))

/-- `(ns main ["fmt" :as __continue0])` -/
def aliasedPackage : Datum :=
  .call (.symbol "ns") [.symbol "main",
    .vector [.string "fmt", .symbol ":as", .symbol "__continue0"]]

/-- The alias is not translated, so it is declared beside the flag of the loop in the same file. -/
theorem generated_name_alias :
    ∃ o s, (Step.compile {} (.file [aliasedPackage, endlessLoop])).outcome {} = (.ok o, s) ∧
      IsGenerated "__continue0" ∧ "__continue0" ∈ o.decls.flatMap Decl.aliases ∧
      "__continue0" ∈ o.declared := by
  have hitems : (Datum.checkItems [endlessLoop]).outcome {} =
      (.ok [.discard endlessLoopTerm], ⟨2, []⟩) :=
    Check.outcome_seq (Check.outcome_seq endlessLoop_checked.check rfl) rfl
  have hfile : (Datum.checkFile [aliasedPackage, endlessLoop]).outcome {} =
      (.ok ⟨some ⟨"main", [⟨some "__continue0", "fmt"⟩]⟩, [.discard endlessLoopTerm]⟩, ⟨2, []⟩) :=
    Check.outcome_seq rfl (Check.outcome_seq hitems rfl)
  refine ⟨_, _, Check.outcome_seq (Check.outcome_seq hfile rfl) rfl, ⟨0, .inl rfl⟩, ?_, ?_⟩
  · exact List.mem_cons_self
  · decide

end SmallLisp
