import SmallLisp.Proofs.ReturnDiscipline
import SmallLisp.Proofs.SeparateCompilation
import SmallLisp.Proofs.SinglePass

/-!
# Independence of the configuration

The names that a configuration chooses reach no check, which is also what the equations of the
single pass show form by form (`Datum.compileForm_eq`): under any two configurations a file fails
with the same error, and takes the same numbers. The declarations depend on the core package and
the type of all values alone (`Term.emit_congr`), but for the function where the program starts; and
the package depends on the configuration only where the file does not name it
(`compileFile_config`).
-/

namespace SmallLisp

open Program

/-! ## Checks and what is emitted after them -/

theorem Check.outcome_emit (x : Check α) (f : α → β) (s : Session) :
    (do let a ← x; return f a : Check β).outcome s = ((x.outcome s).1.map f, (x.outcome s).2) := by
  rw [outcome_bind]
  obtain ⟨r, s'⟩ := x.outcome s
  cases r <;> rfl

/-- The package form of a file, as a check finds it. -/
theorem Datum.package?_of_checkFile {ds : List Datum} {f : SourceFile}
    (h : (checkFile ds).outcome s = (.ok f, s')) :
    f.package?.isSome = (splitPackage ds).1.isSome := by
  unfold checkFile at h
  split at h
  · rename_i package hp
    obtain ⟨p, _, -, h⟩ := Check.bind_eq_ok.1 h
    obtain ⟨is, _, -, h⟩ := Check.bind_eq_ok.1 h
    cases h
    cases ds with
    | nil => cases hp
    | cons d ds =>
      rw [List.head?_cons, Option.bind_some] at hp
      unfold Package.ofDatum? at hp
      split at hp
      · rfl
      · cases hp
  · rename_i hp
    obtain ⟨is, _, -, h⟩ := Check.bind_eq_ok.1 h
    cases h
    unfold splitPackage
    split
    · cases hp
    · rfl

/-! ## Expressions -/

/-- The configurations choose the same names for what expressions refer to. -/
structure Config.Alike (cfg cfg' : Config) : Prop where
  corePackage : cfg.corePackage = cfg'.corePackage
  anyType : cfg.anyType = cfg'.anyType

namespace Config.Alike

variable {cfg cfg' : Config}

theorem any (h : cfg.Alike cfg') : cfg.any = cfg'.any := by
  rw [Config.any, Config.any, h.corePackage, h.anyType]

theorem closure (h : cfg.Alike cfg') (body : List Stmt) : cfg.closure body = cfg'.closure body := by
  rw [Config.closure, Config.closure, h.any]

theorem groups (h : cfg.Alike cfg') (ps : Params) : ps.groups cfg = ps.groups cfg' := by
  rw [Params.groups, Params.groups, h.any]

theorem passes (h : cfg.Alike cfg') (l : Loop) (bindings effects : List Stmt) (result : Expr) :
    l.passes cfg bindings effects result = l.passes cfg' bindings effects result := by
  rw [Loop.passes, Loop.passes, h.any]

end Config.Alike

namespace Term

mutual

/-- An expression depends on no other names of the configuration. -/
theorem emit_congr {cfg cfg' : Config} (h : cfg.Alike cfg') :
    ∀ t : Term, t.emit cfg = t.emit cfg'
  | .symbol _ | .number .. | .string _ => rfl
  | .vector elements => by rw [emit, emit, h.any, emitAll_congr h elements]
  | .call callee args => by rw [emit, emit, emit_congr h callee, emitAll_congr h args]
  | .not operand => by rw [emit, emit, emit_congr h operand]
  | .operator op args => by
    rw [emit, emit, Config.coreHelper, Config.coreHelper, h.corePackage, emitAll_congr h args]
  | .logic op first rest => by rw [emit, emit, emit_congr h first, emitAll_congr h rest]
  | .loop n bindings effects result => by
    rw [emit, emit, h.closure, h.passes, emitBindings_congr h bindings, emitEffects_congr h effects,
      emit_congr h result]
  | .recur l values => by rw [emit, emit, h.closure, emitAll_congr h values]
  | .assert type value => by rw [emit, emit, emit_congr h value]
  | .get args => by
    rw [emit, emit, Config.coreFunction, Config.coreFunction, h.corePackage, emitAll_congr h args]
  | .letIn bindings effects result => by
    rw [emit, emit, h.closure, emitBindings_congr h bindings, emitEffects_congr h effects,
      emit_congr h result]
  | .cond test yes no => by
    rw [emit, emit, h.closure, emit_congr h test, emit_congr h yes, emitElse_congr h no]
  | .fn params effects result => by
    rw [emit, emit, h.groups, h.any, emitEffects_congr h effects, emit_congr h result]

theorem emitAll_congr {cfg cfg' : Config} (h : cfg.Alike cfg') :
    ∀ ts, emitAll cfg ts = emitAll cfg' ts
  | [] => rfl
  | t :: ts => by rw [emitAll, emitAll, emit_congr h t, emitAll_congr h ts]

theorem emitEffects_congr {cfg cfg' : Config} (h : cfg.Alike cfg') :
    ∀ ts, emitEffects cfg ts = emitEffects cfg' ts
  | [] => rfl
  | t :: ts => by rw [emitEffects, emitEffects, emit_congr h t, emitEffects_congr h ts]

theorem emitBindings_congr {cfg cfg' : Config} (h : cfg.Alike cfg') :
    ∀ bs, emitBindings cfg bs = emitBindings cfg' bs
  | [] => rfl
  | ⟨targets, value⟩ :: bs => by
    rw [emitBindings, emitBindings, emit_congr h value, emitBindings_congr h bs]

theorem emitElse_congr {cfg cfg' : Config} (h : cfg.Alike cfg') :
    ∀ t?, emitElse cfg t? = emitElse cfg' t?
  | none => rfl
  | some t => by rw [emitElse, emitElse, emit_congr h t]

end

end Term

/-! ## Declarations -/

/-- The declarations are the same; or they are one function, where the program starts under one of
the configurations but not under the other. -/
inductive SameBut (cfg cfg' : Config) : Decl → Decl → Prop where
  | same : SameBut cfg cfg' decl decl
  | left : name = cfg.entryPoint → name ≠ cfg'.entryPoint →
    SameBut cfg cfg' (.func name { signature with results := [] } (entryBody body))
      (.func name signature body)
  | right : name ≠ cfg.entryPoint → name = cfg'.entryPoint →
    SameBut cfg cfg' (.func name signature body)
      (.func name { signature with results := [] } (entryBody body))

theorem definition_sameBut (cfg cfg' : Config) (name : String) (value : Expr) :
    SameBut cfg cfg' (definition cfg name value) (definition cfg' name value) := by
  cases value with
  | func signature body =>
    simp only [definition]
    by_cases hname : name = cfg.entryPoint <;> by_cases hname' : name = cfg'.entryPoint
    · rw [if_pos hname, if_pos hname']
      exact .same
    · rw [if_pos hname, if_neg hname']
      exact .left hname hname'
    · rw [if_neg hname, if_pos hname']
      exact .right hname hname'
    · rw [if_neg hname, if_neg hname']
      exact .same
  | _ => exact .same

theorem TopLevel.emit_sameBut {cfg cfg' : Config} (h : cfg.Alike cfg') (i : TopLevel) :
    SameBut cfg cfg' (i.emit cfg) (i.emit cfg') := by
  cases i with
  | define name value =>
    rw [emit, emit, Term.emit_congr h]
    exact definition_sameBut cfg cfg' _ _
  | discard value =>
    rw [emit, emit, Term.emit_congr h]
    exact .same

namespace SourceFile

theorem length_decls (cfg cfg' : Config) (f : SourceFile) :
    (f.emit cfg).decls.length = (f.emit cfg').decls.length := by
  unfold emit
  split <;> simp

theorem decls_sameBut {cfg cfg' : Config} (h : cfg.Alike cfg') (f : SourceFile) :
    List.Forall₂ (SameBut cfg cfg') (f.emit cfg).decls (f.emit cfg').decls := by
  have hitems : List.Forall₂ (SameBut cfg cfg') (f.items.map (·.emit cfg))
      (f.items.map (·.emit cfg')) := by
    rw [List.forall₂_map_left_iff, List.forall₂_map_right_iff, List.forall₂_same]
    exact fun i _ => i.emit_sameBut h
  unfold emit
  split
  · exact hitems
  · exact List.rel_append (List.forall₂_same.2 fun _ _ => .same) hitems

theorem package_emit {cfg cfg' : Config} {f : SourceFile}
    (h : f.package?.isSome ∨ cfg.package = cfg'.package) :
    (f.emit cfg).package = (f.emit cfg').package := by
  unfold emit
  split
  · rename_i hnone
    rw [hnone] at h
    exact h.resolve_left nofun
  · rfl

end SourceFile

/-- Under any two configurations a file fails with the same error or compiles, and leaves the same
session. Where it compiles, there are equally many declarations. With the same core package and the
same type of all values they are the same, but for a function where only one of the programs starts.
The packages are the same if the file starts with a package form, or if those of the configurations
are. -/
theorem compileFile_config (cfg cfg' : Config) (ds : List Datum) (s : Session) :
    (∀ e, ((Datum.compileFile cfg ds).outcome s).1 = .error e ↔
      ((Datum.compileFile cfg' ds).outcome s).1 = .error e) ∧
    ((Datum.compileFile cfg ds).outcome s).2 = ((Datum.compileFile cfg' ds).outcome s).2 ∧
    ∀ f f', ((Datum.compileFile cfg ds).outcome s).1 = .ok f →
      ((Datum.compileFile cfg' ds).outcome s).1 = .ok f' →
      f.decls.length = f'.decls.length ∧
      (cfg.corePackage = cfg'.corePackage → cfg.anyType = cfg'.anyType →
        List.Forall₂ (SameBut cfg cfg') f.decls f'.decls) ∧
      ((Datum.splitPackage ds).1.isSome ∨ cfg.package = cfg'.package → f.package = f'.package) := by
  unfold Datum.compileFile
  rw [Check.outcome_emit, Check.outcome_emit]
  cases hcheck : (Datum.checkFile ds).outcome s with
  | mk r s' =>
    cases r with
    | error e => exact ⟨fun _ => Iff.rfl, rfl, nofun⟩
    | ok source =>
      refine ⟨fun _ => ⟨nofun, nofun⟩, rfl, ?_⟩
      rintro _ _ ⟨⟩ ⟨⟩
      refine ⟨source.length_decls cfg cfg',
        fun hcore hany => source.decls_sameBut ⟨hcore, hany⟩, ?_⟩
      rw [← Datum.package?_of_checkFile hcheck]
      exact SourceFile.package_emit

theorem compileFile_entryLoop (cfg : Config) :
    (Datum.compileFile cfg [entryLoop]).outcome {} =
      (.ok (SourceFile.emit cfg ⟨none, [.define "main" (.fn ⟨[], none⟩ [] endlessLoopTerm)]⟩),
        ⟨2, []⟩) := by
  have hfn : Checked [] 0 (.call (.symbol "fn") [.vector [], endlessLoop])
      (.fn ⟨[], none⟩ [] endlessLoopTerm) 2 := .call rfl (.fn .nil endlessLoop_checked)
  exact Check.outcome_seq (Check.outcome_seq (Check.outcome_seq
    (Check.outcome_seq hfn.check rfl) (Check.outcome_seq rfl rfl)) rfl) rfl

/-- `main` under a configuration where programs start in `start`. -/
theorem compileFile_config_entryLoop :
    ∃ f f', ((Datum.compileFile {} [entryLoop]).outcome {}).1 = .ok f ∧
      ((Datum.compileFile { entryPoint := "start" } [entryLoop]).outcome {}).1 = .ok f' ∧
      f.decls.length = f'.decls.length ∧
      List.Forall₂ (SameBut {} { entryPoint := "start" }) f.decls f'.decls ∧
      f.package = f'.package := by
  have hf := congrArg Prod.fst (compileFile_entryLoop {})
  have hf' := congrArg Prod.fst (compileFile_entryLoop { entryPoint := "start" })
  obtain ⟨hlength, hdecls, hpackage⟩ := (compileFile_config {} _ [entryLoop] {}).2.2 _ _ hf hf'
  exact ⟨_, _, hf, hf', hlength, hdecls rfl rfl, hpackage (.inr rfl)⟩

end SmallLisp
