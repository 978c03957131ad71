import SmallLisp.Proofs.Mentions

/-!
# The core package

Forms refer to the core package in three ways: helpers of operators and the type of all values are
selected from its name as the configuration has it, while the function that `get` calls is a source
name, which is translated. The three agree in a file exactly if the file has no `get` or the name is
its own translation (`core_references_agree_iff`).
-/

namespace SmallLisp

open Program Identifier

/-- The mention is one of the core package. -/
def Mention.IsCore : Mention → Prop
  | .inserted (.helper _) | .inserted .get | .inserted .any => True
  | _ => False

/-- How references for mentions of the core package start, and what is selected there. -/
structure Occurrence.CoreReference (cfg : Config) (o : Occurrence) (r : Ref) : Prop where
  helper : ∀ op, o.mention = .inserted (.helper op) →
    r.root = cfg.corePackage ∧ r.members = [op.helper]
  any : o.mention = .inserted .any → r.root = cfg.corePackage ∧ r.members = [cfg.anyType]
  get : o.mention = .inserted .get → (r.root = cfg.corePackage ↔
      ofName cfg.corePackage = cfg.corePackage) ∧
    (r.root = cfg.corePackage → r.members = ["Get"])

/-- The reference for a call of `get`, if the name of the core package has one part. -/
theorem refs_get {cfg : Config} {p : Place} {name : String}
    (hname : ofName name = cfg.corePackage) :
    (Mention.inserted .get).refs cfg p = [⟨p, ofName cfg.corePackage, ["Get"]⟩] := by
  obtain ⟨hone, hne⟩ := split_ofName name
  rw [hname] at hone hne
  rw [Mention.refs, Config.coreFunction, Expr.ofName_member hone hne (by decide),
    Expr.refs_select]
  rfl

theorem Occurrence.Stands.coreReference {o : Occurrence} {r : Ref} (h : o.Stands cfg r) :
    o.CoreReference cfg r := by
  refine ⟨fun op hmention => ?_, fun hmention => ?_, fun hmention => ?_⟩
  · rw [h.eq_of_mention hmention rfl]
    exact ⟨rfl, rfl⟩
  · rw [h.eq_of_mention hmention rfl]
    exact ⟨rfl, rfl⟩
  · -- the root is the identifier of some name, so the core package has one part if it is the root
    have hroot : ∃ name, r.root = ofName name := by
      obtain ⟨root, members, hget⟩ := Expr.refs_ofName (cfg.corePackage ++ "/" ++ "get")
      exact ⟨root, congrArg Ref.root (h.eq_of_mention hmention (hget r.place false))⟩
    obtain ⟨name, hname⟩ := hroot
    have hget (name : String) (hcore : ofName name = cfg.corePackage) :
        r = ⟨r.place, ofName cfg.corePackage, ["Get"]⟩ :=
      h.eq_of_mention hmention (refs_get hcore)
    refine ⟨⟨fun heq => ?_, fun hcore => ?_⟩, fun heq => ?_⟩
    · exact (congrArg Ref.root (hget name (hname.symm.trans heq))).symm.trans heq
    · exact (congrArg Ref.root (hget _ hcore)).trans hcore
    · exact congrArg Ref.members (hget name (hname.symm.trans heq))

theorem Occurrence.CoreReference.root_iff {o : Occurrence} {r : Ref} (h : o.CoreReference cfg r) :
    (o.mention.IsCore → r.root = cfg.corePackage) ↔
      o.mention ≠ .inserted .get ∨ ofName cfg.corePackage = cfg.corePackage := by
  by_cases hget : o.mention = .inserted .get
  · rw [hget, or_iff_right fun hne => hne rfl, ← (h.get hget).1]
    exact ⟨fun himp => himp trivial, fun heq _ => heq⟩
  · refine iff_of_true (fun hcore => ?_) (.inl hget)
    unfold Mention.IsCore at hcore
    split at hcore
    · exact (h.helper _ ‹_›).1
    · exact absurd ‹_› hget
    · exact (h.any ‹_›).1
    · exact hcore.elim

theorem Occurrence.roots_iff {os : List Occurrence} {rs : List Ref}
    (h : List.Forall₂ (Occurrence.CoreReference cfg) os rs) :
    List.Forall₂ (fun o r => o.mention.IsCore → r.root = cfg.corePackage) os rs ↔
      (∀ o ∈ os, o.mention ≠ .inserted .get) ∨ ofName cfg.corePackage = cfg.corePackage := by
  induction h with
  | nil => exact iff_of_true .nil (.inl (List.forall_mem_nil _))
  | cons hr _ ih => rw [List.forall₂_cons, ih, hr.root_iff, List.forall_mem_cons, and_or_right]

/-- In a compiled file every helper and every type of all values is selected from the name of the
core package as it is configured. All references to the core package start there exactly if the file
has no `get`, or that name is its own translation. -/
theorem core_references_agree_iff {cfg : Config} {ds : List Datum} {s s' : Session} {f : File}
    (h : (Datum.compileFile cfg ds).outcome s = (.ok f, s')) :
    ∃ source, (Datum.checkFile ds).outcome s = (.ok source, s') ∧
      List.Forall₂ (Occurrence.CoreReference cfg) (source.mentions cfg) f.refs ∧
      (List.Forall₂ (fun o r => o.mention.IsCore → r.root = cfg.corePackage)
          (source.mentions cfg) f.refs ↔
        (∀ o ∈ source.mentions cfg, o.mention ≠ .inserted .get) ∨
          ofName cfg.corePackage = cfg.corePackage) := by
  obtain ⟨source, u, hcheck, he⟩ := Check.bind_eq_ok.1 h
  cases he
  have hreferences := (source.stands cfg).imp fun _ _ hstands => hstands.coreReference
  exact ⟨source, hcheck, hreferences, Occurrence.roots_iff hreferences⟩

/-! ## A core package that looks like a generated name -/

/-- `(+ 1 (get m 0))` -/
def addMember : Datum :=
  .call (.symbol "+") [.number "1" .int, .call (.symbol "get") [.symbol "m", .number "0" .int]]

/-- What `addMember` is checked to be. -/
def addMemberFile : SourceFile :=
  ⟨none, [.discard (.operator .add [.number "1" .int, .get [.symbol "m", .number "0" .int]])]⟩

theorem checkFile_addMember :
    (Datum.checkFile [addMember]).outcome {} = (.ok addMemberFile, {}) := by
  have hget : Checked [] 0 (.call (.symbol "get") [.symbol "m", .number "0" .int])
      (.get [.symbol "m", .number "0" .int]) 0 :=
    .call rfl (.get (.cons .symbol (.cons .number .nil)))
  have hadd : Checked [] 0 addMember
      (.operator .add [.number "1" .int, .get [.symbol "m", .number "0" .int]]) 0 :=
    .call rfl (.operator (.cons .number (.cons hget .nil)))
  exact Check.outcome_seq (Check.outcome_seq
    (Check.outcome_seq hadd.check rfl) (Check.outcome_seq rfl rfl)) rfl

theorem core_references_agree_addMember :
    ∃ f, (Datum.compileFile {} [addMember]).outcome {} = (.ok f, {}) ∧
      ∃ source, (Datum.checkFile [addMember]).outcome {} = (.ok source, {}) ∧
        List.Forall₂ (fun o r => o.mention.IsCore → r.root = "core") (source.mentions {}) f.refs :=
  have h := Check.outcome_seq checkFile_addMember rfl
  have ⟨source, hcheck, _, hagree⟩ := core_references_agree_iff h
  ⟨addMemberFile.emit {}, h, source, hcheck, hagree.2 (.inr rfl)⟩

/-- The helper of `+` is selected from `__rt`, the function of `get` from `__rt_`. -/
theorem core_references_differ :
    ∃ source f, (Datum.checkFile [addMember]).outcome {} = (.ok source, {}) ∧
      (Datum.compileFile { corePackage := "__rt" } [addMember]).outcome {} = (.ok f, {}) ∧
      (source.mentions { corePackage := "__rt" }).map (·.mention) =
        [.inserted (.helper .add), .inserted .get, .name "m"] ∧
      f.refs.map (·.root) = ["__rt", "__rt_", "m"] :=
  ⟨addMemberFile, addMemberFile.emit { corePackage := "__rt" }, checkFile_addMember,
    Check.outcome_seq checkFile_addMember rfl, rfl, rfl⟩

end SmallLisp
