import SmallLisp.Proofs.Mentions

/-!
# Hygiene

A reference is captured if a name of the source declares its identifier, around its place or in its
package. For every reference of a compiled file this is so exactly if a binder around the mention
or a definition of the file has a name that is translated to that identifier
(`inserted_captured_iff`). The variables of loops are never captured; `nil`, the two truth values
and the core package have identifiers like those of source names, and are.
-/

namespace SmallLisp

open Program Identifier

/-! ## Capture -/

theorem Program.Place.resolve_ne_none {x : String} {p : Place} :
    p.resolve x ≠ none ↔ x ∈ p.flatMap Block.declared := by
  induction p with
  | nil => exact ⟨fun h => absurd rfl h, nofun⟩
  | cons b p ih =>
    rw [resolve, List.flatMap_cons, List.mem_append]
    split
    · rename_i hmem
      exact ⟨fun _ => .inl hmem, fun _ => Option.some_ne_none _⟩
    · rename_i hmem
      rw [ih, or_iff_right hmem]

/-- The names that a file declares in its package. The blank name declares nothing. -/
def Program.File.declared (f : File) : List String :=
  (f.decls.flatMap Decl.names).filter (· != "_")

/-- The name refers to a declaration in the file that has its identifier from the source. -/
def Program.Ref.CapturedIn (f : File) (r : Ref) : Prop :=
  (∃ name, r.root = ofName name) ∧ (r.place.resolve r.root ≠ none ∨ r.root ∈ f.declared)

def TopLevel.name? : TopLevel → Option String
  | .define name _ => some name
  | .discard _ => none

/-- The identifiers that the definitions of a file declare. -/
def SourceFile.idents (f : SourceFile) : List String :=
  ((f.items.filterMap TopLevel.name?).map ofName).filter (· != "_")

theorem TopLevel.names_emit (cfg : Config) (i : TopLevel) :
    (i.emit cfg).names = match i.name? with
      | some name => [ofName name]
      | none => ["_"] := by
  cases i with
  | define name t => exact names_definition
  | discard t => rfl

theorem SourceFile.declared_emit (cfg : Config) (f : SourceFile) :
    (f.emit cfg).declared = f.idents := by
  rw [File.declared, f.flatMap_emit fun _ => rfl, idents]
  induction f.items with
  | nil => rfl
  | cons i items ih =>
    rw [List.map_cons, List.flatMap_cons, List.filter_append, ih, i.names_emit,
      List.filterMap_cons]
    cases i.name? with
    | none => rfl
    | some name => exact (List.filter_append [ofName name] _).symm

/-- Whether the reference for a mention is captured can be told from the source: exactly if its
identifier is one of those in scope, or that of a definition. -/
structure Occurrence.Hygienic (cfg : Config) (source : SourceFile) (f : File) (o : Occurrence)
    (r : Ref) : Prop where
  refs : o.mention.refs cfg r.place = [r]
  captured : r.CapturedIn f ↔ r.root ∈ o.scope ∨ r.root ∈ source.idents
  /-- A variable of a loop is not captured. -/
  free : ∀ l, o.mention = .inserted (.flag l) ∨ o.mention = .inserted (.result l) →
    ¬r.CapturedIn f

theorem Occurrence.Stands.captured_iff {o : Occurrence} {r : Ref} (h : o.Stands cfg r)
    (source : SourceFile) :
    r.CapturedIn (source.emit cfg) ↔ r.root ∈ o.scope ∨ r.root ∈ source.idents := by
  rw [Ref.CapturedIn, Place.resolve_ne_none, source.declared_emit]
  constructor
  · rintro ⟨⟨name, hname⟩, hdeclared⟩
    have hplain : ¬IsGenerated r.root := hname ▸ not_isGenerated_ofName name
    exact hdeclared.imp_left (h.sees.declared _ hplain).1
  · intro hmem
    have hname : ∃ name, r.root = ofName name := by
      obtain hmem | hmem := hmem
      · exact h.sees.source _ hmem
      · obtain ⟨name, -, hname⟩ := List.mem_map.1 (List.mem_of_mem_filter hmem)
        exact ⟨name, hname.symm⟩
    obtain ⟨name, heq⟩ := hname
    have hplain : ¬IsGenerated r.root := heq ▸ not_isGenerated_ofName name
    exact ⟨⟨name, heq⟩, hmem.imp_left (h.sees.declared _ hplain).2⟩

theorem Occurrence.Stands.hygienic {o : Occurrence} {r : Ref} (h : o.Stands cfg r)
    (source : SourceFile) : o.Hygienic cfg source (source.emit cfg) r where
  refs := h.refs
  captured := h.captured_iff source
  free := by
    rintro l hmention ⟨⟨name, hname⟩, -⟩
    apply not_isGenerated_ofName name
    rw [← hname]
    obtain hmention | hmention := hmention
    · rw [h.eq_of_mention hmention rfl]
      exact IsGenerated.flag _
    · rw [h.eq_of_mention hmention rfl]
      exact IsGenerated.result _

/-- In a compiled file, a name that a form puts in on its own account is captured exactly if a
binder around the form, or a definition of the file, has a name that is translated to the same
identifier; and the variables of loops are never captured. -/
theorem inserted_captured_iff {cfg : Config} {ds : List Datum} {s s' : Session} {f : File}
    (h : (Datum.compileFile cfg ds).outcome s = (.ok f, s')) :
    ∃ source, (Datum.checkFile ds).outcome s = (.ok source, s') ∧
      List.Forall₂ (Occurrence.Hygienic cfg source f) (source.mentions cfg) f.refs := by
  obtain ⟨source, u, hcheck, he⟩ := Check.bind_eq_ok.1 h
  cases he
  exact ⟨source, hcheck, (source.stands cfg).imp fun _ _ hstands => hstands.hygienic source⟩

/-! ## A parameter `nil` -/

/-- `(def pick (fn [nil] (if (ready) 1)))` -/
def shadowedNil : Datum :=
  .call (.symbol "def") [.symbol "pick",
    .call (.symbol "fn") [.vector [.symbol "nil"],
      .call (.symbol "if") [.call (.symbol "ready") [], .number "1" .int]]]

/-- What `shadowedNil` is checked to be. -/
def shadowedNilFile : SourceFile :=
  ⟨none, [.define "pick" (.fn ⟨["nil"], none⟩ []
    (.cond (.call (.symbol "ready") []) (.number "1" .int) none))]⟩

theorem checkFile_shadowedNil :
    (Datum.checkFile [shadowedNil]).outcome {} = (.ok shadowedNilFile, {}) := by
  have hready : Checked [] 0 (.call (.symbol "ready") []) (.call (.symbol "ready") []) 0 :=
    .call rfl (.call .symbol .nil)
  have hfn : Checked [] 0 (.call (.symbol "fn") [.vector [.symbol "nil"],
      .call (.symbol "if") [.call (.symbol "ready") [], .number "1" .int]])
      (.fn ⟨["nil"], none⟩ [] (.cond (.call (.symbol "ready") []) (.number "1" .int) none)) 0 :=
    .call rfl (.fn .nil (.call rfl (.cond hready .number)))
  exact Check.outcome_seq (Check.outcome_seq
    (Check.outcome_seq hfn.check rfl) (Check.outcome_seq rfl rfl)) rfl

theorem inserted_captured_iff_shadowedNil :
    ∃ f, (Datum.compileFile {} [shadowedNil]).outcome {} = (.ok f, {}) ∧
      ∃ source, (Datum.checkFile [shadowedNil]).outcome {} = (.ok source, {}) ∧
        List.Forall₂ (Occurrence.Hygienic {} source f) (source.mentions {}) f.refs :=
  have h := Check.outcome_seq checkFile_shadowedNil rfl
  ⟨shadowedNilFile.emit {}, h, inserted_captured_iff h⟩

/-- The `nil` for the missing branch refers to the parameter. -/
theorem inserted_nil_captured :
    ∃ source f o r, (Datum.checkFile [shadowedNil]).outcome {} = (.ok source, {}) ∧
      (Datum.compileFile {} [shadowedNil]).outcome {} = (.ok f, {}) ∧
      ((source.mentions {}).zip f.refs).getLast? = some (o, r) ∧
      o.mention = .inserted .nil ∧ r.CapturedIn f := by
  refine ⟨shadowedNilFile, shadowedNilFile.emit {}, ⟨.inserted .nil, ["nil"]⟩, _,
    checkFile_shadowedNil, Check.outcome_seq checkFile_shadowedNil rfl, rfl, rfl,
    ⟨"nil", rfl⟩, .inl nofun⟩

end SmallLisp
