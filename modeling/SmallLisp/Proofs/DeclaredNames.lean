import SmallLisp.Proofs.Listing

/-!
# Declared names and references to them

`Term.binders` lists the names that a term binds, and `Binder.ident?` the identifier that each of
them declares. The declared names of a compiled file are exactly these, next to the generated ones
(`CheckedItems.declared`). A target of a binding declares what a reference to it compiles to; a
definition and a parameter do so unless their name is qualified; and the alias of an import does so
if it is its own translation (`declared_names_agree_iff`).
-/

namespace SmallLisp

open Program Identifier

/-! ## Binders -/

inductive BinderKind where
  | definition
  | parameter
  /-- A name in a binding of `let` or `loop`. -/
  | target
  deriving DecidableEq

/-- A name where a form binds it. -/
structure Binder where
  kind : BinderKind
  name : String

/-- The identifier that a binder declares. A qualified name in the place of a target declares none:
it is emitted as a selector. -/
def Binder.ident? (b : Binder) : Option String :=
  if b.kind = .target ∧ Identifier.Qualified b.name then none else some (ofName b.name)

theorem Binder.eq_ofName_of_ident? {b : Binder} {x : String} (h : b.ident? = some x) :
    x = ofName b.name := by
  unfold ident? at h
  split at h
  · cases h
  · exact (Option.some.inj h).symm

def Binding.binders (xs : List String) : List Binder := xs.map (⟨.target, ·⟩)

theorem Binding.forall_binders (P : String → Prop) {xs : List String} :
    (∀ b ∈ binders xs, P b.name) ↔ ∀ x ∈ xs, P x := List.forall_mem_map

def Params.binders (ps : Params) : List Binder :=
  (ps.names ++ ps.rest?.toList).map (⟨.parameter, ·⟩)

namespace Term

mutual

/-- The binders in a term, in the order in which it is emitted. -/
def binders : Term → List Binder
  | .symbol _ | .number .. | .string _ => []
  | .vector ts => bindersAll ts
  | .call t ts => t.binders ++ bindersAll ts
  | .not t => t.binders
  | .operator _ ts => bindersAll ts
  | .logic _ t ts => t.binders ++ bindersAll ts
  | .loop _ bs ts t => bindersBindings bs ++ (bindersAll ts ++ t.binders)
  | .recur _ ts => bindersAll ts
  | .assert _ t => t.binders
  | .get ts => bindersAll ts
  | .letIn bs ts t => bindersBindings bs ++ (bindersAll ts ++ t.binders)
  | .cond t u v => t.binders ++ u.binders ++ bindersElse v
  | .fn ps ts t => ps.binders ++ (bindersAll ts ++ t.binders)

def bindersAll : List Term → List Binder
  | [] => []
  | t :: ts => t.binders ++ bindersAll ts

def bindersBindings : List (Binding Term) → List Binder
  | [] => []
  | ⟨xs, t⟩ :: bs => Binding.binders xs ++ t.binders ++ bindersBindings bs

def bindersElse : Option Term → List Binder
  | none => []
  | some t => t.binders

end

end Term

/-- The binders of a definition or an expression at the top level, which defines the blank name. -/
def TopLevel.binders : TopLevel → List Binder
  | .define name t => ⟨.definition, name⟩ :: t.binders
  | .discard t => ⟨.definition, "_"⟩ :: t.binders

def SourceFile.binders (f : SourceFile) : List Binder := f.items.flatMap TopLevel.binders

/-! ## Names declared among items -/

theorem Identifier.isGenerated_iff {x : String} :
    (number? "continue" x).isSome ∨ (number? "result" x).isSome ↔ IsGenerated x := by
  simp only [Option.isSome_iff_exists, number?_eq_some, IsGenerated, exists_or]

instance : DecidablePred IsGenerated := fun _ => decidable_of_iff _ isGenerated_iff

/-- The names from the source among some names. -/
def fromSource (xs : List String) : List String := xs.filter fun x => ¬IsGenerated x

theorem fromSource_append (xs ys : List String) :
    fromSource (xs ++ ys) = fromSource xs ++ fromSource ys := List.filter_append xs ys

theorem fromSource_ofName (xs : List String) :
    fromSource (xs.map ofName) = xs.map ofName := by
  refine List.filter_eq_self.2 fun x hx => ?_
  obtain ⟨name, -, rfl⟩ := List.mem_map.1 hx
  exact decide_eq_true (not_isGenerated_ofName name)

theorem fromSource_generated {x : String} (h : IsGenerated x) : fromSource [x] = [] :=
  List.filter_cons_of_neg (by rwa [decide_eq_true_iff, not_not])

/-- The names declared among the items are those of the binders, and generated ones. -/
def Binds (bs : List Binder) (is : List (Place × Item)) : Prop :=
  fromSource (is.flatMap (·.2.declared)) = bs.filterMap Binder.ident?

/-- The identifiers that the binders in a term declare. -/
def Binder.listing : Listing String where
  params ps := ps.binders.filterMap Binder.ident?
  binding _ xs := (Binding.binders xs).filterMap Binder.ident?
  flag _ := []

namespace Term

mutual

theorem listed_binders : (t : Term) → t.listed Binder.listing = t.binders.filterMap Binder.ident?
  | .symbol _ | .number .. | .string _ => rfl
  | .vector ts | .operator _ ts | .recur _ ts | .get ts => listedAll_binders ts
  | .not t | .assert _ t => t.listed_binders
  | .call t ts | .logic _ t ts => by
    rw [listed, t.listed_binders, listedAll_binders ts, binders, List.filterMap_append]
  | .loop n bs ts t => by
    rw [listed, listedBindings_binders [] bs, listedAll_binders ts, t.listed_binders, binders,
      List.filterMap_append, List.filterMap_append]
    rfl
  | .letIn bs ts t => by
    rw [listed, listedBindings_binders [] bs, listedAll_binders ts, t.listed_binders, binders,
      List.filterMap_append, List.filterMap_append]
  | .cond t u v => by
    rw [listed, t.listed_binders, u.listed_binders, listedElse_binders v, binders,
      List.filterMap_append, List.filterMap_append]
  | .fn ps ts t => by
    rw [listed, listedAll_binders ts, t.listed_binders, binders, List.filterMap_append,
      List.filterMap_append]
    rfl

theorem listedAll_binders :
    (ts : List Term) → listedAll Binder.listing ts = (bindersAll ts).filterMap Binder.ident?
  | [] => rfl
  | t :: ts => by
    rw [listedAll, t.listed_binders, listedAll_binders ts, bindersAll, List.filterMap_append]

theorem listedBindings_binders (earlier : List String) : (bs : List (Binding Term)) →
    listedBindings Binder.listing earlier bs = (bindersBindings bs).filterMap Binder.ident?
  | [] => rfl
  | ⟨xs, t⟩ :: bs => by
    rw [listedBindings, t.listed_binders, listedBindings_binders (earlier ++ xs) bs,
      bindersBindings, List.filterMap_append, List.filterMap_append]
    rfl

theorem listedElse_binders : (t? : Option Term) →
    listedElse Binder.listing t? = (bindersElse t?).filterMap Binder.ident?
  | none => rfl
  | some t => t.listed_binders

end

end Term

/-- The parameters of a function and the targets of a binding declare their identifiers. -/
theorem Binder.reads (cfg : Config) :
    listing.Reads cfg (· = ·) fun i => fromSource i.2.declared where
  name := rfl
  silent {p s} hs := by
    rw [Item.declared, (Stmt.declares_eq_false hs).1]
    rfl
  result := fromSource_generated (IsGenerated.result _)
  closure := rfl
  params {p ps results} := by
    have hident : (Params.binders ps).filterMap Binder.ident? =
        (ps.names ++ ps.rest?.toList).map ofName := by
      rw [Params.binders, List.filterMap_map, ← List.filterMap_eq_map]
      rfl
    rw [List.forall₂_eq_eq_eq, Item.declared, Signature.names_groups, fromSource_ofName, ← hident]
    rfl
  binding {kind before p earlier xs values} _ := by
    have hident : (Binding.binders xs).filterMap Binder.ident? =
        (xs.filter fun x => ¬Identifier.Qualified x).map ofName := by
      rw [Binding.binders, List.filterMap_map, ← List.filterMap_eq_map, List.filterMap_filter]
      refine congrArg (List.filterMap · xs) (funext fun x => ?_)
      by_cases hq : Identifier.Qualified x <;> simp [ident?, hq]
    rw [List.forall₂_eq_eq_eq, Item.declared, Stmt.declared, Expr.names_ofName, fromSource_ofName,
      ← hident]
    rfl
  flag {p l} := by
    rw [List.forall₂_eq_eq_eq]
    exact (fromSource_generated (IsGenerated.flag _)).symm

/-! ## Files -/

/-- The names that a declaration declares, in its package and inside it. -/
def Program.Decl.declared (d : Decl) : List String :=
  d.names ++ d.items.flatMap (·.2.declared)

theorem Program.Decl.fromSource_declared {d : Decl} {x : String} (hnames : d.names = [ofName x])
    (hitems : Binds bs d.items) :
    fromSource d.declared = ofName x :: bs.filterMap Binder.ident? := by
  rw [Decl.declared, hnames, fromSource_append, hitems]
  exact congrArg (· ++ _) (fromSource_ofName [x])

theorem CheckedItem.declared (h : CheckedItem ls m d i n) :
    fromSource (i.emit cfg).declared = i.binders.filterMap Binder.ident? := by
  have hlisted : fromSource ((i.emit cfg).items.flatMap (·.2.declared)) =
      i.listed Binder.listing := by
    rw [fromSource, List.filter_flatMap]
    have hlisted := h.listed (Binder.reads cfg)
    rw [Lists, List.forall₂_eq_eq_eq] at hlisted
    exact hlisted.symm
  cases i with
  | define x t => exact Decl.fromSource_declared names_definition (hlisted.trans t.listed_binders)
  | discard t =>
    have hblank : (discarded (t.emit cfg)).names = [ofName "_"] := rfl
    exact Decl.fromSource_declared hblank (hlisted.trans t.listed_binders)

theorem CheckedItems.declared (h : CheckedItems ls m ds is n) :
    fromSource ((is.map (·.emit cfg)).flatMap Decl.declared) =
      (is.flatMap TopLevel.binders).filterMap Binder.ident? := by
  induction h with
  | nil => rfl
  | cons h _ ih =>
    rw [List.map_cons, List.flatMap_cons, fromSource_append, h.declared, ih, List.flatMap_cons,
      List.filterMap_append]

/-- The aliases of the imports of a file. -/
def SourceFile.aliases (f : SourceFile) : List String :=
  (f.package?.elim [] (·.imports)).filterMap (·.alias?)

theorem aliases_definition {cfg : Config} {name : String} {value : Expr} :
    (definition cfg name value).aliases = [] := by
  unfold definition
  split
  · split <;> rfl
  · rfl

theorem SourceFile.aliases_emit {f : SourceFile} :
    (f.emit cfg).decls.flatMap Decl.aliases = f.aliases := by
  have hitems : (f.items.map (·.emit cfg)).flatMap Decl.aliases = [] := by
    refine List.flatMap_eq_nil_iff.2 fun d hd => ?_
    obtain ⟨i, -, rfl⟩ := List.mem_map.1 hd
    cases i with
    | define x t => exact aliases_definition
    | discard t => rfl
  unfold emit aliases
  split
  · rename_i hpackage
    rw [hitems, hpackage]
    rfl
  · rename_i package hpackage
    rw [List.flatMap_append, hitems, List.append_nil, hpackage, Package.importDecls]
    split
    · rename_i hempty
      rw [Option.elim_some, List.isEmpty_iff.1 hempty]
      rfl
    · exact List.flatMap_singleton _ _

/-! ## References -/

/-- A reference to the name compiles to the expression. -/
def Refers (cfg : Config) (name : String) (e : Expr) : Prop :=
  ∀ s, ((Datum.symbol name).compile cfg).outcome s = (.ok e, s)

theorem refers_iff {name : String} {e : Expr} : Refers cfg name e ↔ Expr.ofName name = e := by
  have hcompile : Refers cfg name (Expr.ofName name) := by
    intro s
    rw [Datum.compile, Datum.check]
    rfl
  constructor
  · intro h
    have heq := (hcompile {}).symm.trans (h {})
    exact Except.ok.inj (congrArg Prod.fst heq)
  · rintro rfl
    exact hcompile

/-- A binder declares what a reference to its name compiles to, unless the name is qualified and
the binder is not a target. -/
theorem Binder.agrees_iff (cfg : Config) (b : Binder) :
    (∀ x, b.ident? = some x ↔ Refers cfg b.name (.ident x)) ↔
      b.kind = .target ∨ ¬Identifier.Qualified b.name := by
  simp only [refers_iff, Expr.ofName_eq_ident, Binder.ident?]
  by_cases hq : Identifier.Qualified b.name
  · by_cases hkind : b.kind = .target
    · simp [hq, hkind]
    · simp [hq, hkind]
  · simp [hq]

/-- In a compiled file the binders of the source declare their identifiers, and the imports declare
their aliases as they are written. A target of a binding always declares what a reference to it
compiles to; a definition and a parameter do so exactly if their name is not qualified. References
to something in a package start at the alias of its import exactly if the alias is its own
translation and nothing is missing between slashes. -/
theorem declared_names_agree_iff {cfg : Config} {ds : List Datum} {s s' : Session} {f : File}
    (h : (Datum.compileFile cfg ds).outcome s = (.ok f, s')) :
    ∃ source, (Datum.checkFile ds).outcome s = (.ok source, s') ∧
      fromSource (f.decls.flatMap Decl.declared) = source.binders.filterMap Binder.ident? ∧
      f.decls.flatMap Decl.aliases = source.aliases ∧
      (∀ b ∈ source.binders, (∀ x, b.ident? = some x ↔ Refers cfg b.name (.ident x)) ↔
        b.kind = .target ∨ ¬Identifier.Qualified b.name) ∧
      ∀ name ∈ source.aliases, ∀ x,
        (∃ member members,
          Refers cfg (name ++ "/" ++ x) (.select (.ident name) (member :: members))) ↔
          ofName name = name ∧ Identifier.Whole x := by
  obtain ⟨source, u, hcheck, he⟩ := Check.bind_eq_ok.1 h
  cases he
  obtain ⟨es, n, -, hitems⟩ := CheckedItems.of_checkFile hcheck
  refine ⟨source, hcheck, ?_, SourceFile.aliases_emit, fun b _ => b.agrees_iff cfg, ?_⟩
  · rw [source.flatMap_emit fun _ => rfl]
    exact hitems.declared
  · intro name _ x
    simp only [refers_iff]
    exact Expr.ofName_member_iff

/-! ## An alias with a hyphen -/

/-- `(ns main ["x/y" :as my-lib]) (def run (fn [n] (my-lib/run n)))` -/
def hyphenatedAlias : List Datum :=
  [.call (.symbol "ns")
      [.symbol "main", .vector [.string "x/y", .symbol ":as", .symbol "my-lib"]],
    .call (.symbol "def") [.symbol "run",
      .call (.symbol "fn") [.vector [.symbol "n"], .call (.symbol "my-lib/run") [.symbol "n"]]]]

/-- What `hyphenatedAlias` is checked to be. -/
def hyphenatedAliasFile : SourceFile :=
  ⟨some ⟨"main", [⟨some "my-lib", "x/y"⟩]⟩,
    [.define "run" (.fn ⟨["n"], none⟩ [] (.call (.symbol "my-lib/run") [.symbol "n"]))]⟩

theorem checkFile_hyphenatedAlias :
    (Datum.checkFile hyphenatedAlias).outcome {} = (.ok hyphenatedAliasFile, {}) := by
  have hcall : Checked [] 0 (.call (.symbol "my-lib/run") [.symbol "n"])
      (.call (.symbol "my-lib/run") [.symbol "n"]) 0 :=
    .call rfl (.call .symbol (.cons .symbol .nil))
  have hfn : Checked [] 0
      (.call (.symbol "fn") [.vector [.symbol "n"], .call (.symbol "my-lib/run") [.symbol "n"]])
      (.fn ⟨["n"], none⟩ [] (.call (.symbol "my-lib/run") [.symbol "n"])) 0 :=
    .call rfl (.fn .nil hcall)
  exact Check.outcome_seq rfl (Check.outcome_seq (Check.outcome_seq
    (Check.outcome_seq hfn.check rfl) (Check.outcome_seq rfl rfl)) rfl)

theorem declared_names_agree_hyphenatedAlias :
    ∃ f, (Datum.compileFile {} hyphenatedAlias).outcome {} = (.ok f, {}) ∧
      ∃ source, (Datum.checkFile hyphenatedAlias).outcome {} = (.ok source, {}) ∧
        fromSource (f.decls.flatMap Decl.declared) = source.binders.filterMap Binder.ident? ∧
        f.decls.flatMap Decl.aliases = source.aliases :=
  have h := Check.outcome_seq checkFile_hyphenatedAlias rfl
  have ⟨source, hcheck, hdeclared, haliases, _⟩ := declared_names_agree_iff h
  ⟨hyphenatedAliasFile.emit {}, h, source, hcheck, hdeclared, haliases⟩

/-- The import declares `my-lib`, and references go to `myLib`. -/
theorem hyphenated_alias_undeclared :
    ∃ f, (Datum.compileFile {} hyphenatedAlias).outcome {} = (.ok f, {}) ∧
      f.decls.flatMap Decl.aliases = ["my-lib"] ∧
      Refers {} "my-lib/run" (.selector (.ident "myLib") "Run") :=
  ⟨hyphenatedAliasFile.emit {}, Check.outcome_seq checkFile_hyphenatedAlias rfl, rfl,
    refers_iff.2 rfl⟩

end SmallLisp
