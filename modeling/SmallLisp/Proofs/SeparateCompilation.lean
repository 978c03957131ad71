import Mathlib.Data.List.Perm.Basic
import SmallLisp.Proofs.HistoryIndependence

/-!
# Separate compilation

A file is compiled as if its package form and each of its other data were compiled alone, in new
sessions (`compileFile_separately`). It fails with the error of the package form, or else of the
first datum that fails alone; and if nothing fails, its declarations are those of the data alone,
each with its generated names moved past the loops before it. So a permutation of the data permutes
and renumbers the declarations.
-/

namespace SmallLisp

open Program Identifier

/-! ## Traversals that may fail -/

namespace Outcome

variable {ε α β : Type}

theorem mapM_eq_ok {f : α → Except ε β} {as : List α} {bs : List β} :
    as.mapM f = .ok bs ↔ List.Forall₂ (fun a b => f a = .ok b) as bs := by
  induction as generalizing bs with
  | nil =>
    rw [List.mapM_nil, pure_eq_ok, List.forall₂_nil_left_iff]
    exact eq_comm
  | cons a as ih =>
    rw [List.mapM_cons, bind_eq_ok]
    constructor
    · rintro ⟨b, hb, h⟩
      obtain ⟨cs, hcs, h⟩ := bind_eq_ok.1 h
      obtain rfl := pure_eq_ok.1 h
      exact .cons hb (ih.1 hcs)
    · rintro (_ | ⟨hb, hbs⟩)
      exact ⟨_, hb, bind_eq_ok.2 ⟨_, ih.2 hbs, rfl⟩⟩

/-- A traversal fails with the error of the first element that fails. -/
theorem mapM_eq_error {f : α → Except ε β} {as : List α} {e : ε} :
    as.mapM f = .error e ↔ ∃ before a after, as = before ++ a :: after ∧
      (∀ b ∈ before, ∃ c, f b = .ok c) ∧ f a = .error e := by
  induction as with
  | nil => simp [pure, Except.pure]
  | cons a as ih =>
    rw [List.mapM_cons, bind_eq_error]
    constructor
    · rintro (h | ⟨b, hb, h⟩)
      · exact ⟨[], a, as, rfl, nofun, h⟩
      · obtain h | ⟨cs, -, h⟩ := bind_eq_error.1 h
        · obtain ⟨before, c, after, rfl, hbefore, hc⟩ := ih.1 h
          exact ⟨a :: before, c, after, rfl, List.forall_mem_cons.2 ⟨⟨b, hb⟩, hbefore⟩, hc⟩
        · cases h
    · rintro ⟨before, c, after, has, hbefore, hc⟩
      cases before with
      | nil =>
        cases has
        exact .inl hc
      | cons b before =>
        cases has
        obtain ⟨⟨d, hd⟩, hbefore⟩ := List.forall_mem_cons.1 hbefore
        exact .inr ⟨d, hd, bind_eq_error.2 (.inl (ih.2 ⟨before, c, after, rfl, hbefore, hc⟩))⟩

theorem exists_forall₂_iff {R : α → β → Prop} {as : List α} :
    (∃ bs, List.Forall₂ R as bs) ↔ ∀ a ∈ as, ∃ b, R a b := by
  induction as with
  | nil => exact ⟨nofun, fun _ => ⟨[], .nil⟩⟩
  | cons a as ih =>
    rw [List.forall_mem_cons, ← ih]
    constructor
    · rintro ⟨_, _ | ⟨hb, hbs⟩⟩
      exact ⟨⟨_, hb⟩, _, hbs⟩
    · rintro ⟨⟨b, hb⟩, bs, hbs⟩
      exact ⟨b :: bs, .cons hb hbs⟩

end Outcome

open Outcome

/-! ## Package forms -/

/-- A datum that imports a package. -/
inductive ImportForm : Datum → Import → Prop
  | path : ImportForm (.string path) ⟨none, path⟩
  | aliased : ImportForm (.vector (.string path :: .symbol ":as" :: .symbol name :: rest))
      ⟨some name, path⟩

/-- A valid package form. -/
inductive PackageForm : Datum → Package → Prop
  | intro : List.Forall₂ ImportForm specs imports →
    PackageForm (.call (.symbol "ns") (.symbol name :: specs)) ⟨name, imports⟩

/-- What is wrong with a package form: its name, or the first of its arguments that imports
nothing. -/
inductive PackageFault : Datum → CompileError → Prop
  | name : d.symbol? = none →
    PackageFault (.call (.symbol "ns") (d :: specs)) (.namespaceName d)
  | importSpec : (∀ b ∈ before, ∃ i, ImportForm b i) → (∀ i, ¬ImportForm d i) →
    PackageFault (.call (.symbol "ns") (.symbol name :: (before ++ d :: after))) (.importSpec d)

/-- The package of a file and the declarations of its imports. There is one if its package form
has imports, and none if it has no imports or the file has no such form. -/
inductive Opens (cfg : Config) : Option Datum → String → List Decl → Prop
  | unnamed : Opens cfg none cfg.package []
  | named : PackageForm d ⟨name, []⟩ → Opens cfg (some d) name []
  | imports : PackageForm d ⟨name, i :: is⟩ → Opens cfg (some d) name [.imports (i :: is)]

namespace Package

theorem importOfDatum_cases (d : Datum) :
    (∃ i, importOfDatum d = .ok i ∧ ImportForm d i) ∨
      importOfDatum d = .error (.importSpec d) ∧ ∀ i, ¬ImportForm d i := by
  unfold importOfDatum
  split
  · exact .inl ⟨_, rfl, .path⟩
  · rename_i path mark name rest
    by_cases hmark : mark = aliasMark
    · rw [if_pos hmark, hmark]
      exact .inl ⟨_, rfl, .aliased⟩
    · rw [if_neg hmark]
      refine .inr ⟨rfl, fun i hi => hmark ?_⟩
      cases hi
      rfl
  · rename_i hpath haliased
    refine .inr ⟨rfl, fun i hi => ?_⟩
    cases hi with
    | path => exact hpath _ rfl
    | aliased => exact haliased _ _ _ _ rfl

theorem importOfDatum_eq_ok {d : Datum} {i : Import} :
    importOfDatum d = .ok i ↔ ImportForm d i := by
  constructor
  · intro h
    obtain ⟨j, hj, hform⟩ | ⟨he, -⟩ := importOfDatum_cases d
    · cases hj.symm.trans h
      exact hform
    · cases he.symm.trans h
  · intro h
    cases h <;> rfl

theorem importOfDatum_eq_error {d : Datum} {e : CompileError} :
    importOfDatum d = .error e ↔ (∀ i, ¬ImportForm d i) ∧ e = .importSpec d := by
  obtain ⟨j, hj, hform⟩ | ⟨he, hnone⟩ := importOfDatum_cases d
  · rw [hj]
    exact ⟨nofun, fun h => absurd hform (h.1 j)⟩
  · rw [he]
    exact ⟨fun h => ⟨hnone, (Except.error.inj h).symm⟩, fun h => congrArg _ h.2.symm⟩

theorem importsOfData_eq_mapM (ds : List Datum) : importsOfData ds = ds.mapM importOfDatum := by
  induction ds with
  | nil => rfl
  | cons d ds ih => rw [importsOfData, List.mapM_cons, ih]

/-- The package form that a call to `ns` is, or what is wrong with it. -/
theorem ofDatum?_call (arg : Datum) (args : List Datum) :
    ∃ result, ofDatum? (.call (.symbol "ns") (arg :: args)) = some result ∧
      (∀ p, result = .ok p ↔ PackageForm (.call (.symbol "ns") (arg :: args)) p) ∧
      ∀ e, result = .error e ↔ PackageFault (.call (.symbol "ns") (arg :: args)) e := by
  refine ⟨_, rfl, fun p => ?_, fun e => ?_⟩
  · cases arg with
    | symbol name =>
      constructor
      · intro h
        obtain ⟨imports, himports, h⟩ := bind_eq_ok.1 h
        obtain rfl := pure_eq_ok.1 h
        rw [importsOfData_eq_mapM, mapM_eq_ok] at himports
        exact .intro (himports.imp fun _ _ => importOfDatum_eq_ok.1)
      · rintro ⟨h⟩
        refine bind_eq_ok.2 ⟨_, ?_, rfl⟩
        rw [importsOfData_eq_mapM, mapM_eq_ok]
        exact h.imp fun _ _ => importOfDatum_eq_ok.2
    | _ => exact ⟨nofun, nofun⟩
  · cases arg with
    | symbol name =>
      constructor
      · intro h
        obtain h | ⟨_, -, h⟩ := bind_eq_error.1 h
        · rw [importsOfData_eq_mapM, mapM_eq_error] at h
          obtain ⟨before, d, after, rfl, hbefore, hd⟩ := h
          obtain ⟨hnone, rfl⟩ := importOfDatum_eq_error.1 hd
          exact .importSpec (fun b hb => (hbefore b hb).imp fun _ => importOfDatum_eq_ok.1) hnone
        · cases h
      · rintro (h | ⟨hbefore, hnone⟩)
        · cases h
        · refine bind_eq_error.2 (.inl ?_)
          rw [importsOfData_eq_mapM, mapM_eq_error]
          exact ⟨_, _, _, rfl, fun b hb => (hbefore b hb).imp fun _ => importOfDatum_eq_ok.2,
            importOfDatum_eq_error.2 ⟨hnone, rfl⟩⟩
    | _ =>
      constructor
      · intro h
        cases h
        exact .name rfl
      · rintro (_ | _)
        rfl

end Package

/-! ## Calls at the top level -/

namespace Datum

/-- What a call at the top level compiles to in a new session. -/
def alone (cfg : Config) (d : Datum) : Except CompileError Decl :=
  ((d.compileTopLevel cfg).outcome {}).1

/-- Number of the loops that are compiled with a call at the top level. What stands after the value
of a definition is not compiled. -/
def loops : Datum → Nat
  | .call (.symbol "def") (_ :: value :: _) => (value.callsTo "loop").length
  | d => (d.callsTo "loop").length

def loopsAll : List Datum → Nat
  | [] => 0
  | d :: ds => d.loops + loopsAll ds

open Check in
theorem compileTopLevel_takes (cfg : Config) (d : Datum) :
    Takes d.loops (d.compileTopLevel cfg) := by
  suffices h : Takes d.loops d.checkTopLevel from h.bind fun _ => .pure
  generalize hloops : d.loops = k
  unfold checkTopLevel
  split
  · unfold checkDefinition
    split
    · exact ((check_takes _).bind fun _ => .pure).cast hloops
    · exact .fail
    · exact .fail
  · refine ((checkAll_takes _).bind fun _ => .pure).cast (Eq.trans ?_ hloops)
    simp [loops, callsTo, symbol?]
  · rename_i callee args hdef _
    refine ((check_takes _).bind fun _ => .pure).cast (Eq.trans ?_ hloops)
    unfold loops
    split
    · rename_i heq
      cases heq
      exact (hdef rfl).elim
    · rfl
  · exact .fail

/-- A call at the top level compiled after `k` numbers have been taken. -/
theorem outcome_compileTopLevel {cfg : Config} (hcore : ¬IsGenerated cfg.corePackage) (d : Datum)
    (k : Nat) :
    ((d.compileTopLevel cfg).outcome ⟨k, []⟩).1 =
        (d.alone cfg).map (·.mapNames (renumber k)) ∧
      ∀ decl, d.alone cfg = .ok decl →
        ((d.compileTopLevel cfg).outcome ⟨k, []⟩).2 = ⟨k + 2 * d.loops, []⟩ := by
  have hshift : ((d.compileTopLevel cfg).outcome ⟨k, []⟩).1 =
      (d.alone cfg).map (·.mapNames (renumber k)) := by
    have h := (d.checkTopLevel_shift k).emit (TopLevel.emit_shift hcore k) {}
    rw [Session.shift, Nat.zero_add] at h
    exact congrArg Prod.fst h
  refine ⟨hshift, fun decl hdecl => ?_⟩
  obtain ⟨j, -, hs, heq⟩ := d.compileTopLevel_takes cfg ⟨k, []⟩
  rw [hdecl] at hshift
  rw [hs, heq _ hshift]

end Datum

/-- The declarations of data that are compiled one after the other when `k` numbers have been
taken, from those that the data have alone: each moved past the loops before it. -/
def inTurn (k : Nat) (ds : List Datum) (decls : List Decl) : List Decl :=
  decls.mapIdx fun i decl => decl.mapNames (renumber (k + 2 * Datum.loopsAll (ds.take i)))

theorem inTurn_cons (k : Nat) (d : Datum) (ds : List Datum) (decl : Decl) (decls : List Decl) :
    inTurn k (d :: ds) (decl :: decls) =
      decl.mapNames (renumber k) :: inTurn (k + 2 * d.loops) ds decls := by
  simp [inTurn, Datum.loopsAll, List.mapIdx_cons, Nat.mul_add, Nat.add_assoc]

namespace Datum

/-- Compiles calls at the top level one after the other. -/
def compileItems (cfg : Config) (ds : List Datum) : Check (List Decl) := do
  let items ← checkItems ds
  return items.map (·.emit cfg)

theorem compileItems_cons (cfg : Config) (d : Datum) (ds : List Datum) :
    compileItems cfg (d :: ds) = do
      let decl ← d.compileTopLevel cfg
      let decls ← compileItems cfg ds
      return decl :: decls := by
  simp [compileItems, compileTopLevel, checkItems]

theorem result_compileItems {cfg : Config} (hcore : ¬IsGenerated cfg.corePackage)
    (ds : List Datum) (k : Nat) :
    ((compileItems cfg ds).outcome ⟨k, []⟩).1 = (ds.mapM (alone cfg)).map (inTurn k ds) := by
  induction ds generalizing k with
  | nil => rfl
  | cons d ds ih =>
    obtain ⟨hresult, hstate⟩ := d.outcome_compileTopLevel hcore k
    rw [compileItems_cons, Check.outcome_bind, List.mapM_cons]
    generalize (d.compileTopLevel cfg).outcome ⟨k, []⟩ = r at hresult hstate
    obtain ⟨r, s⟩ := r
    obtain rfl : r = _ := hresult
    cases hd : d.alone cfg with
    | error e => rfl
    | ok decl =>
      obtain rfl : s = _ := hstate decl hd
      have ih := ih (k + 2 * d.loops)
      simp only [Except.map]
      rw [Check.outcome_bind]
      generalize (compileItems cfg ds).outcome ⟨k + 2 * d.loops, []⟩ = r at ih
      obtain ⟨r, s⟩ := r
      obtain rfl : r = _ := ih
      cases ds.mapM (alone cfg) with
      | error e => rfl
      | ok decls => exact congrArg Except.ok (inTurn_cons k d ds decl decls).symm

end Datum

/-! ## Files -/

namespace Datum

/-- The package form of a file, if it starts with one, and the rest. Only a call to `ns` with an
argument is such a form, and only at the start. -/
def splitPackage : List Datum → Option Datum × List Datum
  | .call (.symbol "ns") (arg :: args) :: ds => (some (.call (.symbol "ns") (arg :: args)), ds)
  | ds => (none, ds)

/-- What a file compiles to in a new session. -/
def fileAlone (cfg : Config) (ds : List Datum) : Except CompileError File :=
  ((compileFile cfg ds).outcome {}).1

/-- The package of a file and the declarations of its imports, or what is wrong with its package
form. -/
def opening (cfg : Config) (form? : Option Datum) : Except CompileError (String × List Decl) :=
  match form?.bind Package.ofDatum? with
  | none => .ok (cfg.package, [])
  | some package => package.map fun p => (p.name, p.importDecls)

theorem opening_eq_ok {cfg : Config} {ds : List Datum} {name : String} {imports : List Decl} :
    opening cfg (splitPackage ds).1 = .ok (name, imports) ↔
      Opens cfg (splitPackage ds).1 name imports := by
  unfold splitPackage
  split
  · rename_i arg args ds
    obtain ⟨result, hresult, hok, -⟩ := Package.ofDatum?_call arg args
    simp only [opening, Option.bind_some, hresult]
    constructor
    · intro h
      cases result with
      | error e => cases h
      | ok p =>
        cases h
        obtain ⟨name, _ | ⟨i, is⟩⟩ := p
        · exact .named ((hok _).1 rfl)
        · exact .imports ((hok _).1 rfl)
    · rintro (_ | h | h)
      · rw [(hok _).2 h]
        rfl
      · rw [(hok _).2 h]
        rfl
  · constructor
    · intro h
      cases h
      exact .unnamed
    · rintro ⟨⟩
      rfl

theorem opening_eq_error {cfg : Config} {ds : List Datum} {e : CompileError} :
    opening cfg (splitPackage ds).1 = .error e ↔ ∃ d ∈ (splitPackage ds).1, PackageFault d e := by
  unfold splitPackage
  split
  · rename_i arg args ds
    obtain ⟨result, hresult, -, herror⟩ := Package.ofDatum?_call arg args
    simp only [opening, Option.bind_some, hresult, Option.mem_some_iff, exists_eq_left']
    rw [← herror]
    cases result <;> simp [Except.map]
  · simp [opening]

theorem Check.ofExcept_ok (a : α) : Check.ofExcept (.ok a) = pure a := rfl

/-- A file is its opening, and then its other data one after the other. -/
theorem compileFile_eq (cfg : Config) (ds : List Datum) :
    compileFile cfg ds = do
      let (name, imports) ← Check.ofExcept (opening cfg (splitPackage ds).1)
      let decls ← compileItems cfg (splitPackage ds).2
      return ⟨name, imports ++ decls⟩ := by
  unfold splitPackage
  split
  · rename_i arg args ds
    obtain ⟨result, hresult, -, -⟩ := Package.ofDatum?_call arg args
    unfold compileFile checkFile compileItems opening
    simp only [List.head?_cons, Option.bind_some, hresult, List.tail_cons]
    cases result with
    | error e => rfl
    | ok p => simp [Check.ofExcept_ok, Except.map, SourceFile.emit]
  · rename_i hplain
    have hnone : ds.head?.bind Package.ofDatum? = none := by
      cases ds with
      | nil => rfl
      | cons d ds =>
        rw [List.head?_cons, Option.bind_some]
        unfold Package.ofDatum?
        split
        · exact (hplain _ _ _ rfl).elim
        · rfl
    unfold compileFile checkFile compileItems opening
    simp [hnone, Check.ofExcept_ok, SourceFile.emit]

theorem fileAlone_eq {cfg : Config} (hcore : ¬IsGenerated cfg.corePackage) (ds : List Datum) :
    fileAlone cfg ds = do
      let (name, imports) ← opening cfg (splitPackage ds).1
      let decls ← (splitPackage ds).2.mapM (alone cfg)
      return ⟨name, imports ++ inTurn 0 (splitPackage ds).2 decls⟩ := by
  rw [fileAlone, compileFile_eq, Check.outcome_bind]
  cases hopening : opening cfg (splitPackage ds).1 with
  | error e => rfl
  | ok package =>
    have hitems := result_compileItems hcore (splitPackage ds).2 0
    change (Check.outcome _ _).1 = _
    rw [Check.outcome_bind]
    generalize (compileItems cfg (splitPackage ds).2).outcome ⟨0, []⟩ = r at hitems
    obtain ⟨r, s⟩ := r
    obtain rfl : r = _ := hitems
    cases (splitPackage ds).2.mapM (alone cfg) <;> rfl

theorem fileAlone_eq_ok {cfg : Config} (hcore : ¬IsGenerated cfg.corePackage) {ds : List Datum}
    {f : File} :
    fileAlone cfg ds = .ok f ↔ ∃ imports decls, Opens cfg (splitPackage ds).1 f.package imports ∧
      List.Forall₂ (fun d decl => alone cfg d = .ok decl) (splitPackage ds).2 decls ∧
      f.decls = imports ++ inTurn 0 (splitPackage ds).2 decls := by
  rw [fileAlone_eq hcore, bind_eq_ok]
  constructor
  · rintro ⟨⟨name, imports⟩, hopening, h⟩
    obtain ⟨decls, hdecls, h⟩ := bind_eq_ok.1 h
    obtain rfl := pure_eq_ok.1 h
    exact ⟨imports, decls, opening_eq_ok.1 hopening, mapM_eq_ok.1 hdecls, rfl⟩
  · rintro ⟨imports, decls, hopening, hdecls, hf⟩
    refine ⟨(f.package, imports), opening_eq_ok.2 hopening,
      bind_eq_ok.2 ⟨decls, mapM_eq_ok.2 hdecls, ?_⟩⟩
    rw [pure_eq_ok, ← hf]

theorem fileAlone_eq_error {cfg : Config} (hcore : ¬IsGenerated cfg.corePackage) {ds : List Datum}
    {e : CompileError} :
    fileAlone cfg ds = .error e ↔ (∃ d ∈ (splitPackage ds).1, PackageFault d e) ∨
      (∃ name imports, Opens cfg (splitPackage ds).1 name imports) ∧
        ∃ before d after, (splitPackage ds).2 = before ++ d :: after ∧
          (∀ b ∈ before, ∃ decl, alone cfg b = .ok decl) ∧ alone cfg d = .error e := by
  rw [fileAlone_eq hcore, bind_eq_error, opening_eq_error]
  refine or_congr_right ?_
  rw [← mapM_eq_error]
  constructor
  · rintro ⟨⟨name, imports⟩, hopening, h⟩
    obtain h | ⟨decls, -, h⟩ := bind_eq_error.1 h
    · exact ⟨⟨name, imports, opening_eq_ok.1 hopening⟩, h⟩
    · cases h
  · rintro ⟨⟨name, imports, hopening⟩, h⟩
    exact ⟨(name, imports), opening_eq_ok.2 hopening, bind_eq_error.2 (.inl h)⟩

end Datum

open Datum

/-- A file compiles exactly if its package form is valid and each of its other data compiles alone.
Its declarations are then that of its imports and one for each of these data, the one the datum has
alone with two numbers more for each loop before it. Otherwise its error is that of the package
form, or that of the first datum which does not compile alone. So if the data behind the package
form are permuted, the declarations are permuted and renumbered; a permutation must not bring
another datum into the place of the package form. -/
theorem compileFile_separately {cfg : Config} (hcore : ¬IsGenerated cfg.corePackage)
    (ds : List Datum) :
    ((∃ f, fileAlone cfg ds = .ok f) ↔
      (∃ name imports, Opens cfg (splitPackage ds).1 name imports) ∧
        ∀ d ∈ (splitPackage ds).2, ∃ decl, alone cfg d = .ok decl) ∧
    (∀ f, fileAlone cfg ds = .ok f ↔
      ∃ imports decls, Opens cfg (splitPackage ds).1 f.package imports ∧
        List.Forall₂ (fun d decl => alone cfg d = .ok decl) (splitPackage ds).2 decls ∧
        f.decls = imports ++ inTurn 0 (splitPackage ds).2 decls) ∧
    (∀ e, fileAlone cfg ds = .error e ↔
      (∃ d ∈ (splitPackage ds).1, PackageFault d e) ∨
      (∃ name imports, Opens cfg (splitPackage ds).1 name imports) ∧
        ∃ before d after, (splitPackage ds).2 = before ++ d :: after ∧
          (∀ b ∈ before, ∃ decl, alone cfg b = .ok decl) ∧ alone cfg d = .error e) ∧
    ∀ f es, fileAlone cfg ds = .ok f → (splitPackage ds).2.Perm es →
      splitPackage ((splitPackage ds).1.toList ++ es) = ((splitPackage ds).1, es) →
      ∃ imports decls decls', decls.Perm decls' ∧
        List.Forall₂ (fun d decl => alone cfg d = .ok decl) (splitPackage ds).2 decls ∧
        List.Forall₂ (fun d decl => alone cfg d = .ok decl) es decls' ∧
        f.decls = imports ++ inTurn 0 (splitPackage ds).2 decls ∧
        fileAlone cfg ((splitPackage ds).1.toList ++ es) =
          .ok ⟨f.package, imports ++ inTurn 0 es decls'⟩ := by
  refine ⟨⟨?_, ?_⟩, fun f => fileAlone_eq_ok hcore, fun e => fileAlone_eq_error hcore, ?_⟩
  · rintro ⟨f, hf⟩
    obtain ⟨imports, decls, hopens, hdecls, -⟩ := (fileAlone_eq_ok hcore).1 hf
    exact ⟨⟨_, _, hopens⟩, exists_forall₂_iff.1 ⟨decls, hdecls⟩⟩
  · rintro ⟨⟨name, imports, hopens⟩, haccepted⟩
    obtain ⟨decls, hdecls⟩ := exists_forall₂_iff.2 haccepted
    exact ⟨⟨name, _⟩, (fileAlone_eq_ok hcore).2 ⟨imports, decls, hopens, hdecls, rfl⟩⟩
  · intro f es hf hperm hsplit
    obtain ⟨imports, decls, hopens, hdecls, hfdecls⟩ := (fileAlone_eq_ok hcore).1 hf
    obtain ⟨decls', hdecls', hperm'⟩ := List.perm_comp_forall₂ hperm.symm hdecls
    refine ⟨imports, decls, decls', hperm'.symm, hdecls, hdecls', hfdecls,
      (fileAlone_eq_ok hcore).2 ⟨imports, decls', ?_⟩⟩
    rw [hsplit]
    exact ⟨hopens, hdecls', rfl⟩

/-- A package form with an import, a loop, and another loop. -/
theorem compileFile_separately_loops :
    ¬IsGenerated (Config.corePackage {}) ∧
      ∃ f, fileAlone {} [.call (.symbol "ns") [.symbol "main", .string "fmt"], endlessLoop,
          endlessLoop] = .ok f ∧
        f.decls = [.imports [⟨none, "fmt"⟩],
          (discarded (endlessLoopTerm.emit {})).mapNames (renumber 0),
          (discarded (endlessLoopTerm.emit {})).mapNames (renumber 2)] := by
  have hcore : ¬IsGenerated (Config.corePackage {}) := not_isGenerated_of_unmarked rfl
  have halone : alone {} endlessLoop = .ok (discarded (endlessLoopTerm.emit {})) :=
    congrArg Prod.fst
      (Check.outcome_seq (Check.outcome_seq endlessLoop_checked.check rfl) rfl :
        (endlessLoop.compileTopLevel {}).outcome {} = (_, ⟨2, []⟩))
  refine ⟨hcore, ⟨"main", _⟩, ((compileFile_separately hcore _).2.1 _).2
    ⟨_, _, .imports (.intro (.cons .path .nil)), .cons halone (.cons halone .nil), rfl⟩, rfl⟩

end SmallLisp
