import SmallLisp.Proofs.Listing

/-!
# Short declarations

A statement that declares its targets is legal if they are identifiers, none of them twice, and one
of them is new in its block, where the blank one does not count (`ShortDeclaration.Legal`). Such a
statement is emitted for the flag of a loop, which stands in a block of its own, and for each
binding of `let` and `loop`, after those for the bindings before it in the same vector. So a flag is
always declared legally. No table of names is kept, however, and a vector may bind one name twice:
whether a binding is declared legally depends on what the names up to its own are translated to
(`short_declarations_accounted`).
-/

namespace SmallLisp

open Program Identifier

/-! ## Legal declarations -/

/-- A statement that declares its targets. -/
structure ShortDeclaration where
  /-- The names that the statements before it in its block declare. -/
  declared : List String
  targets : List Expr

namespace ShortDeclaration

/-- Only identifiers are declared. -/
def Plain (d : ShortDeclaration) : Prop := ∀ e ∈ d.targets, ∃ x, e = .ident x

/-- No identifier is declared twice. -/
def Distinct (d : ShortDeclaration) : Prop := ((Expr.names d.targets).filter (· != "_")).Nodup

/-- One of the identifiers is new in the block. -/
def Fresh (d : ShortDeclaration) : Prop := ∃ x ∈ Expr.names d.targets, x ≠ "_" ∧ x ∉ d.declared

instance : DecidablePred Distinct := fun _ => inferInstanceAs (Decidable (List.Nodup _))

instance : DecidablePred Fresh := fun _ => inferInstanceAs (Decidable (∃ _ ∈ _, _))

structure Legal (d : ShortDeclaration) : Prop where
  plain : d.Plain
  distinct : d.Distinct
  fresh : d.Fresh

theorem Legal.singleton {x : String} (hx : x ≠ "_") : Legal ⟨[], [.ident x]⟩ where
  plain _ he := ⟨x, List.mem_singleton.1 he⟩
  distinct := (List.pairwise_singleton _ x).filter _
  fresh := ⟨x, List.mem_singleton.2 rfl, hx, List.not_mem_nil⟩

def ofItem? : Place × Item → Option ShortDeclaration
  | (p, .stmt s) => s.defined?.map fun targets =>
    ⟨(p.head?.elim [] (·.before)).flatMap Stmt.declared, targets⟩
  | _ => none

end ShortDeclaration

/-- The statements of a file that declare their targets. -/
def Program.File.shortDeclarations (f : File) : List ShortDeclaration :=
  (f.decls.flatMap Decl.items).filterMap ShortDeclaration.ofItem?

/-! ## Origins -/

/-- What a short declaration is emitted for. -/
inductive ShortOrigin where
  /-- The flag of the loop with this number. -/
  | flag (number : Nat)
  /-- A binding of `targets`, in a vector that binds `earlier` before it. -/
  | binding (earlier targets : List String)

def ShortOrigin.listing : Listing ShortOrigin where
  params _ := []
  binding earlier targets := [.binding earlier targets]
  flag n := [.flag n]

/-- The flags and the bindings in a file, in the order in which they are emitted. -/
def SourceFile.shortOrigins (f : SourceFile) : List ShortOrigin := f.listed ShortOrigin.listing

/-- The identifiers of the names that are not qualified. -/
def Identifier.ofNames (xs : List String) : List String :=
  (xs.filter fun x => ¬Qualified x).map ofName

/-- The declaration that is emitted for an origin. That of a flag is the first in its block. Before
that of a binding its block declares the names before it in its vector, and its targets are what
references to its names compile to. -/
def ShortOrigin.declaration : ShortOrigin → ShortDeclaration
  | .flag n => ⟨[], [.ident (generated "continue" n)]⟩
  | .binding earlier targets => ⟨ofNames earlier, targets.map Expr.ofName⟩

/-- The declaration is the one for the origin, and the names in the source say what is legal in it.
A qualified name declares nothing. -/
inductive ShortOrigin.Accounts : ShortOrigin → ShortDeclaration → Prop where
  | flag : d = declaration (.flag n) → d.Legal → Accounts (.flag n) d
  | binding : d = declaration (.binding earlier targets) →
    (d.Plain ↔ ∀ x ∈ targets, ¬Qualified x) →
    (d.Distinct ↔ ((ofNames targets).filter (· != "_")).Nodup) →
    (d.Fresh ↔ ∃ x ∈ ofNames targets, x ≠ "_" ∧ x ∉ ofNames earlier) →
    Accounts (.binding earlier targets) d

theorem ShortOrigin.accounts_flag (n : Nat) : Accounts (.flag n) (declaration (.flag n)) :=
  .flag rfl (.singleton (IsGenerated.flag n).ne_blank)

theorem ShortOrigin.accounts_binding (earlier targets : List String) :
    Accounts (.binding earlier targets) (declaration (.binding earlier targets)) := by
  have hnames : Expr.names (targets.map Expr.ofName) = ofNames targets := Expr.names_ofName targets
  refine .binding rfl ?_ ?_ ?_
  · rw [ShortDeclaration.Plain, declaration, List.forall_mem_map]
    simp only [Expr.ofName_eq_ident, exists_and_left, exists_eq', and_true]
  · rw [ShortDeclaration.Distinct, declaration, hnames]
  · rw [ShortDeclaration.Fresh, declaration, hnames]

theorem ShortOrigin.reads (cfg : Config) :
    listing.Reads cfg Accounts fun i => (ShortDeclaration.ofItem? i).toList where
  name := rfl
  silent {p s} hs := by
    rw [ShortDeclaration.ofItem?, (Stmt.declares_eq_false hs).2]
    rfl
  result := rfl
  closure := rfl
  params := .nil
  binding {_ before _ earlier targets _} hbefore := by
    have hdeclared : before.flatMap Stmt.declared = ofNames earlier :=
      hbefore.trans (Expr.names_ofName earlier)
    have haccounts := accounts_binding earlier targets
    rw [declaration, ← hdeclared] at haccounts
    exact .cons haccounts .nil
  flag := .cons (accounts_flag _) .nil

/-- The short declarations of a compiled file are, in order, those for the flags and the bindings of
the source. Those for flags are legal. That for a binding declares identifiers exactly if none of
its names is qualified; it declares none twice exactly if no two of its names are translated to the
same one; and it declares a new one exactly if one of its names is translated to an identifier that
the names before it in its vector are not translated to, where only names that are not qualified
count. -/
theorem short_declarations_accounted {cfg : Config} {ds : List Datum} {s s' : Session} {f : File}
    (h : (Datum.compileFile cfg ds).outcome s = (.ok f, s')) :
    ∃ source, (Datum.checkFile ds).outcome s = (.ok source, s') ∧
      List.Forall₂ ShortOrigin.Accounts source.shortOrigins f.shortDeclarations := by
  obtain ⟨source, u, hcheck, he⟩ := Check.bind_eq_ok.1 h
  cases he
  obtain ⟨es, n, -, hitems⟩ := CheckedItems.of_checkFile hcheck
  refine ⟨source, hcheck, ?_⟩
  rw [File.shortDeclarations, source.flatMap_emit fun _ => rfl, List.filterMap_eq_flatMap_toList]
  exact hitems.listed (ShortOrigin.reads cfg)

/-! ## A vector that binds a name again -/

/-- `(let [[x x (pair)] [_ (greet)] [x 2] [a/b 3]] x)` -/
def rebinding : Datum :=
  .call (.symbol "let") [.vector [
      .vector [.symbol "x", .symbol "x", .call (.symbol "pair") []],
      .vector [.symbol "_", .call (.symbol "greet") []],
      .vector [.symbol "x", .number "2" .int],
      .vector [.symbol "a/b", .number "3" .int]],
    .symbol "x"]

/-- What `rebinding` is checked to be. -/
def rebindingTerm : Term :=
  .letIn [⟨["x", "x"], .call (.symbol "pair") []⟩, ⟨["_"], .call (.symbol "greet") []⟩,
    ⟨["x"], .number "2" .int⟩, ⟨["a/b"], .number "3" .int⟩] [] (.symbol "x")

theorem checkFile_rebinding :
    (Datum.checkFile [rebinding]).outcome {} = (.ok ⟨none, [.discard rebindingTerm]⟩, {}) := by
  have hpair : Checked [] 0 (.call (.symbol "pair") []) (.call (.symbol "pair") []) 0 :=
    .call rfl (.call .symbol .nil)
  have hgreet : Checked [] 0 (.call (.symbol "greet") []) (.call (.symbol "greet") []) 0 :=
    .call rfl (.call .symbol .nil)
  have hlet : Checked [] 0 rebinding rebindingTerm 0 :=
    .call rfl (.letIn (.cons hpair (.cons hgreet (.cons .number (.cons .number .nil)))) .nil
      .symbol)
  exact Check.outcome_seq (Check.outcome_seq (Check.outcome_seq hlet.check rfl) rfl) rfl

theorem short_declarations_accounted_rebinding :
    ∃ f, (Datum.compileFile {} [rebinding]).outcome {} = (.ok f, {}) ∧
      ∃ source, (Datum.checkFile [rebinding]).outcome {} = (.ok source, {}) ∧
        List.Forall₂ ShortOrigin.Accounts source.shortOrigins f.shortDeclarations :=
  have h := Check.outcome_seq checkFile_rebinding rfl
  ⟨SourceFile.emit {} ⟨none, [.discard rebindingTerm]⟩, h, short_declarations_accounted h⟩

/-- The first of its declarations declares `x` twice, the second nothing, the third nothing new, and
the last one has a selector for its target. -/
theorem rebinding_redeclares :
    ∃ f a b c d, (Datum.compileFile {} [rebinding]).outcome {} = (.ok f, {}) ∧
      f.shortDeclarations = [a, b, c, d] ∧ ¬a.Distinct ∧ ¬b.Fresh ∧ ¬c.Fresh ∧ ¬d.Plain := by
  refine ⟨SourceFile.emit {} ⟨none, [.discard rebindingTerm]⟩,
    ⟨[], [.ident "x", .ident "x"]⟩, ⟨["x", "x"], [.ident "_"]⟩, ⟨["x", "x", "_"], [.ident "x"]⟩,
    ⟨["x", "x", "_", "x"], [.selector (.ident "a") "B"]⟩,
    Check.outcome_seq checkFile_rebinding rfl, rfl, ?_, ?_, ?_, ?_⟩
  · decide
  · decide
  · decide
  · intro hplain
    obtain ⟨x, hx⟩ := hplain _ (List.mem_singleton.2 rfl)
    cases hx

end SmallLisp
