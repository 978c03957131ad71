import SmallLisp.Proofs.Place
import SmallLisp.TopLevel.Emit

/-!
# Items of emitted programs

What stands where in the parts that terms are emitted as: the closures, the chains of operands, the
declarations of bindings, and the statements around the body of a loop.
-/

namespace SmallLisp

open Program

namespace Config

/-- The kind of the block in a `closure`. -/
abbrev called (cfg : Config) : BlockKind := .function true ⟨[], [cfg.any]⟩

theorem called_ne_pass (cfg : Config) : cfg.called ≠ .pass := nofun

end Config

/-- The imports of a file add nothing to a list that is made of all its declarations, if nothing
in it comes from an import. -/
theorem SourceFile.flatMap_emit {cfg : Config} {f : SourceFile} {g : Decl → List β}
    (himports : ∀ specs, g (.imports specs) = []) :
    (f.emit cfg).decls.flatMap g = (f.items.map (·.emit cfg)).flatMap g := by
  unfold emit
  split
  · rfl
  · rename_i package _
    rw [List.flatMap_append, Package.importDecls]
    split
    · rfl
    · rw [List.flatMap_singleton, himports, List.nil_append]

theorem emitAll_length {cfg : Config} {ts : List Term} :
    (Term.emitAll cfg ts).length = ts.length := by
  induction ts with
  | nil => rfl
  | cons t ts ih => exact congrArg (· + 1) ih

theorem emitEffects_eq (cfg : Config) (ts : List Term) :
    Term.emitEffects cfg ts = (Term.emitAll cfg ts).map .expr := by
  induction ts with
  | nil => rfl
  | cons t ts ih => exact congrArg (_ :: ·) ih

theorem defined?_emitBindings {cfg : Config} {bs : List (Binding Term)} {names : List String}
    {type : Option TypeExpr} :
    (Term.emitBindings cfg bs ++ [Stmt.var names type []]).filterMap Stmt.defined? =
      (bs.map (·.targets)).map (·.map Expr.ofName) := by
  induction bs with
  | nil => rfl
  | cons b bs ih => exact congrArg (_ :: ·) ih

theorem Program.Signature.names_groups {cfg : Config} {ps : Params} {results : List TypeExpr} :
    Signature.names ⟨ps.groups cfg, results⟩ =
      (ps.names ++ ps.rest?.toList).map Identifier.ofName := by
  unfold Signature.names Params.groups
  cases ps with
  | mk names rest =>
    cases names <;> cases rest <;> simp

/-- The operands of a chain are at its own place. Its first operand is a callee if the chain is
one and has no other operand. -/
theorem Program.Expr.items_logics (p : Place) (c : Bool) (op : LogicOp) (e : Expr)
    (es : List Expr) :
    ∃ c', (es.foldl (.logic op) e).items p c = e.items p c' ++ Expr.itemsAll p es := by
  induction es generalizing e with
  | nil => exact ⟨c, (List.append_nil _).symm⟩
  | cons a es ih =>
    obtain ⟨c', h⟩ := ih (.logic op e a)
    refine ⟨false, ?_⟩
    rw [List.foldl_cons, h, Expr.items, Expr.itemsAll, List.append_assoc]

theorem logics_ne_func {op : LogicOp} {a b : Expr} {es : List Expr} :
    es.foldl (Expr.logic op) (.logic op a b) ≠ .func signature body := by
  induction es generalizing a b with
  | nil => nofun
  | cons e es ih => exact ih

/-- The statement of a loop. -/
abbrev Loop.stmt (l : Loop) (body : List Stmt) : Stmt :=
  .loop (some (.define l.flag (.bool true))) (some l.flag) none body

/-- The end of the function that a loop becomes. -/
theorem items_loop {l : Loop} {type : Option TypeExpr} {body : List Stmt} {x : String}
    {kind : BlockKind} {before : List Stmt} {p q : Place}
    (hq : q = ⟨kind, before ++ [.var [x] type []]⟩ :: p) :
    Stmt.itemsAll kind before p [.var [x] type [], l.stmt body, .ret [.ident x]] =
      ([(⟨kind, before⟩ :: p, .stmt (.var [x] type [])), (q, .stmt (l.stmt body)),
        (⟨.header, []⟩ :: q, .stmt (.define l.flag (.bool true))),
        (⟨.header, []⟩ :: q, .name "true"),
        (⟨.header, [.define l.flag (.bool true)]⟩ :: q,
          .name (Identifier.generated "continue" l.number))] : List (Place × Item)) ++
      Stmt.itemsAll .pass [] (⟨.header, [.define l.flag (.bool true)]⟩ :: q) body ++
      ([(⟨kind, before ++ [.var [x] type [], l.stmt body]⟩ :: p, .stmt (.ret [.ident x])),
        (⟨kind, before ++ [.var [x] type [], l.stmt body]⟩ :: p, .name x)] :
          List (Place × Item)) := by
  subst hq
  simp [Stmt.itemsAll, Stmt.items, Stmt.itemsIn, Expr.itemsIn, Expr.itemsAll, Expr.itemsNew,
    Expr.items, Stmt.define, Loop.flag, Expr.bool]

end SmallLisp
