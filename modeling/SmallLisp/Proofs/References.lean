import SmallLisp.Proofs.Emitted
import SmallLisp.Proofs.Naming

/-!
# References in a program

`Expr.refs` lists the names that an expression refers to, in order and at all depths: variables,
targets of assignments, packages and types, each with its place and with the members selected from
it. A name in a type counts at the place of the type; parameters are not in scope in their own
types.
-/

namespace SmallLisp.Program

/-- A name referred to at a place, and the members that are selected from it in turn. -/
structure Ref where
  place : Place
  root : String
  members : List String

def TypeExpr.refs (p : Place) : TypeExpr → List Ref
  | .named x => [⟨p, x, []⟩]
  | .qualified package x => [⟨p, package, [x]⟩]
  | .slice element => element.refs p

/-- A type names one thing. -/
theorem TypeExpr.refs_eq (t : TypeExpr) :
    ∃ root members, ∀ p, t.refs p = [⟨p, root, members⟩] := by
  induction t with
  | named x => exact ⟨x, [], fun _ => rfl⟩
  | qualified package x => exact ⟨package, [x], fun _ => rfl⟩
  | slice _ ih => exact ih

def Signature.refs (p : Place) (s : Signature) : List Ref :=
  s.params.flatMap (·.type.refs p) ++ s.results.flatMap (·.refs p)

mutual

/-- The references in an expression at a place, from which `members` are selected; `called` says
whether it is the callee of a call. -/
def Expr.refs (p : Place) (called : Bool) (members : List String) : Expr → List Ref
  | .ident x => [⟨p, x, members⟩]
  | .selector base field => base.refs p false (field :: members)
  | .literal _ _ => []
  | .call f args => f.refs p true [] ++ Expr.refsAll p args
  | .composite type elements => type.refs p ++ Expr.refsAll p elements
  | .func signature body =>
    signature.refs p ++ Stmt.refsAll (.function called signature) [] p body
  | .assert value type => value.refs p false [] ++ type.refs p
  | .not operand => operand.refs p false []
  | .logic _ left right => left.refs p false [] ++ right.refs p false []

def Expr.refsAll (p : Place) : List Expr → List Ref
  | [] => []
  | e :: es => e.refs p false [] ++ Expr.refsAll p es

/-- The references in the targets of a statement that declares them: the names declared are none. -/
def Expr.refsNew (p : Place) : List Expr → List Ref
  | [] => []
  | .ident _ :: es => Expr.refsNew p es
  | e :: es => e.refs p false [] ++ Expr.refsNew p es

def Stmt.refs (p : Place) : Stmt → List Ref
  | .assign .define targets values => Expr.refsNew p targets ++ Expr.refsAll p values
  | .assign .assign targets values => Expr.refsAll p targets ++ Expr.refsAll p values
  | .var _ type values => type.elim [] (·.refs p) ++ Expr.refsAll p values
  | .branch test yes no =>
    test.refs p false [] ++ Stmt.refsAll .branch [] p yes ++ Stmt.refsElse p no
  | .loop init test post body =>
    Stmt.refsIn (⟨.header, []⟩ :: p) init ++ Expr.refsIn (⟨.header, init.toList⟩ :: p) test ++
      Stmt.refsIn (⟨.header, init.toList⟩ :: p) post ++
      Stmt.refsAll .pass [] (⟨.header, init.toList⟩ :: p) body
  | .ret values => Expr.refsAll p values
  | .expr value => value.refs p false []

/-- The references in a block at `p`, where the statements `before` come first. -/
def Stmt.refsAll (kind : BlockKind) (before : List Stmt) (p : Place) : List Stmt → List Ref
  | [] => []
  | s :: ss => s.refs (⟨kind, before⟩ :: p) ++ Stmt.refsAll kind (before ++ [s]) p ss

def Stmt.refsElse (p : Place) : Option (List Stmt) → List Ref
  | none => []
  | some body => Stmt.refsAll .branch [] p body

def Stmt.refsIn (p : Place) : Option Stmt → List Ref
  | none => []
  | some s => s.refs p

def Expr.refsIn (p : Place) : Option Expr → List Ref
  | none => []
  | some e => e.refs p false []

end

def Decl.refs : Decl → List Ref
  | .func _ signature body =>
    signature.refs [] ++ Stmt.refsAll (.function false signature) [] [] body
  | .var _ type values => type.elim [] (·.refs []) ++ Expr.refsAll [] values
  | .imports _ => []

def File.refs (f : File) : List Ref := f.decls.flatMap Decl.refs

theorem Stmt.refsAll_append {kind : BlockKind} {before ss ts : List Stmt} {p : Place} :
    refsAll kind before p (ss ++ ts) =
      refsAll kind before p ss ++ refsAll kind (before ++ ss) p ts := by
  induction ss generalizing before with
  | nil => simp [refsAll]
  | cons s ss ih => simp [refsAll, ih]

theorem Stmt.refsAll_singleton {kind : BlockKind} {before : List Stmt} {p : Place} {s : Stmt} :
    refsAll kind before p [s] = s.refs (⟨kind, before⟩ :: p) := by
  rw [refsAll, refsAll, List.append_nil]

theorem Expr.refsAll_singleton {p : Place} {e : Expr} : refsAll p [e] = e.refs p false [] := by
  rw [refsAll, refsAll, List.append_nil]

theorem Stmt.refsAll_ret {kind : BlockKind} {before : List Stmt} {p : Place} {e : Expr} :
    refsAll kind before p [.ret [e]] = e.refs (⟨kind, before⟩ :: p) false [] := by
  rw [refsAll_singleton, refs, Expr.refsAll_singleton]

theorem Stmt.refsAll_expr {kind : BlockKind} {before : List Stmt} {p : Place} {e : Expr} :
    refsAll kind before p [.expr e] = e.refs (⟨kind, before⟩ :: p) false [] := by
  rw [refsAll_singleton, refs]

namespace Expr

theorem refs_select {p : Place} {c : Bool} {x : String} {xs ys : List String} :
    (select (.ident x) xs).refs p c ys = [⟨p, x, xs ++ ys⟩] := by
  induction xs using List.reverseRecOn generalizing c ys with
  | nil => rfl
  | append_singleton xs member ih =>
    rw [select, List.foldl_append, List.append_assoc]
    exact ih

/-- A reference to a source name is one reference, to an identifier from the source. -/
theorem refs_ofName (name : String) : ∃ root members, ∀ p c,
    (ofName name).refs p c [] = [⟨p, Identifier.ofName root, members⟩] := by
  obtain ⟨root, members, h⟩ := ofName_eq_select name
  refine ⟨root, members, fun p c => ?_⟩
  rw [h, refs_select, List.append_nil]

/-- Only qualified names are referred to where names are declared. -/
theorem refsNew_ofName {p : Place} {xs : List String} :
    refsNew p (xs.map ofName) = refsAll p ((xs.filter Identifier.Qualified).map ofName) := by
  induction xs with
  | nil => rfl
  | cons x xs ih =>
    by_cases hq : Identifier.Qualified x
    · obtain ⟨base, field, h⟩ := ofName_of_qualified hq
      rw [List.filter_cons_of_pos (by simpa using hq), List.map_cons, List.map_cons, h, refsNew,
        refsAll, ih]
      nofun
    · rw [List.map_cons, ofName_of_not_qualified hq, refsNew, ih,
        List.filter_cons_of_neg (by simpa using hq)]

/-- The operands of a chain are at its own place. Its first operand is a callee if the chain is
one and has no other operand. -/
theorem refs_logics (p : Place) (c : Bool) (op : LogicOp) (e : Expr) (es : List Expr) :
    ∃ c', (es.foldl (.logic op) e).refs p c [] = e.refs p c' [] ++ refsAll p es := by
  induction es generalizing e with
  | nil => exact ⟨c, (List.append_nil _).symm⟩
  | cons a es ih =>
    obtain ⟨c', h⟩ := ih (.logic op e a)
    refine ⟨false, ?_⟩
    rw [List.foldl_cons, h, refs, refsAll, List.append_assoc]

end Expr

/-! ## Loops -/

/-- The end of the function that a loop becomes. -/
theorem refsAll_loop {l : Loop} {type : TypeExpr} {body : List Stmt} {x : String}
    {kind : BlockKind} {before : List Stmt} {p q : Place}
    (hq : q = ⟨kind, before ++ [.var [x] (some type) []]⟩ :: p) :
    Stmt.refsAll kind before p [.var [x] (some type) [], l.stmt body, .ret [.ident x]] =
      type.refs (⟨kind, before⟩ :: p) ++
        ([⟨⟨.header, []⟩ :: q, "true", []⟩,
          ⟨⟨.header, [.define l.flag (.bool true)]⟩ :: q,
            Identifier.generated "continue" l.number, []⟩] ++
        (Stmt.refsAll .pass [] (⟨.header, [.define l.flag (.bool true)]⟩ :: q) body ++
        [⟨⟨kind, before ++ [.var [x] (some type) []] ++ [l.stmt body]⟩ :: p, x, []⟩])) := by
  subst hq
  simp [Stmt.refsAll, Stmt.refs, Stmt.refsIn, Expr.refsIn, Expr.refsAll, Expr.refsNew, Expr.refs,
    Stmt.define, Loop.flag, Expr.bool]

theorem refsAll_pass {l : Loop} {effects : List Stmt} {result : Expr} {p : Place} :
    Stmt.refsAll .pass [] p
        (.set l.flag (.bool false) :: effects ++ [.set (.ident l.resultName) result]) =
      [⟨⟨.pass, []⟩ :: p, Identifier.generated "continue" l.number, []⟩,
        ⟨⟨.pass, []⟩ :: p, "false", []⟩] ++
      (Stmt.refsAll .pass [.set l.flag (.bool false)] p effects ++
      ([⟨⟨.pass, [.set l.flag (.bool false)] ++ effects⟩ :: p, l.resultName, []⟩] ++
        result.refs (⟨.pass, [.set l.flag (.bool false)] ++ effects⟩ :: p) false [])) := by
  simp [Stmt.refsAll, Stmt.refsAll_append, Stmt.refs, Expr.refsAll, Expr.refs, Stmt.set, Loop.flag,
    Expr.bool]

end SmallLisp.Program
