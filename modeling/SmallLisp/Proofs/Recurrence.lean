import SmallLisp.Proofs.Calls
import SmallLisp.Proofs.Checked
import SmallLisp.Proofs.Emitted

/-!
# Where a `recur` ends up in the program

Each `recur` of a term (`Term.recurs`) leads to one statement that sets a flag (`Expr.sites`), in
the same order. The function around that statement gives the bindings of the loop their next
values, and stands inside the loop that declares the flag; between it and that loop, exactly those
names are declared that the binders between the `recur` and its loop declare (`Within`).
-/

namespace SmallLisp

open Program

/-! ## Sites -/

/-- A statement that sets the flag of a loop: the number of the loop, and its place. -/
structure Site where
  number : Nat
  place : Place

/-- The number of the loop whose flag a statement sets. -/
def Program.Stmt.setFlag? : Stmt → Option Nat
  | .assign .assign [.ident x] [.ident v] =>
    if v = "true" then Identifier.number? "continue" x else none
  | _ => none

def Site.ofItem? : Place × Item → Option Site
  | (p, .stmt s) => s.setFlag?.map (⟨·, p⟩)
  | _ => none

/-- The statements among some items that set a flag. -/
def sites (is : List (Place × Item)) : List Site := is.filterMap Site.ofItem?

@[simp] theorem sites_nil : sites [] = [] := rfl

@[simp] theorem sites_append {is js : List (Place × Item)} :
    sites (is ++ js) = sites is ++ sites js := List.filterMap_append

@[simp] theorem sites_name {p : Place} {x : String} {is : List (Place × Item)} :
    sites ((p, .name x) :: is) = sites is := rfl

@[simp] theorem sites_params {p : Place} {s : Signature} {is : List (Place × Item)} :
    sites ((p, .params s) :: is) = sites is := rfl

theorem sites_stmt {p : Place} {s : Stmt} {is : List (Place × Item)} (h : s.setFlag? = none) :
    sites ((p, .stmt s) :: is) = sites is := by
  simp [sites, Site.ofItem?, h]

/-- The statements of an expression that set a flag. -/
def Program.Expr.sites (e : Expr) : List Site := SmallLisp.sites (e.items [] false)

def Program.Decl.sites (d : Decl) : List Site := SmallLisp.sites d.items

def Program.File.sites (f : File) : List Site := f.decls.flatMap Decl.sites

/-! ## Recurrences -/

/-- A `recur` of a term. -/
structure Recurrence where
  loop : Loop
  /-- The identifiers that the binders between the `recur` and its loop declare. -/
  between : List String
  values : List Term

/-- The identifiers that targets of `let` or `loop` declare; a name with a package has none. -/
def Binding.idents (xs : List String) : List String :=
  (Expr.names (xs.map Expr.ofName)).filter (· != "_")

/-- The identifiers that parameters declare. -/
def Params.idents (ps : Params) : List String :=
  ((ps.names ++ ps.rest?.toList).map Identifier.ofName).filter (· != "_")

namespace Term

mutual

/-- Every `recur` of a term, one in an argument before the one around it. The identifiers `xs` are
declared between the term and the loop around it. -/
def recurs (xs : List String) : Term → List Recurrence
  | .symbol _ | .number .. | .string _ => []
  | .vector ts => recursAll xs ts
  | .call t ts => t.recurs xs ++ recursAll xs ts
  | .not t => t.recurs xs
  | .operator _ ts => recursAll xs ts
  | .logic _ t ts => t.recurs xs ++ recursAll xs ts
  | .loop _ bs ts t => recursBindings xs bs ++ recursAll [] ts ++ t.recurs []
  | .recur l ts => recursAll xs ts ++ [⟨l, xs, ts⟩]
  | .assert _ t => t.recurs xs
  | .get ts => recursAll xs ts
  | .letIn bs ts t =>
    recursBindings xs bs ++ recursAll (xs ++ Binding.idents (bs.flatMap (·.targets))) ts ++
      t.recurs (xs ++ Binding.idents (bs.flatMap (·.targets)))
  | .cond t u v => t.recurs xs ++ u.recurs xs ++ recursElse xs v
  | .fn ps ts t => recursAll (xs ++ ps.idents) ts ++ t.recurs (xs ++ ps.idents)

def recursAll (xs : List String) : List Term → List Recurrence
  | [] => []
  | t :: ts => t.recurs xs ++ recursAll xs ts

/-- A value sees the bindings before its own. -/
def recursBindings (xs : List String) : List (Binding Term) → List Recurrence
  | [] => []
  | ⟨ys, t⟩ :: bs => t.recurs xs ++ recursBindings (xs ++ Binding.idents ys) bs

def recursElse (xs : List String) : Option Term → List Recurrence
  | none => []
  | some t => t.recurs xs

end

end Term

/-- The `recur`s of a definition or an expression at the top level. -/
def TopLevel.recurs : TopLevel → List Recurrence
  | .define _ t => t.recurs []
  | .discard t => t.recurs []

def SourceFile.recurs (f : SourceFile) : List Recurrence := f.items.flatMap TopLevel.recurs

end SmallLisp
