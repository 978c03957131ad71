import Mathlib.Data.List.Induction
import SmallLisp.Proofs.Generated

/-!
# Places in a program

What stands where: `Expr.items` lists the names, the statements and the function heads of an
expression, in order and at all depths, each with its place. A place is the list of the blocks
around it, innermost first, and a block knows the statements before the place. So a place
determines what the variables there refer to (`Place.resolve`), and which loop is the innermost
one around it (`Place.innermostLoop?`).
-/

namespace SmallLisp.Program

inductive BlockKind where
  /-- The body of a function literal, which is the callee of a call or is not. -/
  | function (called : Bool) (signature : Signature)
  /-- The block of a whole loop: its initial statement is in it, and its body inside it. -/
  | header
  /-- The body of a loop. -/
  | pass
  /-- A branch of a condition. -/
  | branch

/-- A block, as seen from a place in it. -/
structure Block where
  kind : BlockKind
  /-- The statements of the block before the place. -/
  before : List Stmt

/-- The blocks around a place, innermost first. -/
abbrev Place := List Block

/-- What stands at a place. -/
inductive Item where
  /-- A name, as an expression or as a target of an assignment to a variable in scope. -/
  | name (x : String)
  | stmt (s : Stmt)
  /-- The parameters of a function literal. -/
  | params (signature : Signature)

mutual

/-- The items of an expression at a place; `called` says whether it is the callee of a call. -/
def Expr.items (p : Place) (called : Bool) : Expr → List (Place × Item)
  | .ident x => [(p, .name x)]
  | .selector base _ => base.items p false
  | .literal _ _ => []
  | .call f args => f.items p true ++ Expr.itemsAll p args
  | .composite _ elements => Expr.itemsAll p elements
  | .func signature body =>
    (p, .params signature) :: Stmt.itemsAll (.function called signature) [] p body
  | .assert value _ => value.items p false
  | .not operand => operand.items p false
  | .logic _ left right => left.items p false ++ right.items p false

def Expr.itemsAll (p : Place) : List Expr → List (Place × Item)
  | [] => []
  | e :: es => e.items p false ++ Expr.itemsAll p es

/-- The items in the targets of a statement that declares them: the names declared are none. -/
def Expr.itemsNew (p : Place) : List Expr → List (Place × Item)
  | [] => []
  | .ident _ :: es => Expr.itemsNew p es
  | e :: es => e.items p false ++ Expr.itemsNew p es

/-- The items inside a statement at a place. -/
def Stmt.items (p : Place) : Stmt → List (Place × Item)
  | .assign .define targets values => Expr.itemsNew p targets ++ Expr.itemsAll p values
  | .assign .assign targets values => Expr.itemsAll p targets ++ Expr.itemsAll p values
  | .var _ _ values => Expr.itemsAll p values
  | .branch test yes no =>
    test.items p false ++ Stmt.itemsAll .branch [] p yes ++ Stmt.itemsElse p no
  | .loop init test post body =>
    Stmt.itemsIn (⟨.header, []⟩ :: p) init ++ Expr.itemsIn (⟨.header, init.toList⟩ :: p) test ++
      Stmt.itemsIn (⟨.header, init.toList⟩ :: p) post ++
      Stmt.itemsAll .pass [] (⟨.header, init.toList⟩ :: p) body
  | .ret values => Expr.itemsAll p values
  | .expr value => value.items p false

/-- The statements of a block and the items inside them; the block stands at `p`, and the
statements `before` come first in it. -/
def Stmt.itemsAll (kind : BlockKind) (before : List Stmt) (p : Place) :
    List Stmt → List (Place × Item)
  | [] => []
  | s :: ss =>
    (⟨kind, before⟩ :: p, .stmt s) :: s.items (⟨kind, before⟩ :: p) ++
      Stmt.itemsAll kind (before ++ [s]) p ss

def Stmt.itemsElse (p : Place) : Option (List Stmt) → List (Place × Item)
  | none => []
  | some body => Stmt.itemsAll .branch [] p body

def Stmt.itemsIn (p : Place) : Option Stmt → List (Place × Item)
  | none => []
  | some s => (p, .stmt s) :: s.items p

def Expr.itemsIn (p : Place) : Option Expr → List (Place × Item)
  | none => []
  | some e => e.items p false

end

theorem Stmt.itemsAll_append {kind : BlockKind} {before ss ts : List Stmt} {p : Place} :
    itemsAll kind before p (ss ++ ts) =
      itemsAll kind before p ss ++ itemsAll kind (before ++ ss) p ts := by
  induction ss generalizing before with
  | nil => simp [itemsAll]
  | cons s ss ih => simp [itemsAll, ih]

theorem Stmt.itemsAll_singleton {kind : BlockKind} {before : List Stmt} {p : Place} {s : Stmt} :
    itemsAll kind before p [s] =
      (⟨kind, before⟩ :: p, .stmt s) :: s.items (⟨kind, before⟩ :: p) := by
  rw [itemsAll, itemsAll, List.append_nil]

theorem Expr.itemsAll_singleton {p : Place} {e : Expr} : itemsAll p [e] = e.items p false := by
  rw [itemsAll, itemsAll, List.append_nil]

/-! ## Declarations -/

/-- The names among some targets. -/
def Expr.names (targets : List Expr) : List String :=
  targets.filterMap fun
    | .ident x => some x
    | _ => none

/-- The targets of a statement that declares its targets. -/
def Stmt.defined? : Stmt → Option (List Expr)
  | .assign .define targets _ => some targets
  | _ => none

/-- The names that a statement declares in the block it stands in. -/
def Stmt.declared : Stmt → List String
  | .assign .define targets _ => Expr.names targets
  | .var names _ _ => names
  | _ => []

def Signature.names (s : Signature) : List String :=
  s.params.flatMap (·.names)

def Item.declared : Item → List String
  | .name _ => []
  | .stmt s => s.declared
  | .params signature => signature.names

def BlockKind.params : BlockKind → List String
  | .function _ signature => signature.names
  | _ => []

/-- The names declared in a block before the place. The blank name declares nothing. -/
def Block.declared (b : Block) : List String :=
  (b.kind.params ++ b.before.flatMap Stmt.declared).filter (· != "_")

theorem Block.declared_snoc {kind : BlockKind} {before : List Stmt} {s : Stmt} :
    (⟨kind, before ++ [s]⟩ : Block).declared =
      (⟨kind, before⟩ : Block).declared ++ s.declared.filter (· != "_") := by
  simp [Block.declared, List.filter_append]

namespace Place

/-- The part of a place from the block on whose declaration a name refers to there: the innermost
one that declares it. -/
def resolve (x : String) : Place → Option Place
  | [] => none
  | b :: p => if x ∈ b.declared then some (b :: p) else resolve x p

/-- The header of the innermost loop whose body is around a place, and the place of that loop. -/
def innermostLoop? : Place → Option (Block × Place)
  | ⟨.pass, _⟩ :: header :: p => some (header, p)
  | _ :: p => innermostLoop? p
  | [] => none

theorem innermostLoop?_cons {b : Block} {p : Place} (hb : b.kind ≠ .pass) :
    innermostLoop? (b :: p) = innermostLoop? p := by
  obtain ⟨kind, before⟩ := b
  cases kind with
  | pass => exact absurd rfl hb
  | function | header | branch => rfl

end Place

/-! ## Whole files -/

def Decl.items : Decl → List (Place × Item)
  | .func _ signature body =>
    ([], .params signature) :: Stmt.itemsAll (.function false signature) [] [] body
  | .var _ _ values => Expr.itemsAll [] values
  | .imports _ => []

/-- The names that a declaration declares in its package. Those of imports are not among them. -/
def Decl.names : Decl → List String
  | .func name _ _ => [name]
  | .var names _ _ => names
  | .imports _ => []

/-- The names that the imports of a declaration declare in their file, as they are written. -/
def Decl.aliases : Decl → List String
  | .imports specs => specs.filterMap (·.alias?)
  | _ => []

/-! ## References -/

/-- A reference to a member of a package selects it from something else. -/
theorem Expr.ofName_cases (name : String) :
    ofName name = .ident (Identifier.ofName name) ∨
      ∃ base field, ofName name = .selector base field := by
  unfold ofName
  split
  · rename_i package member members _
    split
    · exact .inl rfl
    · refine .inr ?_
      obtain ⟨parts, part, h⟩ := (member :: members).eq_nil_or_concat.resolve_left (by simp)
      rw [h, List.concat_eq_append, List.foldl_append]
      exact ⟨_, _, rfl⟩
  · exact .inl rfl

theorem Expr.items_selectors {p : Place} {c : Bool} {x : String} (f : α → String) (xs : List α) :
    (xs.foldl (fun base a => .selector base (f a)) (.ident x) : Expr).items p c =
      [(p, .name x)] := by
  induction xs using List.reverseRecOn generalizing c with
  | nil => rfl
  | append_singleton xs a ih => rw [List.foldl_append]; exact ih

/-- A reference stands for one name, which a source name is the origin of. -/
theorem Expr.items_ofName (p : Place) (c : Bool) (name : String) :
    ∃ root, (ofName name).items p c =
      [(p, .name (String.ofList (Identifier.chars false root)))] := by
  unfold ofName
  split
  · rename_i package _ _ _
    split
    · exact ⟨_, rfl⟩
    · exact ⟨package, items_selectors _ _⟩
  · exact ⟨_, rfl⟩

theorem Expr.itemsNew_sublist (p : Place) (es : List Expr) :
    (itemsNew p es).Sublist (itemsAll p es) := by
  induction es with
  | nil => exact .slnil
  | cons e es ih =>
    cases e with
    | ident x => exact .cons _ ih
    | _ => exact List.Sublist.append (.refl _) ih

theorem Expr.itemsAll_ofName {p : Place} {xs : List String} {i : Place × Item}
    (h : i ∈ itemsAll p (xs.map ofName)) :
    ∃ root, i = (p, .name (String.ofList (Identifier.chars false root))) := by
  induction xs with
  | nil => cases h
  | cons x xs ih =>
    obtain h | h := List.mem_append.1 h
    · obtain ⟨root, hx⟩ := items_ofName p false x
      rw [hx] at h
      exact ⟨root, List.mem_singleton.1 h⟩
    · exact ih h

theorem Expr.itemsNew_ofName {p : Place} {xs : List String} {i : Place × Item}
    (h : i ∈ itemsNew p (xs.map ofName)) :
    ∃ root, i = (p, .name (String.ofList (Identifier.chars false root))) :=
  itemsAll_ofName ((itemsNew_sublist p _).subset h)

end SmallLisp.Program
