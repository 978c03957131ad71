import SmallLisp.Proofs.Emitted

/-!
# Renaming in programs

`Expr.mapNames f` changes the names of the variables, parameters and members in an expression.
Names of types and the texts of literals are no such names. A renaming that fixes all names but the
generated ones (`Config.Fixes`) leaves everything in place that comes from a source name.
-/

namespace SmallLisp

open Identifier

namespace Program

def ParamGroup.mapNames (f : String → String) (g : ParamGroup) : ParamGroup :=
  { g with names := g.names.map f }

def Signature.mapNames (f : String → String) (s : Signature) : Signature :=
  { s with params := s.params.map (·.mapNames f) }

mutual

def Expr.mapNames (f : String → String) : Expr → Expr
  | .ident x => .ident (f x)
  | .selector base field => .selector (base.mapNames f) (f field)
  | .literal kind text => .literal kind text
  | .call callee args => .call (callee.mapNames f) (Expr.mapNamesAll f args)
  | .composite type elements => .composite type (Expr.mapNamesAll f elements)
  | .func signature body => .func (signature.mapNames f) (Stmt.mapNamesAll f body)
  | .assert value type => .assert (value.mapNames f) type
  | .not operand => .not (operand.mapNames f)
  | .logic op left right => .logic op (left.mapNames f) (right.mapNames f)

def Expr.mapNamesAll (f : String → String) : List Expr → List Expr
  | [] => []
  | e :: es => e.mapNames f :: Expr.mapNamesAll f es

def Stmt.mapNames (f : String → String) : Stmt → Stmt
  | .assign op targets values => .assign op (Expr.mapNamesAll f targets) (Expr.mapNamesAll f values)
  | .var names type values => .var (names.map f) type (Expr.mapNamesAll f values)
  | .branch test yes no =>
    .branch (test.mapNames f) (Stmt.mapNamesAll f yes) (Stmt.mapNamesElse f no)
  | .loop init test post body =>
    .loop (Stmt.mapNamesIn f init) (Expr.mapNamesIn f test) (Stmt.mapNamesIn f post)
      (Stmt.mapNamesAll f body)
  | .ret values => .ret (Expr.mapNamesAll f values)
  | .expr value => .expr (value.mapNames f)

def Stmt.mapNamesAll (f : String → String) : List Stmt → List Stmt
  | [] => []
  | s :: ss => s.mapNames f :: Stmt.mapNamesAll f ss

def Stmt.mapNamesElse (f : String → String) : Option (List Stmt) → Option (List Stmt)
  | none => none
  | some body => some (Stmt.mapNamesAll f body)

def Stmt.mapNamesIn (f : String → String) : Option Stmt → Option Stmt
  | none => none
  | some s => some (s.mapNames f)

def Expr.mapNamesIn (f : String → String) : Option Expr → Option Expr
  | none => none
  | some e => some (e.mapNames f)

end

theorem Expr.mapNamesAll_eq_map (f : String → String) (es : List Expr) :
    mapNamesAll f es = es.map (·.mapNames f) := by
  induction es with
  | nil => rfl
  | cons e es ih => rw [mapNamesAll, ih, List.map_cons]

theorem Stmt.mapNamesAll_eq_map (f : String → String) (ss : List Stmt) :
    mapNamesAll f ss = ss.map (·.mapNames f) := by
  induction ss with
  | nil => rfl
  | cons s ss ih => rw [mapNamesAll, ih, List.map_cons]

/-- The aliases of imports are left as they are written. -/
def Decl.mapNames (f : String → String) : Decl → Decl
  | .func name signature body => .func (f name) (signature.mapNames f) (Stmt.mapNamesAll f body)
  | .var names type values => .var (names.map f) type (Expr.mapNamesAll f values)
  | .imports specs => .imports specs

def File.mapNames (f : String → String) (file : File) : File :=
  { file with decls := file.decls.map (·.mapNames f) }

end Program

open Program

/-! ## Names that come from the source -/

/-- The renaming changes generated names only. -/
def FixesSource (f : String → String) : Prop := ∀ x, ¬IsGenerated x → f x = x

namespace FixesSource

variable {f : String → String}

theorem identifier (hf : FixesSource f) (name : String) : f (ofName name) = ofName name :=
  hf _ (not_isGenerated_ofName name)

theorem chars (hf : FixesSource f) (exported : Bool) (name : List Char) :
    f (String.ofList (chars exported name)) = String.ofList (Identifier.chars exported name) :=
  hf _ (not_isGenerated_ofChars exported name)

theorem unmarked (hf : FixesSource f) {x : String}
    (hx : generatedMark.isPrefixOf x.toList = false) : f x = x :=
  hf x (not_isGenerated_of_unmarked hx)

theorem selectors (hf : FixesSource f) (base : Expr) (parts : List (List Char)) :
    (parts.foldl (fun b part => .selector b (String.ofList (Identifier.chars true part))) base :
        Expr).mapNames f =
      parts.foldl (fun b part => .selector b (String.ofList (Identifier.chars true part)))
        (base.mapNames f) := by
  induction parts generalizing base with
  | nil => rfl
  | cons part parts ih => rw [List.foldl_cons, ih, Expr.mapNames, hf.chars, List.foldl_cons]

theorem reference (hf : FixesSource f) (name : String) :
    (Expr.ofName name).mapNames f = Expr.ofName name := by
  unfold Expr.ofName
  split
  · split
    · rw [Expr.mapNames, hf.identifier]
    · rw [hf.selectors, Expr.mapNames, hf.chars]
  · rw [Expr.mapNames, hf.identifier]

theorem targets (hf : FixesSource f) (names : List String) :
    Expr.mapNamesAll f (names.map Expr.ofName) = names.map Expr.ofName := by
  rw [Expr.mapNamesAll_eq_map, List.map_map]
  exact List.map_congr_left fun name _ => hf.reference name

theorem groups (hf : FixesSource f) (cfg : Config) (ps : Params) (results : List TypeExpr) :
    Signature.mapNames f ⟨ps.groups cfg, results⟩ = ⟨ps.groups cfg, results⟩ := by
  have hnames (names : List String) : (names.map ofName).map f = names.map ofName := by
    rw [List.map_map]
    exact List.map_congr_left fun name _ => hf.identifier name
  unfold Signature.mapNames Params.groups
  cases ps with
  | mk names rest =>
    cases names <;> cases rest <;>
      simp [ParamGroup.mapNames, hnames, hf.identifier]

/-- The helpers are named in capital letters. -/
theorem helper (hf : FixesSource f) (op : Operator) : f op.helper = op.helper :=
  hf.unmarked (by cases op <;> rfl)

theorem coreHelper (hf : FixesSource f) {cfg : Config} (hcore : ¬IsGenerated cfg.corePackage)
    (op : Operator) : (cfg.coreHelper op.helper).mapNames f = cfg.coreHelper op.helper := by
  rw [Config.coreHelper, Expr.mapNames, Expr.mapNames, hf _ hcore, hf.helper]

theorem coreFunction (hf : FixesSource f) (cfg : Config) (name : String) :
    (cfg.coreFunction name).mapNames f = cfg.coreFunction name := hf.reference _

theorem nil (hf : FixesSource f) : Expr.nil.mapNames f = .nil :=
  congrArg Expr.ident (hf.unmarked rfl)

theorem bool (hf : FixesSource f) (b : Bool) : (Expr.bool b).mapNames f = .bool b :=
  congrArg Expr.ident (hf.unmarked (by cases b <;> rfl))

/-- The assignments of a `recur` name the targets of its loop as the source does. -/
theorem update (hf : FixesSource f) (l : Loop) (values : List Expr) :
    Stmt.mapNamesAll f (l.update values) = l.update (Expr.mapNamesAll f values) := by
  unfold Loop.update
  split
  · split
    · rfl
    · rw [Stmt.mapNamesAll, Stmt.mapNamesAll, Stmt.mapNames, hf.targets]
  · rw [Stmt.mapNamesAll_eq_map, Expr.mapNamesAll_eq_map, List.map_zipWith, List.zipWith_map_right]
    congr 1
    funext names value
    rw [Stmt.mapNames, hf.targets]
    rfl

end FixesSource

theorem mapNames_closure (f : String → String) (cfg : Config) (body : List Stmt) :
    (cfg.closure body).mapNames f = cfg.closure (Stmt.mapNamesAll f body) := rfl

theorem mapNames_logics (f : String → String) (op : LogicOp) (e : Expr) (es : List Expr) :
    (es.foldl (.logic op) e).mapNames f =
      (Expr.mapNamesAll f es).foldl (.logic op) (e.mapNames f) := by
  induction es generalizing e with
  | nil => rfl
  | cons a es ih => rw [List.foldl_cons, ih, Expr.mapNames, Expr.mapNamesAll, List.foldl_cons]

end SmallLisp
