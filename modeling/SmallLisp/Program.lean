import SmallLisp.Text.Quoted

/-! Programs: syntax trees of the part of Go that is emitted. -/

namespace SmallLisp.Program

inductive TypeExpr where
  | named (name : String)
  | qualified (package name : String)
  | slice (element : TypeExpr)
  deriving DecidableEq

inductive LiteralKind where
  | int
  | float
  | imag
  | char
  | string
  deriving DecidableEq

inductive LogicOp where
  | and
  | or
  deriving DecidableEq

inductive AssignOp where
  /-- Declares its targets in the current block. -/
  | define
  /-- Assigns to variables in scope. -/
  | assign
  deriving DecidableEq

/-- Parameters of one type. A variadic group takes all remaining arguments. -/
structure ParamGroup where
  names : List String
  type : TypeExpr
  variadic : Bool
  deriving DecidableEq

structure Signature where
  params : List ParamGroup
  results : List TypeExpr
  deriving DecidableEq

mutual

inductive Expr where
  | ident (name : String)
  | selector (base : Expr) (field : String)
  /-- A literal. The text of a string is quoted when it is printed, any other stands as it is. -/
  | literal (kind : LiteralKind) (text : String)
  | call (callee : Expr) (args : List Expr)
  | composite (type : TypeExpr) (elements : List Expr)
  | func (signature : Signature) (body : List Stmt)
  | assert (value : Expr) (type : TypeExpr)
  | not (operand : Expr)
  | logic (op : LogicOp) (left right : Expr)

inductive Stmt where
  | assign (op : AssignOp) (targets values : List Expr)
  | var (names : List String) (type : Option TypeExpr) (values : List Expr)
  | branch (test : Expr) (yes : List Stmt) (no : Option (List Stmt))
  | loop (init : Option Stmt) (test : Option Expr) (post : Option Stmt) (body : List Stmt)
  | ret (values : List Expr)
  | expr (value : Expr)

end

namespace Expr

def nil : Expr := .ident "nil"

def bool (b : Bool) : Expr := .ident (if b then "true" else "false")

def string (s : String) : Expr := .literal .string s

end Expr

namespace Stmt

/-- Declares one variable with its value. -/
def define (target value : Expr) : Stmt := .assign .define [target] [value]

/-- Assigns to one variable. -/
def set (target value : Expr) : Stmt := .assign .assign [target] [value]

end Stmt

/-- One import, under another name if it has an alias. -/
structure Import where
  alias? : Option String
  path : String
  deriving DecidableEq

inductive Decl where
  | func (name : String) (signature : Signature) (body : List Stmt)
  | var (names : List String) (type : Option TypeExpr) (values : List Expr)
  | imports (specs : List Import)

structure File where
  package : String
  decls : List Decl

end SmallLisp.Program
