import SmallLisp.Program
import SmallLisp.Outline

/-! The outlines of programs. -/

namespace SmallLisp.Program

open Outline

private def strings (ss : List String) : Outline :=
  list (ss.map ofString)

def TypeExpr.outline : TypeExpr → Outline
  | .named name => alternative "Name" (ofString name)
  | .qualified package name =>
    record "Qualified" [("package", ofString package), ("name", ofString name)]
  | .slice element => alternative "Slice" element.outline

def LiteralKind.outline : LiteralKind → Outline
  | .int => .leaf "Int"
  | .float => .leaf "Float"
  | .imag => .leaf "Imag"
  | .char => .leaf "Char"
  | .string => .leaf "String"

def LogicOp.outline : LogicOp → Outline
  | .and => .leaf "LogicalAnd"
  | .or => .leaf "LogicalOr"

def AssignOp.outline : AssignOp → Outline
  | .define => .leaf "Define"
  | .assign => .leaf "Assign"

def ParamGroup.outline (g : ParamGroup) : Outline :=
  record "Field"
    [("names", strings g.names), ("ty", g.type.outline), ("variadic", ofBool g.variadic)]

def Signature.outline (s : Signature) : Outline :=
  record "FuncType"
    [("params", list (s.params.map ParamGroup.outline)),
      ("results", list (s.results.map TypeExpr.outline))]

private def valueSpec (names : List String) (type : Option TypeExpr) (values : List Outline) :
    Outline :=
  record "ValueSpec"
    [("names", strings names), ("ty", ofOption (type.map TypeExpr.outline)),
      ("values", list values)]

mutual

def Expr.outline : Expr → Outline
  | .ident name => alternative "Ident" (ofString name)
  | .selector base member =>
    record "Selector" [("base", base.outline), ("field", ofString member)]
  | .literal kind text =>
    alternative "BasicLit"
      (record "BasicLit" [("kind", kind.outline), ("value", ofString text)])
  | .call f args =>
    record "Call" [("func", f.outline), ("args", list (Expr.outlines args))]
  | .composite type elements =>
    record "CompositeLit"
      [("ty", type.outline), ("elements", list (Expr.outlines elements))]
  | .func signature body =>
    alternative "FuncLit"
      (record "FuncLit" [("ty", signature.outline), ("body", list (Stmt.outlines body))])
  | .assert value type =>
    record "TypeAssert" [("expr", value.outline), ("ty", type.outline)]
  | .not operand =>
    record "Unary" [("op", .leaf "Not"), ("operand", operand.outline)]
  | .logic op left right =>
    record "Binary"
      [("op", op.outline), ("left", left.outline), ("right", right.outline)]

def Expr.outlines : List Expr → List Outline
  | [] => []
  | e :: es => e.outline :: Expr.outlines es

def Stmt.outline : Stmt → Outline
  | .assign op targets values =>
    record "Assign"
      [("lhs", list (Expr.outlines targets)), ("op", op.outline),
        ("rhs", list (Expr.outlines values))]
  | .var names type values =>
    alternative "Var" (valueSpec names type (Expr.outlines values))
  | .branch test yes no =>
    record "If"
      [("cond", test.outline), ("then", list (Stmt.outlines yes)),
        ("otherwise", ofOption (Stmt.blockOutline no))]
  | .loop init test post body =>
    record "For"
      [("init", ofOption (Stmt.outlineIn init)), ("cond", ofOption (Expr.outlineIn test)),
        ("post", ofOption (Stmt.outlineIn post)), ("body", list (Stmt.outlines body))]
  | .ret values => alternative "Return" (list (Expr.outlines values))
  | .expr value => alternative "Expr" value.outline

def Stmt.outlines : List Stmt → List Outline
  | [] => []
  | s :: ss => s.outline :: Stmt.outlines ss

def Stmt.blockOutline : Option (List Stmt) → Option Outline
  | none => none
  | some body => some (list (Stmt.outlines body))

def Stmt.outlineIn : Option Stmt → Option Outline
  | none => none
  | some s => some s.outline

def Expr.outlineIn : Option Expr → Option Outline
  | none => none
  | some e => some e.outline

end

def Import.outline (i : Import) : Outline :=
  record "ImportSpec"
    [("name", ofOption (i.alias?.map ofString)), ("path", ofString i.path)]

def Decl.outline : Decl → Outline
  | .func name signature body =>
    alternative "Func"
      (record "FuncDecl"
        [("name", ofString name), ("ty", signature.outline),
          ("body", list (Stmt.outlines body))])
  | .var names type values => alternative "Var" (valueSpec names type (Expr.outlines values))
  | .imports specs => alternative "Import" (list (specs.map Import.outline))

def File.outline (f : File) : Outline :=
  record "File"
    [("package", ofString f.package), ("decls", list (f.decls.map Decl.outline))]

end SmallLisp.Program
