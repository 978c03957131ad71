import SmallLisp.Identifier
import SmallLisp.Program

/-! What source names refer to. Slashes lead from a package to its members. -/

namespace SmallLisp.Program

/-- A name without slashes is an identifier, and so is one with an empty part between slashes. In
any other the first part is an identifier and the others are exported names selected in turn. -/
def Expr.ofName (name : String) : Expr :=
  match Text.split '/' name.toList with
  | package :: member :: members =>
    if (package :: member :: members).any List.isEmpty then
      .ident (Identifier.ofName name)
    else
      (member :: members).foldl
        (fun base part => .selector base (String.ofList (Identifier.chars true part)))
        (.ident (String.ofList (Identifier.chars false package)))
  | _ => .ident (Identifier.ofName name)

/-- A type is named as it stands, with its package before the first slash. -/
def TypeExpr.ofName (name : String) : TypeExpr :=
  match Text.cut? '/' name.toList with
  | some (package, member) =>
    if package.isEmpty || member.isEmpty then
      .named name
    else
      .qualified (String.ofList package) (String.ofList member)
  | none => .named name

end SmallLisp.Program
