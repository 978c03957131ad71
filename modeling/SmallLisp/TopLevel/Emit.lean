import SmallLisp.Term.Emit
import SmallLisp.TopLevel

/-! Emitting source files as Go files, and the compiler as a whole: a check, and the emission of
what it finds. -/

namespace SmallLisp

open Program

/-- The body of the function where a program starts: it returns nothing, so the last expression is
evaluated for its effects. -/
def entryBody (body : List Stmt) : List Stmt :=
  match body.getLast? with
  | some (.ret values) => body.dropLast ++ values.map .expr
  | _ => body

/-- A definition of `name`. One whose value is a function literal declares a function. -/
def definition (cfg : Config) (name : String) (value : Expr) : Decl :=
  match value with
  | .func signature body =>
    if name = cfg.entryPoint then
      .func name { signature with results := [] } (entryBody body)
    else
      .func name signature body
  | e => .var [name] none [e]

/-- An expression evaluated when the program starts. -/
def discarded (value : Expr) : Decl := .var ["_"] none [value]

def TopLevel.emit (cfg : Config) : TopLevel → Decl
  | .define name value => definition cfg (Identifier.ofName name) (value.emit cfg)
  | .discard value => discarded (value.emit cfg)

def Package.importDecls (p : Package) : List Decl :=
  if p.imports.isEmpty then [] else [.imports p.imports]

def SourceFile.emit (cfg : Config) (f : SourceFile) : File :=
  match f.package? with
  | none => ⟨cfg.package, f.items.map (·.emit cfg)⟩
  | some p => ⟨p.name, p.importDecls ++ f.items.map (·.emit cfg)⟩

namespace Datum

/-- Compiles a datum in the place of an expression. -/
def compile (cfg : Config) (d : Datum) : Check Expr := do
  let t ← d.check
  return t.emit cfg

/-- Compiles each datum in the place of an expression. -/
def compileAll (cfg : Config) (ds : List Datum) : Check (List Expr) := do
  let ts ← checkAll ds
  return Term.emitAll cfg ts

/-- Compiles a call at the top level. -/
def compileTopLevel (cfg : Config) (d : Datum) : Check Decl := do
  let item ← d.checkTopLevel
  return item.emit cfg

/-- Compiles a whole file. -/
def compileFile (cfg : Config) (ds : List Datum) : Check File := do
  let f ← checkFile ds
  return f.emit cfg

end Datum

end SmallLisp
