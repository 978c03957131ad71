import SmallLisp.Term.Check

/-! Whole source files: an optional package form with imports, then calls. At the top level `def`
declares a name; any other call is evaluated when the program starts. -/

namespace SmallLisp

/-- The package form at the start of a file. -/
structure Package where
  name : String
  imports : List Program.Import
  deriving DecidableEq

inductive TopLevel where
  | define (name : String) (value : Term)
  | discard (value : Term)

structure SourceFile where
  package? : Option Package
  items : List TopLevel

namespace Package

/-- The word between a path and its alias. -/
def aliasMark : String := ":as"

/-- An import is a path, or a vector of a path and its alias. More elements are ignored. -/
def importOfDatum (d : Datum) : Except CompileError Program.Import :=
  match d with
  | .string path => .ok ⟨none, path⟩
  | .vector (.string path :: .symbol mark :: .symbol name :: _) =>
    if mark = aliasMark then .ok ⟨some name, path⟩ else .error (.importSpec d)
  | _ => .error (.importSpec d)

def importsOfData : List Datum → Except CompileError (List Program.Import)
  | [] => .ok []
  | d :: ds => do
    let i ← importOfDatum d
    let is ← importsOfData ds
    return i :: is

/-- The package form that a datum has, or `none` if it is another datum. -/
def ofDatum? : Datum → Option (Except CompileError Package)
  | .call (.symbol "ns") (name :: specs) =>
    some <|
      match name with
      | .symbol name => do
        let imports ← importsOfData specs
        return ⟨name, imports⟩
      | d => .error (.namespaceName d)
  | _ => none

end Package

namespace Datum

/-- Checks the parts of a definition. What follows the value is ignored. -/
def checkDefinition (args : List Datum) : Check TopLevel :=
  match args with
  | .symbol name :: value :: _ => do
    let value ← value.check
    return .define name value
  | d :: _ :: _ => Check.fail (.argument "def" (.definedName d))
  | _ => Check.fail (.argumentCount "def" (.atLeast 2) args.length)

/-- Checks a call at the top level. Here `ns` has no meaning of its own. -/
def checkTopLevel (d : Datum) : Check TopLevel :=
  match d with
  | .call (.symbol "def") args => checkDefinition args
  | .call (.symbol "ns") args => do
    let args ← checkAll args
    return .discard (.call (.symbol "ns") args)
  | .call _ _ => do
    let value ← d.check
    return .discard value
  | _ => Check.fail (.topLevel d)

def checkItems : List Datum → Check (List TopLevel)
  | [] => pure []
  | d :: ds => do
    let item ← d.checkTopLevel
    let items ← checkItems ds
    return item :: items

/-- Checks a whole file. -/
def checkFile (ds : List Datum) : Check SourceFile :=
  match ds.head?.bind Package.ofDatum? with
  | some package => do
    let package ← Check.ofExcept package
    let items ← checkItems ds.tail
    return ⟨some package, items⟩
  | none => do
    let items ← checkItems ds
    return ⟨none, items⟩

end Datum

end SmallLisp
