import SmallLisp.CompileError

/-! Binding vectors and parameter vectors. A binding vector is flat, `[a 1 b 2]`, or has a vector
for each binding, `[[a 1] [b c (pair)]]`, where several names may share a value. -/

namespace SmallLisp

/-- Names, at least one, bound to what one expression yields. -/
structure Binding (α : Type) where
  targets : List String
  value : α

namespace Binding

/-- The name that a datum in the place of a target stands for. -/
def target (form : String) : Datum → Except CompileError String
  | .symbol name => .ok name
  | d => .error (.argument form (.bindingName d))

/-- A name and its value in turn. -/
def ofPairs (form : String) : List Datum → Except CompileError (List (Binding Datum))
  | name :: value :: rest => do
    let name ← target form name
    let bs ← ofPairs form rest
    return ⟨[name], value⟩ :: bs
  | _ => .ok []

/-- A vector of names and, last, their value. -/
def ofVector (form : String) (d : Datum) : Except CompileError (Binding Datum) :=
  match (d.elements?.getD []).getLast? with
  | none => .error (.argument form .emptyBinding)
  | some value =>
    if (d.elements?.getD []).dropLast.isEmpty then
      .error (.argument form (.unnamedBinding d))
    else do
      let targets ← (d.elements?.getD []).dropLast.mapM (target form)
      return ⟨targets, value⟩

def ofVectors (form : String) : List Datum → Except CompileError (List (Binding Datum))
  | [] => .ok []
  | d :: ds => do
    let b ← ofVector form d
    let bs ← ofVectors form ds
    return b :: bs

/-- The bindings of a vector. It has a vector for each binding if it holds vectors only, and at
least one. -/
def ofDatum (form : String) : Datum → Except CompileError (List (Binding Datum))
  | .vector elements =>
    if !elements.isEmpty && elements.all (·.elements?.isSome) then
      ofVectors form elements
    else if elements.length % 2 = 1 then
      .error (.argument form .oddBindings)
    else
      ofPairs form elements
  | d => .error (.argument form (.notBindingVector d))

end Binding

/-- The parameters of a function; the last one may take all remaining arguments. -/
structure Params where
  names : List String
  rest? : Option String
  deriving DecidableEq

namespace Params

/-- What stands before the parameter for the remaining arguments. -/
def restMark : String := "&"

/-- The parameter after the mark. -/
def restOfElements (form : String) : List Datum → Except CompileError String
  | [.symbol name] =>
    if name = restMark then .error (.argument form (.restName (.symbol name))) else .ok name
  | [d] => .error (.argument form (.restName d))
  | _ => .error (.argument form .restCount)

def ofElements (form : String) : List Datum → Except CompileError Params
  | [] => .ok ⟨[], none⟩
  | .symbol name :: ds =>
    if name = restMark then do
      let rest ← restOfElements form ds
      return ⟨[], some rest⟩
    else do
      let ps ← ofElements form ds
      return ⟨name :: ps.names, ps.rest?⟩
  | d :: _ => .error (.argument form (.parameterName d))

def ofDatum (form : String) : Datum → Except CompileError Params
  | .vector elements => ofElements form elements
  | d => .error (.argument form (.notParameterVector d))

end Params

end SmallLisp
