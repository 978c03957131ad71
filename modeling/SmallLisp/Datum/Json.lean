import SmallLisp.Datum
import SmallLisp.Json

/-! The JSON form of data: an object whose field `kind` names the kind of the datum, and whose
other fields hold its parts. Reading the form back ignores fields that the kind does not have. -/

namespace SmallLisp

namespace NumberKind

def label : NumberKind → String
  | .int => "int"
  | .float => "float"
  | .imag => "imag"
  | .char => "char"

def ofLabel? : String → Option NumberKind
  | "int" => some .int
  | "float" => some .float
  | "imag" => some .imag
  | "char" => some .char
  | _ => none

@[simp] theorem ofLabel?_label (k : NumberKind) : ofLabel? k.label = some k := by
  cases k <;> rfl

end NumberKind

namespace Datum

mutual

def toJson : Datum → Json
  | .call callee args =>
    .object [("kind", .string "call"), ("callee", callee.toJson), ("args", .array (toJsons args))]
  | .vector elements =>
    .object [("kind", .string "vector"), ("elements", .array (toJsons elements))]
  | .number literal kind =>
    .object [("kind", .string "number"), ("literal", .string literal),
      ("number", .string kind.label)]
  | .string value => .object [("kind", .string "string"), ("value", .string value)]
  | .symbol name => .object [("kind", .string "ident"), ("name", .string name)]

def toJsons : List Datum → List Json
  | [] => []
  | d :: ds => d.toJson :: toJsons ds

end

/-- The text in the first field of a name. -/
def textField? (name : String) (fields : List (String × Json)) : Option String :=
  (Json.field? name fields).bind Json.string?

mutual

def ofJson? : Json → Option Datum
  | .object fields =>
    match textField? "kind" fields with
    | some "call" => do
      let callee ← datumField? "callee" fields
      let args ← listField? "args" fields
      return .call callee args
    | some "vector" => do
      let elements ← listField? "elements" fields
      return .vector elements
    | some "number" => do
      let literal ← textField? "literal" fields
      let label ← textField? "number" fields
      let kind ← NumberKind.ofLabel? label
      return .number literal kind
    | some "string" => do
      let value ← textField? "value" fields
      return .string value
    | some "ident" => do
      let name ← textField? "name" fields
      return .symbol name
    | _ => none
  | _ => none

/-- The datum in the first field of a name. -/
def datumField? (name : String) : List (String × Json) → Option Datum
  | [] => none
  | (key, value) :: rest => if key = name then ofJson? value else datumField? name rest

/-- The data in the first field of a name, which holds an array. -/
def listField? (name : String) : List (String × Json) → Option (List Datum)
  | [] => none
  | (key, value) :: rest => if key = name then ofJsonArray? value else listField? name rest

def ofJsonArray? : Json → Option (List Datum)
  | .array items => ofJsons? items
  | _ => none

def ofJsons? : List Json → Option (List Datum)
  | [] => some []
  | j :: js => do
    let d ← ofJson? j
    let ds ← ofJsons? js
    return d :: ds

end

end Datum

end SmallLisp
