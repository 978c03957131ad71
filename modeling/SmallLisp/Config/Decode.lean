import SmallLisp.Config
import SmallLisp.Json
import SmallLisp.Settings.Document

/-! Configurations from settings and from JSON objects. Fields that are missing keep their
defaults, and names that are not fields are ignored. -/

namespace SmallLisp.Config

/-- A configuration from the texts of its fields. `field` gives `none` for a field that is missing
and `some none` for one that is not a text. -/
def ofFields? (field : String → Option (Option String)) : Option Config := do
  let text (name default : String) : Option String :=
    (field name).getD (some default)
  let package ← text "package" ({} : Config).package
  let entryPoint ← text "entry_point" ({} : Config).entryPoint
  let corePackage ← text "core_package" ({} : Config).corePackage
  let anyType ← text "any_type" ({} : Config).anyType
  return { package, entryPoint, corePackage, anyType }

def textOfSetting? : Setting → Option String
  | .string value => some value
  | _ => none

/-- The configuration that a document of settings describes. -/
def ofText? (text : String) : Option Config := do
  let entries ← Settings.ofText? text
  ofFields? fun name => (entries.lookup name).map textOfSetting?

def ofJson? : Json → Option Config
  | .object fields => ofFields? fun name => (Json.field? name fields).map Json.string?
  | _ => none

end SmallLisp.Config
