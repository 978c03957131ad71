/-! The options of the command line. -/

namespace SmallLisp.Command

/-- What a compilation writes. -/
inductive Emission where
  /-- The program as text. -/
  | program
  /-- The outline of the program. -/
  | outline
  /-- The data of the source in JSON, without compiling them. -/
  | data
  deriving DecidableEq

def Emission.ofName? : String → Option Emission
  | "go" => some .program
  | "ast" => some .outline
  | "nodes" => some .data
  | _ => none

structure Options where
  file? : Option String := none
  emission? : Option Emission := none
  out? : Option String := none
  config? : Option String := none
  corePackage? : Option String := none
  deriving DecidableEq

/-- The options that take a value. -/
inductive Flag where
  | emission
  | out
  | config
  | corePackage

namespace Flag

def ofLongName? : String → Option Flag
  | "emit" => some .emission
  | "out" => some .out
  | "config" => some .config
  | "core-package" => some .corePackage
  | _ => none

def ofLetter? : Char → Option Flag
  | 'o' => some .out
  | 'c' => some .config
  | _ => none

end Flag

/-- Fills a place that may be filled once. -/
def fill {α : Type} (old : Option α) (new : α) : Option (Option α) :=
  match old with
  | none => some (some new)
  | some _ => none

/-- A path, which is not empty. -/
def fillPath (old : Option String) (path : String) : Option (Option String) :=
  if path.isEmpty then none else fill old path

namespace Options

/-- Gives a flag its value. It must be new, and the value one that the flag takes. -/
def set (o : Options) (value : String) : Flag → Option Options
  | .emission => do
    let emission ← Emission.ofName? value
    let emission? ← fill o.emission? emission
    return { o with emission? }
  | .out => do
    let out? ← fillPath o.out? value
    return { o with out? }
  | .config => do
    let config? ← fillPath o.config? value
    return { o with config? }
  | .corePackage => do
    let corePackage? ← fill o.corePackage? value
    return { o with corePackage? }

def setFile (o : Options) (path : String) : Option Options := do
  let file? ← fillPath o.file? path
  return { o with file? }

end Options

/-- An argument by its shape. -/
inductive Argument where
  /-- The mark after which all arguments are files. -/
  | endOfFlags
  | file (path : String)
  /-- A flag whose value is the next argument. -/
  | flagAlone (flag : Flag)
  | flagWithValue (flag : Flag) (value : String)
  | unknown

namespace Argument

/-- An argument with two hyphens in front; an equals sign separates name and value. -/
def ofLong (cs : List Char) : Argument :=
  match Flag.ofLongName? (String.ofList (cs.takeWhile (· != '='))) with
  | none => .unknown
  | some flag =>
    match cs.dropWhile (· != '=') with
    | [] => .flagAlone flag
    | _ :: value => .flagWithValue flag (String.ofList value)

/-- An argument with one hyphen in front; the value may follow the letter, with an equals sign
between them or not. -/
def ofShort (letter : Char) (cs : List Char) : Argument :=
  match Flag.ofLetter? letter with
  | none => .unknown
  | some flag =>
    match cs with
    | [] => .flagAlone flag
    | '=' :: value => .flagWithValue flag (String.ofList value)
    | value => .flagWithValue flag (String.ofList value)

def ofString (arg : String) : Argument :=
  match arg.toList with
  | ['-', '-'] => .endOfFlags
  | '-' :: '-' :: cs => ofLong cs
  | ['-'] => .file arg
  | '-' :: letter :: cs => ofShort letter cs
  | _ => .file arg

/-- The value that the argument after a flag gives to it: any text that does not look like a
flag. -/
def value? (arg : String) : Option String :=
  match ofString arg with
  | .file path => some path
  | _ => none

end Argument

namespace Options

def addFiles (o : Options) : List String → Option Options
  | [] => some o
  | path :: paths => do
    let o ← o.setFile path
    o.addFiles paths

def addArgs (o : Options) : List String → Option Options
  | [] => some o
  | arg :: args =>
    match Argument.ofString arg with
    | .endOfFlags => o.addFiles args
    | .file path => do
      let o ← o.setFile path
      o.addArgs args
    | .flagWithValue flag value => do
      let o ← o.set value flag
      o.addArgs args
    | .flagAlone flag =>
      match args with
      | [] => none
      | next :: args => do
        let value ← Argument.value? next
        let o ← o.set value flag
        o.addArgs args
    | .unknown => none

/-- The options that a list of arguments gives, or `none` if it is not understood. -/
def ofArgs? (args : List String) : Option Options :=
  ({} : Options).addArgs args

end Options

end SmallLisp.Command
