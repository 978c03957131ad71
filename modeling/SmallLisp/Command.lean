import SmallLisp.Command.Options
import SmallLisp.Config.Decode
import SmallLisp.Datum.Json
import SmallLisp.Repl

/-! The command: options and the contents of files in, the outcome of a run out. -/

namespace SmallLisp.Command

/-- Why a run ends without output. -/
inductive Failure where
  | usage
  | unreadable (path : String)
  | unwritable (path : String)
  | badConfig (path : String)
  | read (error : ReadError)
  | compile (error : CompileError)

namespace Failure

/-- Two for arguments that are not understood, one for all else. -/
def exitCode : Failure → Nat
  | .usage => 2
  | _ => 1

/-- The error line for faults of the source text, which other failures do not have. -/
def sourceLine? : Failure → Option String
  | .read e => some ("Error: " ++ e.outline.oneLine)
  | .compile e => some ("Error: " ++ e.outline.oneLine)
  | _ => none

end Failure

/-- What a run leads to. -/
inductive Outcome where
  | failed (failure : Failure)
  /-- Text for the standard output. -/
  | printed (text : String)
  /-- Text for a file. If it cannot be written, the run fails. -/
  | written (path text : String)
  /-- The interactive loop, under a configuration. -/
  | interactive (cfg : Config)

/-- The contents of files by their paths. -/
abbrev Files := String → Option String

/-- The configuration of a run: that of the file, if there is one, and the core package of the
command line over it. -/
def configOf (o : Options) (files : Files) : Except Failure Config := do
  let base ←
    match o.config? with
    | none => pure {}
    | some path =>
      match files path with
      | none => throw (.unreadable path)
      | some text =>
        match Config.ofText? text with
        | none => throw (.badConfig path)
        | some cfg => pure cfg
  return { base with corePackage := o.corePackage?.getD base.corePackage }

def compileSource (cfg : Config) (ds : List Datum) : Except Failure Program.File :=
  match ((Datum.compileFile cfg ds).outcome {}).1 with
  | .ok file => .ok file
  | .error e => .error (.compile e)

/-- What is written for a source text. -/
def emit (emission : Emission) (cfg : Config) (source : String) : Except Failure String := do
  let ds ← match read source with
    | .ok ds => pure ds
    | .error e => throw (.read e)
  match emission with
  | .data => return (Json.array (Datum.toJsons ds)).pretty
  | .outline =>
    let file ← compileSource cfg ds
    return file.outline.pretty
  | .program =>
    let file ← compileSource cfg ds
    return file.print

/-- A run with a file. The configuration is looked at first. -/
def compileFile (o : Options) (files : Files) (cfg : Config) (path : String) :
    Except Failure Outcome := do
  let source ← match files path with
    | some source => pure source
    | none => throw (.unreadable path)
  let text ← emit (o.emission?.getD .program) cfg source
  match o.out? with
  | some out => return .written out text
  | none => return .printed text

/-- A run with options that were understood. -/
def runWith (o : Options) (files : Files) : Except Failure Outcome := do
  let cfg ← configOf o files
  match o.file? with
  | some path => compileFile o files cfg path
  | none => return .interactive cfg

/-- The outcome of a run. -/
def run (args : List String) (files : Files) : Outcome :=
  match Options.ofArgs? args with
  | none => .failed .usage
  | some o =>
    match runWith o files with
    | .ok outcome => outcome
    | .error failure => .failed failure

end SmallLisp.Command
