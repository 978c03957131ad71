import SmallLisp.Command

/-! The command line program. -/

namespace SmallLisp.Main

/-- The contents of a file, or `none` if it cannot be read. -/
def contents? (path : String) : IO (Option String) := do
  try
    let text ← IO.FS.readFile path
    return some text
  catch _ =>
    return none

/-- The files that the options name, as far as they can be read. -/
def filesOf (args : List String) : IO Command.Files := do
  let paths :=
    match Command.Options.ofArgs? args with
    | some o => o.config?.toList ++ o.file?.toList
    | none => []
  let texts ← paths.mapM contents?
  return fun path => ((paths.zip texts).lookup path).join

/-- Answers lines of the standard input until it ends or a line ends the loop. -/
partial def converse (cfg : Config) : IO Unit := do
  let stdin ← IO.getStdin
  let stdout ← IO.getStdout
  stdout.putStr Repl.prompt
  stdout.flush
  let line ← stdin.getLine
  if line.isEmpty then
    return
  match Repl.respond cfg line with
  | none => return
  | some answer =>
    stdout.putStr answer.output
    match answer.error? with
    | some error => IO.eprintln error
    | none => pure ()
    converse cfg

def reportFailure (failure : Command.Failure) : IO UInt32 := do
  match failure with
  | .usage => IO.eprintln "Error: the arguments are not understood"
  | .unreadable path => IO.eprintln ("Error: cannot read " ++ path)
  | .unwritable path => IO.eprintln ("Error: cannot write " ++ path)
  | .badConfig path => IO.eprintln ("Error: no configuration in " ++ path)
  | _ => IO.eprintln (failure.sourceLine?.getD "")
  return failure.exitCode.toUInt32

def report (outcome : Command.Outcome) : IO UInt32 := do
  match outcome with
  | .failed failure => reportFailure failure
  | .printed text =>
    IO.print text
    return 0
  | .written path text =>
    try
      IO.FS.writeFile path text
      return 0
    catch _ =>
      reportFailure (.unwritable path)
  | .interactive cfg =>
    IO.print Repl.greeting
    converse cfg
    return 0

end SmallLisp.Main

def main (args : List String) : IO UInt32 := do
  let files ← SmallLisp.Main.filesOf args
  SmallLisp.Main.report (SmallLisp.Command.run args files)
