import SmallLisp.Program.Outline
import SmallLisp.Program.Print
import SmallLisp.Reader
import SmallLisp.TopLevel.Emit

/-! The interactive loop: each line is read, its data are shown, and each of them is compiled and
shown as an outline and as program text. A line does not depend on those before it. -/

namespace SmallLisp.Repl

def greeting : String := "gisp REPL\nType 'exit' or 'quit' to exit\n\n"

def prompt : String := ">> "

/-- What a line leads to: text for the standard output, and perhaps an error text. -/
structure Answer where
  output : String
  error? : Option String

/-- Compiles data in turn up to the first error. -/
def compileEach (cfg : Config) (s : Session) : List Datum → Answer
  | [] => ⟨"", none⟩
  | d :: ds =>
    match (d.compile cfg).outcome s with
    | (.ok e, s) =>
      let rest := compileEach cfg s ds
      ⟨e.outline.pretty ++ "\n" ++ e.print ++ "\n" ++ rest.output, rest.error?⟩
    | (.error e, _) => ⟨"", some ("Compile error: " ++ e.message)⟩

/-- The answer to the source text of a line. -/
def evaluate (cfg : Config) (source : String) : Answer :=
  match read source with
  | .error e => ⟨"", some ("Read error: " ++ e.message)⟩
  | .ok ds =>
    let compiled := compileEach cfg {} ds
    ⟨String.join (ds.map fun d => d.text ++ "\n") ++ compiled.output, compiled.error?⟩

/-- The answer to a line, or `none` if it ends the loop. White space around the line does not
matter, and a blank line has no answer. -/
def respond (cfg : Config) (line : String) : Option Answer :=
  let source := String.ofList (Text.trim line.toList)
  if source.isEmpty then some ⟨"", none⟩
  else if source = "exit" ∨ source = "quit" then none
  else some (evaluate cfg source)

/-- What the loop writes to the standard output, and its error texts in order. -/
structure Transcript where
  output : String
  errors : List String

/-- The loop from a prompt on. -/
def converse (cfg : Config) : List String → Transcript
  | [] => ⟨prompt, []⟩
  | line :: lines =>
    match respond cfg line with
    | none => ⟨prompt, []⟩
    | some answer =>
      let rest := converse cfg lines
      ⟨prompt ++ answer.output ++ rest.output, answer.error?.toList ++ rest.errors⟩

/-- The lines of an input. A line break at its end starts no further line. -/
def linesOf (input : String) : List String :=
  let parts := Text.split '\n' input.toList
  (if parts.getLast? = some [] then parts.dropLast else parts).map String.ofList

/-- The whole loop for an input. -/
def transcript (cfg : Config) (input : String) : Transcript :=
  let t := converse cfg (linesOf input)
  ⟨greeting ++ t.output, t.errors⟩

end SmallLisp.Repl
