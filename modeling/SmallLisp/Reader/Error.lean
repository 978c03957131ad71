import SmallLisp.Reader.Position
import SmallLisp.Outline

/-! Why a text cannot be read: a cause, and the place it is charged to. -/

namespace SmallLisp

/-- What the end of a text cuts off. -/
inductive Missing where
  /-- A datum, which is looked for only where a character stands: a text never ends there. -/
  | form
  /-- The character after a backslash. -/
  | character
  /-- The closer of the innermost open bracket. -/
  | closer (bracket : Bracket)
  deriving DecidableEq

namespace Missing

def text : Missing → String
  | .form => "a form"
  | .character => "a character"
  | .closer bracket => String.ofList ['\x27', bracket.closer, '\x27']

end Missing

namespace ReadError

inductive Cause where
  | unexpectedEnd (missing : Missing)
  | unexpectedCloser (found : Bracket)
  | emptyCall
  | unterminatedString
  | invalidEscape (letter : Char)
  | invalidNumber (token : String)
  | invalidRune (token : String)
  deriving DecidableEq

end ReadError

structure ReadError where
  cause : ReadError.Cause
  position : Position
  deriving DecidableEq

namespace ReadError

/-- The name of the kind of error. -/
def Cause.label : Cause → String
  | .unexpectedEnd _ => "UnexpectedEof"
  | .unexpectedCloser _ => "UnexpectedCloser"
  | .emptyCall => "EmptyCall"
  | .unterminatedString => "UnterminatedString"
  | .invalidEscape _ => "InvalidEscape"
  | .invalidNumber _ => "InvalidNumber"
  | .invalidRune _ => "InvalidChar"

def Cause.message : Cause → String
  | .unexpectedEnd missing => "unexpected end of input, expected " ++ missing.text
  | .unexpectedCloser found => "unexpected '" ++ String.singleton found.closer ++ "'"
  | .emptyCall => "empty call, a call needs a callee"
  | .unterminatedString => "unterminated string"
  | .invalidEscape letter => "invalid escape '\\" ++ String.singleton letter ++ "' in string"
  | .invalidNumber token => "invalid number: " ++ token
  | .invalidRune token => "invalid character literal: \\" ++ token

/-- The data of a cause, as fields of an outline. -/
def Cause.fields : Cause → List (String × Outline)
  | .unexpectedEnd missing => [("expected", .ofString missing.text)]
  | .unexpectedCloser found => [("found", .ofChar found.closer)]
  | .emptyCall => []
  | .unterminatedString => []
  | .invalidEscape letter => [("escape", .ofChar letter)]
  | .invalidNumber token => [("text", .ofString token)]
  | .invalidRune token => [("text", .ofString token)]

def label (e : ReadError) : String := e.cause.label

/-- The line, the column and the text of the cause, with colons between them. -/
def message (e : ReadError) : String :=
  toString e.position.line ++ ":" ++ toString e.position.column ++ ": " ++ e.cause.message

def outline (e : ReadError) : Outline :=
  .record e.label (e.cause.fields ++
    [("line", .ofNat e.position.line), ("column", .ofNat e.position.column)])

end ReadError

end SmallLisp
