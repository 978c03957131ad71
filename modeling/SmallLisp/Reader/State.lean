import SmallLisp.Numeral
import SmallLisp.Rune
import SmallLisp.Text.Blank
import SmallLisp.Reader.Error

/-! The reader as a machine that takes one character at a time. A state holds the data read so far
in the innermost open list, the enclosing lists that are still open, and the token under way. -/

namespace SmallLisp.Reader

/-- Characters that end an atom. A comma is white space. -/
def isDelimiter (c : Char) : Bool :=
  Text.isBlank c || c == ',' || c == ';' || c == '(' || c == ')' || c == '[' || c == ']' ||
    c == '"'

/-- The token under way. Its characters are kept with the last one first. -/
inductive Mode where
  /-- No token: white space, or the place after a complete datum. -/
  | between
  /-- A comment, which a line break ends. -/
  | comment
  | string (start : Position) (chars : List Char)
  /-- A string, just after a backslash. -/
  | escape (start : Position) (chars : List Char)
  | atom (start : Position) (chars : List Char)
  /-- A character after its backslash. Its first character may be a delimiter. -/
  | rune (start : Position) (chars : List Char)

/-- A list that was left to read one inside it: the bracket that opened the inner list, where it
stands, and the data before it, the last one first. -/
structure Frame where
  bracket : Bracket
  opened : Position
  before : List Datum

structure State where
  position : Position
  /-- The enclosing lists, innermost first. -/
  outer : List Frame
  /-- The data of the innermost list, the last one first. -/
  items : List Datum
  mode : Mode

namespace State

def initial : State := ⟨.start, [], [], .between⟩

/-- Ends the token under way with a datum. -/
def push (s : State) (d : Datum) : State :=
  { s with items := d :: s.items, mode := .between }

def openList (s : State) (b : Bracket) : State :=
  { s with outer := ⟨b, s.position, s.items⟩ :: s.outer, items := [], mode := .between }

/-- Ends the innermost list, which `b` must have opened; a call needs a callee. -/
def closeList (s : State) (b : Bracket) : Except ReadError State :=
  match s.outer with
  | [] => .error ⟨.unexpectedCloser b, s.position⟩
  | f :: outer =>
    if f.bracket = b then
      let closed (d : Datum) : State :=
        { s with outer := outer, items := d :: f.before, mode := .between }
      match b, s.items.reverse with
      | .square, items => .ok (closed (.vector items))
      | .round, callee :: args => .ok (closed (.call callee args))
      | .round, [] => .error ⟨.emptyCall, f.opened⟩
    else
      .error ⟨.unexpectedCloser b, s.position⟩

/-- Takes a character where no token is under way. -/
def enter (s : State) (c : Char) : Except ReadError State :=
  if Text.isBlank c || c == ',' then .ok { s with mode := .between }
  else if c = ';' then .ok { s with mode := .comment }
  else if c = '(' then .ok (s.openList .round)
  else if c = '[' then .ok (s.openList .square)
  else if c = ')' then s.closeList .round
  else if c = ']' then s.closeList .square
  else if c = '"' then .ok { s with mode := .string s.position [] }
  else if c = '\\' then .ok { s with mode := .rune s.position [] }
  else .ok { s with mode := .atom s.position [c] }

end State

/-- A token without its sign, if it has one. -/
def dropSign : List Char → List Char
  | '-' :: cs => cs
  | '+' :: cs => cs
  | cs => cs

def dropPlus : List Char → List Char
  | '+' :: cs => cs
  | cs => cs

/-- The datum of an atom. One that starts with a digit, after at most one sign, must be a number,
and its literal is the token without a plus sign; any other is a symbol. -/
def ofAtom? (cs : List Char) : Option Datum :=
  match dropSign cs with
  | c :: rest =>
    if c.isDigit then
      (Numeral.kind? (c :: rest)).map fun kind => .number (String.ofList (dropPlus cs)) kind
    else
      some (.symbol (String.ofList cs))
  | [] => some (.symbol (String.ofList cs))

/-- The datum of the text after a backslash. -/
def ofRune? (cs : List Char) : Option Datum :=
  (Rune.ofText? cs).map fun c => .number (Rune.literal c) .char

namespace State

/-- Ends an atom or a character; other modes stay as they are. -/
def endToken (s : State) : Except ReadError State :=
  match s.mode with
  | .atom start chars =>
    match ofAtom? chars.reverse with
    | some d => .ok (s.push d)
    | none => .error ⟨.invalidNumber (String.ofList chars.reverse), start⟩
  | .rune start chars =>
    match ofRune? chars.reverse with
    | some d => .ok (s.push d)
    | none => .error ⟨.invalidRune (String.ofList chars.reverse), start⟩
  | _ => .ok s

/-- Takes a character, before the position moves past it. -/
def take (s : State) (c : Char) : Except ReadError State :=
  match s.mode with
  | .between => s.enter c
  | .comment => .ok (if c = '\n' then { s with mode := .between } else s)
  | .string start chars =>
    if c = '"' then .ok (s.push (.string (String.ofList chars.reverse)))
    else if c = '\\' then .ok { s with mode := .escape start chars }
    else .ok { s with mode := .string start (c :: chars) }
  | .escape start chars =>
    match Text.escapedChar c with
    | some d => .ok { s with mode := .string start (d :: chars) }
    | none => .error ⟨.invalidEscape c, s.position⟩
  | .atom start chars =>
    if isDelimiter c then do (← s.endToken).enter c
    else .ok { s with mode := .atom start (c :: chars) }
  | .rune start chars =>
    if !chars.isEmpty && isDelimiter c then do (← s.endToken).enter c
    else .ok { s with mode := .rune start (c :: chars) }

def step (s : State) (c : Char) : Except ReadError State := do
  let t ← s.take c
  return { t with position := s.position.advance c }

/-- The data of a text that ends here. -/
def finish (s : State) : Except ReadError (List Datum) :=
  match s.mode with
  | .string start _ => .error ⟨.unterminatedString, start⟩
  | .escape start _ => .error ⟨.unterminatedString, start⟩
  | .rune start [] => .error ⟨.unexpectedEnd .character, start⟩
  | _ => do
    let t ← s.endToken
    match t.outer with
    | [] => return t.items.reverse
    | f :: _ => throw ⟨.unexpectedEnd (.closer f.bracket), t.position⟩

end State

end SmallLisp.Reader
