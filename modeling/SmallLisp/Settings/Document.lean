import SmallLisp.Settings.Scalar

/-! Documents of settings: headers and lines of a key and a value. -/

namespace SmallLisp.Settings

/-- Values lie inside each other, and keys are joined, to fewer than this many levels. -/
def levelLimit : Nat := 80

def isBareKeyChar (c : Char) : Bool := c.isAlphanum || c = '_' || c = '-'

/-- A key without points, bare or quoted. -/
def simpleKey? (cs : List Char) : Option (List Char × List Char) :=
  match cs with
  | '"' :: cs => basic? cs
  | '\x27' :: cs => literal? cs
  | cs =>
    let key := cs.takeWhile isBareKeyChar
    if key.isEmpty then none else some (key, cs.dropWhile isBareKeyChar)

/-- A key with at most `fuel` parts, joined by points. -/
def key? : (fuel : Nat) → List Char → Option (List String × List Char)
  | 0, _ => none
  | fuel + 1, cs => do
    let (part, cs) ← simpleKey? (skipGap cs)
    match skipGap cs with
    | '.' :: cs =>
      let (parts, cs) ← key? fuel cs
      return (String.ofList part :: parts, cs)
    | cs => return ([String.ofList part], cs)

/-- A key as a path and its last part. -/
def dottedKey? (cs : List Char) : Option ((List String × String) × List Char) := do
  let (parts, cs) ← key? (levelLimit - 1) cs
  let last ← parts.getLast?
  return ((parts.dropLast, last), cs)

mutual

/-- A value at a level. At most two steps are taken for each character, and each step takes one
unit of fuel. -/
def value? (fuel level : Nat) (cs : List Char) : Option (Setting × List Char) :=
  match fuel with
  | 0 => none
  | fuel + 1 =>
    match cs with
    | '[' :: cs =>
      if level + 1 < levelLimit then do
        let (items, cs) ← items? fuel (level + 1) (skipLines false cs)
        return (.array items, cs)
      else
        none
    | '{' :: cs =>
      if level + 1 < levelLimit then
        match skipGap cs with
        | '}' :: cs => some (.table .inline [], cs)
        | cs => do
          let (entries, cs) ← entries? fuel (level + 1) [] cs
          return (.table .inline entries, cs)
      else
        none
    | '"' :: _ | '\x27' :: _ => do
      let (text, cs) ← string? cs
      return (.string (String.ofList text), cs)
    | cs => do
      let (token, cs) := cutToken cs
      let v ← ofToken? token
      return (v, cs)

/-- The rest of an array. -/
def items? (fuel level : Nat) (cs : List Char) : Option (List Setting × List Char) :=
  match fuel with
  | 0 => none
  | fuel + 1 =>
    match cs with
    | ']' :: cs => some ([], cs)
    | cs => do
      let (v, cs) ← value? fuel level cs
      match skipLines false cs with
      | ']' :: cs => return ([v], cs)
      | ',' :: cs =>
        let (vs, cs) ← items? fuel level (skipLines false cs)
        return (v :: vs, cs)
      | _ => none

/-- The rest of a table in braces, after the entries read so far. -/
def entries? (fuel level : Nat) (es : Entries) (cs : List Char) : Option (Entries × List Char) :=
  match fuel with
  | 0 => none
  | fuel + 1 => do
    let ((path, key), cs) ← dottedKey? cs
    let cs ← after? (· == '=') cs
    let (v, cs) ← value? fuel level (skipGap cs)
    let es ← insert path key v .header es
    match skipGap cs with
    | '}' :: cs => return (es, cs)
    | ',' :: cs => entries? fuel level es cs
    | _ => none

end

/-- A document that is being read: its values so far, and the header that the next lines are
under. -/
structure Draft where
  header : List String
  entries : Entries

/-- One header, or one line with a key and a value. -/
def line? (d : Draft) (cs : List Char) : Option (Draft × List Char) :=
  match cs with
  | '[' :: '[' :: cs => do
    let ((path, key), cs) ← dottedKey? cs
    let cs ← after? (· == ']') cs
    let cs ← after? (· == ']') cs
    let rest ← restOfLine? cs
    let entries ← openElement path key d.entries
    return (⟨path ++ [key], entries⟩, rest)
  | '[' :: cs => do
    let ((path, key), cs) ← dottedKey? cs
    let cs ← after? (· == ']') cs
    let rest ← restOfLine? cs
    let entries ← openTable path key d.entries
    return (⟨path ++ [key], entries⟩, rest)
  | cs => do
    let ((path, key), cs) ← dottedKey? cs
    let cs ← after? (· == '=') cs
    let (v, cs) ← value? (2 * cs.length + 2) 0 (skipGap cs)
    let rest ← restOfLine? cs
    let entries ← insertAt d.header path key v d.entries
    return (⟨d.header, entries⟩, rest)

/-- The lines of a document. Each takes at least one character, so the length of the text is enough
fuel. -/
def lines? : (fuel : Nat) → Draft → List Char → Option Entries
  | 0, _, _ => none
  | fuel + 1, d, cs =>
    match skipGap cs with
    | [] => some d.entries
    | '#' :: cs => do
      let rest ← lineEnd? (skipComment ('#' :: cs))
      lines? fuel d rest
    | '\n' :: cs => lines? fuel d cs
    | '\r' :: '\n' :: cs => lines? fuel d cs
    | cs => do
      let (d, rest) ← line? d cs
      lines? fuel d rest

/-- The values of a document, or `none` if it is not well formed. A byte order mark in front is
ignored. -/
def ofText? (text : String) : Option Entries :=
  let cs :=
    match text.toList with
    | '\ufeff' :: cs => cs
    | cs => cs
  lines? (cs.length + 1) ⟨[], []⟩ cs

end SmallLisp.Settings
