import SmallLisp.Numeral

/-! Strings, comments and line ends of settings. A function that reads something returns it with
the text that follows, or `none` if it is not there. -/

namespace SmallLisp.Settings

/-- Space and tab. -/
def isGap (c : Char) : Bool := c = ' ' || c = '\t'

def skipGap (cs : List Char) : List Char := cs.dropWhile isGap

/-- Characters that may stand in a line: all but control characters, of which the tab is
allowed. -/
def isPlain (c : Char) : Bool :=
  c = '\t' || (0x20 ≤ c.toNat && c ≠ '\x7f')

def lineBreak? : List Char → Option (List Char)
  | '\n' :: cs => some cs
  | '\r' :: '\n' :: cs => some cs
  | _ => none

/-- A line break, or the end of the text. -/
def lineEnd? (cs : List Char) : Option (List Char) :=
  if cs.isEmpty then some [] else lineBreak? cs

def skipComment (cs : List Char) : List Char :=
  match cs with
  | '#' :: cs => cs.dropWhile isPlain
  | cs => cs

/-- The end of a line after a value or a header. -/
def restOfLine? (cs : List Char) : Option (List Char) :=
  lineEnd? (skipComment (skipGap cs))

/-- What follows gaps, comments and line breaks. -/
def skipLines (comment : Bool) : List Char → List Char
  | [] => []
  | '\n' :: cs => skipLines false cs
  | '\r' :: '\n' :: cs => skipLines false cs
  | c :: cs =>
    if comment then
      if isPlain c then skipLines true cs else c :: cs
    else if isGap c then skipLines false cs
    else if c = '#' then skipLines true cs
    else c :: cs

def hexValue (c : Char) : Nat :=
  if c.isDigit then c.toNat - '0'.toNat
  else if 'a' ≤ c && c ≤ 'f' then c.toNat - 'a'.toNat + 10
  else c.toNat - 'A'.toNat + 10

/-- The character whose code point has the given hexadecimal digits. -/
def scalar? (digits : List Char) : Option Char :=
  if digits.all Numeral.isHexDigit then
    let n := digits.foldl (fun n c => 16 * n + hexValue c) 0
    if n.isValidChar then some (Char.ofNat n) else none
  else
    none

/-- The character for a letter after a backslash. -/
def letter? : Char → Option Char
  | 'b' => some '\x08'
  | 't' => some '\t'
  | 'n' => some '\n'
  | 'f' => some '\x0c'
  | 'r' => some '\r'
  | '"' => some '"'
  | '\\' => some '\\'
  | _ => none

/-- Puts a character in front of the text that was read. -/
def keep (c : Char) (r : List Char × List Char) : List Char × List Char :=
  (c :: r.1, r.2)

/-- The rest of a string in double quotes. -/
def basic? : List Char → Option (List Char × List Char)
  | [] => none
  | '"' :: cs => some ([], cs)
  | '\\' :: 'u' :: a :: b :: c :: d :: cs => do
    let x ← scalar? [a, b, c, d]
    return keep x (← basic? cs)
  | '\\' :: 'U' :: a :: b :: c :: d :: e :: f :: g :: h :: cs => do
    let x ← scalar? [a, b, c, d, e, f, g, h]
    return keep x (← basic? cs)
  | '\\' :: c :: cs => do
    let x ← letter? c
    return keep x (← basic? cs)
  | c :: cs => if isPlain c then (basic? cs).map (keep c) else none

/-- The rest of a string in single quotes, which has no escapes. -/
def literal? : List Char → Option (List Char × List Char)
  | [] => none
  | '\x27' :: cs => some ([], cs)
  | c :: cs => if isPlain c then (literal? cs).map (keep c) else none

/-- The rest of a string in three double quotes. A backslash at the end of a line removes the line
break and the white space after it, which `skip` says is being removed. One or two quotes may
stand before the three that end the string. -/
def longBasic? (skip : Bool) : List Char → Option (List Char × List Char)
  | [] => none
  | '"' :: '"' :: '"' :: '"' :: '"' :: cs => some (['"', '"'], cs)
  | '"' :: '"' :: '"' :: '"' :: cs => some (['"'], cs)
  | '"' :: '"' :: '"' :: cs => some ([], cs)
  | '\n' :: cs => if skip then longBasic? true cs else (longBasic? false cs).map (keep '\n')
  | '\r' :: '\n' :: cs =>
    if skip then longBasic? true cs else (longBasic? false cs).map (keep '\n')
  | '\\' :: 'u' :: a :: b :: c :: d :: cs => do
    let x ← scalar? [a, b, c, d]
    return keep x (← longBasic? false cs)
  | '\\' :: 'U' :: a :: b :: c :: d :: e :: f :: g :: h :: cs => do
    let x ← scalar? [a, b, c, d, e, f, g, h]
    return keep x (← longBasic? false cs)
  | '\\' :: c :: cs =>
    if (lineBreak? (skipGap (c :: cs))).isSome then longBasic? true (c :: cs)
    else do
      let x ← letter? c
      return keep x (← longBasic? false cs)
  | c :: cs =>
    if skip && isGap c then longBasic? true cs
    else if isPlain c then (longBasic? false cs).map (keep c)
    else none

/-- The rest of a string in three single quotes. -/
def longLiteral? : List Char → Option (List Char × List Char)
  | [] => none
  | '\x27' :: '\x27' :: '\x27' :: '\x27' :: '\x27' :: cs => some (['\x27', '\x27'], cs)
  | '\x27' :: '\x27' :: '\x27' :: '\x27' :: cs => some (['\x27'], cs)
  | '\x27' :: '\x27' :: '\x27' :: cs => some ([], cs)
  | '\n' :: cs => (longLiteral? cs).map (keep '\n')
  | '\r' :: '\n' :: cs => (longLiteral? cs).map (keep '\n')
  | c :: cs => if isPlain c then (longLiteral? cs).map (keep c) else none

/-- A line break right after the three quotes is not part of the string. -/
def dropLineBreak (cs : List Char) : List Char :=
  (lineBreak? cs).getD cs

/-- A string of any of the four kinds. -/
def string? : List Char → Option (List Char × List Char)
  | '"' :: '"' :: '"' :: cs => longBasic? false (dropLineBreak cs)
  | '"' :: cs => basic? cs
  | '\x27' :: '\x27' :: '\x27' :: cs => longLiteral? (dropLineBreak cs)
  | '\x27' :: cs => literal? cs
  | _ => none

end SmallLisp.Settings
