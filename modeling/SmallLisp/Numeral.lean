import SmallLisp.Datum

/-! The grammar of unsigned numbers: decimal integers and floats, either of them imaginary with a
final `i`, and hexadecimal integers. Between two decimal digits, and before any hexadecimal digit,
one underscore may stand. -/

namespace SmallLisp.Numeral

/-- What follows the longest run of digits at the start of a text whose last character was a
digit. -/
def skipDigits : List Char → List Char
  | [] => []
  | '_' :: d :: cs => if d.isDigit then skipDigits cs else '_' :: d :: cs
  | c :: cs => if c.isDigit then skipDigits cs else c :: cs

/-- What follows the run of digits at the start of a text, if there is a digit. -/
def afterDigits? : List Char → Option (List Char)
  | [] => none
  | c :: cs => if c.isDigit then some (skipDigits cs) else none

/-- What follows a point and its digits, both of which may be missing. -/
def skipFraction : List Char → List Char
  | '.' :: cs => (afterDigits? cs).getD cs
  | cs => cs

def skipSign : List Char → List Char
  | '+' :: cs => cs
  | '-' :: cs => cs
  | cs => cs

/-- What follows an exponent, which may be missing but not lack its digits. -/
def afterExponent? : List Char → Option (List Char)
  | [] => some []
  | c :: cs => if c = 'e' ∨ c = 'E' then afterDigits? (skipSign cs) else some (c :: cs)

/-- An integer if nothing follows its digits, else a float. -/
def decimalKind? (cs : List Char) : Option NumberKind := do
  let rest ← afterDigits? cs
  let final ← afterExponent? (skipFraction rest)
  if final.isEmpty then
    some (if rest.isEmpty then .int else .float)
  else
    none

def isHexDigit (c : Char) : Bool :=
  c.isDigit || ('a' ≤ c && c ≤ 'f') || ('A' ≤ c && c ≤ 'F')

def isHexRun : List Char → Bool
  | [] => true
  | '_' :: d :: cs => isHexDigit d && isHexRun cs
  | c :: cs => isHexDigit c && isHexRun cs

def hexKind? (cs : List Char) : Option NumberKind :=
  if !cs.isEmpty && isHexRun cs then some .int else none

/-- The kind of an unsigned number, or `none` for a text that is not one. -/
def kind? : List Char → Option NumberKind
  | '0' :: 'x' :: cs => hexKind? cs
  | '0' :: 'X' :: cs => hexKind? cs
  | cs =>
    if cs.getLast? = some 'i' then
      (decimalKind? cs.dropLast).map fun _ => .imag
    else
      decimalKind? cs

end SmallLisp.Numeral
