import SmallLisp.Settings
import SmallLisp.Settings.Quoted

/-! Numbers, truth values, dates and times of settings. Each is a token of characters that no
other value has, so a token is cut off first and classified as a whole. -/

namespace SmallLisp.Settings

def isTokenChar (c : Char) : Bool :=
  c.isAlphanum || c = '_' || c = '+' || c = '-' || c = '.' || c = ':'

/-- Digits that satisfy `p`, where one underscore may stand between two of them. -/
def isDigitRun (p : Char → Bool) : List Char → Bool
  | [] => false
  | [c] => p c
  | c :: '_' :: cs => p c && isDigitRun p cs
  | c :: cs => p c && isDigitRun p cs

/-- The value of digits in a base; underscores count for nothing. -/
def natOfDigits (base : Nat) (cs : List Char) : Nat :=
  cs.foldl (fun n c => if c = '_' then n else base * n + hexValue c) 0

def isBinaryDigit (c : Char) : Bool := c = '0' || c = '1'

def isOctalDigit (c : Char) : Bool := '0' ≤ c && c ≤ '7'

/-- Whether the text is a decimal number without a sign: no zero stands in front of other
digits. -/
def isDecimal : List Char → Bool
  | ['0'] => true
  | '0' :: _ => false
  | cs => isDigitRun Char.isDigit cs

/-- A sign, if there is one, and the text after it. -/
def cutSign : List Char → Bool × List Char
  | '-' :: cs => (true, cs)
  | '+' :: cs => (false, cs)
  | cs => (false, cs)

/-- The value of an unsigned integer with the base that its first two characters announce. -/
def unsigned? : List Char → Option Nat
  | '0' :: 'x' :: cs => if isDigitRun Numeral.isHexDigit cs then some (natOfDigits 16 cs) else none
  | '0' :: 'o' :: cs => if isDigitRun isOctalDigit cs then some (natOfDigits 8 cs) else none
  | '0' :: 'b' :: cs => if isDigitRun isBinaryDigit cs then some (natOfDigits 2 cs) else none
  | _ => none

/-- An integer of at most 64 bits. -/
def integer? (cs : List Char) : Option Int :=
  match unsigned? cs with
  | some n => if n < Nat.pow 2 63 then some n else none
  | none =>
    let (negative, digits) := cutSign cs
    if isDecimal digits then
      let n := natOfDigits 10 digits
      if negative then
        if n ≤ Nat.pow 2 63 then some (-n) else none
      else
        if n < Nat.pow 2 63 then some n else none
    else
      none

/-- The parts of a float: digits before the point, digits after it and the exponent. -/
structure FloatParts where
  whole : List Char
  fraction : List Char
  exponent : Int

/-- The exponent after its letter. -/
def exponent? (cs : List Char) : Option Int :=
  let (negative, digits) := cutSign cs
  if isDigitRun Char.isDigit digits then
    let n := natOfDigits 10 digits
    some (if negative then -n else n)
  else
    none

def isExponentMark (c : Char) : Bool := c = 'e' || c = 'E'

/-- The parts of an unsigned float, which has a fraction, an exponent or both. -/
def floatParts? (cs : List Char) : Option FloatParts :=
  let mantissa := cs.takeWhile (!isExponentMark ·)
  let whole := mantissa.takeWhile (· != '.')
  let exponent : Option (Option Int) :=
    match cs.dropWhile (!isExponentMark ·) with
    | [] => some none
    | _ :: digits => (exponent? digits).map some
  if !isDecimal whole then none
  else match mantissa.dropWhile (· != '.'), exponent with
    | [], some (some n) => some ⟨whole, [], n⟩
    | _ :: fraction, some n =>
      if isDigitRun Char.isDigit fraction then some ⟨whole, fraction, n.getD 0⟩ else none
    | _, _ => none

/-- Half a unit above the largest float of 64 bits: what reaches it has no float near it. -/
def floatBound : Nat := Nat.pow 2 1024 - Nat.pow 2 970

/-- Whether a float is too large. Extreme exponents are told apart by counting digits. -/
def FloatParts.isHuge (p : FloatParts) : Bool :=
  let m := natOfDigits 10 (p.whole ++ p.fraction)
  let e := p.exponent - (p.fraction.filter Char.isDigit).length
  let digits := (Nat.toDigits 10 m).length
  if m = 0 then false
  else if digits + e > 320 then true
  else if digits + e < 300 then false
  else if 0 ≤ e then floatBound ≤ m * Nat.pow 10 e.toNat
  else floatBound * Nat.pow 10 (-e).toNat ≤ m

/-- Whether the text is a float. A positive one may not be too large. -/
def isFloat (cs : List Char) : Bool :=
  let (negative, body) := cutSign cs
  body = ['i', 'n', 'f'] || body = ['n', 'a', 'n'] ||
    (match floatParts? body with
      | none => false
      | some p => negative || !p.isHuge)

/-- The number that a given count of digits at the start of a text denotes. -/
def number? (count : Nat) (cs : List Char) : Option (Nat × List Char) :=
  let digits := cs.take count
  if digits.length = count && digits.all Char.isDigit then
    some (natOfDigits 10 digits, cs.drop count)
  else
    none

/-- What follows a character at the start of a text. -/
def after? (p : Char → Bool) : List Char → Option (List Char)
  | [] => none
  | c :: cs => if p c then some cs else none

def daysIn (year month : Nat) : Nat :=
  if month = 2 then
    if year % 4 = 0 ∧ (year % 100 ≠ 0 ∨ year % 400 = 0) then 29 else 28
  else if month = 4 ∨ month = 6 ∨ month = 9 ∨ month = 11 then 30
  else 31

/-- What follows a date of the calendar. -/
def afterDate? (cs : List Char) : Option (List Char) := do
  let (year, cs) ← number? 4 cs
  let cs ← after? (· == '-') cs
  let (month, cs) ← number? 2 cs
  let cs ← after? (· == '-') cs
  let (day, cs) ← number? 2 cs
  if 1 ≤ month ∧ month ≤ 12 ∧ 1 ≤ day ∧ day ≤ daysIn year month then some cs else none

/-- What follows a number of two digits up to a bound. -/
def afterNumber? (bound : Nat) (cs : List Char) : Option (List Char) := do
  let (n, cs) ← number? 2 cs
  if n ≤ bound then some cs else none

/-- What follows a time of day, with its seconds and their fraction. -/
def afterTime? (cs : List Char) : Option (List Char) := do
  let cs ← afterNumber? 23 cs
  let cs ← after? (· == ':') cs
  let cs ← afterNumber? 59 cs
  let cs ← after? (· == ':') cs
  let cs ← afterNumber? 60 cs
  match cs with
  | '.' :: c :: cs => if c.isDigit then some (cs.dropWhile Char.isDigit) else none
  | cs => some cs

/-- Whether the text is an offset from universal time, or empty. -/
def isOffset (cs : List Char) : Bool :=
  match cs with
  | [] => true
  | ['Z'] => true
  | ['z'] => true
  | c :: cs =>
    (c == '+' || c == '-') &&
      (do
        let cs ← afterNumber? 23 cs
        let cs ← after? (· == ':') cs
        afterNumber? 59 cs) == some []

/-- Whether the text is a time of day, perhaps with an offset. -/
def isTimeWithOffset (cs : List Char) : Bool :=
  (afterTime? cs).any isOffset

/-- Whether the text is a date, a date and a time, or a time. -/
def isMoment (cs : List Char) : Bool :=
  match afterDate? cs with
  | some [] => true
  | some (c :: rest) => (c == 'T' || c == 't') && isTimeWithOffset rest
  | none => afterTime? cs == some []

/-- Cuts off a token. A space may stand between a date and its time. -/
def cutToken (cs : List Char) : List Char × List Char :=
  let token := cs.takeWhile isTokenChar
  let rest := cs.dropWhile isTokenChar
  match rest with
  | ' ' :: more =>
    let time := more.takeWhile isTokenChar
    if afterDate? token == some [] && isTimeWithOffset time then
      (token ++ 'T' :: time, more.dropWhile isTokenChar)
    else
      (token, rest)
  | _ => (token, rest)

/-- The value of a token. -/
def ofToken? (cs : List Char) : Option Setting :=
  if cs = ['t', 'r', 'u', 'e'] then some (.boolean true)
  else if cs = ['f', 'a', 'l', 's', 'e'] then some (.boolean false)
  else if isMoment cs then some (.moment (String.ofList cs))
  else if isFloat cs then some (.float (String.ofList cs))
  else (integer? cs).map .integer

end SmallLisp.Settings
