import SmallLisp.Identifier
import SmallLisp.Program
import SmallLisp.Proofs.Reading.Grammar

/-!
# Identifiers and literals of Go

What may stand as a name and as the text of a literal in a program. The scanner of programs does not
look at all of the rules, so some texts are let through that Go refuses: any character beyond ASCII
counts as a letter, a leading zero may be followed by any digits, and code points in escapes have no
bound.
-/

namespace SmallLisp.Program

open Numeral (Digits IsSign isHexDigit)

/-! ## Identifiers -/

def startsName (c : Char) : Bool :=
  c.isAlpha || c == '_' || 128 ≤ c.toNat

def isNameChar (c : Char) : Bool :=
  startsName c || c.isDigit

/-- Identifiers other than keywords. -/
def isIdentifier (x : String) : Bool :=
  x.toList.head?.any startsName && x.toList.all isNameChar && !Identifier.keywords.contains x

/-! ## Numbers -/

/-- A digit of the base with the mark `mark`. -/
def isBasedDigit (mark c : Char) : Bool :=
  if mark ∈ ['b', 'B'] then c == '0' || c == '1'
  else if mark ∈ ['o', 'O'] then '0' ≤ c && c ≤ '7'
  else isHexDigit c

/-- What may stand between the mark of a base and the digits. -/
def IsSeparator (cs : List Char) : Prop := cs = [] ∨ cs = ['_']

/-- A float up to its exponent. Digits may be missing on one side of the point. -/
inductive Mantissa (isDigit : Char → Bool) : List Char → Prop
  | whole : Digits isDigit ds → Mantissa isDigit ds
  | point : Digits isDigit ds → fraction = [] ∨ Digits isDigit fraction →
    Mantissa isDigit (ds ++ '.' :: fraction)
  | leadingPoint : Digits isDigit fraction → Mantissa isDigit ('.' :: fraction)

/-- An exponent with one of the given marks. -/
inductive Power (marks : List Char) : List Char → Prop
  | mk : mark ∈ marks → IsSign sign → Digits Char.isDigit ds → Power marks (mark :: (sign ++ ds))

/-- The unsigned numbers of a kind. -/
inductive Number : LiteralKind → List Char → Prop
  | decimal : Digits Char.isDigit ds → Number .int ds
  | based : mark ∈ ['b', 'B', 'o', 'O', 'x', 'X'] → IsSeparator separator →
    Digits (isBasedDigit mark) ds → Number .int ('0' :: mark :: separator ++ ds)
  | fraction : Mantissa Char.isDigit cs → '.' ∈ cs → Number .float cs
  | power : Mantissa Char.isDigit cs → Power ['e', 'E'] p → Number .float (cs ++ p)
  /-- A hexadecimal float has its exponent to the base two. -/
  | hexPower : mark ∈ ['x', 'X'] → IsSeparator separator → Mantissa isHexDigit cs →
    Power ['p', 'P'] p → Number .float ('0' :: mark :: separator ++ cs ++ p)
  | imag : kind ≠ .imag → Number kind cs → Number .imag (cs ++ ['i'])

/-! ## Runes -/

/-- The letters of escapes that code points stand in, each with the number of hexadecimal digits. -/
def codeEscapes : List (Char × Nat) := [('x', 2), ('u', 4), ('U', 8)]

/-- One character between single quotes. -/
inductive RuneBody : List Char → Prop
  | plain : c ∉ ['\'', '\\', '\n'] → RuneBody [c]
  | escaped : c ∈ ['a', 'b', 'f', 'n', 'r', 't', 'v', '\\', '\''] → RuneBody ['\\', c]
  | octal : ds.length = 3 → (∀ d ∈ ds, '0' ≤ d ∧ d ≤ '7') → RuneBody ('\\' :: ds)
  | code : (mark, count) ∈ codeEscapes → ds.length = count → (∀ d ∈ ds, isHexDigit d = true) →
    RuneBody ('\\' :: mark :: ds)

/-- The valid texts of a literal. A string may be any text, for it is quoted when it is printed. A
number may have a sign in front. -/
inductive ValidLiteral : LiteralKind → String → Prop
  | number : Number kind cs → ValidLiteral kind (String.ofList cs)
  | negative : Number kind cs → ValidLiteral kind (String.ofList ('-' :: cs))
  | char : RuneBody cs → ValidLiteral .char (String.ofList ('\'' :: cs ++ ['\'']))
  | string : ValidLiteral .string text

/-! ## Characters of numbers -/

/-- What holds of each character of a list is decided along the list, not over all characters. -/
theorem forall_mem_of_all {p : Char → Prop} [DecidablePred p] {cs : List Char}
    (h : cs.all (fun c => decide (p c)) = true) : ∀ c ∈ cs, p c :=
  fun c hc => of_decide_eq_true (List.all_eq_true.1 h c hc)

theorem Number.kind_ne (h : Number kind cs) : kind ≠ .char ∧ kind ≠ .string := by
  cases h <;> decide

theorem isAlpha_iff (c : Char) :
    c.isAlpha = true ↔ 65 ≤ c.toNat ∧ c.toNat ≤ 90 ∨ 97 ≤ c.toNat ∧ c.toNat ≤ 122 := by
  have hcases : c.isAlpha = (decide (c.val ≥ 'A'.val ∧ c.val ≤ 'Z'.val) ||
      (decide (c.val ≥ 'a'.val) && decide (c.val ≤ 'z'.val))) := rfl
  simp only [hcases, Bool.or_eq_true, Bool.and_eq_true, decide_eq_true_eq, ge_iff_le,
    UInt32.le_iff_toNat_le]
  exact Iff.rfl

theorem isDigit_iff (c : Char) : c.isDigit = true ↔ 48 ≤ c.toNat ∧ c.toNat ≤ 57 := by
  have hcases : c.isDigit = (decide (c.val ≥ '0'.val) && decide (c.val ≤ '9'.val)) := rfl
  simp only [hcases, Bool.and_eq_true, decide_eq_true_eq, ge_iff_le, UInt32.le_iff_toNat_le]
  exact Iff.rfl

theorem isNameChar_of_isHexDigit (h : isHexDigit c = true) : isNameChar c = true := by
  simp only [isHexDigit, isNameChar, startsName, isAlpha_iff, isDigit_iff, Bool.or_eq_true,
    Bool.and_eq_true, decide_eq_true_eq, Char.le_def, UInt32.le_iff_toNat_le] at h ⊢
  simp only [Char.reduceVal, UInt32.reduceToNat] at h ⊢
  have hval : c.toNat = c.val.toNat := rfl
  omega

theorem isHexDigit_of_isBasedDigit (h : isBasedDigit mark c = true) : isHexDigit c = true := by
  simp only [isBasedDigit] at h
  split at h
  · rcases Bool.or_eq_true _ _ ▸ h with h | h <;> rw [beq_iff_eq.1 h] <;> decide
  · split at h
    · simp only [isHexDigit, Char.isDigit, Bool.or_eq_true, Bool.and_eq_true, decide_eq_true_eq,
        Char.le_def, ge_iff_le, UInt32.le_iff_toNat_le] at h ⊢
      simp only [Char.reduceVal, UInt32.reduceToNat] at h ⊢
      omega
    · exact h

end SmallLisp.Program
