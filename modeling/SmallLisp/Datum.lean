import SmallLisp.Text.Quoted

/-! Data: the trees that source text denotes, their accessors and their text form. -/

namespace SmallLisp

/-- Lexical kind of a number. The kind is found when the number is read and never changes after
that, so `1`, `1.0`, `1i` and `\a` stay apart. -/
inductive NumberKind where
  | int
  | float
  | imag
  | char
  deriving DecidableEq

inductive Datum where
  /-- A parenthesized list: a callee and its arguments. -/
  | call (callee : Datum) (args : List Datum)
  /-- A bracketed list. -/
  | vector (elements : List Datum)
  /-- A number, kept as the text to write for it. -/
  | number (literal : String) (kind : NumberKind)
  /-- A string, with its escapes undone. -/
  | string (value : String)
  /-- Any other atom. -/
  | symbol (name : String)

namespace Datum

mutual

/-- Equality of trees, kind by kind and part by part. -/
def beq : Datum → Datum → Bool
  | .call c as, .call d bs => beq c d && beqAll as bs
  | .vector as, .vector bs => beqAll as bs
  | .number l k, .number m j => l == m && k == j
  | .string a, .string b => a == b
  | .symbol a, .symbol b => a == b
  | _, _ => false

def beqAll : List Datum → List Datum → Bool
  | [], [] => true
  | a :: as, b :: bs => beq a b && beqAll as bs
  | _, _ => false

end

mutual

theorem beq_iff : ∀ {a b : Datum}, beq a b = true ↔ a = b
  | .call c as, b => by cases b <;> simp [beq, beq_iff, beqAll_iff]
  | .vector as, b => by cases b <;> simp [beq, beqAll_iff]
  | .number .., b => by cases b <;> simp [beq]
  | .string _, b => by cases b <;> simp [beq]
  | .symbol _, b => by cases b <;> simp [beq]

theorem beqAll_iff : ∀ {as bs : List Datum}, beqAll as bs = true ↔ as = bs
  | [], bs => by cases bs <;> simp [beqAll]
  | a :: as, bs => by cases bs <;> simp [beqAll, beq_iff, beqAll_iff]

end

instance : DecidableEq Datum := fun _ _ => decidable_of_iff _ beq_iff

def symbol? : Datum → Option String
  | .symbol name => some name
  | _ => none

def elements? : Datum → Option (List Datum)
  | .vector elements => some elements
  | _ => none

def string? : Datum → Option String
  | .string value => some value
  | _ => none

def call? : Datum → Option (Datum × List Datum)
  | .call callee args => some (callee, args)
  | _ => none

/-- The name at the head of a call, if a symbol stands there. -/
def operator? : Datum → Option String
  | .call callee _ => callee.symbol?
  | _ => none

def isCallTo (d : Datum) (name : String) : Bool :=
  d.operator? == some name

/-- What the datum is, in one word of an error text. -/
def kindName : Datum → String
  | .call .. => "call"
  | .vector _ => "vector"
  | .number .. => "number"
  | .string _ => "string"
  | .symbol _ => "identifier"

/-- Strings are written with the five escapes that the reader knows. -/
def quoting : Text.Quoting := ⟨'"', Text.letterEscape⟩

mutual

/-- The text of a datum on one line. Numbers and symbols are written as they stand. -/
def chars : Datum → List Char
  | .call callee args => '(' :: callee.chars ++ charsAfter args ++ [')']
  | .vector [] => ['[', ']']
  | .vector (d :: ds) => '[' :: d.chars ++ charsAfter ds ++ [']']
  | .number literal _ => literal.toList
  | .string value => quoting.write value
  | .symbol name => name.toList

/-- The texts of a list of data, each after a space. -/
def charsAfter : List Datum → List Char
  | [] => []
  | d :: ds => ' ' :: d.chars ++ charsAfter ds

end

def text (d : Datum) : String := String.ofList d.chars

mutual

/-- Number of nodes of the tree. -/
def size : Datum → Nat
  | .call callee args => 1 + callee.size + sizes args
  | .vector elements => 1 + sizes elements
  | .number .. | .string _ | .symbol _ => 1

def sizes : List Datum → Nat
  | [] => 0
  | d :: ds => d.size + sizes ds

end

theorem size_pos (d : Datum) : 0 < d.size := by
  cases d <;> simp only [size] <;> omega

@[simp] theorem sizes_append (ds es : List Datum) : sizes (ds ++ es) = sizes ds + sizes es := by
  induction ds with
  | nil => simp [sizes]
  | cons d ds ih => simp [sizes, ih, Nat.add_assoc]

end Datum

end SmallLisp
