import SmallLisp.Form.Binding
import SmallLisp.Program

/-! Forms: the shapes of calls. A call whose head is a keyword is the form of that keyword, with
its parts still data, or does not have the shape of one; any other call is a plain call. -/

namespace SmallLisp

/-- The operators that are compiled to calls of helpers in the core package. -/
inductive Operator where
  | add
  | sub
  | mul
  | div
  | mod
  | eq
  | ne
  | lt
  | le
  | gt
  | ge
  deriving DecidableEq

namespace Operator

/-- The name of the helper. -/
def helper : Operator → String
  | .add => "ADD"
  | .sub => "SUB"
  | .mul => "MUL"
  | .div => "DIV"
  | .mod => "MOD"
  | .eq => "EQ"
  | .ne => "NEQ"
  | .lt => "LT"
  | .le => "LTE"
  | .gt => "GT"
  | .ge => "GTE"

end Operator

/-- What a reserved name at the head of a call announces. -/
inductive Keyword where
  | not
  | operator (op : Operator)
  | logic (op : Program.LogicOp)
  | loop
  | recur
  | assert
  | get
  | letIn
  | cond
  | fn
  | define
  | package
  deriving DecidableEq

namespace Keyword

def ofName? : String → Option Keyword
  | "!" => some .not
  | "not" => some .not
  | "+" => some (.operator .add)
  | "-" => some (.operator .sub)
  | "*" => some (.operator .mul)
  | "/" => some (.operator .div)
  | "mod" => some (.operator .mod)
  | "=" => some (.operator .eq)
  | "not=" => some (.operator .ne)
  | "<" => some (.operator .lt)
  | "<=" => some (.operator .le)
  | ">" => some (.operator .gt)
  | ">=" => some (.operator .ge)
  | "and" => some (.logic .and)
  | "or" => some (.logic .or)
  | "loop" => some .loop
  | "recur" => some .recur
  | "assert" => some .assert
  | "get" => some .get
  | "let" => some .letIn
  | "if" => some .cond
  | "fn" => some .fn
  | "def" => some .define
  | "ns" => some .package
  | _ => none

end Keyword

namespace Datum

mutual

/-- Whether a call to `recur` can be reached through arguments of calls. -/
def hasRecur : Datum → Bool
  | .call callee args => callee.symbol? == some "recur" || anyRecur args
  | _ => false

def anyRecur : List Datum → Bool
  | [] => false
  | d :: ds => d.hasRecur || anyRecur ds

end

end Datum

/-- A call by its shape. The bodies of forms have a last datum, whose value is theirs. -/
inductive Form where
  | call (callee : Datum) (args : List Datum)
  | not (operand : Datum)
  | operator (op : Operator) (args : List Datum)
  | logic (op : Program.LogicOp) (first : Datum) (rest : List Datum)
  | loop (bindings : List (Binding Datum)) (effects : List Datum) (result : Datum)
  | recur (args : List Datum)
  | assert (type : String) (value : Datum)
  | get (args : List Datum)
  | letIn (bindings : List (Binding Datum)) (effects : List Datum) (result : Datum)
  | cond (test yes : Datum) (no : Option Datum)
  | fn (params : Params) (effects : List Datum) (result : Datum)

namespace Form

/-- The form of a keyword. Errors name the form as it was written. -/
def ofKeyword (name : String) (args : List Datum) : Keyword → Except CompileError Form
  | .not =>
    match args with
    | [operand] => .ok (.not operand)
    | _ => .error (.argumentCount name (.exactly 1) args.length)
  | .operator op => .ok (.operator op args)
  | .logic op =>
    match args with
    | first :: rest => .ok (.logic op first rest)
    | [] => .error (.argumentCount name (.atLeast 1) 0)
  | .loop =>
    match args with
    | bindings :: first :: rest => do
      let bindings ← Binding.ofDatum name bindings
      if Datum.anyRecur (first :: rest) then
        return .loop bindings (first :: rest).dropLast ((first :: rest).getLast (by simp))
      else
        throw .loopWithoutRecur
    | _ => .error (.argumentCount name (.atLeast 2) args.length)
  | .recur => .ok (.recur args)
  | .assert =>
    match args with
    | [.symbol type, value] => .ok (.assert type value)
    | [type, _] => .error (.argument name (.assertedType type))
    | _ => .error (.argumentCount name (.exactly 2) args.length)
  | .get => .ok (.get args)
  | .letIn =>
    match args with
    | bindings :: first :: rest => do
      let bindings ← Binding.ofDatum name bindings
      return .letIn bindings (first :: rest).dropLast ((first :: rest).getLast (by simp))
    | _ => .error (.argumentCount name (.atLeast 2) args.length)
  | .cond =>
    match args with
    | [test, yes] => .ok (.cond test yes none)
    | [test, yes, no] => .ok (.cond test yes (some no))
    | _ => .error (.argumentCount name (.either 2 3) args.length)
  | .fn =>
    match args with
    | params :: first :: rest => do
      let params ← Params.ofDatum name params
      return .fn params (first :: rest).dropLast ((first :: rest).getLast (by simp))
    | _ => .error (.argumentCount name (.atLeast 2) args.length)
  | .define => .error .defInExpression
  | .package => .error .namespaceInExpression

/-- The form of a call in the place of an expression. -/
def ofCall (callee : Datum) (args : List Datum) : Except CompileError Form :=
  match callee with
  | .symbol name =>
    match Keyword.ofName? name with
    | some keyword => ofKeyword name args keyword
    | none => .ok (.call callee args)
  | _ => .ok (.call callee args)

end Form

end SmallLisp
