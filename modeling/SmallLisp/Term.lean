import SmallLisp.Form

/-! Terms: data that have passed all checks. Every call has the shape of a form, every loop has a
number, and every `recur` carries the loop that it belongs to. -/

namespace SmallLisp

/-- A loop as its body sees it: its number, and the names of each of its bindings. -/
structure Loop where
  number : Nat
  targets : List (List String)
  deriving DecidableEq

inductive Term where
  | symbol (name : String)
  | number (literal : String) (kind : NumberKind)
  | string (value : String)
  | vector (elements : List Term)
  | call (callee : Term) (args : List Term)
  | not (operand : Term)
  | operator (op : Operator) (args : List Term)
  | logic (op : Program.LogicOp) (first : Term) (rest : List Term)
  | loop (number : Nat) (bindings : List (Binding Term)) (effects : List Term) (result : Term)
  | recur (loop : Loop) (values : List Term)
  | assert (type : String) (value : Term)
  | get (args : List Term)
  | letIn (bindings : List (Binding Term)) (effects : List Term) (result : Term)
  | cond (test yes : Term) (no : Option Term)
  | fn (params : Params) (effects : List Term) (result : Term)

end SmallLisp
