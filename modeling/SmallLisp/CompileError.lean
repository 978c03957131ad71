import SmallLisp.Datum
import SmallLisp.Outline

/-! Why data cannot be compiled. -/

namespace SmallLisp

/-- How many arguments a form takes. -/
inductive Arity where
  | exactly (n : Nat)
  | either (m n : Nat)
  | atLeast (n : Nat)
  deriving DecidableEq

def Arity.text : Arity → String
  | .exactly n => toString n
  | .either m n => toString m ++ " or " ++ toString n
  | .atLeast n => "at least " ++ toString n

/-- What is wrong with an argument of a form. -/
inductive ArgumentFault where
  | notBindingVector (got : Datum)
  | emptyBinding
  | unnamedBinding (got : Datum)
  | oddBindings
  | bindingName (got : Datum)
  | notParameterVector (got : Datum)
  | parameterName (got : Datum)
  | restCount
  | restName (got : Datum)
  | assertedType (got : Datum)
  | definedName (got : Datum)
  deriving DecidableEq

def ArgumentFault.text : ArgumentFault → String
  | .notBindingVector got => "expected a binding vector, got " ++ got.kindName
  | .emptyBinding => "empty binding"
  | .unnamedBinding got => "binding " ++ got.text ++ " has no name"
  | .oddBindings => "binding vector needs an even number of forms"
  | .bindingName got => "binding name must be an identifier, got " ++ got.text
  | .notParameterVector got => "expected a parameter vector, got " ++ got.kindName
  | .parameterName got => "parameter must be an identifier, got " ++ got.text
  | .restCount => "& must be followed by exactly one parameter"
  | .restName got => "rest parameter must be an identifier, got " ++ got.text
  | .assertedType got => "type must be an identifier, got " ++ got.text
  | .definedName got => "name must be an identifier, got " ++ got.text

inductive CompileError where
  | argumentCount (form : String) (expected : Arity) (got : Nat)
  | argument (form : String) (fault : ArgumentFault)
  | defInExpression
  | namespaceInExpression
  | namespaceName (got : Datum)
  | importSpec (got : Datum)
  | topLevel (got : Datum)
  | loopWithoutRecur
  | recurOutsideLoop
  | recurCount (expected got : Nat)
  deriving DecidableEq

namespace CompileError

/-- The name of the kind of error. -/
def label : CompileError → String
  | .argumentCount .. => "InvalidArgCount"
  | .argument .. => "InvalidArgument"
  | .defInExpression => "DefInExpression"
  | .namespaceInExpression => "NamespaceInExpression"
  | .namespaceName _ => "InvalidNamespace"
  | .importSpec _ => "InvalidImport"
  | .topLevel _ => "TopLevelNotCall"
  | .loopWithoutRecur => "LoopWithoutRecur"
  | .recurOutsideLoop => "RecurOutsideLoop"
  | .recurCount .. => "RecurArity"

def message : CompileError → String
  | .argumentCount form expected got =>
    "invalid argument count for " ++ form ++ ": expected " ++ expected.text ++ ", got " ++
      toString got
  | .argument form fault => "invalid argument for " ++ form ++ ": " ++ fault.text
  | .defInExpression => "def is only allowed at the top level"
  | .namespaceInExpression => "ns is only allowed as the first top-level form"
  | .namespaceName got => "namespace name must be an identifier, got " ++ got.text
  | .importSpec got =>
    "invalid import " ++ got.text ++ ": expected \"path\" or [\"path\" :as alias]"
  | .topLevel got => "expected a call at the top level, got " ++ got.text
  | .loopWithoutRecur => "no recur found in loop body"
  | .recurOutsideLoop => "recur used outside of a loop"
  | .recurCount expected got =>
    "recur expects " ++ toString expected ++ " values to match the loop bindings, got " ++
      toString got

def outline (e : CompileError) : Outline :=
  match e with
  | .argumentCount form expected got =>
    .record e.label
      [("form", .ofString form), ("expected", .ofString expected.text), ("got", .ofNat got)]
  | .argument form fault =>
    .record e.label [("form", .ofString form), ("reason", .ofString fault.text)]
  | .namespaceName got | .importSpec got | .topLevel got =>
    .alternative e.label (.ofString got.text)
  | .recurCount expected got =>
    .record e.label [("expected", .ofNat expected), ("got", .ofNat got)]
  | .defInExpression | .namespaceInExpression | .loopWithoutRecur | .recurOutsideLoop =>
    .leaf e.label

end CompileError

end SmallLisp
