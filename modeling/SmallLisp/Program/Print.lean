import SmallLisp.Program

/-! Printing programs. Statements stand on lines of their own, indented by tabs, and an operand is
parenthesized only where it binds looser than its place asks. -/

namespace SmallLisp.Program

/-- The escapes of a string literal: letters where there is one, and two hexadecimal digits for
the other control characters of ASCII. -/
def escape (c : Char) : Option (List Char) :=
  match Text.letterEscape c with
  | some cs => some cs
  | none =>
    if c.toNat < 0x20 ∨ c = '\x7f' then some (['\\', 'x'] ++ Text.twoHexDigits c) else none

def quoting : Text.Quoting := ⟨'"', escape⟩

/-- Texts with a comma and a space between them. -/
def commaChars : List (List Char) → List Char
  | [] => []
  | [t] => t
  | t :: ts => t ++ [',', ' '] ++ commaChars ts

def nameChars (names : List String) : List Char :=
  commaChars (names.map String.toList)

/-- A line break before a line indented by `k` tabs. -/
def lineBreak (k : Nat) : List Char :=
  '\n' :: List.replicate k '\t'

def TypeExpr.chars : TypeExpr → List Char
  | .named name => name.toList
  | .qualified package name => package.toList ++ '.' :: name.toList
  | .slice element => '[' :: ']' :: element.chars

def ParamGroup.chars (g : ParamGroup) : List Char :=
  (if g.names.isEmpty then [] else nameChars g.names ++ [' ']) ++
    (if g.variadic then ['.', '.', '.'] else []) ++ g.type.chars

/-- Several results stand in parentheses. -/
def resultChars : List TypeExpr → List Char
  | [] => []
  | [t] => ' ' :: t.chars
  | ts => [' ', '('] ++ commaChars (ts.map TypeExpr.chars) ++ [')']

def Signature.chars (s : Signature) : List Char :=
  '(' :: commaChars (s.params.map ParamGroup.chars) ++ [')'] ++ resultChars s.results

namespace LogicOp

def chars : LogicOp → List Char
  | .and => ['&', '&']
  | .or => ['|', '|']

/-- How tightly the operator binds. -/
def tightness : LogicOp → Nat
  | .or => 1
  | .and => 2

end LogicOp

def AssignOp.chars : AssignOp → List Char
  | .define => [':', '=']
  | .assign => ['=']

namespace Expr

/-- The tightness of an expression with an operator in front. -/
def unary : Nat := 6

/-- The tightness of an operand that no operator can split. -/
def primary : Nat := 7

/-- How tightly an expression binds. A negative number carries an operator in front. -/
def tightness : Expr → Nat
  | .logic op _ _ => op.tightness
  | .not _ => unary
  | .literal .string _ => primary
  | .literal _ text => if text.toList.head? = some '-' then unary else primary
  | _ => primary

end Expr

def parenthesize (cs : List Char) : List Char :=
  '(' :: cs ++ [')']

/-- The text of an operand in a place that asks for the tightness `least`. -/
def operandChars (least : Nat) (e : Expr) (cs : List Char) : List Char :=
  if e.tightness < least then parenthesize cs else cs

/-- The names, the type and the values of a variable declaration, whose values are given as
texts. -/
def varChars (names : List String) (type : Option TypeExpr) (values : List (List Char)) :
    List Char :=
  nameChars names ++ (match type with | none => [] | some t => ' ' :: t.chars) ++
    (if values.isEmpty then [] else [' ', '=', ' '] ++ commaChars values)

/-- The head of a loop up to its body. The semicolons are left out where only a test is given. -/
def loopHeadChars (init test post : Option (List Char)) : List Char :=
  if init.isSome || post.isSome then
    init.getD [] ++ [';', ' '] ++ test.getD [] ++ [';'] ++
      (match post with | none => [] | some p => ' ' :: p) ++ [' ']
  else
    match test with
    | none => []
    | some t => t ++ [' ']

mutual

/-- The text of an expression in a line at level `k`. -/
def Expr.chars (k : Nat) : Expr → List Char
  | .ident name => name.toList
  | .selector base field =>
    operandChars Expr.primary base (base.chars k) ++ '.' :: field.toList
  | .literal .string text => quoting.write text
  | .literal _ text => text.toList
  | .call f args =>
    operandChars Expr.primary f (f.chars k) ++
      parenthesize (commaChars (Expr.charsEach k args))
  | .composite type elements =>
    type.chars ++ '{' :: commaChars (Expr.charsEach k elements) ++ ['}']
  | .func signature body =>
    "func".toList ++ signature.chars ++ [' ', '{'] ++ Stmt.lineChars (k + 1) body ++
      lineBreak k ++ ['}']
  | .assert value type =>
    operandChars Expr.primary value (value.chars k) ++ '.' :: parenthesize type.chars
  | .not operand => '!' :: operandChars Expr.unary operand (operand.chars k)
  | .logic op left right =>
    operandChars op.tightness left (left.chars k) ++ ' ' :: op.chars ++
      ' ' :: operandChars (op.tightness + 1) right (right.chars k)

/-- The text of each expression of a list. -/
def Expr.charsEach (k : Nat) : List Expr → List (List Char)
  | [] => []
  | e :: es => e.chars k :: Expr.charsEach k es

/-- The text of a statement whose first line is at level `k`. -/
def Stmt.chars (k : Nat) : Stmt → List Char
  | .assign op targets values =>
    commaChars (Expr.charsEach k targets) ++ ' ' :: op.chars ++
      ' ' :: commaChars (Expr.charsEach k values)
  | .var names type values => "var ".toList ++ varChars names type (Expr.charsEach k values)
  | .branch test yes no =>
    "if ".toList ++ test.chars k ++ [' ', '{'] ++ Stmt.lineChars (k + 1) yes ++
      lineBreak k ++ '}' :: Stmt.elseChars k no
  | .loop init test post body =>
    "for ".toList ++
      loopHeadChars (Stmt.charsIn k init) (Expr.charsIn k test) (Stmt.charsIn k post) ++
      '{' :: Stmt.lineChars (k + 1) body ++ lineBreak k ++ ['}']
  | .ret [] => "return".toList
  | .ret (e :: es) => "return ".toList ++ commaChars (Expr.charsEach k (e :: es))
  | .expr value => value.chars k

/-- The statements of a block, each on a line at level `k`. -/
def Stmt.lineChars (k : Nat) : List Stmt → List Char
  | [] => []
  | s :: ss => lineBreak k ++ s.chars k ++ Stmt.lineChars k ss

def Stmt.elseChars (k : Nat) : Option (List Stmt) → List Char
  | none => []
  | some body => " else ".toList ++ '{' :: Stmt.lineChars (k + 1) body ++ lineBreak k ++ ['}']

def Stmt.charsIn (k : Nat) : Option Stmt → Option (List Char)
  | none => none
  | some s => some (s.chars k)

def Expr.charsIn (k : Nat) : Option Expr → Option (List Char)
  | none => none
  | some e => some (e.chars k)

end

/-- A block: its statements in braces. -/
def Stmt.blockChars (k : Nat) (body : List Stmt) : List Char :=
  '{' :: Stmt.lineChars (k + 1) body ++ lineBreak k ++ ['}']

def Import.chars (i : Import) : List Char :=
  (match i.alias? with | none => [] | some name => name.toList ++ [' ']) ++ quoting.write i.path

def Decl.chars (k : Nat) : Decl → List Char
  | .func name signature body =>
    "func ".toList ++ name.toList ++ signature.chars ++ ' ' :: Stmt.blockChars k body
  | .var names type values => "var ".toList ++ varChars names type (Expr.charsEach k values)
  | .imports specs =>
    "import (".toList ++ specs.flatMap (fun i => lineBreak (k + 1) ++ i.chars) ++
      lineBreak k ++ [')']

/-- A package clause, then each declaration between blank lines. -/
def File.chars (f : File) : List Char :=
  "package ".toList ++ f.package.toList ++ '\n' ::
    f.decls.flatMap fun d => '\n' :: d.chars 0 ++ ['\n']

def Expr.print (e : Expr) : String := String.ofList (e.chars 0)

def Stmt.print (s : Stmt) : String := String.ofList (s.chars 0)

def Decl.print (d : Decl) : String := String.ofList (d.chars 0)

def File.print (f : File) : String := String.ofList f.chars

end SmallLisp.Program
