import SmallLisp.Config
import SmallLisp.Reference
import SmallLisp.Term

/-! Emitting terms as Go expressions. Forms with statements in them become functions that are
called where they stand. A loop becomes a `for` over a flag: each pass clears it, and a `recur`
assigns the new values and sets it. -/

namespace SmallLisp

open Program

def NumberKind.literalKind : NumberKind → LiteralKind
  | .int => .int
  | .float => .float
  | .imag => .imag
  | .char => .char

namespace Config

/-- The type of all values. -/
def any (cfg : Config) : TypeExpr := .qualified cfg.corePackage cfg.anyType

/-- A function of the core package that source text calls by a reserved name. -/
def coreFunction (cfg : Config) (name : String) : Expr :=
  .ofName (cfg.corePackage ++ "/" ++ name)

/-- A helper of the core package. -/
def coreHelper (cfg : Config) (name : String) : Expr :=
  .selector (.ident cfg.corePackage) name

/-- Statements as an expression: a function without parameters, called at once. -/
def closure (cfg : Config) (body : List Stmt) : Expr :=
  .call (.func ⟨[], [cfg.any]⟩ body) []

end Config

namespace Loop

/-- The variable that says whether another pass follows. -/
def flag (l : Loop) : Expr := .ident (Identifier.generated "continue" l.number)

/-- The name of the variable for the value of the last pass. -/
def resultName (l : Loop) : String := Identifier.generated "result" (l.number + 1)

/-- Gives the names of the bindings their next values. With one name to each binding all are
assigned at once, so that every value sees the names as they were. -/
def update (l : Loop) (values : List Expr) : List Stmt :=
  if l.targets.all (·.length == 1) then
    if l.targets.isEmpty then []
    else [.assign .assign (l.targets.flatten.map Expr.ofName) values]
  else
    l.targets.zipWith (fun names value => .assign .assign (names.map Expr.ofName) [value]) values

/-- The statements around the passes of a loop, given those that declare its bindings, those for
effect in a pass, and its last expression. -/
def passes (l : Loop) (cfg : Config) (bindings effects : List Stmt) (result : Expr) :
    List Stmt :=
  bindings ++
    [.var [l.resultName] (some cfg.any) [],
      .loop (some (.define l.flag (.bool true))) (some l.flag) none
        (.set l.flag (.bool false) :: effects ++ [.set (.ident l.resultName) result]),
      .ret [.ident l.resultName]]

end Loop

/-- The parameters of a function as groups: the plain ones, and the one for the rest. -/
def Params.groups (ps : Params) (cfg : Config) : List ParamGroup :=
  (if ps.names.isEmpty then [] else [⟨ps.names.map Identifier.ofName, cfg.any, false⟩]) ++
    (match ps.rest? with
      | none => []
      | some name => [⟨[Identifier.ofName name], cfg.any, true⟩])

namespace Term

mutual

def emit (cfg : Config) : Term → Expr
  | .symbol name => .ofName name
  | .number literal kind => .literal kind.literalKind literal
  | .string value => .string value
  | .vector elements => .composite (.slice cfg.any) (emitAll cfg elements)
  | .call callee args => .call (callee.emit cfg) (emitAll cfg args)
  | .not operand => .not (operand.emit cfg)
  | .operator op args => .call (cfg.coreHelper op.helper) (emitAll cfg args)
  | .logic op first rest => (emitAll cfg rest).foldl (.logic op) (first.emit cfg)
  | .loop n bindings effects result =>
    cfg.closure
      ((⟨n, bindings.map (·.targets)⟩ : Loop).passes cfg (emitBindings cfg bindings)
        (emitEffects cfg effects) (result.emit cfg))
  | .recur l values =>
    cfg.closure (l.update (emitAll cfg values) ++ [.set l.flag (.bool true), .ret [.nil]])
  | .assert type value => .assert (value.emit cfg) (.ofName type)
  | .get args => .call (cfg.coreFunction "get") (emitAll cfg args)
  | .letIn bindings effects result =>
    cfg.closure
      (emitBindings cfg bindings ++ emitEffects cfg effects ++ [.ret [result.emit cfg]])
  | .cond test yes no =>
    cfg.closure
      [.branch (test.emit cfg) [.ret [yes.emit cfg]] (some [.ret [emitElse cfg no]])]
  | .fn params effects result =>
    .func ⟨params.groups cfg, [cfg.any]⟩ (emitEffects cfg effects ++ [.ret [result.emit cfg]])

def emitAll (cfg : Config) : List Term → List Expr
  | [] => []
  | t :: ts => t.emit cfg :: emitAll cfg ts

/-- Terms evaluated for their effects. -/
def emitEffects (cfg : Config) : List Term → List Stmt
  | [] => []
  | t :: ts => .expr (t.emit cfg) :: emitEffects cfg ts

/-- A declaration for each binding. -/
def emitBindings (cfg : Config) : List (Binding Term) → List Stmt
  | [] => []
  | ⟨targets, value⟩ :: bs =>
    .assign .define (targets.map Expr.ofName) [value.emit cfg] :: emitBindings cfg bs

/-- The second branch of a condition, which yields `nil` where it is missing. -/
def emitElse (cfg : Config) : Option Term → Expr
  | none => .nil
  | some t => t.emit cfg

end

end Term

end SmallLisp
