import SmallLisp.Proofs.Printing.ParseTypes

/-!
# Reading expressions from lexemes

The reading of expressions by operator precedence, as relations between lexemes, a tree and the
lexemes after it: `ReadExpr least` reads an expression whose operators bind at least as tightly as
`least`, and `ReadRest` goes on after an operand. A reading is unique (`ReadExpr.unique`).
-/

namespace SmallLisp.Program

/-- The type of a composite literal and what follows its brace. A brace with a line break after it
opens a block. -/
def composite? (ts : List Lexeme) : Option (TypeExpr × List Lexeme) :=
  match readType ts with
  | some (t, .braceOpen :: u :: ts) => if u = .lineBreak then none else some (t, u :: ts)
  | _ => none

/-- The lexemes that begin an expression. -/
def opensExpr : List Lexeme → Bool
  | .name _ :: _ | .literal _ _ :: _ | .func :: _ | .parenOpen :: _ | .bracketOpen :: _
  | .minus :: _ | .not :: _ => true
  | _ => false

/-- Whether an operand goes on where operators must bind at least as tightly as `least`. -/
def goesOnOperand (least : Nat) : List Lexeme → Bool
  | .point :: _ | .parenOpen :: _ => true
  | .logic op :: _ => least ≤ op.tightness
  | _ => false

def opensValues : List Lexeme → Bool
  | .assign _ :: _ => true
  | _ => false

mutual

inductive ReadExpr : Nat → List Lexeme → Expr → List Lexeme → Prop
  | ident : composite? (.name x :: ts) = none → ReadRest least (.ident x) ts e rest →
    ReadExpr least (.name x :: ts) e rest
  | literal : ReadRest least (.literal kind text) ts e rest →
    ReadExpr least (.literal kind text :: ts) e rest
  | negative : ReadRest least (.literal kind (String.ofList ('-' :: text.toList))) ts e rest →
    ReadExpr least (.minus :: .literal kind text :: ts) e rest
  | parens : ReadExpr 1 ts operand (.parenClose :: us) → ReadRest least operand us e rest →
    ReadExpr least (.parenOpen :: ts) e rest
  | not : ReadExpr Expr.unary ts operand us → ReadRest least (.not operand) us e rest →
    ReadExpr least (.not :: ts) e rest
  | func : ReadSignature ts signature (.braceOpen :: us) → ReadLines us body vs →
    ReadRest least (.func signature body) vs e rest → ReadExpr least (.func :: ts) e rest
  | composite : composite? ts = some (type, us) → ReadArgs .braceClose us elements vs →
    ReadRest least (.composite type elements) vs e rest → ReadExpr least ts e rest

/-- What follows an operand. -/
inductive ReadRest : Nat → Expr → List Lexeme → Expr → List Lexeme → Prop
  | selector : ReadRest least (.selector base f) ts e rest →
    ReadRest least base (.point :: .name f :: ts) e rest
  | assert : readType ts = some (type, .parenClose :: us) →
    ReadRest least (.assert value type) us e rest →
    ReadRest least value (.point :: .parenOpen :: ts) e rest
  | call : ReadArgs .parenClose ts args us → ReadRest least (.call f args) us e rest →
    ReadRest least f (.parenOpen :: ts) e rest
  | logic : least ≤ op.tightness → ReadExpr (op.tightness + 1) ts right us →
    ReadRest least (.logic op left right) us e rest →
    ReadRest least left (.logic op :: ts) e rest
  | stop : goesOnOperand least rest = false → ReadRest least e rest e rest

/-- Expressions with commas between them. -/
inductive ReadExprs : List Lexeme → List Expr → List Lexeme → Prop
  | last : ReadExpr 1 ts e rest → rest.head? ≠ some .comma → ReadExprs ts [e] rest
  | cons : ReadExpr 1 ts e (.comma :: us) → ReadExprs us es rest → ReadExprs ts (e :: es) rest

/-- Expressions up to a closing lexeme. There may be none. -/
inductive ReadArgs : Lexeme → List Lexeme → List Expr → List Lexeme → Prop
  | nil : ReadArgs close (close :: rest) [] rest
  | exprs : ts.head? ≠ some close → ReadExprs ts es (close :: rest) → ReadArgs close ts es rest

/-- The lines of a block after its brace. -/
inductive ReadLines : List Lexeme → List Stmt → List Lexeme → Prop
  | nil : ReadLines (.lineBreak :: .braceClose :: rest) [] rest
  | cons : ReadStmt ts s us → ReadLines us ss rest → ReadLines (.lineBreak :: ts) (s :: ss) rest

inductive ReadStmt : List Lexeme → Stmt → List Lexeme → Prop
  | var : readDeclared ts = some ((names, type), us) → ReadValues us values rest →
    ReadStmt (.var :: ts) (.var names type values) rest
  | branch : ReadExpr 1 ts test (.braceOpen :: us) → ReadLines us yes vs → ReadElse vs no rest →
    ReadStmt (.branch :: ts) (.branch test yes no) rest
  | loop : ReadLoopHead ts init test post (.braceOpen :: us) → ReadLines us body rest →
    ReadStmt (.loop :: ts) (.loop init test post body) rest
  | ret : opensExpr rest = false → ReadStmt (.ret :: rest) (.ret []) rest
  | retValues : opensExpr ts = true → ReadExprs ts values rest →
    ReadStmt (.ret :: ts) (.ret values) rest
  | assign : opensExpr ts = true → ReadExprs ts targets (.assign op :: us) →
    ReadExprs us values rest → ReadStmt ts (.assign op targets values) rest
  | expr : opensExpr ts = true → ReadExprs ts [e] rest → opensValues rest = false →
    ReadStmt ts (.expr e) rest

inductive ReadValues : List Lexeme → List Expr → List Lexeme → Prop
  | none : opensValues rest = false → ReadValues rest [] rest
  | exprs : ReadExprs ts values rest → ReadValues (.assign .assign :: ts) values rest

inductive ReadElse : List Lexeme → Option (List Stmt) → List Lexeme → Prop
  | none : rest.head? ≠ some .otherwise → ReadElse rest none rest
  | block : ReadLines ts no rest → ReadElse (.otherwise :: .braceOpen :: ts) (some no) rest

inductive ReadLoopHead :
    List Lexeme → Option Stmt → Option Expr → Option Stmt → List Lexeme → Prop
  | endless : ReadLoopHead (.braceOpen :: ts) none none none (.braceOpen :: ts)
  | test : ReadStmt ts (.expr test) rest → rest.head? ≠ some .semicolon →
    ReadLoopHead ts none (some test) none rest
  | clauses : ReadTest ts test us → ReadPost us post rest →
    ReadLoopHead (.semicolon :: ts) none test post rest
  | initClauses : ReadStmt ts init (.semicolon :: us) → ReadTest us test vs →
    ReadPost vs post rest → ReadLoopHead ts (some init) test post rest

/-- The test in the head of a loop and its semicolon. -/
inductive ReadTest : List Lexeme → Option Expr → List Lexeme → Prop
  | none : ReadTest (.semicolon :: rest) none rest
  | some : ReadExpr 1 ts e (.semicolon :: rest) → ReadTest ts (some e) rest

inductive ReadPost : List Lexeme → Option Stmt → List Lexeme → Prop
  | none : ReadPost (.braceOpen :: ts) none (.braceOpen :: ts)
  | some : ReadStmt ts s rest → ReadPost ts (some s) rest

end

/-! ## Uniqueness -/

mutual

theorem ReadExpr.unique : {e e' : Expr} → ReadExpr least ts e rest → ReadExpr least ts e' rest' →
    e = e' ∧ rest = rest'
  | _, _, .ident hname h, h' => by
    cases h' with
    | ident _ h' => exact h.unique h'
    | composite h' => rw [hname] at h'; cases h'
  | _, _, .literal h, h' => by
    cases h' with
    | literal h' => exact h.unique h'
    | composite h' => cases h'
  | _, _, .negative h, h' => by
    cases h' with
    | negative h' => exact h.unique h'
    | composite h' => cases h'
  | _, _, .parens hinner h, h' => by
    cases h' with
    | parens hinner' h' =>
      obtain ⟨rfl, heq⟩ := hinner.unique hinner'
      cases heq
      exact h.unique h'
    | composite h' => cases h'
  | _, _, .not hoperand h, h' => by
    cases h' with
    | not hoperand' h' =>
      obtain ⟨rfl, rfl⟩ := hoperand.unique hoperand'
      exact h.unique h'
    | composite h' => cases h'
  | _, _, .func hsignature hbody h, h' => by
    cases h' with
    | func hsignature' hbody' h' =>
      obtain ⟨rfl, heq⟩ := hsignature.unique hsignature'
      cases heq
      obtain ⟨rfl, rfl⟩ := hbody.unique hbody'
      exact h.unique h'
    | composite h' => cases h'
  | _, _, .composite htype helements h, h' => by
    cases h' with
    | composite htype' helements' h' =>
      rw [htype] at htype'
      cases htype'
      obtain ⟨rfl, rfl⟩ := helements.unique helements'
      exact h.unique h'
    | ident h' => rw [htype] at h'; cases h'
    | literal | negative | parens | not | func => cases htype
termination_by structural _ _ h => h

theorem ReadRest.unique : {e e' : Expr} → ReadRest least operand ts e rest →
    ReadRest least operand ts e' rest' → e = e' ∧ rest = rest'
  | _, _, .selector h, h' => by
    cases h' with
    | selector h' => exact h.unique h'
    | stop h' => cases h'
  | _, _, .assert htype h, h' => by
    cases h' with
    | assert htype' h' =>
      rw [htype] at htype'
      cases htype'
      exact h.unique h'
    | stop h' => cases h'
  | _, _, .call hargs h, h' => by
    cases h' with
    | call hargs' h' =>
      obtain ⟨rfl, rfl⟩ := hargs.unique hargs'
      exact h.unique h'
    | stop h' => cases h'
  | _, _, .logic hlevel hright h, h' => by
    cases h' with
    | logic _ hright' h' =>
      obtain ⟨rfl, rfl⟩ := hright.unique hright'
      exact h.unique h'
    | stop h' => exact absurd hlevel (of_decide_eq_false h')
  | _, _, .stop h, h' => by
    cases h' with
    | stop _ => exact ⟨rfl, rfl⟩
    | logic hlevel _ _ => exact absurd hlevel (of_decide_eq_false h)
    | selector | assert | call => cases h
termination_by structural _ _ h => h

theorem ReadExprs.unique : {es es' : List Expr} → ReadExprs ts es rest → ReadExprs ts es' rest' →
    es = es' ∧ rest = rest'
  | _, _, .last h hcomma, h' => by
    cases h' with
    | last h' _ =>
      obtain ⟨rfl, rfl⟩ := h.unique h'
      exact ⟨rfl, rfl⟩
    | cons h' _ =>
      obtain ⟨rfl, rfl⟩ := h.unique h'
      exact absurd rfl hcomma
  | _, _, .cons h hs, h' => by
    cases h' with
    | last h' hcomma =>
      obtain ⟨rfl, rfl⟩ := h.unique h'
      exact absurd rfl hcomma
    | cons h' hs' =>
      obtain ⟨rfl, heq⟩ := h.unique h'
      cases heq
      obtain ⟨rfl, rfl⟩ := hs.unique hs'
      exact ⟨rfl, rfl⟩
termination_by structural _ _ h => h

theorem ReadArgs.unique : {es es' : List Expr} → ReadArgs close ts es rest →
    ReadArgs close ts es' rest' → es = es' ∧ rest = rest'
  | _, _, .nil, h' => by
    cases h' with
    | nil => exact ⟨rfl, rfl⟩
    | exprs hclose _ => exact absurd rfl hclose
  | _, _, .exprs hclose h, h' => by
    cases h' with
    | nil => exact absurd rfl hclose
    | exprs _ h' =>
      obtain ⟨rfl, heq⟩ := h.unique h'
      cases heq
      exact ⟨rfl, rfl⟩
termination_by structural _ _ h => h

theorem ReadLines.unique : {ss ss' : List Stmt} → ReadLines ts ss rest → ReadLines ts ss' rest' →
    ss = ss' ∧ rest = rest'
  | _, _, .nil, h' => by
    cases h' with
    | nil => exact ⟨rfl, rfl⟩
    | cons h' _ => cases h' <;> contradiction
  | _, _, .cons h hs, h' => by
    cases h' with
    | nil => cases h <;> contradiction
    | cons h' hs' =>
      obtain ⟨rfl, rfl⟩ := h.unique h'
      obtain ⟨rfl, rfl⟩ := hs.unique hs'
      exact ⟨rfl, rfl⟩
termination_by structural _ _ h => h

theorem ReadStmt.unique : {s s' : Stmt} → ReadStmt ts s rest → ReadStmt ts s' rest' →
    s = s' ∧ rest = rest'
  | _, _, .var hdeclared hvalues, h' => by
    cases h' with
    | var hdeclared' hvalues' =>
      rw [hdeclared] at hdeclared'
      cases hdeclared'
      obtain ⟨rfl, rfl⟩ := hvalues.unique hvalues'
      exact ⟨rfl, rfl⟩
    | assign hopens | expr hopens => cases hopens
  | _, _, .branch htest hyes hno, h' => by
    cases h' with
    | branch htest' hyes' hno' =>
      obtain ⟨rfl, heq⟩ := htest.unique htest'
      cases heq
      obtain ⟨rfl, rfl⟩ := hyes.unique hyes'
      obtain ⟨rfl, rfl⟩ := hno.unique hno'
      exact ⟨rfl, rfl⟩
    | assign hopens | expr hopens => cases hopens
  | _, _, .loop hhead hbody, h' => by
    cases h' with
    | loop hhead' hbody' =>
      obtain ⟨heq, hrest⟩ := hhead.unique hhead'
      cases heq
      cases hrest
      obtain ⟨rfl, rfl⟩ := hbody.unique hbody'
      exact ⟨rfl, rfl⟩
    | assign hopens | expr hopens => cases hopens
  | _, _, .ret hopens, h' => by
    cases h' with
    | ret _ => exact ⟨rfl, rfl⟩
    | retValues hopens' _ => rw [hopens] at hopens'; cases hopens'
    | assign hopens | expr hopens => cases hopens
  | _, _, .retValues hopens h, h' => by
    cases h' with
    | ret hopens' => rw [hopens] at hopens'; cases hopens'
    | retValues _ h' =>
      obtain ⟨rfl, rfl⟩ := h.unique h'
      exact ⟨rfl, rfl⟩
    | assign hopens | expr hopens => cases hopens
  | _, _, .assign hopens htargets hvalues, h' => by
    cases h' with
    | assign _ htargets' hvalues' =>
      obtain ⟨rfl, heq⟩ := htargets.unique htargets'
      cases heq
      obtain ⟨rfl, rfl⟩ := hvalues.unique hvalues'
      exact ⟨rfl, rfl⟩
    | expr _ h' hend =>
      obtain ⟨-, rfl⟩ := htargets.unique h'
      cases hend
    | _ => cases hopens
  | _, _, .expr hopens h hend, h' => by
    cases h' with
    | assign _ h' _ =>
      obtain ⟨-, rfl⟩ := h.unique h'
      cases hend
    | expr _ h' _ =>
      obtain ⟨heq, rfl⟩ := h.unique h'
      cases heq
      exact ⟨rfl, rfl⟩
    | _ => cases hopens
termination_by structural _ _ h => h

theorem ReadValues.unique : {values values' : List Expr} → ReadValues ts values rest →
    ReadValues ts values' rest' → values = values' ∧ rest = rest'
  | _, _, .none h, h' => by
    cases h' with
    | none _ => exact ⟨rfl, rfl⟩
    | exprs _ => cases h
  | _, _, .exprs h, h' => by
    cases h' with
    | none h' => cases h'
    | exprs h' =>
      obtain ⟨rfl, rfl⟩ := h.unique h'
      exact ⟨rfl, rfl⟩
termination_by structural _ _ h => h

theorem ReadElse.unique : {no no' : Option (List Stmt)} → ReadElse ts no rest →
    ReadElse ts no' rest' → no = no' ∧ rest = rest'
  | _, _, .none h, h' => by
    cases h' with
    | none _ => exact ⟨rfl, rfl⟩
    | block _ => exact absurd rfl h
  | _, _, .block h, h' => by
    cases h' with
    | none h' => exact absurd rfl h'
    | block h' =>
      obtain ⟨rfl, rfl⟩ := h.unique h'
      exact ⟨rfl, rfl⟩
termination_by structural _ _ h => h

theorem ReadLoopHead.unique : {init init' : Option Stmt} → {test test' : Option Expr} →
    {post post' : Option Stmt} → ReadLoopHead ts init test post rest →
    ReadLoopHead ts init' test' post' rest' →
    (init, test, post) = (init', test', post') ∧ rest = rest'
  | _, _, _, _, _, _, .endless, h' => by
    cases h' with
    | endless => exact ⟨rfl, rfl⟩
    | test h _ => cases h; contradiction
    | initClauses h _ _ => cases h <;> contradiction
  | _, _, _, _, _, _, .test h hend, h' => by
    cases h' with
    | endless | clauses => cases h; contradiction
    | test h' _ =>
      obtain ⟨heq, rfl⟩ := h.unique h'
      cases heq
      exact ⟨rfl, rfl⟩
    | initClauses h' _ _ =>
      obtain ⟨-, rfl⟩ := h.unique h'
      exact absurd rfl hend
  | _, _, _, _, _, _, .clauses htest hpost, h' => by
    cases h' with
    | test h _ => cases h; contradiction
    | clauses htest' hpost' =>
      obtain ⟨rfl, rfl⟩ := htest.unique htest'
      obtain ⟨rfl, rfl⟩ := hpost.unique hpost'
      exact ⟨rfl, rfl⟩
    | initClauses h _ _ => cases h <;> contradiction
  | _, _, _, _, _, _, .initClauses h htest hpost, h' => by
    cases h' with
    | endless | clauses => cases h <;> contradiction
    | test h' hend =>
      obtain ⟨-, rfl⟩ := h.unique h'
      exact absurd rfl hend
    | initClauses h' htest' hpost' =>
      obtain ⟨rfl, heq⟩ := h.unique h'
      cases heq
      obtain ⟨rfl, rfl⟩ := htest.unique htest'
      obtain ⟨rfl, rfl⟩ := hpost.unique hpost'
      exact ⟨rfl, rfl⟩
termination_by structural _ _ _ _ _ _ h => h

theorem ReadTest.unique : {test test' : Option Expr} → ReadTest ts test rest →
    ReadTest ts test' rest' → test = test' ∧ rest = rest'
  | _, _, .none, h' => by
    cases h' with
    | none => exact ⟨rfl, rfl⟩
    | some h' => cases h'; contradiction
  | _, _, .some h, h' => by
    cases h' with
    | none => cases h; contradiction
    | some h' =>
      obtain ⟨rfl, heq⟩ := h.unique h'
      cases heq
      exact ⟨rfl, rfl⟩
termination_by structural _ _ h => h

theorem ReadPost.unique : {post post' : Option Stmt} → ReadPost ts post rest →
    ReadPost ts post' rest' → post = post' ∧ rest = rest'
  | _, _, .none, h' => by
    cases h' with
    | none => exact ⟨rfl, rfl⟩
    | some h' => cases h' <;> contradiction
  | _, _, .some h, h' => by
    cases h' with
    | none => cases h <;> contradiction
    | some h' =>
      obtain ⟨rfl, rfl⟩ := h.unique h'
      exact ⟨rfl, rfl⟩
termination_by structural _ _ h => h

end

end SmallLisp.Program
