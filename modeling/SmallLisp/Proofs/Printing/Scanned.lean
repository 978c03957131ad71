import SmallLisp.Proofs.Printing.LiteralLexeme

/-!
# The lexemes of printed programs

`Expr.lexemes` is the printer without layout. The scanner finds these lexemes in the printed text of
every expression whose words are words of Go (`Expr.Legal.scans`), as long as no integer stands
directly before a point.
-/

namespace SmallLisp.Program

/-! ## Lexemes of a tree -/

def enclosed (ts : List Lexeme) : List Lexeme :=
  .parenOpen :: ts ++ [.parenClose]

def commaLexemes : List (List Lexeme) → List Lexeme
  | [] => []
  | [ts] => ts
  | ts :: tss => ts ++ .comma :: commaLexemes tss

def nameLexemes (names : List String) : List Lexeme :=
  commaLexemes (names.map fun x => [.name x])

def TypeExpr.lexemes : TypeExpr → List Lexeme
  | .named x => [.name x]
  | .qualified p x => [.name p, .point, .name x]
  | .slice t => .bracketOpen :: .bracketClose :: t.lexemes

def TypeExpr.lexemesIn : Option TypeExpr → List Lexeme
  | none => []
  | some t => t.lexemes

def ParamGroup.lexemes (g : ParamGroup) : List Lexeme :=
  nameLexemes g.names ++ (if g.variadic then [.ellipsis] else []) ++ g.type.lexemes

def resultLexemes : List TypeExpr → List Lexeme
  | [] => []
  | [t] => t.lexemes
  | ts => enclosed (commaLexemes (ts.map TypeExpr.lexemes))

def Signature.lexemes (s : Signature) : List Lexeme :=
  enclosed (commaLexemes (s.params.map ParamGroup.lexemes)) ++ resultLexemes s.results

/-- A literal. The sign of a negative number is a lexeme of its own. -/
def literalLexemes (kind : LiteralKind) (text : String) : List Lexeme :=
  if kind ≠ .string ∧ text.toList.head? = some '-' then
    [.minus, .literal kind (String.ofList text.toList.tail)]
  else
    [.literal kind text]

def operandLexemes (least : Nat) (e : Expr) (ts : List Lexeme) : List Lexeme :=
  if e.tightness < least then enclosed ts else ts

def varLexemes (names : List String) (type : Option TypeExpr) (values : List (List Lexeme)) :
    List Lexeme :=
  .var :: nameLexemes names ++ TypeExpr.lexemesIn type ++
    (if values.isEmpty then [] else .assign .assign :: commaLexemes values)

def loopHeadLexemes (init test post : Option (List Lexeme)) : List Lexeme :=
  if init.isSome || post.isSome then
    init.getD [] ++ .semicolon :: test.getD [] ++ .semicolon :: post.getD []
  else
    test.getD []

mutual

def Expr.lexemes : Expr → List Lexeme
  | .ident x => [.name x]
  | .selector base f => operandLexemes Expr.primary base base.lexemes ++ [.point, .name f]
  | .literal kind text => literalLexemes kind text
  | .call f args =>
    operandLexemes Expr.primary f f.lexemes ++ enclosed (commaLexemes (Expr.lexemesEach args))
  | .composite type elements =>
    type.lexemes ++ .braceOpen :: commaLexemes (Expr.lexemesEach elements) ++ [.braceClose]
  | .func signature body =>
    .func :: signature.lexemes ++ .braceOpen :: Stmt.lineLexemes body ++ [.lineBreak, .braceClose]
  | .assert value type =>
    operandLexemes Expr.primary value value.lexemes ++ .point :: enclosed type.lexemes
  | .not operand => .not :: operandLexemes Expr.unary operand operand.lexemes
  | .logic op left right =>
    operandLexemes op.tightness left left.lexemes ++
      .logic op :: operandLexemes (op.tightness + 1) right right.lexemes

def Expr.lexemesEach : List Expr → List (List Lexeme)
  | [] => []
  | e :: es => e.lexemes :: Expr.lexemesEach es

def Stmt.lexemes : Stmt → List Lexeme
  | .assign op targets values =>
    commaLexemes (Expr.lexemesEach targets) ++
      .assign op :: commaLexemes (Expr.lexemesEach values)
  | .var names type values => varLexemes names type (Expr.lexemesEach values)
  | .branch test yes no =>
    .branch :: test.lexemes ++ .braceOpen :: Stmt.lineLexemes yes ++ [.lineBreak, .braceClose] ++
      Stmt.elseLexemes no
  | .loop init test post body =>
    .loop :: loopHeadLexemes (Stmt.lexemesIn init) (Expr.lexemesIn test) (Stmt.lexemesIn post) ++
      .braceOpen :: Stmt.lineLexemes body ++ [.lineBreak, .braceClose]
  | .ret values => .ret :: commaLexemes (Expr.lexemesEach values)
  | .expr value => value.lexemes

def Stmt.lineLexemes : List Stmt → List Lexeme
  | [] => []
  | s :: ss => .lineBreak :: s.lexemes ++ Stmt.lineLexemes ss

def Stmt.elseLexemes : Option (List Stmt) → List Lexeme
  | none => []
  | some body => .otherwise :: .braceOpen :: Stmt.lineLexemes body ++ [.lineBreak, .braceClose]

def Stmt.lexemesIn : Option Stmt → Option (List Lexeme)
  | none => none
  | some s => some s.lexemes

def Expr.lexemesIn : Option Expr → Option (List Lexeme)
  | none => none
  | some e => some e.lexemes

end

/-! The equations of the printer, which `simp` would find by evaluating the keywords in them. -/

theorem Expr.chars_selector (k : Nat) (base : Expr) (field : String) :
    (Expr.selector base field).chars k =
      operandChars Expr.primary base (base.chars k) ++ '.' :: field.toList := rfl

theorem Expr.chars_call (k : Nat) (f : Expr) (args : List Expr) :
    (Expr.call f args).chars k =
      operandChars Expr.primary f (f.chars k) ++
        parenthesize (commaChars (Expr.charsEach k args)) := rfl

theorem Expr.chars_composite (k : Nat) (type : TypeExpr) (elements : List Expr) :
    (Expr.composite type elements).chars k =
      type.chars ++ '{' :: commaChars (Expr.charsEach k elements) ++ ['}'] := rfl

theorem Expr.chars_assert (k : Nat) (value : Expr) (type : TypeExpr) :
    (Expr.assert value type).chars k =
      operandChars Expr.primary value (value.chars k) ++ '.' :: parenthesize type.chars := rfl

theorem Expr.chars_not (k : Nat) (operand : Expr) :
    (Expr.not operand).chars k =
      '!' :: operandChars Expr.unary operand (operand.chars k) := rfl

theorem Expr.chars_logic (k : Nat) (op : LogicOp) (left right : Expr) :
    (Expr.logic op left right).chars k =
      operandChars op.tightness left (left.chars k) ++ ' ' :: op.chars ++
        ' ' :: operandChars (op.tightness + 1) right (right.chars k) := rfl

theorem Expr.chars_func (k : Nat) (signature : Signature) (body : List Stmt) :
    (Expr.func signature body).chars k =
      ['f', 'u', 'n', 'c'] ++ signature.chars ++ [' ', '{'] ++ Stmt.lineChars (k + 1) body ++
        lineBreak k ++ ['}'] := rfl

theorem Stmt.chars_assign (k : Nat) (op : AssignOp) (targets values : List Expr) :
    (Stmt.assign op targets values).chars k =
      commaChars (Expr.charsEach k targets) ++ ' ' :: op.chars ++
        ' ' :: commaChars (Expr.charsEach k values) := rfl

theorem Stmt.chars_var (k : Nat) (names : List String) (type : Option TypeExpr)
    (values : List Expr) :
    (Stmt.var names type values).chars k =
      ['v', 'a', 'r', ' '] ++ varChars names type (Expr.charsEach k values) := rfl

theorem Stmt.chars_ret_cons (k : Nat) (e : Expr) (es : List Expr) :
    (Stmt.ret (e :: es)).chars k =
      ['r', 'e', 't', 'u', 'r', 'n', ' '] ++ commaChars (Expr.charsEach k (e :: es)) := rfl

theorem Stmt.chars_branch (k : Nat) (test : Expr) (yes : List Stmt) (no : Option (List Stmt)) :
    (Stmt.branch test yes no).chars k =
      ['i', 'f', ' '] ++ test.chars k ++ [' ', '{'] ++ Stmt.lineChars (k + 1) yes ++
        lineBreak k ++ '}' :: Stmt.elseChars k no := rfl

theorem Stmt.elseChars_none (k : Nat) : Stmt.elseChars k none = [] := rfl

theorem Stmt.elseChars_some (k : Nat) (body : List Stmt) :
    Stmt.elseChars k (some body) =
      [' ', 'e', 'l', 's', 'e', ' '] ++ '{' :: Stmt.lineChars (k + 1) body ++
        lineBreak k ++ ['}'] := rfl

theorem Stmt.chars_loop (k : Nat) (init : Option Stmt) (test : Option Expr) (post : Option Stmt)
    (body : List Stmt) :
    (Stmt.loop init test post body).chars k =
      ['f', 'o', 'r', ' '] ++
        loopHeadChars (Stmt.charsIn k init) (Expr.charsIn k test) (Stmt.charsIn k post) ++
        '{' :: Stmt.lineChars (k + 1) body ++ lineBreak k ++ ['}'] := rfl

theorem Decl.chars_func (k : Nat) (name : String) (signature : Signature) (body : List Stmt) :
    (Decl.func name signature body).chars k =
      ['f', 'u', 'n', 'c', ' '] ++ name.toList ++ signature.chars ++
        ' ' :: Stmt.blockChars k body := rfl

theorem Decl.chars_imports (k : Nat) (specs : List Import) :
    (Decl.imports specs).chars k =
      "import (".toList ++ specs.flatMap (fun i => lineBreak (k + 1) ++ i.chars) ++
        lineBreak k ++ [')'] := rfl

theorem Expr.charsEach_eq_map (k : Nat) (es : List Expr) :
    Expr.charsEach k es = es.map (Expr.chars k) := by
  induction es with
  | nil => rfl
  | cons e es ih => rw [Expr.charsEach, ih, List.map_cons]

theorem Expr.lexemesEach_eq_map (es : List Expr) : Expr.lexemesEach es = es.map Expr.lexemes := by
  induction es with
  | nil => rfl
  | cons e es ih => rw [Expr.lexemesEach, ih, List.map_cons]

/-! ## Legal trees -/

def TypeExpr.Legal : TypeExpr → Prop
  | .named x => isIdentifier x = true
  | .qualified p x => isIdentifier p = true ∧ isIdentifier x = true
  | .slice t => t.Legal

/-- All parameters have names. -/
structure ParamGroup.Legal (g : ParamGroup) : Prop where
  names_ne : g.names ≠ []
  names : ∀ x ∈ g.names, isIdentifier x = true
  type : g.type.Legal

structure Signature.Legal (s : Signature) : Prop where
  params : ∀ g ∈ s.params, g.Legal
  results : ∀ t ∈ s.results, t.Legal

mutual

/-- Names are identifiers, literals are valid and lists that must not be empty are not. What stands
directly before the point of a selector or an assertion has the property `beforePoint`. -/
inductive Expr.Legal (beforePoint : Expr → Prop) : Expr → Prop
  | ident : isIdentifier x = true → Expr.Legal beforePoint (.ident x)
  | selector : base.Legal beforePoint → beforePoint base → isIdentifier f = true →
    Expr.Legal beforePoint (.selector base f)
  | literal : ValidLiteral kind text → Expr.Legal beforePoint (.literal kind text)
  | call : f.Legal beforePoint → (∀ a ∈ args, a.Legal beforePoint) →
    Expr.Legal beforePoint (.call f args)
  | composite : type.Legal → (∀ a ∈ elements, a.Legal beforePoint) →
    Expr.Legal beforePoint (.composite type elements)
  | func : signature.Legal → (∀ s ∈ body, s.Legal beforePoint) →
    Expr.Legal beforePoint (.func signature body)
  | assert : value.Legal beforePoint → beforePoint value → type.Legal →
    Expr.Legal beforePoint (.assert value type)
  | not : operand.Legal beforePoint → Expr.Legal beforePoint (.not operand)
  | logic : left.Legal beforePoint → right.Legal beforePoint →
    Expr.Legal beforePoint (.logic op left right)

inductive Stmt.Legal (beforePoint : Expr → Prop) : Stmt → Prop
  | assign : targets ≠ [] → values ≠ [] → (∀ e ∈ targets, e.Legal beforePoint) →
    (∀ e ∈ values, e.Legal beforePoint) → Stmt.Legal beforePoint (.assign op targets values)
  | var : names ≠ [] → (∀ x ∈ names, isIdentifier x = true) → (∀ t ∈ type, t.Legal) →
    (∀ e ∈ values, e.Legal beforePoint) → Stmt.Legal beforePoint (.var names type values)
  | branch : test.Legal beforePoint → (∀ s ∈ yes, s.Legal beforePoint) →
    (∀ body ∈ no, ∀ s ∈ body, s.Legal beforePoint) → Stmt.Legal beforePoint (.branch test yes no)
  | loop : (∀ s ∈ init, s.Legal beforePoint) → (∀ e ∈ test, e.Legal beforePoint) →
    (∀ s ∈ post, s.Legal beforePoint) → (∀ s ∈ body, s.Legal beforePoint) →
    Stmt.Legal beforePoint (.loop init test post body)
  | ret : (∀ e ∈ values, e.Legal beforePoint) → Stmt.Legal beforePoint (.ret values)
  | expr : e.Legal beforePoint → Stmt.Legal beforePoint (.expr e)

end

/-! ## Pieces of text -/

/-- The characters that may follow any lexeme of a tree. -/
def delimiters : List Char := [' ', ',', '(', ')', '{', '}', ';', '\n']

/-- A text scanned to `ts` where one of `E`, or nothing, follows it. -/
def Scans (E cs : List Char) (ts : List Lexeme) : Prop :=
  ∀ rest, (∀ c ∈ rest.head?, c ∈ E) → lex (cs ++ rest) = ts ++ lex rest

theorem not_isNameChar (hc : c ∈ '.' :: delimiters) : isNameChar c = false :=
  forall_mem_of_all (p := (isNameChar · = false)) (by decide) c hc

namespace Scans

theorem nil : Scans E [] [] := fun _ _ => rfl

theorem mono (h : Scans E cs ts) (hends : ∀ c ∈ F, c ∈ E) : Scans F cs ts :=
  fun rest hrest => h rest fun c hc => hends c (hrest c hc)

theorem lex_eq (h : Scans E cs ts) : lex cs = ts := by
  have hlex := h [] (by simp)
  rwa [List.append_nil, lex_nil, List.append_nil] at hlex

theorem lex_before (h : Scans E cs ts) (hc : c ∈ E) (rest : List Char) :
    lex (cs ++ c :: rest) = ts ++ lex (c :: rest) := by
  refine h _ ?_
  rintro _ ⟨⟩
  exact hc

/-- A text followed by another, whose first character must let the first one end. -/
theorem append (h : Scans E cs ts) (h' : Scans F (c :: ds) us) (hc : c ∈ E) :
    Scans F (cs ++ c :: ds) (ts ++ us) := by
  intro rest hrest
  rw [List.append_assoc, List.cons_append, h.lex_before hc, ← List.cons_append, h' rest hrest,
    List.append_assoc]

theorem blank (h : Scans E cs ts) : Scans E (' ' :: cs) ts := fun rest hrest => by
  rw [List.cons_append, lex_blank, h rest hrest]

theorem name (hx : isIdentifier x = true) : Scans ('.' :: delimiters) x.toList [.name x] :=
  fun _ hrest => lex_name hx fun c hc => not_isNameChar (hrest c hc)

theorem field (hx : isIdentifier x = true) :
    Scans ('.' :: delimiters) ('.' :: x.toList) [.point, .name x] := by
  intro rest hrest
  obtain ⟨c, ds, hcs, hc, -⟩ := isIdentifier_cases hx
  have hpoint : ∀ d ∈ (x.toList ++ rest).head?, d.isDigit = false ∧ d ≠ '.' := by
    rw [hcs]
    rintro _ ⟨⟩
    refine ⟨isDigit_of_startsName hc, ?_⟩
    rintro rfl
    cases hc
  rw [List.cons_append, lex_point hpoint, name hx rest hrest]
  rfl

/-- After a closing parenthesis anything may follow. -/
theorem lex_parenthesize (h : Scans delimiters cs ts) (rest : List Char) :
    lex (parenthesize cs ++ rest) = enclosed ts ++ lex rest := by
  rw [Program.parenthesize, enclosed, List.cons_append, List.cons_append, lex_parenOpen,
    List.append_assoc, List.singleton_append, h.lex_before (by decide), lex_parenClose]
  simp

theorem parenthesize (h : Scans delimiters cs ts) : Scans E (parenthesize cs) (enclosed ts) :=
  fun rest _ => h.lex_parenthesize rest

theorem commaChars {texts : α → List Char} {lexemes : α → List Lexeme} {as : List α}
    (h : ∀ a ∈ as, Scans delimiters (texts a) (lexemes a)) :
    Scans delimiters (commaChars (as.map texts)) (commaLexemes (as.map lexemes)) := by
  match as with
  | [] => exact nil
  | [a] => exact h a (List.mem_singleton_self a)
  | a :: b :: as =>
    obtain ⟨ha, has⟩ := List.forall_mem_cons.1 h
    intro rest hrest
    simp only [List.map_cons, Program.commaChars, commaLexemes, List.append_assoc,
      List.cons_append, List.nil_append]
    rw [ha.lex_before (by decide), lex_comma, lex_blank]
    exact congrArg (lexemes a ++ .comma :: ·) (commaChars has rest hrest)

theorem nameChars (h : ∀ x ∈ names, isIdentifier x = true) :
    Scans delimiters (nameChars names) (nameLexemes names) :=
  commaChars fun x hx => (name (h x hx)).mono fun _ => .tail _

end Scans

theorem TypeExpr.Legal.scans {t : TypeExpr} (h : t.Legal) :
    Scans ('.' :: delimiters) t.chars t.lexemes := by
  induction t with
  | named x => exact .name h
  | qualified p x =>
    obtain ⟨hp, hx⟩ := h
    exact (Scans.name hp).append (.field hx) (by decide)
  | slice t ih =>
    intro rest hrest
    rw [TypeExpr.chars, List.cons_append, List.cons_append, lex_bracketOpen, lex_bracketClose,
      ih h rest hrest]
    rfl

theorem ParamGroup.Legal.scans {g : ParamGroup} (h : g.Legal) :
    Scans delimiters g.chars g.lexemes := by
  have htype := h.type.scans.mono fun _ (hc : _ ∈ delimiters) => .tail _ hc
  have hvariadic : Scans delimiters ((if g.variadic then ['.', '.', '.'] else []) ++ g.type.chars)
      ((if g.variadic then [.ellipsis] else []) ++ g.type.lexemes) := by
    split
    · intro rest hrest
      rw [List.append_assoc, List.cons_append, List.cons_append, List.cons_append, lex_ellipsis,
        List.nil_append, htype rest hrest]
      rfl
    · exact htype
  have hnames : g.names.isEmpty = false := by simpa using h.names_ne
  have hgroup := (Scans.nameChars h.names).append hvariadic.blank (by decide)
  simpa [ParamGroup.chars, ParamGroup.lexemes, hnames] using hgroup

theorem scans_resultChars (h : ∀ t ∈ results, TypeExpr.Legal t) :
    Scans delimiters (resultChars results) (resultLexemes results) := by
  have hmono {t : TypeExpr} (ht : t.Legal) : Scans delimiters t.chars t.lexemes :=
    ht.scans.mono fun _ => .tail _
  match results with
  | [] => exact .nil
  | [t] => exact (hmono (h t (List.mem_singleton_self t))).blank
  | t :: u :: ts => exact (Scans.parenthesize (.commaChars fun v hv => hmono (h v hv))).blank

theorem Signature.Legal.scans {s : Signature} (h : s.Legal) :
    Scans delimiters s.chars s.lexemes := by
  intro rest hrest
  have hparams := Scans.lex_parenthesize (.commaChars fun g hg => (h.params g hg).scans)
    (resultChars s.results ++ rest)
  rw [scans_resultChars h.results rest hrest, ← List.append_assoc, ← List.append_assoc] at hparams
  exact hparams

/-! ## Expressions and statements -/

namespace Expr

/-- An integer literal without a sign. -/
def isUnsignedInt : Expr → Bool
  | .literal .int text => text.toList.head? != some '-'
  | _ => false

/-- Whether the text of an expression E in an integer, which would take in a point. -/
def fuses : Expr → Bool
  | .literal .int _ => true
  | .not operand => decide (unary ≤ operand.tightness) && operand.fuses
  | .logic op _ right => decide (op.tightness + 1 ≤ right.tightness) && right.fuses
  | _ => false

/-- What may follow the text of an expression. -/
def ends (e : Expr) : List Char :=
  if e.fuses then delimiters else '.' :: delimiters

/-- What may follow an operand in a place that asks for the tightness `least`. -/
def operandEnds (least : Nat) (e : Expr) : List Char :=
  if least ≤ e.tightness then e.ends else '.' :: delimiters

theorem mem_ends (h : c ∈ delimiters) (e : Expr) : c ∈ e.ends := by
  unfold ends
  split
  · exact h
  · exact .tail _ h

theorem mem_operandEnds (h : c ∈ delimiters) (least : Nat) (e : Expr) :
    c ∈ e.operandEnds least := by
  unfold operandEnds
  split
  · exact mem_ends h e
  · exact .tail _ h

theorem operandEnds_primary {e : Expr} (h : e.isUnsignedInt = false) :
    e.operandEnds primary = '.' :: delimiters := by
  unfold operandEnds
  split
  · rename_i htight
    have hfuses : e.fuses = false := by
      cases e with
      | literal kind text =>
        cases kind with
        | int =>
          have hsign : text.toList.head? = some '-' := by simpa [isUnsignedInt] using h
          simp [tightness, hsign, unary, primary] at htight
        | _ => rfl
      | not _ => simp [tightness, unary, primary] at htight
      | logic op _ _ => cases op <;> simp [tightness, LogicOp.tightness, primary] at htight
      | _ => rfl
    rw [ends, hfuses, if_neg Bool.false_ne_true]
  · rfl

end Expr

theorem Scans.operand (h : Scans e.ends cs ts) (least : Nat) :
    Scans (e.operandEnds least) (operandChars least e cs) (operandLexemes least e ts) := by
  unfold operandChars operandLexemes Expr.operandEnds
  by_cases htight : e.tightness < least
  · rw [if_pos htight, if_pos htight]
    exact .parenthesize (h.mono fun _ hc => Expr.mem_ends hc e)
  · rw [if_neg htight, if_neg htight, if_pos (Nat.not_lt.1 htight)]
    exact h

namespace Scans

theorem selector (h : Scans ('.' :: delimiters) cs ts) (hf : isIdentifier f = true) :
    Scans ('.' :: delimiters) (cs ++ '.' :: f.toList) (ts ++ [.point, .name f]) :=
  h.append (.field hf) (by decide)

theorem call (h : Scans E cs ts) (hends : '(' ∈ E) (hargs : Scans delimiters ds us) :
    Scans F (cs ++ Program.parenthesize ds) (ts ++ enclosed us) :=
  h.append hargs.parenthesize hends

theorem assert (h : Scans ('.' :: delimiters) cs ts) {type : TypeExpr} (htype : type.Legal) :
    Scans E (cs ++ '.' :: Program.parenthesize type.chars)
      (ts ++ .point :: enclosed type.lexemes) := by
  refine h.append (fun rest hrest => ?_) (by decide)
  have hparens := lex_parenthesize (htype.scans.mono fun _ => .tail _) rest
  rw [List.cons_append, lex_point, hparens, List.cons_append]
  rintro _ ⟨⟩
  decide

theorem not (h : Scans E cs ts) : Scans E ('!' :: cs) (.not :: ts) := fun rest hrest => by
  rw [List.cons_append, lex_not, h rest hrest, List.cons_append]

/-- An operator between blanks. -/
theorem operator (h : Scans E cs ts) (hends : ' ' ∈ E)
    (hop : ∀ rest, lex (op ++ rest) = t :: lex rest) (h' : Scans F ds us) :
    Scans F (cs ++ ' ' :: op ++ ' ' :: ds) (ts ++ t :: us) := by
  have hright : Scans F (' ' :: (op ++ ' ' :: ds)) (t :: us) := by
    intro rest hrest
    rw [List.cons_append, lex_blank, List.append_assoc, hop, h'.blank rest hrest, List.cons_append]
  simpa using h.append hright hends

theorem space (h : Scans E cs ts) (hends : ' ' ∈ E) : Scans F (cs ++ [' ']) ts := by
  simpa using h.append nil.blank hends

theorem braces (h : Scans E cs ts) (hends : '{' ∈ E) (h' : Scans delimiters ds us) :
    Scans F (cs ++ '{' :: ds ++ ['}']) (ts ++ .braceOpen :: us ++ [.braceClose]) := by
  have hbraces : Scans F ('{' :: (ds ++ ['}'])) (.braceOpen :: (us ++ [.braceClose])) := by
    intro rest _
    rw [List.cons_append, lex_braceOpen, List.append_assoc, List.singleton_append,
      h'.lex_before (by decide), lex_braceClose]
    simp
  simpa using h.append hbraces hends

theorem lines {body : List Stmt} (h : ∀ s ∈ body, Scans delimiters (s.chars k) s.lexemes) :
    Scans delimiters (Stmt.lineChars k body) (Stmt.lineLexemes body) := by
  induction body with
  | nil => exact nil
  | cons s ss ih =>
    obtain ⟨hs, hss⟩ := List.forall_mem_cons.1 h
    intro rest hrest
    have hnext : ∀ c ∈ (Stmt.lineChars k ss ++ rest).head?, c ∈ delimiters := by
      cases ss with
      | nil => exact hrest
      | cons t ss =>
        rintro _ ⟨⟩
        decide
    rw [Stmt.lineChars, List.append_assoc, List.append_assoc, lex_lineBreak, hs _ hnext,
      ih hss rest hrest, Stmt.lineLexemes]
    simp

/-- A block and what stands before it. -/
theorem block (h : Scans E cs ts) (hends : '{' ∈ E) {body : List Stmt}
    (hbody : ∀ s ∈ body, Scans delimiters (s.chars (k + 1)) s.lexemes) :
    Scans F (cs ++ '{' :: Stmt.lineChars (k + 1) body ++ lineBreak k ++ ['}'])
      (ts ++ .braceOpen :: Stmt.lineLexemes body ++ [.lineBreak, .braceClose]) := by
  have hlines : Scans delimiters (Stmt.lineChars (k + 1) body ++ lineBreak k)
      (Stmt.lineLexemes body ++ [.lineBreak]) := by
    intro rest hrest
    rw [List.append_assoc, lines hbody _ (by rintro _ ⟨⟩; decide), lex_lineBreak]
    simp
  simpa using h.braces (F := F) hends hlines

end Scans

/-! ## Literals -/

theorem Expr.chars_literal (hkind : kind ≠ .string) (text : String) (k : Nat) :
    (Expr.literal kind text).chars k = text.toList := by
  cases kind with
  | string => exact absurd rfl hkind
  | _ => rfl

theorem Expr.ends_literal (kind : LiteralKind) (text : String) :
    (Expr.literal kind text).ends = if kind = .int then delimiters else '.' :: delimiters := by
  cases kind <;> rfl

theorem Number.scans (h : Number kind cs) (text : String) :
    Scans (Expr.literal kind text).ends cs [.literal kind (String.ofList cs)] := by
  have hend : ∀ c ∈ '.' :: delimiters, isNameChar c = false ∧ c ≠ '+' ∧ c ≠ '-' :=
    forall_mem_of_all (by decide)
  intro rest hrest
  rw [Expr.ends_literal] at hrest
  refine lex_number h fun c hc => ?_
  by_cases hkind : kind = .int
  · rw [if_pos hkind] at hrest
    obtain ⟨hname, hplus, hminus⟩ := hend c (.tail _ (hrest c hc))
    refine ⟨hname, hplus, hminus, ?_⟩
    rintro rfl
    exact absurd (hrest _ hc) (by decide)
  · rw [if_neg hkind] at hrest
    obtain ⟨hname, hplus, hminus⟩ := hend c (hrest c hc)
    exact ⟨hname, hplus, hminus, fun _ => hkind⟩

theorem Number.head_ne (h : Number kind cs) : cs.head? ≠ some '-' := by
  intro hhead
  obtain ⟨cs, rfl⟩ := List.head?_eq_some_iff.1 hhead
  cases h.lexeme.1

theorem ValidLiteral.scans (h : ValidLiteral kind text) (k : Nat) :
    Scans (Expr.literal kind text).ends ((Expr.literal kind text).chars k)
      (literalLexemes kind text) := by
  cases h with
  | @number kind cs hnumber =>
    have hlexemes : literalLexemes kind (String.ofList cs) =
        [.literal kind (String.ofList cs)] := by
      simp [literalLexemes, hnumber.head_ne]
    rw [Expr.chars_literal hnumber.kind_ne.2, hlexemes, String.toList_ofList]
    exact hnumber.scans _
  | @negative kind cs hnumber =>
    have hlexemes : literalLexemes kind (String.ofList ('-' :: cs)) =
        [.minus, .literal kind (String.ofList cs)] := by
      simp [literalLexemes, hnumber.kind_ne.2]
    rw [Expr.chars_literal hnumber.kind_ne.2, hlexemes, String.toList_ofList]
    intro rest hrest
    rw [List.cons_append, lex_minus, hnumber.scans _ rest hrest]
    rfl
  | @char cs hrune =>
    intro rest _
    have hlexemes : literalLexemes .char (String.ofList ('\'' :: cs ++ ['\''])) =
        [.literal .char (String.ofList ('\'' :: cs ++ ['\'']))] := by
      simp [literalLexemes]
    rw [Expr.chars_literal (by decide), hlexemes, String.toList_ofList, lex_rune hrune]
    rfl
  | string =>
    intro rest _
    exact lex_string text rest

/-! ## Whole trees -/

/-- Trees made of words of Go. -/
def Expr.WellFormed (e : Expr) : Prop := e.Legal fun _ => True

/-- Trees made of words of Go in which no integer stands directly before a point. -/
def Expr.Separated (e : Expr) : Prop := e.Legal fun base => base.isUnsignedInt = false

theorem scans_keyword (h : (c :: w, t) ∈ spellings) (hc : startsName c = true)
    (hd : d ∈ delimiters) (h' : Scans E (d :: cs) ts) : Scans E (c :: w ++ d :: cs) (t :: ts) := by
  intro rest hrest
  rw [List.append_assoc, lex_keyword h hc, h' rest hrest, List.cons_append]
  rintro _ ⟨⟩
  exact not_isNameChar (.tail _ hd)

theorem scans_each {es : List Expr} (h : ∀ e ∈ es, Scans e.ends (e.chars k) e.lexemes) :
    Scans delimiters (commaChars (Expr.charsEach k es))
      (commaLexemes (Expr.lexemesEach es)) := by
  rw [Expr.charsEach_eq_map, Expr.lexemesEach_eq_map]
  exact .commaChars fun e he => (h e he).mono fun _ hc => Expr.mem_ends hc e

theorem Expr.ends_not (operand : Expr) : (Expr.not operand).ends = operand.operandEnds unary := by
  simp only [ends, operandEnds, fuses]
  by_cases h : unary ≤ operand.tightness <;> simp [h]

theorem Expr.ends_logic (op : LogicOp) (left right : Expr) :
    (Expr.logic op left right).ends = right.operandEnds (op.tightness + 1) := by
  simp only [ends, operandEnds, fuses]
  by_cases h : op.tightness + 1 ≤ right.tightness <;> simp [h]

theorem scans_func {signature : Signature} (h : signature.Legal) {body : List Stmt}
    (hbody : ∀ s ∈ body, Scans delimiters (s.chars (k + 1)) s.lexemes) :
    Scans E ((Expr.func signature body).chars k) (Expr.func signature body).lexemes := by
  obtain ⟨cs, hcs⟩ : ∃ cs, signature.chars = '(' :: cs := ⟨_, rfl⟩
  have hsignature := h.scans
  rw [hcs] at hsignature
  have hhead := scans_keyword (c := 'f') (w := ['u', 'n', 'c']) (t := .func) (by decide)
    (by decide) (by decide) hsignature
  have hblock := (hhead.space (F := delimiters) (by decide)).block (F := E)
    (by decide) hbody
  simpa [Expr.chars_func, Expr.lexemes, hcs] using hblock

theorem scans_var (hnames : ∀ x ∈ names, isIdentifier x = true)
    (htype : ∀ t ∈ type, TypeExpr.Legal t) {values : List Expr}
    (hvalues : ∀ e ∈ values, Scans e.ends (e.chars k) e.lexemes) :
    Scans delimiters ((Stmt.var names type values).chars k)
      (Stmt.var names type values).lexemes := by
  have hassigned {cs : List Char} {ts : List Lexeme} (h : Scans delimiters cs ts) :
      Scans delimiters
        (cs ++ if (Expr.charsEach k values).isEmpty then []
          else [' ', '=', ' '] ++ commaChars (Expr.charsEach k values))
        (ts ++ if (Expr.lexemesEach values).isEmpty then []
          else .assign .assign :: commaLexemes (Expr.lexemesEach values)) := by
    cases values with
    | nil => simpa [Expr.charsEach, Expr.lexemesEach] using h
    | cons e es =>
      have hset := h.operator (by decide) (fun _ => lex_assignOp .assign) (scans_each hvalues)
      simpa [Expr.charsEach, Expr.lexemesEach, AssignOp.chars] using hset
  have hnames := Scans.nameChars hnames
  have hdeclared : Scans delimiters (varChars names type (Expr.charsEach k values))
      (varLexemes names type (Expr.lexemesEach values)).tail := by
    cases type with
    | none => exact hassigned (by simpa [TypeExpr.lexemesIn] using hnames)
    | some t =>
      have htype := (htype t rfl).scans.mono fun _ (hc : _ ∈ delimiters) => .tail _ hc
      exact hassigned (hnames.append htype.blank (by decide))
  exact scans_keyword (c := 'v') (w := ['a', 'r']) (t := .var) (by decide) (by decide) (by decide)
    hdeclared.blank

theorem scans_branch {test : Expr} (htest : Scans test.ends (test.chars k) test.lexemes)
    {yes : List Stmt} (hyes : ∀ s ∈ yes, Scans delimiters (s.chars (k + 1)) s.lexemes)
    {no : Option (List Stmt)}
    (hno : ∀ body ∈ no, ∀ s ∈ body, Scans delimiters (s.chars (k + 1)) s.lexemes) :
    Scans E ((Stmt.branch test yes no).chars k) (Stmt.branch test yes no).lexemes := by
  have hhead := scans_keyword (c := 'i') (w := ['f']) (t := .branch) (by decide) (by decide)
    (by decide) htest.blank
  have hyes {E : List Char} :=
    (hhead.space (F := delimiters) (Expr.mem_ends (by decide) test)).block (F := E)
      (by decide) hyes
  cases no with
  | none =>
    simpa [Stmt.chars_branch, Stmt.lexemes, Stmt.elseChars_none, Stmt.elseLexemes] using hyes
  | some body =>
    have helse := scans_keyword (c := 'e') (w := ['l', 's', 'e']) (t := .otherwise) (by decide)
      (by decide) (by decide) (Scans.nil (E := delimiters)).blank
    have hno := (helse.block (F := E) (by decide) (hno body rfl)).blank
    have hboth := (hyes (E := delimiters)).append hno (by decide)
    simpa [Stmt.chars_branch, Stmt.lexemes, Stmt.elseChars_some, Stmt.elseLexemes] using hboth

/-- The head of a loop up to the brace, before which a blank stands if the head is not empty. -/
theorem lex_loopHeadChars (hinit : Option.Rel (Scans delimiters) init is)
    (htest : Option.Rel (Scans delimiters) test ts)
    (hpost : Option.Rel (Scans delimiters) post ps) (rest : List Char) :
    lex (loopHeadChars init test post ++ rest) = loopHeadLexemes is ts ps ++ lex rest := by
  have hpart {part : Option (List Char)} {us : Option (List Lexeme)}
      (h : Option.Rel (Scans delimiters) part us) (rest : List Char) :
      lex (part.getD [] ++ ';' :: rest) = us.getD [] ++ .semicolon :: lex rest := by
    cases h with
    | some h => rw [← lex_semicolon]; exact h.lex_before (by decide) rest
    | none => exact lex_semicolon
  have hlast {cs : List Char} {us : List Lexeme} (h : Scans delimiters cs us) (rest : List Char) :
      lex (cs ++ ' ' :: rest) = us ++ lex rest := by
    rw [h.lex_before (by decide), lex_blank]
  cases hpost with
  | some hpost =>
    simp [loopHeadChars, loopHeadLexemes, hpart hinit, hpart htest, hlast hpost]
  | none =>
    cases hinit with
    | some hinit =>
      have hinit := hpart (.some hinit)
      simp only [Option.getD_some] at hinit
      simp [loopHeadChars, loopHeadLexemes, hinit, hpart htest]
    | none =>
      cases htest with
      | some htest => simp [loopHeadChars, loopHeadLexemes, hlast htest]
      | none => rfl

theorem scans_loop {init : Option Stmt} (hinit : ∀ s ∈ init, Scans delimiters (s.chars k) s.lexemes)
    {test : Option Expr} (htest : ∀ e ∈ test, Scans e.ends (e.chars k) e.lexemes)
    {post : Option Stmt} (hpost : ∀ s ∈ post, Scans delimiters (s.chars k) s.lexemes)
    {body : List Stmt} (hbody : ∀ s ∈ body, Scans delimiters (s.chars (k + 1)) s.lexemes) :
    Scans E ((Stmt.loop init test post body).chars k)
      (Stmt.loop init test post body).lexemes := by
  have hstmt {part : Option Stmt} (h : ∀ s ∈ part, Scans delimiters (s.chars k) s.lexemes) :
      Option.Rel (Scans delimiters) (Stmt.charsIn k part) (Stmt.lexemesIn part) := by
    cases part with
    | none => exact .none
    | some s => exact .some (h s rfl)
  have htest : Option.Rel (Scans delimiters) (Expr.charsIn k test) (Expr.lexemesIn test) := by
    cases test with
    | none => exact .none
    | some e => exact .some ((htest e rfl).mono fun _ hc => Expr.mem_ends hc e)
  have hhead : Scans ['{']
      (['f', 'o', 'r', ' '] ++
        loopHeadChars (Stmt.charsIn k init) (Expr.charsIn k test) (Stmt.charsIn k post))
      (.loop ::
        loopHeadLexemes (Stmt.lexemesIn init) (Expr.lexemesIn test) (Stmt.lexemesIn post)) := by
    intro rest _
    have hblank : EndsName (' ' :: (loopHeadChars (Stmt.charsIn k init) (Expr.charsIn k test)
        (Stmt.charsIn k post) ++ rest)) := by
      rintro _ ⟨⟩
      decide
    have hword := lex_keyword (c := 'f') (w := ['o', 'r']) (t := .loop) (by decide) (by decide)
      hblank
    rw [lex_blank, lex_loopHeadChars (hstmt hinit) htest (hstmt hpost)] at hword
    simpa using hword
  have hblock := hhead.block (F := E) (by decide) hbody
  simpa [Stmt.chars_loop, Stmt.lexemes] using hblock

theorem scans_ret {values : List Expr} (h : ∀ e ∈ values, Scans e.ends (e.chars k) e.lexemes) :
    Scans delimiters ((Stmt.ret values).chars k) (Stmt.ret values).lexemes := by
  match values with
  | [] =>
    intro rest hrest
    exact lex_keyword (c := 'r') (w := ['e', 't', 'u', 'r', 'n']) (t := .ret) (by decide)
      (by decide) fun c hc => not_isNameChar (.tail _ (hrest c hc))
  | e :: es =>
    exact scans_keyword (c := 'r') (w := ['e', 't', 'u', 'r', 'n']) (t := .ret) (by decide)
      (by decide) (by decide) (scans_each h).blank

mutual

/-- The scanner finds the lexemes of a tree in its text. -/
theorem Expr.Legal.scans (k : Nat) :
    {e : Expr} → e.Legal (fun base => base.isUnsignedInt = false) →
      Scans e.ends (e.chars k) e.lexemes
  | _, .ident hx => .name hx
  | _, .selector hbase hbefore hf =>
    .selector (Expr.operandEnds_primary hbefore ▸ (hbase.scans k).operand Expr.primary) hf
  | _, .literal h => h.scans k
  | _, .call hf hargs =>
    .call ((hf.scans k).operand Expr.primary) (Expr.mem_operandEnds (by decide) _ _)
      (scans_each fun a ha => (hargs a ha).scans k)
  | _, .composite htype helements =>
    htype.scans.braces (by decide) (scans_each fun a ha => (helements a ha).scans k)
  | _, .func hsignature hbody => scans_func hsignature fun s hs => (hbody s hs).scans (k + 1)
  | _, .assert hvalue hbefore htype =>
    .assert (Expr.operandEnds_primary hbefore ▸ (hvalue.scans k).operand Expr.primary) htype
  | _, .not h => Expr.ends_not _ ▸ ((h.scans k).operand Expr.unary).not
  | _, .logic hleft hright =>
    Expr.ends_logic _ _ _ ▸ ((hleft.scans k).operand _).operator
      (Expr.mem_operandEnds (by decide) _ _) (fun _ => lex_logicOp _) ((hright.scans k).operand _)

theorem Stmt.Legal.scans (k : Nat) :
    {s : Stmt} → s.Legal (fun base => base.isUnsignedInt = false) →
      Scans delimiters (s.chars k) s.lexemes
  | _, .assign _ _ htargets hvalues =>
    (scans_each fun e he => (htargets e he).scans k).operator (by decide)
      (fun _ => lex_assignOp _) (scans_each fun e he => (hvalues e he).scans k)
  | _, .var _ hnames htype hvalues =>
    scans_var hnames htype fun e he => (hvalues e he).scans k
  | _, .branch htest hyes hno =>
    scans_branch (htest.scans k) (fun s hs => (hyes s hs).scans (k + 1))
      fun body hbody s hs => (hno body hbody s hs).scans (k + 1)
  | _, .loop hinit htest hpost hbody =>
    scans_loop (fun s hs => (hinit s hs).scans k) (fun e he => (htest e he).scans k)
      (fun s hs => (hpost s hs).scans k) fun s hs => (hbody s hs).scans (k + 1)
  | _, .ret hvalues => scans_ret fun e he => (hvalues e he).scans k
  | _, .expr h => (h.scans k).mono fun _ hc => Expr.mem_ends hc _

end

end SmallLisp.Program
