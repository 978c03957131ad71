import SmallLisp.Proofs.Printing.Parse

/-!
# Reading printed trees back

`Reads level ts e` says that the lexemes `ts` are read as `e` in every place where operators may
bind as loosely as `level`. It is closed under each form of expression, so that the lexemes of every
legal tree are read as that tree (`Expr.Legal.reads`).
-/

namespace SmallLisp.Program

/-! ## Reading expressions back -/

/-- How tightly the lexeme at hand takes hold of the operand before it. -/
def grip : List Lexeme → Nat
  | .point :: _ | .parenOpen :: _ => Expr.primary
  | .logic op :: _ => op.tightness
  | _ => 0

/-- No brace of a composite literal follows a name or the name of a field. -/
def Closed (rest : List Lexeme) : Prop := ∀ x, composite? (.name x :: rest) = none

/-- What may follow an expression whose operators bind at least as tightly as `level`. -/
structure Follows (level : Nat) (rest : List Lexeme) : Prop where
  grip : grip rest ≤ level
  closed : Closed rest

/-- The lexemes `ts` are read as `e` in every place where operators may bind as loosely as
`level`. -/
structure Reads (level : Nat) (ts : List Lexeme) (e : Expr) : Prop where
  opens : opensExpr ts = true
  read : ∀ least ≤ level, ∀ rest, Follows level rest → ∀ e' rest',
    ReadRest least e rest e' rest' → ReadExpr least (ts ++ rest) e' rest'

theorem opensExpr_append (h : opensExpr ts = true) (rest : List Lexeme) :
    opensExpr (ts ++ rest) = true := by
  cases ts with
  | nil => cases h
  | cons t ts => cases t <;> first | rfl | cases h

/-- Whether a lexeme goes on with a name as a type or opens the elements of one. -/
def Lexeme.extendsType : Lexeme → Bool
  | .point | .braceOpen => true
  | _ => false

theorem closed_cons (h : t.extendsType = false) (ts : List Lexeme) : Closed (t :: ts) := by
  intro x
  cases t with
  | point | braceOpen => cases h
  | _ => rfl

theorem Closed.point (h : Closed rest) (f : String) : Closed (.point :: .name f :: rest) := by
  intro x
  have hname := h f
  simp only [composite?, readType]
  split
  · rename_i heq
    cases heq
    simpa [composite?, readType] using hname
  · rfl

theorem closed_block (ts : List Lexeme) : Closed (.braceOpen :: .lineBreak :: ts) := fun _ => rfl

theorem follows_nil : Follows 0 [] := ⟨Nat.le_refl 0, fun _ => rfl⟩

theorem Follows.mono (h : Follows level rest) (hlevel : level ≤ level') : Follows level' rest :=
  ⟨Nat.le_trans h.grip hlevel, h.closed⟩

theorem LogicOp.tightness_lt (op : LogicOp) : op.tightness < Expr.primary := by
  cases op <;> decide

/-- An operand ends before an operator that binds looser than its place asks. -/
theorem goesOnOperand_of_grip (h : grip rest < least) (hleast : least ≤ Expr.primary) :
    goesOnOperand least rest = false := by
  unfold goesOnOperand
  split
  · exact absurd h (Nat.not_lt.2 hleast)
  · exact absurd h (Nat.not_lt.2 hleast)
  · exact decide_eq_false (Nat.not_le.2 h)
  · rfl

/-- No lexeme takes hold exactly as tightly as an operator in front. -/
theorem grip_lt_unary (h : grip rest ≤ Expr.unary) : grip rest < Expr.unary := by
  unfold grip at h ⊢
  split at h
  · exact absurd h (by decide)
  · exact absurd h (by decide)
  · rename_i op _
    cases op <;> decide
  · decide

namespace Reads

theorem mono (h : Reads level ts e) (hlevel : level' ≤ level) : Reads level' ts e where
  opens := h.opens
  read _ hleast _ hrest := h.read _ (Nat.le_trans hleast hlevel) _ (hrest.mono hlevel)

/-- An operand is read as a whole where nothing holds it as tightly as its place asks. -/
theorem read_alone (h : Reads level ts e) (rest : List Lexeme) (hlevel : level ≤ Expr.primary)
    (hgrip : grip rest < level) (hrest : Closed rest) : ReadExpr level (ts ++ rest) e rest :=
  h.read level (Nat.le_refl _) rest ⟨Nat.le_of_lt hgrip, hrest⟩ e rest
    (.stop (goesOnOperand_of_grip hgrip hlevel))

theorem ident (x : String) : Reads Expr.primary [.name x] (.ident x) where
  opens := rfl
  read _ _ _ hrest _ _ h := .ident (hrest.closed x) h

theorem literal (kind : LiteralKind) (text : String) :
    Reads Expr.primary [.literal kind text] (.literal kind text) where
  opens := rfl
  read _ _ _ _ _ _ h := .literal h

theorem negative (kind : LiteralKind) (cs : List Char) :
    Reads Expr.unary [.minus, .literal kind (String.ofList cs)]
      (.literal kind (String.ofList ('-' :: cs))) where
  opens := rfl
  read _ _ _ _ _ _ h := .negative (by rwa [String.toList_ofList])

theorem parens (h : Reads 1 ts e) : Reads Expr.primary (enclosed ts) e where
  opens := rfl
  read least _ rest _ e' rest' hread := by
    have hinner := h.read_alone (.parenClose :: rest) (by decide) Nat.one_pos (closed_cons rfl rest)
    simpa [enclosed] using ReadExpr.parens hinner hread

theorem selector (h : Reads Expr.primary ts e) (f : String) :
    Reads Expr.primary (ts ++ [.point, .name f]) (.selector e f) where
  opens := opensExpr_append h.opens _
  read least hleast rest hrest e' rest' hread := by
    rw [List.append_assoc]
    exact h.read least hleast (.point :: .name f :: rest)
      ⟨Nat.le_refl _, hrest.closed.point f⟩ e' rest' (.selector hread)

theorem exprs {f : α → List Lexeme} {g : α → Expr} {as : List α} (hne : as ≠ [])
    (h : ∀ a ∈ as, Reads 1 (f a) (g a)) (rest : List Lexeme) (hrest : Follows 0 rest)
    (hcomma : rest.head? ≠ some .comma) :
    ReadExprs (commaLexemes (as.map f) ++ rest) (as.map g) rest := by
  match as with
  | [a] =>
    exact .last ((h a (List.mem_singleton_self a)).read_alone rest (by decide)
      (Nat.lt_succ_of_le hrest.grip) hrest.closed) hcomma
  | a :: b :: as =>
    obtain ⟨ha, has⟩ := List.forall_mem_cons.1 h
    have htail := Reads.exprs (List.cons_ne_nil b as) has rest hrest hcomma
    simp only [List.map_cons, commaLexemes, List.append_assoc, List.cons_append] at htail ⊢
    exact .cons (ha.read_alone (.comma :: _) (by decide) Nat.one_pos (closed_cons rfl _)) htail

theorem opens_comma {f : α → List Lexeme} {g : α → Expr} {as : List α} (hne : as ≠ [])
    (h : ∀ a ∈ as, Reads 1 (f a) (g a)) : opensExpr (commaLexemes (as.map f)) = true := by
  obtain ⟨a, as, rfl⟩ := List.exists_cons_of_ne_nil hne
  obtain ⟨us, hus⟩ := commaLexemes_cons (f a) (as.map f)
  rw [List.map_cons, hus]
  exact opensExpr_append (h a List.mem_cons_self).opens us

theorem args {f : α → List Lexeme} {g : α → Expr} {as : List α} {close : Lexeme}
    (hclose : close = .parenClose ∨ close = .braceClose)
    (h : ∀ a ∈ as, Reads 1 (f a) (g a)) (rest : List Lexeme) :
    ReadArgs close (commaLexemes (as.map f) ++ close :: rest) (as.map g) rest := by
  cases as with
  | nil => exact .nil
  | cons a as =>
    have hfollows : Follows 0 (close :: rest) := by
      rcases hclose with rfl | rfl <;> exact ⟨Nat.le_refl 0, closed_cons rfl rest⟩
    have hread := Reads.exprs (List.cons_ne_nil a as) h (close :: rest) hfollows
      (by rcases hclose with rfl | rfl <;> simp)
    have hopens := opensExpr_append (opens_comma (List.cons_ne_nil a as) h) (close :: rest)
    refine .exprs (fun hhead => ?_) hread
    obtain ⟨us, hus⟩ := List.head?_eq_some_iff.1 hhead
    rw [hus] at hopens
    rcases hclose with rfl | rfl <;> cases hopens

theorem call {f : α → List Lexeme} {g : α → Expr} {as : List α}
    (h : Reads Expr.primary ts e) (hargs : ∀ a ∈ as, Reads 1 (f a) (g a)) :
    Reads Expr.primary (ts ++ enclosed (commaLexemes (as.map f))) (.call e (as.map g)) where
  opens := opensExpr_append h.opens _
  read least hleast rest hrest e' rest' hread := by
    have hcall := h.read least hleast
      (.parenOpen :: (commaLexemes (as.map f) ++ .parenClose :: rest))
      ⟨Nat.le_refl _, closed_cons rfl _⟩ e' rest' (.call (args (.inl rfl) hargs rest) hread)
    simpa [enclosed] using hcall

theorem assert (h : Reads Expr.primary ts e) (type : TypeExpr) :
    Reads Expr.primary (ts ++ .point :: enclosed type.lexemes) (.assert e type) where
  opens := opensExpr_append h.opens _
  read least hleast rest hrest e' rest' hread := by
    have htype := readType_lexemes type (.parenClose :: rest) (by simp)
    have hassert := h.read least hleast
      (.point :: .parenOpen :: (type.lexemes ++ .parenClose :: rest))
      ⟨Nat.le_refl _, fun _ => rfl⟩ e' rest' (.assert htype hread)
    simpa [enclosed] using hassert

theorem not (h : Reads Expr.unary ts e) : Reads Expr.unary (.not :: ts) (.not e) where
  opens := rfl
  read least _ rest hrest e' rest' hread :=
    .not (h.read_alone rest (by decide) (grip_lt_unary hrest.grip) hrest.closed) hread

theorem logic (op : LogicOp) (hl : Reads op.tightness ts l)
    (hr : Reads (op.tightness + 1) us r) :
    Reads op.tightness (ts ++ .logic op :: us) (.logic op l r) where
  opens := opensExpr_append hl.opens _
  read least hleast rest hrest e' rest' hread := by
    have hright := hr.read_alone rest op.tightness_lt (Nat.lt_succ_of_le hrest.grip) hrest.closed
    have hlogic := hl.read least hleast (.logic op :: (us ++ rest))
      ⟨Nat.le_refl _, closed_cons rfl _⟩ e' rest' (.logic hleast hright hread)
    simpa using hlogic

end Reads

section
variable {es : List Expr} (h : ∀ e ∈ es, Reads 1 e.lexemes e)
include h

theorem opens_lexemesEach (hne : es ≠ []) :
    opensExpr (commaLexemes (Expr.lexemesEach es)) = true := by
  rw [Expr.lexemesEach_eq_map]
  exact Reads.opens_comma (g := id) hne h

theorem readExprs_lexemes (hne : es ≠ []) (rest : List Lexeme) (hrest : Follows 0 rest)
    (hcomma : rest.head? ≠ some .comma) :
    ReadExprs (commaLexemes (Expr.lexemesEach es) ++ rest) es rest := by
  have hread := Reads.exprs (g := id) hne h rest hrest hcomma
  rwa [List.map_id, ← Expr.lexemesEach_eq_map] at hread

theorem readArgs_lexemes (hclose : close = .parenClose ∨ close = .braceClose)
    (rest : List Lexeme) :
    ReadArgs close (commaLexemes (Expr.lexemesEach es) ++ close :: rest) es rest := by
  have hread := Reads.args (g := id) hclose h rest
  rwa [List.map_id, ← Expr.lexemesEach_eq_map] at hread

end

/-! ## Reading statements back -/

/-- What may follow a statement: a line break, the semicolon of a loop or the brace of its body. -/
inductive EndsStmt : List Lexeme → Prop
  | lineBreak : EndsStmt (.lineBreak :: ts)
  | semicolon : EndsStmt (.semicolon :: ts)
  | block : EndsStmt (.braceOpen :: .lineBreak :: ts)

/-- The lexemes `ts` are read as `s` wherever a statement may stand. -/
def ReadsStmt (ts : List Lexeme) (s : Stmt) : Prop :=
  ∀ rest, EndsStmt rest → ReadStmt (ts ++ rest) s rest

namespace EndsStmt
variable (h : EndsStmt rest)
include h

theorem follows : Follows 0 rest := by
  cases h with
  | lineBreak | semicolon => exact ⟨Nat.le_refl 0, closed_cons rfl _⟩
  | block => exact ⟨Nat.le_refl 0, fun _ => rfl⟩

theorem head_ne (ht : t ∉ [.lineBreak, .semicolon, .braceOpen]) : rest.head? ≠ some t := by
  rintro hhead
  cases h <;> cases hhead <;> exact ht (by simp)

end EndsStmt

theorem exists_lineBreak (body : List Stmt) (ts : List Lexeme) :
    ∃ us, Stmt.lineLexemes body ++ .lineBreak :: ts = .lineBreak :: us := by
  cases body with
  | nil => exact ⟨ts, rfl⟩
  | cons s ss => exact ⟨_, rfl⟩

theorem readLines_lexemes {body : List Stmt} (h : ∀ s ∈ body, ReadsStmt s.lexemes s)
    (rest : List Lexeme) :
    ReadLines (Stmt.lineLexemes body ++ .lineBreak :: .braceClose :: rest) body rest := by
  induction body with
  | nil => exact .nil
  | cons s ss ih =>
    obtain ⟨hs, hss⟩ := List.forall_mem_cons.1 h
    obtain ⟨us, hus⟩ := exists_lineBreak ss (.braceClose :: rest)
    have hstmt := hs (Stmt.lineLexemes ss ++ .lineBreak :: .braceClose :: rest) (hus ▸ .lineBreak)
    simpa [Stmt.lineLexemes] using ReadLines.cons hstmt (ih hss)

theorem Reads.func {signature : Signature} (hsignature : signature.Legal) {body : List Stmt}
    (hbody : ∀ s ∈ body, ReadsStmt s.lexemes s) :
    Reads Expr.primary (Expr.func signature body).lexemes (.func signature body) where
  opens := rfl
  read least _ rest _ e' rest' hread := by
    have hfunc := ReadExpr.func (readSignature_lexemes hsignature _) (readLines_lexemes hbody rest)
      hread
    simpa [Expr.lexemes] using hfunc

theorem composite?_lexemes (type : TypeExpr) (hu : u ≠ .lineBreak) (us : List Lexeme) :
    composite? (type.lexemes ++ .braceOpen :: u :: us) = some (type, u :: us) := by
  have htype := readType_lexemes type (.braceOpen :: u :: us) (by simp)
  simp [composite?, htype, hu]

theorem Reads.composite (type : TypeExpr) {elements : List Expr}
    (h : ∀ e ∈ elements, Reads 1 e.lexemes e) :
    Reads Expr.primary (Expr.composite type elements).lexemes (.composite type elements) where
  opens := by
    cases type <;> rfl
  read least _ rest _ e' rest' hread := by
    have helements := readArgs_lexemes h (.inr rfl) rest
    -- The brace opens no block, for the first element or the closing brace follows it.
    obtain ⟨u, us, hus, hu⟩ : ∃ u us,
        commaLexemes (Expr.lexemesEach elements) ++ .braceClose :: rest = u :: us ∧
          u ≠ .lineBreak := by
      cases elements with
      | nil => exact ⟨_, _, rfl, by simp⟩
      | cons e es =>
        have hopens := opensExpr_append (opens_lexemesEach h (List.cons_ne_nil e es))
          (.braceClose :: rest)
        cases hlexemes : commaLexemes (Expr.lexemesEach (e :: es)) ++ .braceClose :: rest with
        | nil => rw [hlexemes] at hopens; cases hopens
        | cons u us =>
          refine ⟨u, us, rfl, ?_⟩
          rintro rfl
          rw [hlexemes] at hopens
          cases hopens
    rw [hus] at helements
    have hcomposite := ReadExpr.composite (composite?_lexemes type hu us) helements hread
    rw [← hus] at hcomposite
    simpa [Expr.lexemes] using hcomposite

namespace ReadsStmt

theorem expr (h : Reads 1 e.lexemes e) : ReadsStmt e.lexemes (.expr e) := by
  intro rest hrest
  have hread := h.read_alone rest (by decide) (Nat.lt_succ_of_le hrest.follows.grip)
    hrest.follows.closed
  exact .expr (opensExpr_append h.opens rest) (.last hread (hrest.head_ne (by decide)))
    (by cases hrest <;> rfl)

theorem assign (op : AssignOp) {targets values : List Expr} (htargets : targets ≠ [])
    (hvalues : values ≠ []) (ht : ∀ e ∈ targets, Reads 1 e.lexemes e)
    (hv : ∀ e ∈ values, Reads 1 e.lexemes e) :
    ReadsStmt (Stmt.assign op targets values).lexemes (.assign op targets values) := by
  intro rest hrest
  have hopens := opensExpr_append (opens_lexemesEach ht htargets)
    (.assign op :: (commaLexemes (Expr.lexemesEach values) ++ rest))
  have hleft := readExprs_lexemes ht htargets
    (.assign op :: (commaLexemes (Expr.lexemesEach values) ++ rest))
    ⟨Nat.le_refl 0, closed_cons rfl _⟩ (by simp)
  have hright := readExprs_lexemes hv hvalues rest hrest.follows (hrest.head_ne (by decide))
  simpa [Stmt.lexemes] using ReadStmt.assign hopens hleft hright

theorem var {names : List String} (hnames : names ≠ []) (type : Option TypeExpr)
    {values : List Expr} (h : ∀ e ∈ values, Reads 1 e.lexemes e) :
    ReadsStmt (Stmt.var names type values).lexemes (.var names type values) := by
  intro rest hrest
  cases values with
  | nil =>
    have hdeclared := readDeclared_lexemes hnames type rest (by cases hrest <;> rfl)
      (hrest.head_ne (by decide)) (hrest.head_ne (by decide))
    simpa [Stmt.lexemes, varLexemes, Expr.lexemesEach] using
      ReadStmt.var hdeclared (.none (by cases hrest <;> rfl))
  | cons e es =>
    have hdeclared := readDeclared_lexemes hnames type
      (.assign .assign :: (commaLexemes (Expr.lexemesEach (e :: es)) ++ rest)) rfl (by simp)
      (by simp)
    have hvalues := readExprs_lexemes h (List.cons_ne_nil e es) rest hrest.follows
      (hrest.head_ne (by decide))
    simpa [Stmt.lexemes, varLexemes, Expr.lexemesEach] using
      ReadStmt.var hdeclared (.exprs hvalues)

theorem branch {test : Expr} (htest : Reads 1 test.lexemes test) {yes : List Stmt}
    (hyes : ∀ s ∈ yes, ReadsStmt s.lexemes s) {no : Option (List Stmt)}
    (hno : ∀ body ∈ no, ∀ s ∈ body, ReadsStmt s.lexemes s) :
    ReadsStmt (Stmt.branch test yes no).lexemes (.branch test yes no) := by
  intro rest hrest
  have hblock (tail : List Lexeme) : ReadExpr 1 (test.lexemes ++ .braceOpen ::
      (Stmt.lineLexemes yes ++ .lineBreak :: .braceClose :: tail)) test
      (.braceOpen :: (Stmt.lineLexemes yes ++ .lineBreak :: .braceClose :: tail)) := by
    obtain ⟨us, hus⟩ := exists_lineBreak yes (.braceClose :: tail)
    rw [hus]
    exact htest.read_alone _ (by decide) Nat.one_pos (closed_block us)
  cases no with
  | none =>
    simpa [Stmt.lexemes, Stmt.elseLexemes] using ReadStmt.branch (hblock rest)
      (readLines_lexemes hyes rest) (.none (hrest.head_ne (by decide)))
  | some body =>
    simpa [Stmt.lexemes, Stmt.elseLexemes] using ReadStmt.branch (hblock _)
      (readLines_lexemes hyes _) (.block (readLines_lexemes (hno body rfl) rest))

theorem ret {values : List Expr} (h : ∀ e ∈ values, Reads 1 e.lexemes e) :
    ReadsStmt (Stmt.ret values).lexemes (.ret values) := by
  intro rest hrest
  cases values with
  | nil => exact .ret (by cases hrest <;> rfl)
  | cons e es =>
    have hne := List.cons_ne_nil e es
    have hread := readExprs_lexemes h hne rest hrest.follows (hrest.head_ne (by decide))
    exact .retValues (opensExpr_append (opens_lexemesEach h hne) rest) hread

end ReadsStmt

theorem readTest_lexemes {test : Option Expr} (h : ∀ e ∈ test, Reads 1 e.lexemes e)
    (ts : List Lexeme) :
    ReadTest ((Expr.lexemesIn test).getD [] ++ .semicolon :: ts) test ts := by
  cases test with
  | none => exact .none
  | some e =>
    exact .some ((h e rfl).read_alone (.semicolon :: ts) (by decide) Nat.one_pos
      (closed_cons rfl ts))

theorem readPost_lexemes {post : Option Stmt} (h : ∀ s ∈ post, ReadsStmt s.lexemes s)
    (ts : List Lexeme) :
    ReadPost ((Stmt.lexemesIn post).getD [] ++ .braceOpen :: .lineBreak :: ts) post
      (.braceOpen :: .lineBreak :: ts) := by
  cases post with
  | none => exact .none
  | some s => exact .some (h s rfl _ .block)

theorem readLoopHead_lexemes {init : Option Stmt} (hinit : ∀ s ∈ init, ReadsStmt s.lexemes s)
    {test : Option Expr} (htest : ∀ e ∈ test, Reads 1 e.lexemes e) {post : Option Stmt}
    (hpost : ∀ s ∈ post, ReadsStmt s.lexemes s) (ts : List Lexeme) :
    ReadLoopHead (loopHeadLexemes (Stmt.lexemesIn init) (Expr.lexemesIn test)
      (Stmt.lexemesIn post) ++ .braceOpen :: .lineBreak :: ts) init test post
      (.braceOpen :: .lineBreak :: ts) := by
  have hpost' := readPost_lexemes hpost ts
  have htest' := readTest_lexemes htest
    ((Stmt.lexemesIn post).getD [] ++ .braceOpen :: .lineBreak :: ts)
  cases init with
  | some s =>
    simpa [loopHeadLexemes, Stmt.lexemesIn] using
      ReadLoopHead.initClauses (hinit s rfl _ .semicolon) htest' hpost'
  | none =>
    cases post with
    | some s =>
      simpa [loopHeadLexemes, Stmt.lexemesIn] using ReadLoopHead.clauses htest' hpost'
    | none =>
      cases test with
      | none => exact .endless
      | some e => exact .test (ReadsStmt.expr (htest e rfl) _ .block) (by simp)

theorem ReadsStmt.loop {init : Option Stmt} (hinit : ∀ s ∈ init, ReadsStmt s.lexemes s)
    {test : Option Expr} (htest : ∀ e ∈ test, Reads 1 e.lexemes e) {post : Option Stmt}
    (hpost : ∀ s ∈ post, ReadsStmt s.lexemes s) {body : List Stmt}
    (hbody : ∀ s ∈ body, ReadsStmt s.lexemes s) :
    ReadsStmt (Stmt.loop init test post body).lexemes (.loop init test post body) := by
  intro rest hrest
  obtain ⟨us, hus⟩ := exists_lineBreak body (.braceClose :: rest)
  have hhead := readLoopHead_lexemes hinit htest hpost us
  rw [← hus] at hhead
  simpa [Stmt.lexemes] using ReadStmt.loop hhead (readLines_lexemes hbody rest)

/-! ## Reading whole trees back -/

theorem reads_literal (kind : LiteralKind) (text : String) :
    Reads (Expr.literal kind text).tightness (literalLexemes kind text) (.literal kind text) := by
  by_cases h : kind ≠ .string ∧ text.toList.head? = some '-'
  · obtain ⟨hkind, hsign⟩ := h
    obtain ⟨cs, hcs⟩ := List.head?_eq_some_iff.1 hsign
    obtain rfl : text = String.ofList ('-' :: cs) := by rw [← hcs, String.ofList_toList]
    have htight : (Expr.literal kind (String.ofList ('-' :: cs))).tightness = Expr.unary := by
      cases kind with
      | string => exact absurd rfl hkind
      | _ => simp [Expr.tightness]
    rw [htight, literalLexemes, if_pos ⟨hkind, hsign⟩, hcs]
    exact .negative kind cs
  · have htight : (Expr.literal kind text).tightness = Expr.primary := by
      cases kind with
      | string => rfl
      | _ => exact if_neg (by simpa using h)
    rw [htight, literalLexemes, if_neg h]
    exact .literal kind text

theorem Expr.one_le_tightness (e : Expr) : 1 ≤ e.tightness := by
  unfold tightness
  split
  · rename_i op _ _
    cases op <;> decide
  · decide
  · decide
  · split <;> decide
  · decide

theorem Reads.operand (h : Reads e.tightness ts e) (hlevel : level ≤ Expr.primary) :
    Reads level (operandLexemes level e ts) e := by
  unfold operandLexemes
  split
  · exact (parens (h.mono e.one_le_tightness)).mono hlevel
  · exact h.mono (by omega)

mutual

theorem Expr.Legal.reads : {e : Expr} → e.Legal P → Reads e.tightness e.lexemes e
  | _, .ident _ => .ident _
  | _, .selector hbase _ _ => (hbase.reads.operand (Nat.le_refl _)).selector _
  | _, .literal _ => reads_literal _ _
  | _, .call hf hargs => by
    have h := (hf.reads.operand (Nat.le_refl _)).call (g := id) fun a ha =>
      (hargs a ha).reads.mono a.one_le_tightness
    rwa [List.map_id, ← Expr.lexemesEach_eq_map] at h
  | _, .composite _ helements =>
    .composite _ fun e he => (helements e he).reads.mono e.one_le_tightness
  | _, .func hsignature hbody => .func hsignature fun s hs => (hbody s hs).reads
  | _, .assert hvalue _ _ => (hvalue.reads.operand (Nat.le_refl _)).assert _
  | _, .not h => (h.reads.operand (by decide)).not
  | _, .logic hleft hright =>
    .logic _ (hleft.reads.operand (Nat.le_of_lt (LogicOp.tightness_lt _)))
      (hright.reads.operand (LogicOp.tightness_lt _))

theorem Stmt.Legal.reads : {s : Stmt} → s.Legal P → ReadsStmt s.lexemes s
  | _, .assign htargets hvalues ht hv =>
    .assign _ htargets hvalues (fun e he => (ht e he).reads.mono e.one_le_tightness)
      fun e he => (hv e he).reads.mono e.one_le_tightness
  | _, .var hnames _ _ hvalues =>
    .var hnames _ fun e he => (hvalues e he).reads.mono e.one_le_tightness
  | _, .branch htest hyes hno =>
    .branch (htest.reads.mono (Expr.one_le_tightness _)) (fun s hs => (hyes s hs).reads)
      fun body hbody s hs => (hno body hbody s hs).reads
  | _, .loop hinit htest hpost hbody =>
    .loop (fun s hs => (hinit s hs).reads)
      (fun e he => (htest e he).reads.mono e.one_le_tightness)
      (fun s hs => (hpost s hs).reads) fun s hs => (hbody s hs).reads
  | _, .ret hvalues => .ret fun e he => (hvalues e he).reads.mono e.one_le_tightness
  | _, .expr h => .expr (h.reads.mono (Expr.one_le_tightness _))

end

end SmallLisp.Program
