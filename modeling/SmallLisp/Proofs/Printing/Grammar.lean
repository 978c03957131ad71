import SmallLisp.Proofs.Printing.ReadBack

/-!
# A grammar of expressions

`Phrase` is the grammar of the expressions made of names, strings, logical operators, selectors,
calls and assertions. It names ranks instead of the tightness that the printer compares. A printed
expression is a phrase for its tree and for no other, and no phrase for the tree has fewer
parentheses.
-/

namespace SmallLisp.Program

/-- The ranks of phrases, the loosest first. -/
inductive Rank where
  | or
  | and
  | unary
  | primary

inductive TypePhrase : List Lexeme → TypeExpr → Prop
  | named (x : String) : TypePhrase [.name x] (.named x)
  | qualified (p x : String) : TypePhrase [.name p, .point, .name x] (.qualified p x)
  | slice : TypePhrase ts t → TypePhrase (.bracketOpen :: .bracketClose :: ts) (.slice t)

/-- The lexemes of an expression of a rank. The right operand of a binary operator is of a tighter
rank than the whole, so that operators associate to the left. Parentheses leave no trace in the
tree. -/
inductive Phrase : Rank → List Lexeme → Expr → Prop
  | ident (x : String) : Phrase .primary [.name x] (.ident x)
  | string (text : String) : Phrase .primary [.literal .string text] (.literal .string text)
  | parens : Phrase .or ts e → Phrase .primary (enclosed ts) e
  | selector (f : String) : Phrase .primary ts e →
    Phrase .primary (ts ++ [.point, .name f]) (.selector e f)
  | call {args : List (List Lexeme × Expr)} : Phrase .primary ts e →
    (∀ a ∈ args, Phrase .or a.1 a.2) →
    Phrase .primary (ts ++ enclosed (commaLexemes (args.map Prod.fst)))
      (.call e (args.map Prod.snd))
  | assert : Phrase .primary ts e → TypePhrase us t →
    Phrase .primary (ts ++ .point :: enclosed us) (.assert e t)
  | ofPrimary : Phrase .primary ts e → Phrase .unary ts e
  | not : Phrase .unary ts e → Phrase .unary (.not :: ts) (.not e)
  | ofUnary : Phrase .unary ts e → Phrase .and ts e
  | and : Phrase .and ts l → Phrase .unary us r →
    Phrase .and (ts ++ .logic .and :: us) (.logic .and l r)
  | ofAnd : Phrase .and ts e → Phrase .or ts e
  | or : Phrase .or ts l → Phrase .and us r →
    Phrase .or (ts ++ .logic .or :: us) (.logic .or l r)

/-- The text is an expression with the tree `e`. -/
def Parses (text : String) (e : Expr) : Prop := Phrase .or (lex text.toList) e

/-- Expressions made of names, strings, logical operators, selectors, calls and assertions. -/
inductive Expr.Plain : Expr → Prop
  | ident : isIdentifier x = true → Plain (.ident x)
  | string (text : String) : Plain (.literal .string text)
  | selector : base.Plain → isIdentifier f = true → Plain (.selector base f)
  | call : f.Plain → (∀ a ∈ args, a.Plain) → Plain (.call f args)
  | assert : value.Plain → type.Legal → Plain (.assert value type)
  | not : operand.Plain → Plain (.not operand)
  | logic (op : LogicOp) : left.Plain → right.Plain → Plain (.logic op left right)

/-- The tightness of the loosest expressions of a rank. -/
def Rank.level : Rank → Nat
  | .or => LogicOp.or.tightness
  | .and => LogicOp.and.tightness
  | .unary => Expr.unary
  | .primary => Expr.primary

/-! ## Printed expressions are phrases -/

theorem typePhrase_iff : TypePhrase ts t ↔ ts = t.lexemes := by
  constructor
  · intro h
    induction h with
    | named x => rfl
    | qualified p x => rfl
    | slice _ ih => rw [ih, TypeExpr.lexemes]
  · rintro rfl
    induction t with
    | named x => exact .named x
    | qualified p x => exact .qualified p x
    | slice t ih => exact .slice ih

theorem Phrase.loosen (h : Phrase r ts e) (hlevel : r'.level ≤ r.level) : Phrase r' ts e := by
  cases r with
  | primary =>
    cases r' with
    | primary => exact h
    | unary => exact .ofPrimary h
    | and => exact .ofUnary (.ofPrimary h)
    | or => exact .ofAnd (.ofUnary (.ofPrimary h))
  | unary =>
    cases r' with
    | primary => exact absurd hlevel (by decide)
    | unary => exact h
    | and => exact .ofUnary h
    | or => exact .ofAnd (.ofUnary h)
  | and =>
    cases r' with
    | primary | unary => exact absurd hlevel (by decide)
    | and => exact h
    | or => exact .ofAnd h
  | or =>
    cases r' with
    | primary | unary | and => exact absurd hlevel (by decide)
    | or => exact h

/-- The lexemes are a phrase for `e` of the rank that its tightness asks for. -/
def Fits (ts : List Lexeme) (e : Expr) : Prop := ∃ r : Rank, r.level = e.tightness ∧ Phrase r ts e

theorem Fits.operand (h : Fits ts e) (hrank : ∀ r' : Rank, least ≤ r'.level → r.level ≤ r'.level) :
    Phrase r (operandLexemes least e ts) e := by
  obtain ⟨r', hlevel, h⟩ := h
  unfold operandLexemes
  split
  · exact (Phrase.parens (h.loosen (by cases r' <;> decide))).loosen (by cases r <;> decide)
  · exact h.loosen (hrank r' (by omega))

theorem Expr.Plain.fits (h : e.Plain) : Fits e.lexemes e := by
  induction h with
  | ident _ => exact ⟨.primary, rfl, .ident _⟩
  | string text => exact ⟨.primary, rfl, .string text⟩
  | selector _ _ ih => exact ⟨.primary, rfl, .selector _ (ih.operand fun _ => id)⟩
  | @call as _ _ _ ih ihs =>
    have hargs : ∀ a ∈ as.map fun a => (a.lexemes, a), Phrase .or a.1 a.2 := by
      intro p hp
      obtain ⟨a, ha, rfl⟩ := List.mem_map.1 hp
      obtain ⟨r, -, h⟩ := ihs a ha
      exact h.loosen (by cases r <;> decide)
    refine ⟨.primary, rfl, ?_⟩
    simpa [lexemes, lexemesEach_eq_map, Function.comp_def, Rank.level] using
      Phrase.call (ih.operand (r := .primary) fun _ => id) hargs
  | assert _ _ ih =>
    exact ⟨.primary, rfl, .assert (ih.operand fun _ => id) (typePhrase_iff.2 rfl)⟩
  | not _ ih => exact ⟨.unary, rfl, .not (ih.operand fun _ => id)⟩
  | logic op _ _ ihl ihr =>
    cases op with
    | and =>
      exact ⟨.and, rfl, .and (ihl.operand fun _ => id) (ihr.operand fun r => by cases r <;> decide)⟩
    | or =>
      exact ⟨.or, rfl, .or (ihl.operand fun _ => id) (ihr.operand fun r => by cases r <;> decide)⟩

/-! ## Trees of a phrase -/

theorem Phrase.reads (h : Phrase r ts e) : Reads r.level ts e := by
  induction h with
  | ident x => exact .ident x
  | string text => exact .literal .string text
  | parens _ ih => exact .parens ih
  | selector f _ ih => exact ih.selector f
  | call _ _ ih ihs => exact ih.call ihs
  | assert _ ht ih => exact typePhrase_iff.1 ht ▸ ih.assert _
  | ofPrimary _ ih => exact ih.mono (by decide)
  | not _ ih => exact ih.not
  | ofUnary _ ih => exact ih.mono (by decide)
  | and _ _ ihl ihr => exact .logic .and ihl (ihr.mono (by decide))
  | ofAnd _ ih => exact ih.mono (by decide)
  | or _ _ ihl ihr => exact .logic .or ihl ihr

/-- A phrase has one tree. -/
theorem Phrase.unique (h : Phrase r ts e) (h' : Phrase r ts e') : e = e' := by
  have hlevel : r.level ≤ Expr.primary := by cases r <;> decide
  have hgrip : grip [] < r.level := by cases r <;> decide
  have hread := h.reads.read_alone [] hlevel hgrip follows_nil.closed
  exact (hread.unique (h'.reads.read_alone [] hlevel hgrip follows_nil.closed)).1

/-! ## Parentheses of a phrase -/

theorem count_enclosed (ts : List Lexeme) :
    (enclosed ts).count .parenOpen = ts.count .parenOpen + 1 := by
  simp [enclosed]

theorem count_logic (op : LogicOp) (ts us : List Lexeme) :
    (ts ++ .logic op :: us).count .parenOpen = ts.count .parenOpen + us.count .parenOpen := by
  simp

/-- A list has the parentheses of its items. -/
theorem count_commaLexemes (tss : List (List Lexeme)) :
    (commaLexemes tss).count .parenOpen = tss.flatten.count .parenOpen := by
  match tss with
  | [] => rfl
  | [ts] => simp [commaLexemes]
  | ts :: us :: tss =>
    rw [commaLexemes, List.flatten_cons, List.count_append, List.count_append,
      List.count_cons_of_ne (by decide), count_commaLexemes (us :: tss)]
    simp

theorem count_commaLexemes_le {f g : α → List Lexeme} {as : List α}
    (h : ∀ a ∈ as, (f a).count .parenOpen ≤ (g a).count .parenOpen) :
    (commaLexemes (as.map f)).count .parenOpen ≤ (commaLexemes (as.map g)).count .parenOpen := by
  rw [count_commaLexemes, count_commaLexemes]
  induction as with
  | nil => simp
  | cons a as ih =>
    obtain ⟨ha, has⟩ := List.forall_mem_cons.1 h
    rw [List.map_cons, List.map_cons, List.flatten_cons, List.flatten_cons, List.count_append,
      List.count_append]
    exact Nat.add_le_add ha (ih has)

theorem operandLexemes_of_le {e : Expr} (h : least ≤ e.tightness) (ts : List Lexeme) :
    operandLexemes least e ts = ts :=
  if_neg (Nat.not_lt.2 h)

theorem operandLexemes_of_lt {e : Expr} (h : e.tightness < least) (ts : List Lexeme) :
    operandLexemes least e ts = enclosed ts :=
  if_pos h

theorem count_operandLexemes_mono (hlevel : least ≤ least') (e : Expr) (ts : List Lexeme) :
    (operandLexemes least e ts).count .parenOpen ≤
      (operandLexemes least' e ts).count .parenOpen := by
  by_cases h : least ≤ e.tightness
  · rw [operandLexemes_of_le h, operandLexemes]
    split
    · rw [count_enclosed]
      exact Nat.le_succ _
    · exact Nat.le_refl _
  · have hless : e.tightness < least := Nat.lt_of_not_le h
    exact Nat.le_of_eq (by
      rw [operandLexemes_of_lt hless, operandLexemes_of_lt (Nat.lt_of_lt_of_le hless hlevel)])

/-- The number of parentheses that the printer writes for a tree in a place for phrases of a
rank. -/
def Rank.parens (r : Rank) (e : Expr) : Nat :=
  (operandLexemes r.level e e.lexemes).count .parenOpen

theorem Rank.parens_mono {r r' : Rank} (hlevel : r.level ≤ r'.level) (e : Expr) :
    r.parens e ≤ r'.parens e :=
  count_operandLexemes_mono hlevel e e.lexemes

theorem Rank.parens_of_le {r : Rank} {e : Expr} (h : r.level ≤ e.tightness) :
    r.parens e = e.lexemes.count .parenOpen := by
  rw [parens, operandLexemes_of_le h]

theorem Rank.parens_or (e : Expr) : Rank.or.parens e = e.lexemes.count .parenOpen :=
  parens_of_le e.one_le_tightness

/-- No phrase for a tree has fewer parentheses than the printer writes. -/
theorem Phrase.parens_le (h : Phrase r ts e) : r.parens e ≤ ts.count .parenOpen := by
  induction h with
  | ident x => exact Nat.le_refl _
  | string text => exact Nat.le_refl _
  | @parens ts e _ ih =>
    rw [Rank.parens_or] at ih
    rw [count_enclosed, Rank.parens, operandLexemes]
    split
    · rw [count_enclosed]
      exact Nat.succ_le_succ ih
    · exact Nat.le_succ_of_le ih
  | selector f _ ih =>
    rw [Rank.parens_of_le (Nat.le_refl _), Expr.lexemes, List.count_append, List.count_append]
    exact Nat.add_le_add_right ih _
  | call _ _ ih ihs =>
    have hargs := count_commaLexemes_le fun a ha => Rank.parens_or _ ▸ ihs a ha
    rw [Rank.parens_of_le (Nat.le_refl _), Expr.lexemes, Expr.lexemesEach_eq_map, List.map_map,
      List.count_append, List.count_append, count_enclosed, count_enclosed]
    exact Nat.add_le_add ih (Nat.succ_le_succ hargs)
  | assert _ ht ih =>
    obtain rfl := typePhrase_iff.1 ht
    rw [Rank.parens_of_le (Nat.le_refl _), Expr.lexemes, List.count_append, List.count_append]
    exact Nat.add_le_add_right ih _
  | ofPrimary _ ih => exact Nat.le_trans (Rank.parens_mono (by decide) _) ih
  | not _ ih =>
    rw [Rank.parens_of_le (Nat.le_refl _), Expr.lexemes, List.count_cons, List.count_cons]
    exact Nat.add_le_add_right ih _
  | ofUnary _ ih => exact Nat.le_trans (Rank.parens_mono (by decide) _) ih
  | and _ _ ihl ihr =>
    -- The printer asks the right operand only for more than the tightness of the operator.
    have hlevel : LogicOp.and.tightness + 1 ≤ Rank.unary.level := by decide
    have hright := Nat.le_trans (count_operandLexemes_mono hlevel _ _) ihr
    rw [Rank.parens_of_le (Nat.le_refl _), Expr.lexemes, count_logic, count_logic]
    exact Nat.add_le_add ihl hright
  | ofAnd _ ih => exact Nat.le_trans (Rank.parens_mono (by decide) _) ih
  | or _ _ ihl ihr =>
    rw [Rank.parens_of_le (Nat.le_refl _), Expr.lexemes, count_logic, count_logic]
    exact Nat.add_le_add ihl ihr

end SmallLisp.Program
