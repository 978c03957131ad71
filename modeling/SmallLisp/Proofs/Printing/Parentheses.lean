import SmallLisp.Proofs.Printing.Grammar

/-!
# Parentheses around operands

The printer puts an operand in parentheses where it binds looser than its place asks. A printed
expression parses to its own tree and to no other, and without any one of these pairs of parentheses
its text does not parse to the tree (`print_parentheses`).
-/

namespace SmallLisp.Program

/-! ## Scanning plain expressions -/

namespace Expr.Plain
variable {e : Expr}

theorem separated (h : e.Plain) : e.Separated := by
  induction h with
  | ident hx => exact .ident hx
  | string text => exact .literal .string
  | @selector base _ hbase hf ih => exact .selector ih (by cases hbase <;> rfl) hf
  | call _ _ ih ihs => exact .call ih ihs
  | assert hvalue htype ih => exact .assert ih (by cases hvalue <;> rfl) htype
  | not _ ih => exact .not ih
  | logic op _ _ ihl ihr => exact .logic ihl ihr

theorem fuses_eq (h : e.Plain) : e.fuses = false := by
  induction h with
  | not _ ih => rw [fuses, ih, Bool.and_false]
  | logic op _ _ _ ihr => rw [fuses, ihr, Bool.and_false]
  | _ => rfl

theorem ends_eq (h : e.Plain) : e.ends = '.' :: delimiters := by
  rw [ends, h.fuses_eq, if_neg Bool.false_ne_true]

theorem scans (h : e.Plain) : Scans ('.' :: delimiters) (e.chars 0) e.lexemes :=
  h.ends_eq ▸ Expr.Legal.scans 0 h.separated

theorem operand (h : e.Plain) (hscans : Scans ('.' :: delimiters) cs ts) (least : Nat) :
    Scans ('.' :: delimiters) (operandChars least e cs) (operandLexemes least e ts) := by
  have hends : e.operandEnds least = '.' :: delimiters := by
    rw [operandEnds, h.ends_eq, ite_self]
  exact hends ▸ (h.ends_eq ▸ hscans : Scans e.ends cs ts).operand least

end Expr.Plain

theorem Expr.Plain.parses_print (h : e.Plain) : Parses e.print e := by
  obtain ⟨r, -, hphrase⟩ := h.fits
  rw [Parses, Expr.print, String.toList_ofList, h.scans.lex_eq]
  exact hphrase.loosen (by cases r <;> decide)

/-! ## Operands and what stands around them -/

/-- What stands around an operand or an argument of an expression. -/
inductive Around where
  | selector (f : String)
  | callee (args : List Expr)
  | argument (f : Expr) (before after : List Expr)
  | assert (type : TypeExpr)
  | not
  | leftOf (op : LogicOp) (right : Expr)
  | rightOf (op : LogicOp) (left : Expr)

namespace Around

def plug : Around → Expr → Expr
  | .selector f, e => .selector e f
  | .callee args, e => .call e args
  | .argument f before after, e => .call f (before ++ e :: after)
  | .assert type, e => .assert e type
  | .not, e => .not e
  | .leftOf op right, e => .logic op e right
  | .rightOf op left, e => .logic op left e

/-- The tightness that the place asks for. An argument is no operand. -/
def least : Around → Nat
  | .selector _ | .callee _ | .assert _ => Expr.primary
  | .argument _ _ _ => 0
  | .not => Expr.unary
  | .leftOf op _ => op.tightness
  | .rightOf op _ => op.tightness + 1

def chars (cs : List Char) : Around → List Char
  | .selector f => cs ++ '.' :: f.toList
  | .callee args => cs ++ parenthesize (commaChars (Expr.charsEach 0 args))
  | .argument f before after =>
    operandChars Expr.primary f (f.chars 0) ++
      parenthesize (commaChars (Expr.charsEach 0 before ++ cs :: Expr.charsEach 0 after))
  | .assert type => cs ++ '.' :: parenthesize type.chars
  | .not => '!' :: cs
  | .leftOf op right =>
    cs ++ ' ' :: op.chars ++ ' ' :: operandChars (op.tightness + 1) right (right.chars 0)
  | .rightOf op left =>
    operandChars op.tightness left (left.chars 0) ++ ' ' :: op.chars ++ ' ' :: cs

def lexemes (ts : List Lexeme) : Around → List Lexeme
  | .selector f => ts ++ [.point, .name f]
  | .callee args => ts ++ enclosed (commaLexemes (Expr.lexemesEach args))
  | .argument f before after =>
    operandLexemes Expr.primary f f.lexemes ++
      enclosed (commaLexemes (Expr.lexemesEach before ++ ts :: Expr.lexemesEach after))
  | .assert type => ts ++ .point :: enclosed type.lexemes
  | .not => .not :: ts
  | .leftOf op right => ts ++ .logic op :: operandLexemes (op.tightness + 1) right right.lexemes
  | .rightOf op left => operandLexemes op.tightness left left.lexemes ++ .logic op :: ts

theorem chars_plug (F : Around) (e : Expr) :
    (F.plug e).chars 0 = F.chars (operandChars F.least e (e.chars 0)) := by
  cases F with
  | argument f before after =>
    have heach : Expr.charsEach 0 (before ++ e :: after) =
        Expr.charsEach 0 before ++ e.chars 0 :: Expr.charsEach 0 after := by
      simp [Expr.charsEach_eq_map]
    exact congrArg (fun css => _ ++ parenthesize (commaChars css)) heach
  | _ => rfl

theorem lexemes_plug (F : Around) (e : Expr) :
    (F.plug e).lexemes = F.lexemes (operandLexemes F.least e e.lexemes) := by
  cases F with
  | argument f before after =>
    have heach : Expr.lexemesEach (before ++ e :: after) =
        Expr.lexemesEach before ++ e.lexemes :: Expr.lexemesEach after := by
      simp [Expr.lexemesEach_eq_map]
    exact congrArg (fun tss => _ ++ enclosed (commaLexemes tss)) heach
  | _ => rfl

end Around

theorem commaChars_cons (cs : List Char) (dss : List (List Char)) :
    commaChars (cs :: dss) = cs ++ dss.flatMap ([',', ' '] ++ ·) := by
  induction dss generalizing cs with
  | nil => simp [commaChars]
  | cons ds dss ih => simp [commaChars, ih]

theorem commaChars_append_cons (css : List (List Char)) (cs : List Char) (dss : List (List Char)) :
    commaChars (css ++ cs :: dss) =
      css.flatMap (· ++ [',', ' ']) ++ cs ++ dss.flatMap ([',', ' '] ++ ·) := by
  induction css with
  | nil => exact commaChars_cons cs dss
  | cons bs css ih =>
    rw [List.cons_append, commaChars, ih]
    · simp
    · simp

namespace Around
variable (F : Around)

/-- The text around an operand stands before and after it. -/
theorem exists_chars : ∃ before after, ∀ cs, F.chars cs = before ++ cs ++ after := by
  cases F with
  | selector f => exact ⟨[], '.' :: f.toList, fun _ => rfl⟩
  | callee args => exact ⟨[], _, fun _ => rfl⟩
  | argument f before after =>
    refine ⟨operandChars Expr.primary f (f.chars 0) ++
      '(' :: (Expr.charsEach 0 before).flatMap (· ++ [',', ' ']),
      (Expr.charsEach 0 after).flatMap ([',', ' '] ++ ·) ++ [')'], fun cs => ?_⟩
    simp [chars, parenthesize, commaChars_append_cons]
  | assert type => exact ⟨[], _, fun _ => rfl⟩
  | not => exact ⟨['!'], [], fun cs => by simp [chars]⟩
  | leftOf op right =>
    refine ⟨[], ' ' :: op.chars ++ ' ' :: operandChars (op.tightness + 1) right (right.chars 0),
      fun cs => ?_⟩
    simp [chars]
  | rightOf op left =>
    refine ⟨operandChars op.tightness left (left.chars 0) ++ ' ' :: op.chars ++ [' '], [],
      fun cs => ?_⟩
    simp [chars]

theorem count_lexemes_lt (h : ts.count .parenOpen < us.count .parenOpen) :
    (F.lexemes ts).count .parenOpen < (F.lexemes us).count .parenOpen := by
  cases F with
  | argument f before after =>
    simp only [lexemes, List.count_append, count_enclosed, count_commaLexemes, List.flatten_append,
      List.flatten_cons]
    omega
  | _ => simpa [lexemes] using h

variable {F} {e : Expr}

/-- Parts of plain expressions are plain. -/
theorem plain_of_plug (h : (F.plug e).Plain) : e.Plain := by
  cases F with
  | selector f => cases h with | selector h _ => exact h
  | callee args => cases h with | call h _ => exact h
  | argument f before after =>
    cases h with
    | call _ h => exact h e (List.mem_append_right before List.mem_cons_self)
  | assert type => cases h with | assert h _ => exact h
  | not => cases h with | not h => exact h
  | leftOf op right => cases h with | logic _ h _ => exact h
  | rightOf op left => cases h with | logic _ _ h => exact h

/-- Arguments around a text. -/
theorem scans_around (hbefore : ∀ a ∈ before, Expr.Plain a) (hafter : ∀ a ∈ after, Expr.Plain a)
    (h : Scans ('.' :: delimiters) cs ts) :
    Scans delimiters (commaChars (Expr.charsEach 0 before ++ cs :: Expr.charsEach 0 after))
      (commaLexemes (Expr.lexemesEach before ++ ts :: Expr.lexemesEach after)) := by
  let printed (a : Expr) := (a.chars 0, a.lexemes)
  have hprinted : ∀ a : Expr, a.Plain → Scans delimiters (printed a).1 (printed a).2 :=
    fun a ha => ha.scans.mono fun _ => .tail _
  have hscans : ∀ p ∈ before.map printed ++ (cs, ts) :: after.map printed,
      Scans delimiters p.1 p.2 := by
    simp only [List.mem_append, List.mem_cons, List.mem_map]
    rintro p (⟨a, ha, rfl⟩ | rfl | ⟨a, ha, rfl⟩)
    · exact hprinted a (hbefore a ha)
    · exact h.mono fun _ => .tail _
    · exact hprinted a (hafter a ha)
  simpa [printed, Expr.charsEach_eq_map, Expr.lexemesEach_eq_map, Function.comp_def] using
    Scans.commaChars hscans

theorem scans (h : (F.plug e).Plain) (hscans : Scans ('.' :: delimiters) cs ts) :
    Scans ('.' :: delimiters) (F.chars cs) (F.lexemes ts) := by
  cases F with
  | selector f => cases h with | selector _ hf => exact hscans.selector hf
  | callee args =>
    cases h with
    | call _ h =>
      exact hscans.call (by decide) (scans_each fun a ha => Expr.Legal.scans 0 (h a ha).separated)
  | argument f before after =>
    cases h with
    | call hf h =>
      obtain ⟨hbefore, -, hafter⟩ : (∀ a ∈ before, a.Plain) ∧ e.Plain ∧ ∀ a ∈ after, a.Plain := by
        simpa [or_imp, forall_and] using h
      exact (hf.operand hf.scans _).call (by decide) (scans_around hbefore hafter hscans)
  | assert type => cases h with | assert _ htype => exact hscans.assert htype
  | not => exact hscans.not
  | leftOf op right =>
    cases h with
    | logic _ _ h =>
      exact hscans.operator (by decide) (fun _ => lex_logicOp op) (h.operand h.scans _)
  | rightOf op left =>
    cases h with
    | logic _ h _ =>
      exact (h.operand h.scans _).operator (by decide) (fun _ => lex_logicOp op) hscans

end Around

/-- The text of an expression less the parentheses around one of its operands. -/
inductive OnePairLess : Expr → List Char → Prop
  | here (F : Around) : e.tightness < F.least → OnePairLess (F.plug e) (F.chars (e.chars 0))
  | inside (F : Around) : OnePairLess e cs →
    OnePairLess (F.plug e) (F.chars (operandChars F.least e cs))

namespace OnePairLess

/-- One pair of parentheses is missing, and nothing else. -/
theorem exists_parens (h : OnePairLess e cs) : ∃ before inner after,
    e.chars 0 = before ++ parenthesize inner ++ after ∧ cs = before ++ inner ++ after := by
  induction h with
  | @here e F hless =>
    obtain ⟨before, after, hF⟩ := F.exists_chars
    refine ⟨before, e.chars 0, after, ?_, hF _⟩
    rw [F.chars_plug, operandChars, if_pos hless, hF]
  | @inside e cs F _ ih =>
    obtain ⟨before, after, hF⟩ := F.exists_chars
    obtain ⟨before', inner, after', hchars, rfl⟩ := ih
    rw [F.chars_plug, hF, hF, hchars]
    unfold operandChars
    split
    · exact ⟨before ++ '(' :: before', inner, after' ++ ')' :: after, by simp [parenthesize],
        by simp [parenthesize]⟩
    · exact ⟨before ++ before', inner, after' ++ after, by simp, by simp⟩

/-- The scanner finds fewer parentheses than in the tree. -/
theorem scans (h : OnePairLess e cs) (hplain : e.Plain) :
    ∃ ts, Scans ('.' :: delimiters) cs ts ∧
      ts.count .parenOpen < e.lexemes.count .parenOpen := by
  induction h with
  | @here e F hless =>
    have he := Around.plain_of_plug hplain
    refine ⟨F.lexemes e.lexemes, Around.scans hplain he.scans, ?_⟩
    rw [F.lexemes_plug, operandLexemes_of_lt hless]
    exact F.count_lexemes_lt (by rw [count_enclosed]; exact Nat.lt_succ_self _)
  | @inside e cs F _ ih =>
    have he := Around.plain_of_plug hplain
    obtain ⟨ts, hscans, hcount⟩ := ih he
    refine ⟨F.lexemes (operandLexemes F.least e ts), Around.scans hplain (he.operand hscans _), ?_⟩
    rw [F.lexemes_plug]
    refine F.count_lexemes_lt ?_
    unfold operandLexemes
    split
    · rw [count_enclosed, count_enclosed]
      exact Nat.succ_lt_succ hcount
    · exact hcount

end OnePairLess

theorem Expr.Plain.parses_iff (h : e.Plain) (e' : Expr) : Parses e.print e' ↔ e' = e := by
  constructor
  · intro hparses
    exact hparses.unique h.parses_print
  · rintro rfl
    exact h.parses_print

theorem OnePairLess.not_parses (h : OnePairLess e cs) (hplain : e.Plain) :
    ¬ Parses (String.ofList cs) e := by
  intro hparses
  obtain ⟨ts, hscans, hcount⟩ := h.scans hplain
  have hle := Phrase.parens_le hparses
  rw [Rank.parens_or, String.toList_ofList, hscans.lex_eq] at hle
  exact absurd hcount (Nat.not_lt.2 hle)

/-- The printed text of an expression made of names, strings, logical operators, selectors, calls
and assertions parses to that expression and to no other, and the text without the parentheses
around any one operand does not parse to it. -/
theorem print_parentheses {e : Expr} (h : e.Plain) :
    (∀ e', Parses e.print e' ↔ e' = e) ∧
      ∀ cs, OnePairLess e cs → ¬ Parses (String.ofList cs) e :=
  ⟨h.parses_iff, fun _ hless => hless.not_parses h⟩

theorem print_parentheses_or_under_and :
    (Expr.logic .and (.logic .or (.ident "a") (.ident "b")) (.ident "c")).Plain ∧
      (∀ e, Parses "(a || b) && c" e ↔
        e = .logic .and (.logic .or (.ident "a") (.ident "b")) (.ident "c")) ∧
      ¬ Parses "a || b && c"
        (.logic .and (.logic .or (.ident "a") (.ident "b")) (.ident "c")) := by
  have hplain : (Expr.logic .and (.logic .or (.ident "a") (.ident "b")) (.ident "c")).Plain :=
    .logic .and (.logic .or (.ident rfl) (.ident rfl)) (.ident rfl)
  obtain ⟨hparses, hminimal⟩ := print_parentheses hplain
  exact ⟨hplain, hparses,
    hminimal "a || b && c".toList (.here (.leftOf .and (.ident "c")) (by decide))⟩

end SmallLisp.Program
