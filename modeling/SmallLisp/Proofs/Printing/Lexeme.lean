import SmallLisp.Program.Print
import SmallLisp.Proofs.Printing.Literal

/-!
# Scanning programs

`lex` cuts a text into lexemes, each the longest that its start allows, and drops blanks. Line
breaks are lexemes. A text with no lexeme of its own comes out as `unknown`. Comments are not
scanned, for a slash begins no lexeme.
-/

namespace SmallLisp.Program

/-- The words of programs. The text of a string literal stands without quotes and escapes. -/
inductive Lexeme where
  | name (x : String)
  | literal (kind : LiteralKind) (text : String)
  | func
  | var
  | branch
  | otherwise
  | loop
  | ret
  | parenOpen
  | parenClose
  | bracketOpen
  | bracketClose
  | braceOpen
  | braceClose
  | point
  | ellipsis
  | comma
  | semicolon
  | minus
  | not
  | logic (op : LogicOp)
  | assign (op : AssignOp)
  | lineBreak
  | unknown (text : String)
  deriving DecidableEq

/-- The lexemes with one spelling. -/
def spellings : List (List Char × Lexeme) :=
  [(['f', 'u', 'n', 'c'], .func), (['v', 'a', 'r'], .var), (['i', 'f'], .branch),
    (['e', 'l', 's', 'e'], .otherwise), (['f', 'o', 'r'], .loop),
    (['r', 'e', 't', 'u', 'r', 'n'], .ret), (['('], .parenOpen), ([')'], .parenClose),
    (['['], .bracketOpen), ([']'], .bracketClose), (['{'], .braceOpen), (['}'], .braceClose),
    (['.'], .point), (['.', '.', '.'], .ellipsis), ([','], .comma), ([';'], .semicolon),
    (['-'], .minus), (['!'], .not), (['&', '&'], .logic .and), (['|', '|'], .logic .or),
    ([':', '='], .assign .define), (['='], .assign .assign), (['\n'], .lineBreak)]

/-! ## Numbers -/

/-- Whether a lexeme is a number: a digit stands first, or right after a point. -/
def isNumber : List Char → Bool
  | '.' :: c :: _ => c.isDigit
  | c :: _ => c.isDigit
  | [] => false

/-- The marks of exponents. In a hexadecimal number `e` is a digit. -/
def exponentMarks : List Char → List Char
  | '0' :: 'x' :: _ => ['p', 'P']
  | '0' :: 'X' :: _ => ['p', 'P']
  | _ => ['e', 'E']

def numberKind (w : List Char) : LiteralKind :=
  if 'i' ∈ w then .imag
  else if '.' ∈ w ∨ (exponentMarks w).any (· ∈ w) then .float
  else .int

/-- A point goes on with an integer only, and a sign with the mark of an exponent. -/
def numberGoesOn (w : List Char) (c : Char) : Bool :=
  isNameChar c || (c == '.' && numberKind w = .int) ||
    ((c == '+' || c == '-') && (exponentMarks w).any (w.getLast? = some ·))

/-! ## Quoted text -/

/-- Whether the text after an opening quote lacks its closing quote. -/
def unclosed (quote : Char) : List Char → Bool
  | [] => true
  | ['\\'] => true
  | '\\' :: _ :: cs => unclosed quote cs
  | c :: cs => c != quote && unclosed quote cs

def hexValue (c : Char) : Nat :=
  if c.isDigit then c.toNat - '0'.toNat else c.toLower.toNat - 'a'.toNat + 10

/-- The text that stands for itself and in escapes before the closing quote of a string. Only the
escapes that are printed are known. -/
def unquote : List Char → List Char
  | '\\' :: 'x' :: a :: b :: cs => Char.ofNat (16 * hexValue a + hexValue b) :: unquote cs
  | '\\' :: c :: cs => (Text.escapedChar c).getD c :: unquote cs
  | '"' :: _ => []
  | c :: cs => c :: unquote cs
  | [] => []

/-! ## The scanner -/

/-- Whether a lexeme that starts with `w` goes on with `c`. -/
def goesOn : List Char → Char → Bool
  | [], _ => true
  | q :: w, c =>
    if q = '"' ∨ q = '\'' then unclosed q w
    else if startsName q then isNameChar c
    else if isNumber (q :: w) then numberGoesOn (q :: w) c
    else (q :: w = ['.'] && c.isDigit) || spellings.any fun s => (q :: w ++ [c]).isPrefixOf s.1

/-- Cuts a text where a lexeme cannot go on, `w` being what was read of the lexeme at hand. -/
def split (w : List Char) : List Char → List (List Char)
  | [] => [w]
  | c :: cs => if goesOn w c then split (w ++ [c]) cs else w :: split [c] cs

/-- The lexeme of a text. Blanks have none. -/
def lexeme? : List Char → Option Lexeme
  | [] => none
  | [' '] => none
  | ['\t'] => none
  | '"' :: cs => some (.literal .string (String.ofList (unquote cs)))
  | '\'' :: cs => some (.literal .char (String.ofList ('\'' :: cs)))
  | w =>
    if isNumber w then some (.literal (numberKind w) (String.ofList w))
    else if isIdentifier (String.ofList w) then some (.name (String.ofList w))
    else some ((spellings.lookup w).getD (.unknown (String.ofList w)))

def lex (cs : List Char) : List Lexeme :=
  (split [] cs).filterMap lexeme?

/-! ## Whole lexemes -/

/-- All of `cs` goes to a lexeme that starts with `w`. -/
def Absorbs (w : List Char) : List Char → Prop
  | [] => True
  | c :: cs => goesOn w c = true ∧ Absorbs (w ++ [c]) cs

instance decidableAbsorbs : (w cs : List Char) → Decidable (Absorbs w cs)
  | _, [] => .isTrue trivial
  | w, c :: cs =>
    have := decidableAbsorbs (w ++ [c]) cs
    inferInstanceAs (Decidable (goesOn w c = true ∧ Absorbs (w ++ [c]) cs))

/-- A lexeme `w` ends before `rest`. -/
def Stops (w rest : List Char) : Prop := ∀ c ∈ rest.head?, goesOn w c = false

/-- A lexeme may start with any character. -/
theorem absorbs_cons : Absorbs [] (c :: cs) ↔ Absorbs [c] cs :=
  and_iff_right rfl

theorem absorbs_append : Absorbs w (cs ++ ds) ↔ Absorbs w cs ∧ Absorbs (w ++ cs) ds := by
  induction cs generalizing w with
  | nil => simp [Absorbs]
  | cons c cs ih => simp [Absorbs, ih, and_assoc]

theorem Absorbs.split (h : Absorbs w cs) (rest : List Char) :
    split w (cs ++ rest) = split (w ++ cs) rest := by
  induction cs generalizing w with
  | nil => simp
  | cons c cs ih =>
    rw [List.cons_append, Program.split, if_pos h.1, ih h.2, List.append_assoc,
      List.singleton_append]

theorem filterMap_lexeme?_cons (w : List Char) (ws : List (List Char)) :
    (w :: ws).filterMap lexeme? = (lexeme? w).toList ++ ws.filterMap lexeme? := by
  cases hw : lexeme? w <;> simp [hw]

theorem Stops.filterMap_split (h : Stops w rest) :
    (split w rest).filterMap lexeme? = (lexeme? w).toList ++ lex rest := by
  cases rest with
  | nil => rw [split, filterMap_lexeme?_cons]; rfl
  | cons c rest =>
    have hstart : goesOn [] c = true := rfl
    rw [split, h c rfl, if_neg Bool.false_ne_true, filterMap_lexeme?_cons, lex, split,
      if_pos hstart]
    rfl

/-- A lexeme is cut off where it cannot go on. -/
theorem lex_word (habsorbs : Absorbs [] w) (hstops : Stops w rest) :
    lex (w ++ rest) = (lexeme? w).toList ++ lex rest := by
  rw [lex, habsorbs.split, List.nil_append, hstops.filterMap_split]

/-! ## Words with one spelling -/

theorem spelled {s : List Char × Lexeme} (h : s ∈ spellings) :
    Absorbs [] s.1 ∧ lexeme? s.1 = some s.2 := by
  revert s
  decide

theorem lex_spelled (h : (w, t) ∈ spellings) (hstops : Stops w rest) :
    lex (w ++ rest) = t :: lex rest := by
  obtain ⟨habsorbs, hlexeme⟩ := spelled h
  rw [lex_word habsorbs hstops, hlexeme]
  rfl

/-- Characters that stand alone, whatever follows, with their lexemes. -/
def signs : List (Char × Option Lexeme) :=
  [('(', some .parenOpen), (')', some .parenClose), ('[', some .bracketOpen),
    (']', some .bracketClose), ('{', some .braceOpen), ('}', some .braceClose), (',', some .comma),
    (';', some .semicolon), ('-', some .minus), ('!', some .not), ('=', some (.assign .assign)),
    ('\n', some .lineBreak), (' ', none), ('\t', none)]

theorem goesOn_sign (h : (c, t) ∈ signs) (d : Char) : goesOn [c] d = false := by
  simp only [signs, List.mem_cons, Prod.mk.injEq, List.not_mem_nil, or_false] at h
  rcases h with h | h | h | h | h | h | h | h | h | h | h | h | h | h <;> rw [h.1] <;> rfl

theorem lexeme?_sign : ∀ s ∈ signs, lexeme? [s.1] = s.2 := by
  decide

theorem lex_sign (h : (c, t) ∈ signs) (rest : List Char) :
    lex (c :: rest) = t.toList ++ lex rest := by
  have habsorbs : Absorbs [c] [] := trivial
  rw [← List.singleton_append, lex_word (absorbs_cons.2 habsorbs) fun d _ => goesOn_sign h d,
    lexeme?_sign _ h]

section
variable {rest : List Char}

@[simp] theorem lex_nil : lex [] = [] := rfl

@[simp] theorem lex_blank : lex (' ' :: rest) = lex rest :=
  lex_sign (t := none) (by decide) rest

@[simp] theorem lex_tab : lex ('\t' :: rest) = lex rest :=
  lex_sign (t := none) (by decide) rest

@[simp] theorem lex_newLine : lex ('\n' :: rest) = .lineBreak :: lex rest :=
  lex_sign (t := some .lineBreak) (by decide) rest

@[simp] theorem lex_parenOpen : lex ('(' :: rest) = .parenOpen :: lex rest :=
  lex_sign (t := some .parenOpen) (by decide) rest

@[simp] theorem lex_parenClose : lex (')' :: rest) = .parenClose :: lex rest :=
  lex_sign (t := some .parenClose) (by decide) rest

@[simp] theorem lex_bracketOpen : lex ('[' :: rest) = .bracketOpen :: lex rest :=
  lex_sign (t := some .bracketOpen) (by decide) rest

@[simp] theorem lex_bracketClose : lex (']' :: rest) = .bracketClose :: lex rest :=
  lex_sign (t := some .bracketClose) (by decide) rest

@[simp] theorem lex_braceOpen : lex ('{' :: rest) = .braceOpen :: lex rest :=
  lex_sign (t := some .braceOpen) (by decide) rest

@[simp] theorem lex_braceClose : lex ('}' :: rest) = .braceClose :: lex rest :=
  lex_sign (t := some .braceClose) (by decide) rest

@[simp] theorem lex_comma : lex (',' :: rest) = .comma :: lex rest :=
  lex_sign (t := some .comma) (by decide) rest

@[simp] theorem lex_semicolon : lex (';' :: rest) = .semicolon :: lex rest :=
  lex_sign (t := some .semicolon) (by decide) rest

@[simp] theorem lex_minus : lex ('-' :: rest) = .minus :: lex rest :=
  lex_sign (t := some .minus) (by decide) rest

@[simp] theorem lex_not : lex ('!' :: rest) = .not :: lex rest :=
  lex_sign (t := some .not) (by decide) rest

/-- Three points are one lexeme whatever follows, and so are the operators below. -/
@[simp] theorem lex_ellipsis : lex ('.' :: '.' :: '.' :: rest) = .ellipsis :: lex rest :=
  lex_spelled (w := ['.', '.', '.']) (by decide) fun _ _ => rfl

@[simp] theorem lex_logicOp (op : LogicOp) : lex (op.chars ++ rest) = .logic op :: lex rest := by
  cases op with
  | and => exact lex_spelled (w := ['&', '&']) (by decide) fun _ _ => rfl
  | or => exact lex_spelled (w := ['|', '|']) (by decide) fun _ _ => rfl

@[simp] theorem lex_assignOp (op : AssignOp) :
    lex (op.chars ++ rest) = .assign op :: lex rest := by
  cases op with
  | define => exact lex_spelled (w := [':', '=']) (by decide) fun _ _ => rfl
  | assign => exact lex_spelled (w := ['=']) (by decide) fun _ _ => rfl

/-- A point stands for itself where neither a digit nor another point follows. -/
theorem lex_point (h : ∀ c ∈ rest.head?, c.isDigit = false ∧ c ≠ '.') :
    lex ('.' :: rest) = .point :: lex rest := by
  refine lex_spelled (w := ['.']) (by decide) fun c hc => ?_
  obtain ⟨hdigit, hne⟩ := h c hc
  simp [goesOn, startsName, isNumber, spellings, List.isPrefixOf, hdigit, hne]

@[simp] theorem lex_tabs (k : Nat) : lex (List.replicate k '\t' ++ rest) = lex rest := by
  induction k with
  | zero => rfl
  | succ k ih => rw [List.replicate_succ, List.cons_append, lex_tab, ih]

@[simp] theorem lex_lineBreak (k : Nat) :
    lex (lineBreak k ++ rest) = .lineBreak :: lex rest := by
  rw [lineBreak, List.cons_append, lex_newLine, lex_tabs]

end

/-! ## Names and keywords -/

theorem goesOn_name (hc : startsName c = true) (w : List Char) (d : Char) :
    goesOn (c :: w) d = isNameChar d := by
  have hquote : ¬(c = '"' ∨ c = '\'') := by
    rintro (rfl | rfl) <;> cases hc
  rw [goesOn, if_neg hquote, if_pos hc]

theorem absorbs_name (hc : startsName c = true) (hcs : ∀ d ∈ cs, isNameChar d = true) :
    Absorbs (c :: w) cs := by
  induction cs generalizing w with
  | nil => trivial
  | cons d cs ih =>
    obtain ⟨hd, hcs⟩ := List.forall_mem_cons.1 hcs
    exact ⟨by rw [goesOn_name hc, hd], ih hcs⟩

theorem isDigit_of_startsName (hc : startsName c = true) : c.isDigit = false := by
  rw [Bool.eq_false_iff]
  intro hdigit
  rw [isDigit_iff] at hdigit
  simp only [startsName, isAlpha_iff, Bool.or_eq_true, decide_eq_true_eq, beq_iff_eq] at hc
  rcases hc with (hc | rfl) | hc
  · omega
  · exact absurd hdigit (by decide)
  · omega

theorem isNumber_of_startsName (hc : startsName c = true) : isNumber (c :: cs) = false := by
  have hpoint : c ≠ '.' := by
    rintro rfl
    cases hc
  rw [isNumber.eq_2 c cs fun _ _ h _ => hpoint h, isDigit_of_startsName hc]

theorem lexeme?_of_plain (hne : w ≠ [])
    (hplain : ∀ c ∈ w.head?, c ∉ [' ', '\t', '"', '\'']) :
    lexeme? w =
      if isNumber w then some (.literal (numberKind w) (String.ofList w))
      else if isIdentifier (String.ofList w) then some (.name (String.ofList w))
      else some ((spellings.lookup w).getD (.unknown (String.ofList w))) := by
  unfold lexeme?
  split
  · exact absurd rfl hne
  all_goals first
    | exact absurd (hplain _ rfl) (by decide)
    | rfl

/-- What `rest` begins with does not belong to a name. -/
def EndsName (rest : List Char) : Prop := ∀ c ∈ rest.head?, isNameChar c = false

theorem isIdentifier_cases (h : isIdentifier x = true) :
    ∃ c cs, x.toList = c :: cs ∧ startsName c = true ∧ ∀ d ∈ cs, isNameChar d = true := by
  simp only [isIdentifier, Bool.and_eq_true] at h
  obtain ⟨⟨hstart, hall⟩, -⟩ := h
  cases hx : x.toList with
  | nil => simp [hx] at hstart
  | cons c cs =>
    rw [hx] at hstart hall
    exact ⟨c, cs, rfl, by simpa using hstart, (List.forall_mem_cons.1 (List.all_eq_true.1 hall)).2⟩

theorem lexeme?_name (hx : isIdentifier x = true) : lexeme? x.toList = some (.name x) := by
  obtain ⟨c, cs, hcs, hc, -⟩ := isIdentifier_cases hx
  have hplain : ∀ d ∈ x.toList.head?, d ∉ [' ', '\t', '"', '\''] := by
    rw [hcs]
    rintro _ ⟨⟩ hmem
    simp only [List.mem_cons, List.not_mem_nil, or_false] at hmem
    rcases hmem with rfl | rfl | rfl | rfl <;> cases hc
  have hnumber : isNumber x.toList = false := hcs ▸ isNumber_of_startsName hc
  rw [lexeme?_of_plain (by simp [hcs]) hplain, String.ofList_toList, hnumber, hx]
  rfl

theorem lex_name (hx : isIdentifier x = true) (hrest : EndsName rest) :
    lex (x.toList ++ rest) = .name x :: lex rest := by
  have hword := lexeme?_name hx
  obtain ⟨c, cs, hcs, hc, hchars⟩ := isIdentifier_cases hx
  rw [hcs] at hword ⊢
  have hstops : Stops (c :: cs) rest := fun d hd => by rw [goesOn_name hc, hrest d hd]
  rw [lex_word (absorbs_cons.2 (absorbs_name hc hchars)) hstops, hword]
  rfl

theorem lex_keyword (h : (c :: w, t) ∈ spellings) (hc : startsName c = true)
    (hrest : EndsName rest) : lex (c :: w ++ rest) = t :: lex rest :=
  lex_spelled h fun d hd => by rw [goesOn_name hc, hrest d hd]

/-! ## Quoted text -/

/-- What may stand between quotes. -/
inductive QuotedBody (quote : Char) : List Char → Prop
  | nil : QuotedBody quote []
  | plain : c ≠ quote → c ≠ '\\' → QuotedBody quote cs → QuotedBody quote (c :: cs)
  | escaped : QuotedBody quote cs → QuotedBody quote ('\\' :: c :: cs)

theorem QuotedBody.append (h : QuotedBody q cs) (h' : QuotedBody q ds) :
    QuotedBody q (cs ++ ds) := by
  induction h with
  | nil => exact h'
  | plain hquote hslash _ ih => exact .plain hquote hslash ih
  | escaped _ ih => exact .escaped ih

theorem QuotedBody.of_forall (h : ∀ c ∈ cs, c ≠ q ∧ c ≠ '\\') : QuotedBody q cs := by
  induction cs with
  | nil => exact .nil
  | cons c cs ih =>
    obtain ⟨hc, hcs⟩ := List.forall_mem_cons.1 h
    exact .plain hc.1 hc.2 (ih hcs)

theorem QuotedBody.unclosed_append (h : QuotedBody q cs) (ds : List Char) :
    unclosed q (cs ++ ds) = unclosed q ds := by
  induction h with
  | nil => rfl
  | plain hquote hslash _ ih =>
    rw [List.cons_append, unclosed.eq_4 _ _ _ (fun h _ => hslash h) fun _ _ h _ => hslash h,
      bne_iff_ne.2 hquote, Bool.true_and, ih]
  | escaped _ ih => exact ih

theorem goesOn_quote (hq : q = '"' ∨ q = '\'') (w : List Char) (c : Char) :
    goesOn (q :: w) c = unclosed q w := by
  rw [goesOn, if_pos hq]

theorem QuotedBody.absorbs (hq : q = '"' ∨ q = '\'') (h : QuotedBody q cs)
    (hw : QuotedBody q w) : Absorbs (q :: w) cs := by
  have hopen {w : List Char} (hw : QuotedBody q w) (c : Char) : goesOn (q :: w) c = true := by
    rw [goesOn_quote hq, ← List.append_nil w, hw.unclosed_append]
    rfl
  induction h generalizing w with
  | nil => trivial
  | plain hquote hslash _ ih =>
    exact ⟨hopen hw _, ih (hw.append (.plain hquote hslash .nil))⟩
  | @escaped cs c _ ih =>
    refine ⟨hopen hw _, ?_, ?_⟩
    · rw [List.cons_append, goesOn_quote hq, hw.unclosed_append]
      rfl
    · rw [List.cons_append, List.cons_append, List.append_assoc]
      exact ih (hw.append (.escaped .nil))

theorem lex_quoted (hq : q = '"' ∨ q = '\'') (h : QuotedBody q cs) (rest : List Char) :
    lex (q :: cs ++ [q] ++ rest) = (lexeme? (q :: cs ++ [q])).toList ++ lex rest := by
  have hslash : q ≠ '\\' := by
    rcases hq with rfl | rfl <;> decide
  have hclosing : Absorbs (q :: cs) [q] := by
    refine ⟨?_, trivial⟩
    rw [goesOn_quote hq, ← List.append_nil cs, h.unclosed_append]
    rfl
  have habsorbs : Absorbs [] (q :: (cs ++ [q])) :=
    absorbs_cons.2 (absorbs_append.2 ⟨h.absorbs hq .nil, hclosing⟩)
  refine lex_word habsorbs fun d _ => ?_
  rw [List.cons_append, goesOn_quote hq, h.unclosed_append,
    unclosed.eq_4 _ _ _ (fun h _ => hslash h) fun _ _ h _ => hslash h, bne_self_eq_false,
    Bool.false_and]

end SmallLisp.Program
