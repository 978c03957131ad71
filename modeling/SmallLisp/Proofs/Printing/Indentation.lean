import SmallLisp.Proofs.Printing.Scanned

/-!
# Indentation

`Printer` writes one text from left to right and keeps the level of the current line. What it puts
out for a tree is the text of the tree at that level, and the level is the same afterwards
(`Printer.Prints`). At another level the text of a tree whose words stand on one line differs in the
tabs after its line breaks only (`print_indented`).
-/

namespace SmallLisp.Program

/-! ## A printer with a level -/

/-- The text so far, and the level of its last line. -/
structure Printer where
  out : List Char
  level : Nat
  deriving DecidableEq

namespace Printer

def start : Printer := ⟨[], 0⟩

def write (p : Printer) (cs : List Char) : Printer := { p with out := p.out ++ cs }

def indent (p : Printer) : Printer := { p with level := p.level + 1 }

def dedent (p : Printer) : Printer := { p with level := p.level - 1 }

def newline (p : Printer) : Printer := p.write (lineBreak p.level)

/-- An operand, which is printed by `print`. -/
def operand (p : Printer) (least : Nat) (e : Expr) (print : Printer → Printer) : Printer :=
  if e.tightness < least then (print (p.write ['('])).write [')'] else print p

/-- A block, whose lines are printed by `print` one level further in. -/
def braced (p : Printer) (print : Printer → Printer) : Printer :=
  (print (p.write ['{']).indent).dedent.newline.write ['}']

/-- A variable declaration, whose values are printed by `print`. -/
def spec (p : Printer) (names : List String) (type : Option TypeExpr) (values : List Expr)
    (print : Printer → Printer) : Printer :=
  let head := p.write ("var ".toList ++ varChars names type [])
  if values.isEmpty then head else print (head.write [' ', '=', ' '])

end Printer

mutual

def Printer.expr (p : Printer) : Expr → Printer
  | .ident name => p.write name.toList
  | .selector base field =>
    (p.operand Expr.primary base (Printer.expr · base)).write ('.' :: field.toList)
  | .literal .string text => p.write (quoting.write text)
  | .literal _ text => p.write text.toList
  | .call f args =>
    (((p.operand Expr.primary f (Printer.expr · f)).write ['(']).exprs args).write [')']
  | .composite type elements => ((p.write (type.chars ++ ['{'])).exprs elements).write ['}']
  | .func signature body =>
    (p.write ("func".toList ++ signature.chars ++ [' '])).braced (Printer.lines · body)
  | .assert value type =>
    (p.operand Expr.primary value (Printer.expr · value)).write ('.' :: parenthesize type.chars)
  | .not operand => (p.write ['!']).operand Expr.unary operand (Printer.expr · operand)
  | .logic op left right =>
    ((p.operand op.tightness left (Printer.expr · left)).write (' ' :: op.chars ++ [' '])).operand
      (op.tightness + 1) right (Printer.expr · right)

def Printer.exprs (p : Printer) : List Expr → Printer
  | [] => p
  | [e] => p.expr e
  | e :: es => ((p.expr e).write [',', ' ']).exprs es

def Printer.stmt (p : Printer) : Stmt → Printer
  | .assign op targets values =>
    ((p.exprs targets).write (' ' :: op.chars ++ [' '])).exprs values
  | .var names type values => p.spec names type values (Printer.exprs · values)
  | .branch test yes no =>
    ((((p.write "if ".toList).expr test).write [' ']).braced (Printer.lines · yes)).otherwise no
  | .loop init test post body =>
    let head := p.write "for ".toList
    let head := if init.isSome || post.isSome then
        (((((head.stmtIn [] init).write [';', ' ']).exprIn test []).write [';']).stmtIn
          [' '] post).write [' ']
      else
        head.exprIn test [' ']
    head.braced (Printer.lines · body)
  | .ret [] => p.write "return".toList
  | .ret (e :: es) => (p.write "return ".toList).exprs (e :: es)
  | .expr value => p.expr value

/-- The statements of a block, each on a line of its own. -/
def Printer.lines (p : Printer) : List Stmt → Printer
  | [] => p
  | s :: ss => (p.newline.stmt s).lines ss

def Printer.otherwise (p : Printer) : Option (List Stmt) → Printer
  | none => p
  | some body => (p.write " else ".toList).braced (Printer.lines · body)

/-- A statement, if there is one, with a text before it. -/
def Printer.stmtIn (p : Printer) (front : List Char) : Option Stmt → Printer
  | none => p
  | some s => (p.write front).stmt s

/-- An expression, if there is one, with a text after it. -/
def Printer.exprIn (p : Printer) : Option Expr → List Char → Printer
  | none, _ => p
  | some e, back => (p.expr e).write back

end

namespace Printer

def decl (p : Printer) : Decl → Printer
  | .func name signature body =>
    (p.write ("func ".toList ++ name.toList ++ signature.chars ++ [' '])).braced (lines · body)
  | .var names type values => p.spec names type values (exprs · values)
  | .imports specs =>
    let inner := specs.foldl (fun p i => p.newline.write i.chars)
      (p.write "import (".toList).indent
    inner.dedent.newline.write [')']

def file (p : Printer) (f : File) : Printer :=
  f.decls.foldl (fun p d => ((p.write ['\n']).decl d).write ['\n'])
    (p.write ("package ".toList ++ f.package.toList ++ ['\n']))

/-! ## The text that it puts out -/

@[simp] theorem write_nil (p : Printer) : p.write [] = p := by
  rw [write, List.append_nil]

@[simp] theorem write_write (p : Printer) (cs ds : List Char) :
    (p.write cs).write ds = p.write (cs ++ ds) := by
  rw [write, write, write, List.append_assoc]

@[simp] theorem level_write (p : Printer) (cs : List Char) : (p.write cs).level = p.level := rfl

/-- What `print` does at every printer: it writes a text that depends on the level only. -/
def Prints (print : Printer → Printer) (text : Nat → List Char) : Prop :=
  ∀ p, print p = p.write (text p.level)

theorem Prints.operand {e : Expr} (h : Prints print text) (least : Nat) (p : Printer) :
    p.operand least e print = p.write (operandChars least e (text p.level)) := by
  unfold Printer.operand operandChars
  split
  · simp [h _, parenthesize]
  · exact h p

/-- The level is one higher inside a block and restored after it. -/
theorem Prints.braced (h : Prints print text) (p : Printer) :
    p.braced print = p.write ('{' :: text (p.level + 1) ++ lineBreak p.level ++ ['}']) := by
  simp [Printer.braced, h _, indent, dedent, newline, write]

theorem Prints.spec {values : List Expr}
    (h : Prints print fun k => commaChars (Expr.charsEach k values)) (names : List String)
    (type : Option TypeExpr) (p : Printer) :
    p.spec names type values print =
      p.write ("var ".toList ++ varChars names type (Expr.charsEach p.level values)) := by
  cases values with
  | nil => rfl
  | cons e es => simp [Printer.spec, h _, varChars, Expr.charsEach]

mutual

theorem prints_expr : (e : Expr) → Prints (expr · e) (Expr.chars · e)
  | .ident _ => fun _ => rfl
  | .selector base field => fun p => by
    simp [expr, Expr.chars_selector, (prints_expr base).operand]
  | .literal .string _ => fun _ => rfl
  | .literal .int _ => fun _ => rfl
  | .literal .float _ => fun _ => rfl
  | .literal .imag _ => fun _ => rfl
  | .literal .char _ => fun _ => rfl
  | .call f args => fun p => by
    simp [expr, Expr.chars_call, (prints_expr f).operand, prints_exprs args _, parenthesize]
  | .composite type elements => fun p => by
    simp [expr, Expr.chars_composite, prints_exprs elements _]
  | .func signature body => fun p => by
    simp [expr, Expr.chars_func, (prints_lines body).braced]
  | .assert value type => fun p => by
    simp [expr, Expr.chars_assert, (prints_expr value).operand]
  | .not operand => fun p => by
    simp [expr, Expr.chars_not, (prints_expr operand).operand]
  | .logic op left right => fun p => by
    simp [expr, Expr.chars_logic, (prints_expr left).operand, (prints_expr right).operand]

theorem prints_exprs :
    (es : List Expr) → Prints (exprs · es) fun k => commaChars (Expr.charsEach k es)
  | [] => fun p => (write_nil p).symm
  | [e] => prints_expr e
  | e :: e' :: es => fun p => by
    simp [exprs, prints_expr e _, prints_exprs (e' :: es) _, Expr.charsEach, commaChars]

theorem prints_stmt : (s : Stmt) → Prints (stmt · s) (Stmt.chars · s)
  | .assign op targets values => fun p => by
    simp [stmt, Stmt.chars_assign, prints_exprs targets _, prints_exprs values _]
  | .var names type values => (prints_exprs values).spec names type
  | .branch test yes no => fun p => by
    simp [stmt, Stmt.chars_branch, prints_expr test _, (prints_lines yes).braced,
      prints_otherwise no _]
  | .loop init test post body => fun p => by
    simp only [stmt, Stmt.chars_loop, (prints_lines body).braced, prints_stmtIn _ init _,
      prints_stmtIn _ post _, prints_exprIn _ test _, loopHeadChars]
    cases init <;> cases test <;> cases post <;> simp [Stmt.charsIn, Expr.charsIn]
  | .ret [] => fun _ => rfl
  | .ret (e :: es) => fun p => by
    simp [stmt, Stmt.chars_ret_cons, prints_exprs (e :: es) _]
  | .expr value => prints_expr value

theorem prints_lines : (body : List Stmt) → Prints (lines · body) (Stmt.lineChars · body)
  | [] => fun p => (write_nil p).symm
  | s :: ss => fun p => by
    simp [lines, newline, prints_stmt s _, prints_lines ss _, Stmt.lineChars]

theorem prints_otherwise :
    (no : Option (List Stmt)) → Prints (otherwise · no) (Stmt.elseChars · no)
  | none => fun p => (write_nil p).symm
  | some body => fun p => by
    simp [otherwise, Stmt.elseChars_some, (prints_lines body).braced]

theorem prints_stmtIn (front : List Char) : (part : Option Stmt) →
    Prints (stmtIn · front part) fun k => ((Stmt.charsIn k part).map (front ++ ·)).getD []
  | none => fun p => (write_nil p).symm
  | some s => fun p => by
    simp [stmtIn, prints_stmt s _, Stmt.charsIn]

theorem prints_exprIn (back : List Char) : (part : Option Expr) →
    Prints (exprIn · part back) fun k => ((Expr.charsIn k part).map (· ++ back)).getD []
  | none => fun p => (write_nil p).symm
  | some e => fun p => by
    simp [exprIn, prints_expr e _, Expr.charsIn]

end

theorem imports_eq (p : Printer) (specs : List Import) :
    specs.foldl (fun p i => p.newline.write i.chars) p =
      p.write (specs.flatMap fun i => lineBreak p.level ++ i.chars) := by
  induction specs generalizing p with
  | nil => exact (write_nil p).symm
  | cons i specs ih =>
    rw [List.foldl_cons, ih, newline, write_write, write_write, List.flatMap_cons,
      List.append_assoc]
    rfl

theorem decl_eq (p : Printer) (d : Decl) : p.decl d = p.write (d.chars p.level) := by
  cases d with
  | func name signature body =>
    rw [decl, (prints_lines body).braced, write_write]
    exact congrArg p.write (List.append_assoc ..)
  | var names type values => exact (prints_exprs values).spec names type p
  | imports specs =>
    rw [decl, imports_eq]
    simp only [indent, dedent, newline, write, Nat.add_sub_cancel, Decl.chars_imports,
      List.append_assoc]

theorem decls_eq (p : Printer) (h : p.level = 0) (ds : List Decl) :
    ds.foldl (fun p d => ((p.write ['\n']).decl d).write ['\n']) p =
      p.write (ds.flatMap fun d => '\n' :: d.chars 0 ++ ['\n']) := by
  induction ds generalizing p with
  | nil => exact (write_nil p).symm
  | cons d ds ih =>
    have hfirst : ((p.write ['\n']).decl d).write ['\n'] =
        p.write ('\n' :: d.chars 0 ++ ['\n']) := by
      rw [decl_eq, level_write, h, write_write, write_write]
      rfl
    rw [List.foldl_cons, hfirst, ih (p.write _) h, write_write, List.flatMap_cons]

theorem file_eq (p : Printer) (f : File) (h : p.level = 0) : p.file f = p.write f.chars := by
  rw [file, decls_eq (p.write _) h, write_write, List.append_assoc]
  rfl

end Printer

/-! ## Words on one line -/

/-- The name of the type stands on one line. -/
def TypeExpr.Unbroken : TypeExpr → Prop
  | .named name => '\n' ∉ name.toList
  | .qualified package name => '\n' ∉ package.toList ∧ '\n' ∉ name.toList
  | .slice element => element.Unbroken

structure ParamGroup.Unbroken (g : ParamGroup) : Prop where
  names : ∀ x ∈ g.names, '\n' ∉ x.toList
  type : g.type.Unbroken

structure Signature.Unbroken (s : Signature) : Prop where
  params : ∀ g ∈ s.params, g.Unbroken
  results : ∀ t ∈ s.results, t.Unbroken

mutual

/-- No name, no type name and no literal has a line break in it, strings apart. -/
inductive Expr.Unbroken : Expr → Prop
  | ident : '\n' ∉ name.toList → Expr.Unbroken (.ident name)
  | selector : base.Unbroken → '\n' ∉ field.toList → Expr.Unbroken (.selector base field)
  | literal : (kind ≠ .string → '\n' ∉ text.toList) → Expr.Unbroken (.literal kind text)
  | call : f.Unbroken → (∀ a ∈ args, a.Unbroken) → Expr.Unbroken (.call f args)
  | composite : type.Unbroken → (∀ a ∈ elements, a.Unbroken) →
    Expr.Unbroken (.composite type elements)
  | func : signature.Unbroken → (∀ s ∈ body, s.Unbroken) → Expr.Unbroken (.func signature body)
  | assert : value.Unbroken → type.Unbroken → Expr.Unbroken (.assert value type)
  | not : operand.Unbroken → Expr.Unbroken (.not operand)
  | logic : left.Unbroken → right.Unbroken → Expr.Unbroken (.logic op left right)

inductive Stmt.Unbroken : Stmt → Prop
  | assign : (∀ e ∈ targets, e.Unbroken) → (∀ e ∈ values, e.Unbroken) →
    Stmt.Unbroken (.assign op targets values)
  | var : (∀ x ∈ names, '\n' ∉ x.toList) → (∀ t ∈ type, t.Unbroken) →
    (∀ e ∈ values, e.Unbroken) → Stmt.Unbroken (.var names type values)
  | branch : test.Unbroken → (∀ s ∈ yes, s.Unbroken) → (∀ body ∈ no, ∀ s ∈ body, s.Unbroken) →
    Stmt.Unbroken (.branch test yes no)
  | loop : (∀ s ∈ init, s.Unbroken) → (∀ e ∈ test, e.Unbroken) → (∀ s ∈ post, s.Unbroken) →
    (∀ s ∈ body, s.Unbroken) → Stmt.Unbroken (.loop init test post body)
  | ret : (∀ e ∈ values, e.Unbroken) → Stmt.Unbroken (.ret values)
  | expr : e.Unbroken → Stmt.Unbroken (.expr e)

end

def Import.Unbroken (i : Import) : Prop := ∀ name ∈ i.alias?, '\n' ∉ name.toList

inductive Decl.Unbroken : Decl → Prop
  | func : '\n' ∉ name.toList → signature.Unbroken → (∀ s ∈ body, s.Unbroken) →
    Decl.Unbroken (.func name signature body)
  | var : (∀ x ∈ names, '\n' ∉ x.toList) → (∀ t ∈ type, TypeExpr.Unbroken t) →
    (∀ e ∈ values, Expr.Unbroken e) → Decl.Unbroken (.var names type values)
  | imports : (∀ i ∈ specs, i.Unbroken) → Decl.Unbroken (.imports specs)

/-! ## Texts at another level -/

/-- The text with `j` tabs more after each of its line breaks. -/
def indentBy (j : Nat) (cs : List Char) : List Char :=
  cs.flatMap fun c => if c = '\n' then lineBreak j else [c]

@[simp] theorem indentBy_nil (j : Nat) : indentBy j [] = [] := rfl

@[simp] theorem indentBy_append (j : Nat) (cs ds : List Char) :
    indentBy j (cs ++ ds) = indentBy j cs ++ indentBy j ds :=
  List.flatMap_append ..

theorem indentBy_of_notMem {cs : List Char} (h : '\n' ∉ cs) (j : Nat) : indentBy j cs = cs := by
  induction cs with
  | nil => rfl
  | cons c cs ih =>
    obtain ⟨hc, hcs⟩ := List.ne_and_not_mem_of_not_mem_cons h
    rw [indentBy, List.flatMap_cons, if_neg (Ne.symm hc), ← indentBy, ih hcs]
    rfl

@[simp] theorem indentBy_cons {c : Char} (h : c ≠ '\n') (j : Nat) (cs : List Char) :
    indentBy j (c :: cs) = c :: indentBy j cs := by
  rw [indentBy, List.flatMap_cons, if_neg h]
  rfl

@[simp] theorem indentBy_lineBreak (j k : Nat) : indentBy j (lineBreak k) = lineBreak (k + j) := by
  have htabs : '\n' ∉ List.replicate k '\t' := fun h =>
    absurd (List.eq_of_mem_replicate h) (by decide)
  rw [lineBreak, indentBy, List.flatMap_cons, if_pos rfl, ← indentBy, indentBy_of_notMem htabs,
    lineBreak, List.cons_append, List.replicate_append_replicate, Nat.add_comm j, ← lineBreak]

theorem indentBy_commaChars {f g : α → List Char} {as : List α}
    (h : ∀ a ∈ as, indentBy j (f a) = g a) :
    indentBy j (commaChars (as.map f)) = commaChars (as.map g) := by
  match as with
  | [] => rfl
  | [a] => exact h a (List.mem_singleton_self a)
  | a :: b :: as =>
    obtain ⟨ha, has⟩ := List.forall_mem_cons.1 h
    have hrest := indentBy_commaChars has
    simp only [List.map_cons] at hrest
    simp [commaChars, ha, hrest]

theorem indentBy_nameChars (h : ∀ x ∈ names, '\n' ∉ x.toList) (j : Nat) :
    indentBy j (nameChars names) = nameChars names :=
  indentBy_commaChars fun x hx => indentBy_of_notMem (h x hx) j

theorem indentBy_write (j : Nat) (text : String) :
    indentBy j (quoting.write text) = quoting.write text :=
  indentBy_of_notMem (fun h => absurd (printable_of_mem_write h).1 (by decide)) j

@[simp] theorem indentBy_operandChars (j least : Nat) (e : Expr) (cs : List Char) :
    indentBy j (operandChars least e cs) = operandChars least e (indentBy j cs) := by
  unfold operandChars
  split <;> simp [parenthesize]

@[simp] theorem indentBy_loopHeadChars (j : Nat) (init test post : Option (List Char)) :
    indentBy j (loopHeadChars init test post) =
      loopHeadChars (init.map (indentBy j)) (test.map (indentBy j)) (post.map (indentBy j)) := by
  cases init <;> cases test <;> cases post <;> simp [loopHeadChars]

@[simp] theorem LogicOp.indentBy_chars (j : Nat) (op : LogicOp) :
    indentBy j op.chars = op.chars := by
  cases op <;> rfl

@[simp] theorem AssignOp.indentBy_chars (j : Nat) (op : AssignOp) :
    indentBy j op.chars = op.chars := by
  cases op <;> rfl

theorem TypeExpr.Unbroken.indentBy_chars {t : TypeExpr} (h : t.Unbroken) (j : Nat) :
    indentBy j t.chars = t.chars := by
  induction t with
  | named name => exact indentBy_of_notMem h j
  | qualified package name =>
    simp [TypeExpr.chars, indentBy_of_notMem h.1 j, indentBy_of_notMem h.2 j]
  | slice element ih => simp [TypeExpr.chars, ih h]

theorem ParamGroup.Unbroken.indentBy_chars {g : ParamGroup} (h : g.Unbroken) (j : Nat) :
    indentBy j g.chars = g.chars := by
  unfold ParamGroup.chars
  split <;> split <;> simp [indentBy_nameChars h.names, h.type.indentBy_chars]

theorem indentBy_resultChars {ts : List TypeExpr} (h : ∀ t ∈ ts, t.Unbroken) (j : Nat) :
    indentBy j (resultChars ts) = resultChars ts := by
  match ts with
  | [] => rfl
  | [t] => simp [resultChars, (h t (List.mem_singleton_self t)).indentBy_chars]
  | t :: u :: ts =>
    have hall := indentBy_commaChars fun v hv => (h v hv).indentBy_chars j
    simp only [resultChars, indentBy_append, hall]
    simp

theorem Signature.Unbroken.indentBy_chars {s : Signature} (h : s.Unbroken) (j : Nat) :
    indentBy j s.chars = s.chars := by
  have hparams := indentBy_commaChars fun g hg => (h.params g hg).indentBy_chars j
  simp [Signature.chars, hparams, indentBy_resultChars h.results]

theorem indentBy_each {es : List Expr} (h : ∀ e ∈ es, indentBy j (e.chars k) = e.chars (k + j)) :
    indentBy j (commaChars (Expr.charsEach k es)) = commaChars (Expr.charsEach (k + j) es) := by
  rw [Expr.charsEach_eq_map, Expr.charsEach_eq_map, indentBy_commaChars h]

theorem indentBy_varChars (hnames : ∀ x ∈ names, '\n' ∉ x.toList)
    (htype : ∀ t ∈ type, TypeExpr.Unbroken t) {values : List Expr}
    (h : ∀ e ∈ values, indentBy j (e.chars k) = e.chars (k + j)) :
    indentBy j (varChars names type (Expr.charsEach k values)) =
      varChars names type (Expr.charsEach (k + j) values) := by
  have hassigned : indentBy j (if (Expr.charsEach k values).isEmpty then []
        else [' ', '=', ' '] ++ commaChars (Expr.charsEach k values)) =
      if (Expr.charsEach (k + j) values).isEmpty then []
        else [' ', '=', ' '] ++ commaChars (Expr.charsEach (k + j) values) := by
    have hvalues := indentBy_each h
    cases values with
    | nil => rfl
    | cons e es =>
      simp only [Expr.charsEach] at hvalues ⊢
      simp [hvalues]
  simp only [varChars, indentBy_append, indentBy_nameChars hnames, hassigned]
  cases type with
  | none => rfl
  | some t => simp [(htype t rfl).indentBy_chars]

theorem indentBy_lineChars {body : List Stmt}
    (h : ∀ s ∈ body, indentBy j (s.chars k) = s.chars (k + j)) :
    indentBy j (Stmt.lineChars k body) = Stmt.lineChars (k + j) body := by
  induction body with
  | nil => rfl
  | cons s ss ih =>
    obtain ⟨hs, hss⟩ := List.forall_mem_cons.1 h
    rw [Stmt.lineChars, indentBy_append, indentBy_append, indentBy_lineBreak, hs, ih hss,
      Stmt.lineChars]

/-- The lines of a block at level `k` are one level further in, also after the move. -/
theorem indentBy_block {body : List Stmt}
    (h : ∀ s ∈ body, indentBy j (s.chars (k + 1)) = s.chars (k + 1 + j)) :
    indentBy j (Stmt.lineChars (k + 1) body) = Stmt.lineChars (k + j + 1) body := by
  rw [indentBy_lineChars h, Nat.add_right_comm]

theorem indentBy_elseChars {no : Option (List Stmt)}
    (h : ∀ body ∈ no, ∀ s ∈ body, indentBy j (s.chars (k + 1)) = s.chars (k + 1 + j)) :
    indentBy j (Stmt.elseChars k no) = Stmt.elseChars (k + j) no := by
  cases no with
  | none => rfl
  | some body => simp [Stmt.elseChars_some, indentBy_block (h body rfl)]

theorem map_stmtCharsIn {part : Option Stmt}
    (h : ∀ s ∈ part, indentBy j (s.chars k) = s.chars (k + j)) :
    (Stmt.charsIn k part).map (indentBy j) = Stmt.charsIn (k + j) part := by
  cases part with
  | none => rfl
  | some s => exact congrArg some (h s rfl)

theorem map_exprCharsIn {part : Option Expr}
    (h : ∀ e ∈ part, indentBy j (e.chars k) = e.chars (k + j)) :
    (Expr.charsIn k part).map (indentBy j) = Expr.charsIn (k + j) part := by
  cases part with
  | none => rfl
  | some e => exact congrArg some (h e rfl)

mutual

theorem Expr.Unbroken.indentBy_chars (j k : Nat) :
    {e : Expr} → e.Unbroken → indentBy j (e.chars k) = e.chars (k + j)
  | _, .ident hname => indentBy_of_notMem hname j
  | _, .selector hbase hfield => by
    simp [Expr.chars_selector, hbase.indentBy_chars j k, indentBy_of_notMem hfield j]
  | .literal kind text, .literal htext => by
    by_cases hkind : kind = .string
    · exact hkind ▸ indentBy_write j text
    · rw [Expr.chars_literal hkind, Expr.chars_literal hkind, indentBy_of_notMem (htext hkind)]
  | _, .call hf hargs => by
    have hargs := indentBy_each fun a ha => (hargs a ha).indentBy_chars j k
    simp [Expr.chars_call, parenthesize, hf.indentBy_chars j k, hargs]
  | _, .composite htype helements => by
    have helements := indentBy_each fun a ha => (helements a ha).indentBy_chars j k
    simp [Expr.chars_composite, htype.indentBy_chars, helements]
  | _, .func hsignature hbody => by
    have hbody := indentBy_block fun s hs => (hbody s hs).indentBy_chars j (k + 1)
    simp [Expr.chars_func, hsignature.indentBy_chars, hbody]
  | _, .assert hvalue htype => by
    simp [Expr.chars_assert, parenthesize, hvalue.indentBy_chars j k, htype.indentBy_chars]
  | _, .not hoperand => by
    simp [Expr.chars_not, hoperand.indentBy_chars j k]
  | _, .logic hleft hright => by
    simp [Expr.chars_logic, hleft.indentBy_chars j k, hright.indentBy_chars j k]

theorem Stmt.Unbroken.indentBy_chars (j k : Nat) :
    {s : Stmt} → s.Unbroken → indentBy j (s.chars k) = s.chars (k + j)
  | _, .assign htargets hvalues => by
    have htargets := indentBy_each fun e he => (htargets e he).indentBy_chars j k
    have hvalues := indentBy_each fun e he => (hvalues e he).indentBy_chars j k
    simp [Stmt.chars_assign, htargets, hvalues]
  | _, .var hnames htype hvalues => by
    have hdeclared := indentBy_varChars hnames htype fun e he =>
      (hvalues e he).indentBy_chars j k
    simp [Stmt.chars_var, hdeclared]
  | _, .branch htest hyes hno => by
    have hyes := indentBy_block fun s hs => (hyes s hs).indentBy_chars j (k + 1)
    have hno := indentBy_elseChars fun body hbody s hs =>
      (hno body hbody s hs).indentBy_chars j (k + 1)
    simp [Stmt.chars_branch, htest.indentBy_chars j k, hyes, hno]
  | _, .loop hinit htest hpost hbody => by
    have hinit := map_stmtCharsIn fun s hs => (hinit s hs).indentBy_chars j k
    have htest := map_exprCharsIn fun e he => (htest e he).indentBy_chars j k
    have hpost := map_stmtCharsIn fun s hs => (hpost s hs).indentBy_chars j k
    have hbody := indentBy_block fun s hs => (hbody s hs).indentBy_chars j (k + 1)
    simp [Stmt.chars_loop, hinit, htest, hpost, hbody]
  | .ret [], _ => by
    have hword : '\n' ∉ "return".toList := by decide
    exact indentBy_of_notMem hword j
  | .ret (e :: es), .ret hvalues => by
    have hvalues := indentBy_each fun e he => (hvalues e he).indentBy_chars j k
    simp [Stmt.chars_ret_cons, hvalues]
  | _, .expr h => h.indentBy_chars j k

end

theorem Import.Unbroken.indentBy_chars {i : Import} (h : i.Unbroken) (j : Nat) :
    indentBy j i.chars = i.chars := by
  obtain ⟨alias?, path⟩ := i
  cases alias? with
  | none => exact indentBy_write j path
  | some name =>
    simp [Import.chars, indentBy_of_notMem (h name rfl) j, indentBy_write]

theorem Decl.Unbroken.indentBy_chars (j k : Nat) :
    {d : Decl} → d.Unbroken → indentBy j (d.chars k) = d.chars (k + j)
  | .func name signature body, .func hname hsignature hbody => by
    have hbody := indentBy_block fun s hs => (hbody s hs).indentBy_chars j (k + 1)
    simp [Decl.chars_func, Stmt.blockChars, indentBy_of_notMem hname j, hsignature.indentBy_chars,
      hbody]
  | _, .var hnames htype hvalues => (Stmt.Unbroken.var hnames htype hvalues).indentBy_chars j k
  | .imports specs, .imports hspecs => by
    have hlines : indentBy j (specs.flatMap fun i => lineBreak (k + 1) ++ i.chars) =
        specs.flatMap fun i => lineBreak (k + j + 1) ++ i.chars := by
      induction specs with
      | nil => rfl
      | cons i specs ih =>
        obtain ⟨hi, hspecs⟩ := List.forall_mem_cons.1 hspecs
        simp [ih hspecs, hi.indentBy_chars, Nat.add_right_comm]
    simp [Decl.chars_imports, hlines]

/-- Whatever stands at level `k` is printed as at level 0, with `k` tabs more after each line break,
and the level is `k` again afterwards. So each declaration of a file is printed as on its own. -/
theorem print_indented :
    (∀ e : Expr, e.Unbroken → ∀ p : Printer,
      p.expr e = p.write (indentBy p.level e.print.toList)) ∧
    (∀ s : Stmt, s.Unbroken → ∀ p : Printer,
      p.stmt s = p.write (indentBy p.level s.print.toList)) ∧
    (∀ d : Decl, d.Unbroken → ∀ p : Printer,
      p.decl d = p.write (indentBy p.level d.print.toList)) ∧
    ∀ f : File, Printer.start.file f = Printer.start.write f.print.toList ∧
      f.print = "package " ++ f.package ++ "\n" ++
        String.join (f.decls.map fun d => "\n" ++ d.print ++ "\n") := by
  refine ⟨fun e h p => ?_, fun s h p => ?_, fun d h p => ?_, fun f => ⟨?_, ?_⟩⟩
  · rw [Expr.print, String.toList_ofList, h.indentBy_chars, Nat.zero_add]
    exact Printer.prints_expr e p
  · rw [Stmt.print, String.toList_ofList, h.indentBy_chars, Nat.zero_add]
    exact Printer.prints_stmt s p
  · rw [Decl.print, String.toList_ofList, h.indentBy_chars, Nat.zero_add]
    exact Printer.decl_eq p d
  · rw [Printer.file_eq _ f rfl, File.print, String.toList_ofList]
  · have hdecls : (String.join (f.decls.map fun d => "\n" ++ d.print ++ "\n")).toList =
        f.decls.flatMap fun d => '\n' :: d.chars 0 ++ ['\n'] := by
      simp [Decl.print, String.toList_join, List.flatMap_map]
    rw [← String.toList_inj, File.print, String.toList_ofList, String.toList_append, hdecls,
      String.toList_append, String.toList_append, List.append_assoc]
    rfl

/-- A function with a branch in it. -/
def branchInFunction : Expr :=
  .func ⟨[], []⟩ [.branch (.ident "ok") [.ret [.string "a\nb"]] none]

/-- The function as an expression, as what is returned and as a value that is declared. -/
theorem print_indented_function :
    branchInFunction.Unbroken ∧ Printer.expr ⟨[], 2⟩ branchInFunction =
      ⟨"func() \x7b\n\t\t\tif ok \x7b\n\t\t\t\treturn \"a\\nb\"\n\t\t\t\x7d\n\t\t\x7d".toList, 2⟩ ∧
    (Stmt.ret [branchInFunction]).Unbroken ∧
      Printer.stmt ⟨[], 1⟩ (.ret [branchInFunction]) =
        ⟨"return func() \x7b\n\t\tif ok \x7b\n\t\t\treturn \"a\\nb\"\n\t\t\x7d\n\t\x7d".toList, 1⟩ ∧
    (Decl.var ["f"] none [branchInFunction]).Unbroken ∧
      Printer.decl ⟨[], 0⟩ (.var ["f"] none [branchInFunction]) =
        ⟨"var f = func() \x7b\n\tif ok \x7b\n\t\treturn \"a\\nb\"\n\t\x7d\n\x7d".toList, 0⟩ := by
  have htext : (Expr.string "a\nb").Unbroken := .literal (absurd rfl)
  have hreturn : (Stmt.ret [.string "a\nb"]).Unbroken := .ret (by simpa using htext)
  have hbranch : (Stmt.branch (.ident "ok") [.ret [.string "a\nb"]] none).Unbroken :=
    .branch (.ident (by decide)) (by simpa using hreturn) (by simp)
  have hfunction : branchInFunction.Unbroken := .func ⟨by simp, by simp⟩ (by simpa using hbranch)
  have hret : (Stmt.ret [branchInFunction]).Unbroken := .ret (by simpa using hfunction)
  have hvar : (Decl.var ["f"] none [branchInFunction]).Unbroken :=
    .var (by simp) (by simp) (by simpa using hfunction)
  exact ⟨hfunction, (print_indented.1 _ hfunction ⟨[], 2⟩).trans (by decide),
    hret, (print_indented.2.1 _ hret ⟨[], 1⟩).trans (by decide),
    hvar, (print_indented.2.2.1 _ hvar ⟨[], 0⟩).trans (by decide)⟩

end SmallLisp.Program
