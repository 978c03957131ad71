import SmallLisp.Proofs.Printing.Scanned

/-!
# Reading types and parameters from lexemes

Types, names and signatures are read back from their lexemes, and in one way only.
-/

namespace SmallLisp.Program

/-! ## Types and parameters -/

def readType : List Lexeme → Option (TypeExpr × List Lexeme)
  | .name p :: .point :: .name x :: ts => some (.qualified p x, ts)
  | .name x :: ts => some (.named x, ts)
  | .bracketOpen :: .bracketClose :: ts => do
    let (t, ts) ← readType ts
    some (.slice t, ts)
  | _ => none

def readNames : List Lexeme → Option (List String × List Lexeme)
  | .name x :: .comma :: ts => do
    let (xs, ts) ← readNames ts
    some (x :: xs, ts)
  | .name x :: ts => some ([x], ts)
  | _ => none

def skipEllipsis : List Lexeme → Bool × List Lexeme
  | .ellipsis :: ts => (true, ts)
  | ts => (false, ts)

def readGroup (ts : List Lexeme) : Option (ParamGroup × List Lexeme) := do
  let (names, ts) ← readNames ts
  let (variadic, ts) := skipEllipsis ts
  let (type, ts) ← readType ts
  some (⟨names, type, variadic⟩, ts)

/-- The lexemes that begin a type. -/
def opensType : List Lexeme → Bool
  | .name _ :: _ | .bracketOpen :: _ => true
  | _ => false

def readTypeIn (ts : List Lexeme) : Option (Option TypeExpr × List Lexeme) :=
  if opensType ts then do
    let (t, ts) ← readType ts
    some (some t, ts)
  else
    some (none, ts)

/-- The names and the type of a variable declaration. -/
def readDeclared (ts : List Lexeme) :
    Option ((List String × Option TypeExpr) × List Lexeme) := do
  let (names, ts) ← readNames ts
  let (type, ts) ← readTypeIn ts
  some ((names, type), ts)

/-- One or more items with commas between them. -/
inductive ReadSeparated (item : List Lexeme → Option (α × List Lexeme)) :
    List Lexeme → List α → List Lexeme → Prop
  | last : item ts = some (a, rest) → rest.head? ≠ some .comma → ReadSeparated item ts [a] rest
  | cons : item ts = some (a, .comma :: us) → ReadSeparated item us as rest →
    ReadSeparated item ts (a :: as) rest

inductive ReadParams : List Lexeme → List ParamGroup → List Lexeme → Prop
  | nil : ReadParams (.parenClose :: rest) [] rest
  | groups : ReadSeparated readGroup ts groups (.parenClose :: rest) → ReadParams ts groups rest

inductive ReadResults : List Lexeme → List TypeExpr → List Lexeme → Prop
  | none : opensType rest = false → rest.head? ≠ some .parenOpen → ReadResults rest [] rest
  | one : readType ts = some (t, rest) → ReadResults ts [t] rest
  | many : ReadSeparated readType ts types (.parenClose :: rest) →
    ReadResults (.parenOpen :: ts) types rest

inductive ReadSignature : List Lexeme → Signature → List Lexeme → Prop
  | mk : ReadParams ts params us → ReadResults us results rest →
    ReadSignature (.parenOpen :: ts) ⟨params, results⟩ rest

/-! ## Uniqueness -/

theorem ReadSeparated.unique {item : List Lexeme → Option (α × List Lexeme)}
    (h : ReadSeparated item ts as rest) (h' : ReadSeparated item ts as' rest') :
    as = as' ∧ rest = rest' := by
  induction h generalizing as' with
  | last ha hcomma =>
    cases h' with
    | last ha' _ =>
      rw [ha] at ha'
      cases ha'
      exact ⟨rfl, rfl⟩
    | cons ha' _ =>
      rw [ha] at ha'
      cases ha'
      exact absurd rfl hcomma
  | cons ha _ ih =>
    cases h' with
    | last ha' hcomma =>
      rw [ha] at ha'
      cases ha'
      exact absurd rfl hcomma
    | cons ha' h' =>
      rw [ha] at ha'
      cases ha'
      obtain ⟨rfl, rfl⟩ := ih h'
      exact ⟨rfl, rfl⟩

theorem ReadParams.unique (h : ReadParams ts params rest) (h' : ReadParams ts params' rest') :
    params = params' ∧ rest = rest' := by
  have hclose {us : List Lexeme} {gs : List ParamGroup} {rest : List Lexeme}
      (h : ReadSeparated readGroup (.parenClose :: us) gs rest) : False := by
    cases h with
    | last h _ => cases h
    | cons h _ => cases h
  cases h with
  | nil =>
    cases h' with
    | nil => exact ⟨rfl, rfl⟩
    | groups h' => exact (hclose h').elim
  | groups h =>
    cases h' with
    | nil => exact (hclose h).elim
    | groups h' =>
      obtain ⟨rfl, heq⟩ := h.unique h'
      cases heq
      exact ⟨rfl, rfl⟩

theorem opensType_of_readType (h : readType ts = some (t, rest)) : opensType ts = true := by
  unfold readType at h
  split at h
  · rfl
  · rfl
  · rfl
  · cases h

theorem ReadResults.unique (h : ReadResults ts results rest) (h' : ReadResults ts results' rest') :
    results = results' ∧ rest = rest' := by
  have hnone {ts : List Lexeme} {t : TypeExpr} {rest : List Lexeme} (h : opensType ts = false)
      (h' : readType ts = some (t, rest)) : False := by
    rw [opensType_of_readType h'] at h
    cases h
  cases h with
  | none hopens hparen =>
    cases h' with
    | none _ _ => exact ⟨rfl, rfl⟩
    | one h' => exact (hnone hopens h').elim
    | many _ => exact absurd rfl hparen
  | one h =>
    cases h' with
    | none hopens _ => exact (hnone hopens h).elim
    | one h' =>
      rw [h] at h'
      cases h'
      exact ⟨rfl, rfl⟩
    | many _ => cases h
  | many h =>
    cases h' with
    | none _ hparen => exact absurd rfl hparen
    | one h' => cases h'
    | many h' =>
      obtain ⟨rfl, heq⟩ := h.unique h'
      cases heq
      exact ⟨rfl, rfl⟩

theorem ReadSignature.unique (h : ReadSignature ts s rest) (h' : ReadSignature ts s' rest') :
    s = s' ∧ rest = rest' := by
  cases h with
  | mk hparams hresults =>
    cases h' with
    | mk hparams' hresults' =>
      obtain ⟨rfl, rfl⟩ := hparams.unique hparams'
      obtain ⟨rfl, rfl⟩ := hresults.unique hresults'
      exact ⟨rfl, rfl⟩

/-! ## Reading lists and types back -/

theorem readType_lexemes (t : TypeExpr) (rest : List Lexeme) (hrest : rest.head? ≠ some .point) :
    readType (t.lexemes ++ rest) = some (t, rest) := by
  induction t with
  | named x =>
    refine readType.eq_2 x rest ?_
    rintro y ts rfl
    exact hrest rfl
  | qualified p x => rfl
  | slice t ih => simp [TypeExpr.lexemes, readType, ih]

theorem readSeparated_lexemes {item : List Lexeme → Option (α × List Lexeme)}
    {lexemes : α → List Lexeme} {as : List α} (ends : List Lexeme → Prop) (hne : as ≠ [])
    (rest : List Lexeme)
    (hitem : ∀ a ∈ as, ∀ rest, ends rest → item (lexemes a ++ rest) = some (a, rest))
    (hcomma : ∀ ts, ends (.comma :: ts)) (hrest : ends rest) (hlast : rest.head? ≠ some .comma) :
    ReadSeparated item (commaLexemes (as.map lexemes) ++ rest) as rest := by
  match as with
  | [a] => exact .last (hitem a (List.mem_singleton_self a) rest hrest) hlast
  | a :: b :: as =>
    obtain ⟨ha, has⟩ := List.forall_mem_cons.1 hitem
    have hread := readSeparated_lexemes ends (List.cons_ne_nil b as) rest has hcomma hrest hlast
    simp only [List.map_cons, commaLexemes, List.append_assoc, List.cons_append] at hread ⊢
    exact .cons (ha _ (hcomma _)) hread

theorem readNames_lexemes {names : List String} (hne : names ≠ []) (rest : List Lexeme)
    (hrest : rest.head? ≠ some .comma) :
    readNames (nameLexemes names ++ rest) = some (names, rest) := by
  match names with
  | [x] =>
    refine readNames.eq_2 x rest ?_
    rintro ts rfl
    exact hrest rfl
  | x :: y :: names =>
    have hread := readNames_lexemes (List.cons_ne_nil y names) rest hrest
    simp only [nameLexemes, List.map_cons, commaLexemes, List.cons_append,
      List.nil_append] at hread ⊢
    rw [readNames]
    simp [hread]

theorem opensType_lexemes (t : TypeExpr) (rest : List Lexeme) :
    opensType (t.lexemes ++ rest) = true := by
  cases t <;> rfl

theorem head_type_ne (t : TypeExpr) (rest : List Lexeme) :
    (t.lexemes ++ rest).head? ≠ some .comma ∧ (t.lexemes ++ rest).head? ≠ some .ellipsis := by
  cases t <;> simp [TypeExpr.lexemes]

theorem skipEllipsis_of_ne (h : ts.head? ≠ some .ellipsis) : skipEllipsis ts = (false, ts) := by
  refine skipEllipsis.eq_2 ts ?_
  rintro us rfl
  exact h rfl

theorem readGroup_lexemes {g : ParamGroup} (h : g.Legal) (hrest : rest.head? ≠ some .point) :
    readGroup (g.lexemes ++ rest) = some (g, rest) := by
  obtain ⟨hcomma, hellipsis⟩ := head_type_ne g.type rest
  have htype := readType_lexemes g.type rest hrest
  obtain ⟨names, type, variadic⟩ := g
  cases variadic with
  | true =>
    have hnames := readNames_lexemes h.names_ne (.ellipsis :: (type.lexemes ++ rest)) (by simp)
    simp [readGroup, ParamGroup.lexemes, hnames, skipEllipsis, htype]
  | false =>
    have hnames := readNames_lexemes h.names_ne _ hcomma
    simp [readGroup, ParamGroup.lexemes, hnames, skipEllipsis_of_ne hellipsis, htype]

theorem commaLexemes_cons (ts : List Lexeme) (tss : List (List Lexeme)) :
    ∃ us, commaLexemes (ts :: tss) = ts ++ us := by
  cases tss with
  | nil => exact ⟨[], (List.append_nil ts).symm⟩
  | cons us tss => exact ⟨_, rfl⟩

theorem readParams_lexemes {params : List ParamGroup} (h : ∀ g ∈ params, g.Legal)
    (rest : List Lexeme) :
    ReadParams (commaLexemes (params.map ParamGroup.lexemes) ++ .parenClose :: rest) params
      rest := by
  cases params with
  | nil => exact .nil
  | cons g gs =>
    exact .groups (readSeparated_lexemes (fun rest => rest.head? ≠ some .point)
      (List.cons_ne_nil g gs) (.parenClose :: rest)
      (fun g hg _ hrest => readGroup_lexemes (h g hg) hrest) (by simp) (by simp) (by simp))

theorem readResults_lexemes (results : List TypeExpr) (rest : List Lexeme) :
    ReadResults (resultLexemes results ++ .braceOpen :: rest) results (.braceOpen :: rest) := by
  match results with
  | [] =>
    have hhead : (Lexeme.braceOpen :: rest).head? ≠ some .parenOpen := by simp
    exact .none rfl hhead
  | [t] => exact .one (readType_lexemes t (.braceOpen :: rest) (by simp))
  | t :: u :: ts =>
    have hread := readSeparated_lexemes (fun rest => rest.head? ≠ some .point)
      (List.cons_ne_nil t (u :: ts)) (.parenClose :: .braceOpen :: rest)
      (fun t _ rest hrest => readType_lexemes t rest hrest) (by simp) (by simp) (by simp)
    simpa [resultLexemes, enclosed] using ReadResults.many hread

theorem readSignature_lexemes {s : Signature} (h : s.Legal) (rest : List Lexeme) :
    ReadSignature (s.lexemes ++ .braceOpen :: rest) s (.braceOpen :: rest) := by
  have hread := ReadSignature.mk (readParams_lexemes h.params _)
    (readResults_lexemes s.results rest)
  simpa [Signature.lexemes, enclosed] using hread

theorem readTypeIn_lexemes (type : Option TypeExpr) (rest : List Lexeme)
    (htype : opensType rest = false) (hpoint : rest.head? ≠ some .point) :
    readTypeIn (TypeExpr.lexemesIn type ++ rest) = some (type, rest) := by
  cases type with
  | none => simp [TypeExpr.lexemesIn, readTypeIn, htype]
  | some t =>
    simp [TypeExpr.lexemesIn, readTypeIn, opensType_lexemes, readType_lexemes t rest hpoint]

theorem readDeclared_lexemes {names : List String} (hnames : names ≠ []) (type : Option TypeExpr)
    (rest : List Lexeme) (htype : opensType rest = false) (hpoint : rest.head? ≠ some .point)
    (hcomma : rest.head? ≠ some .comma) :
    readDeclared (nameLexemes names ++ (TypeExpr.lexemesIn type ++ rest)) =
      some ((names, type), rest) := by
  have hhead : (TypeExpr.lexemesIn type ++ rest).head? ≠ some .comma := by
    cases type with
    | none => exact hcomma
    | some t => exact (head_type_ne t rest).1
  simp [readDeclared, readNames_lexemes hnames _ hhead, readTypeIn_lexemes type rest htype hpoint]

end SmallLisp.Program
