import Mathlib.Data.List.Forall2
import SmallLisp.Proofs.RecurTarget
import SmallLisp.Proofs.References
import SmallLisp.Proofs.ReturnDiscipline

/-!
# What forms mention

`Term.mentions` lists what a term refers to: the names that stand in it, and those that its forms
put into the program on their own account, each with the identifiers that the binders around it
declare. The references in the emitted program are exactly these, in the same order
(`SourceFile.stands`): a place sees the identifiers that the binders around it declare, and
otherwise generated ones only (`Sees`).
-/

namespace SmallLisp

open Program Identifier

/-! ## Mentions -/

/-- What forms refer to on their own account. -/
inductive Inserted where
  | nil
  | truth (b : Bool)
  /-- The variable that says whether another pass of the loop follows. -/
  | flag (l : Loop)
  /-- The variable for the value of the last pass. -/
  | result (l : Loop)
  | helper (op : Operator)
  | get
  /-- The type of all values. -/
  | any

inductive Mention where
  | name (x : String)
  | type (x : String)
  | inserted (i : Inserted)

/-- The references in what is emitted for a mention. -/
def Mention.refs (cfg : Config) (p : Place) : Mention → List Ref
  | .name x => (Expr.ofName x).refs p false []
  | .type x => (TypeExpr.ofName x).refs p
  | .inserted .nil => Expr.nil.refs p false []
  | .inserted (.truth b) => (Expr.bool b).refs p false []
  | .inserted (.flag l) => l.flag.refs p false []
  | .inserted (.result l) => (Expr.ident l.resultName).refs p false []
  | .inserted (.helper op) => (cfg.coreHelper op.helper).refs p false []
  | .inserted .get => (cfg.coreFunction "get").refs p false []
  | .inserted .any => cfg.any.refs p

/-- A mention, and the identifiers that the binders around it declare. -/
structure Occurrence where
  mention : Mention
  scope : List String

namespace Occurrence

def insert (xs : List String) (is : List Inserted) : List Occurrence :=
  is.map fun i => ⟨.inserted i, xs⟩

def names (xs : List String) (ys : List String) : List Occurrence :=
  ys.map fun y => ⟨.name y, xs⟩

end Occurrence

/-- What is mentioned where a `recur` gives the bindings of its loop their next values. -/
def Loop.mentions (l : Loop) (xs : List String) (values : List (List Occurrence)) :
    List Occurrence :=
  if l.targets.all (·.length == 1) then
    if l.targets.isEmpty then []
    else Occurrence.names xs l.targets.flatten ++ values.flatten
  else
    (l.targets.zipWith (fun names value => Occurrence.names xs names ++ value) values).flatten

/-- What is mentioned around the passes of a loop, whose effects and result mention the rest. -/
def Loop.mentionsPasses (l : Loop) (xs : List String) (effects result : List Occurrence) :
    List Occurrence :=
  Occurrence.insert xs [.any, .truth true, .flag l, .flag l, .truth false] ++
    (effects ++ (Occurrence.insert xs [.result l] ++ (result ++ Occurrence.insert xs [.result l])))

/-- The types of parameters. -/
def Params.types (ps : Params) : List Inserted :=
  (if ps.names.isEmpty then [] else [.any]) ++ ps.rest?.toList.map fun _ => .any

namespace Term

mutual

/-- What a term mentions, where the binders around it declare the identifiers `xs`. -/
def mentions (xs : List String) : Term → List Occurrence
  | .symbol x => [⟨.name x, xs⟩]
  | .number .. | .string _ => []
  | .vector ts => Occurrence.insert xs [.any] ++ (mentionsEach xs ts).flatten
  | .call t ts => t.mentions xs ++ (mentionsEach xs ts).flatten
  | .not t => t.mentions xs
  | .operator op ts => Occurrence.insert xs [.helper op] ++ (mentionsEach xs ts).flatten
  | .logic _ t ts => t.mentions xs ++ (mentionsEach xs ts).flatten
  | .loop n bs ts t =>
    Occurrence.insert xs [.any] ++ (mentionsBindings xs bs ++
      Loop.mentionsPasses ⟨n, bs.map (·.targets)⟩ (xs ++ Binding.idents (bs.flatMap (·.targets)))
        (mentionsEach (xs ++ Binding.idents (bs.flatMap (·.targets))) ts).flatten
        (t.mentions (xs ++ Binding.idents (bs.flatMap (·.targets)))))
  | .recur l ts =>
    Occurrence.insert xs [.any] ++
      (l.mentions xs (mentionsEach xs ts) ++ Occurrence.insert xs [.flag l, .truth true, .nil])
  | .assert type t => t.mentions xs ++ [⟨.type type, xs⟩]
  | .get ts => Occurrence.insert xs [.get] ++ (mentionsEach xs ts).flatten
  | .letIn bs ts t =>
    Occurrence.insert xs [.any] ++ (mentionsBindings xs bs ++
      ((mentionsEach (xs ++ Binding.idents (bs.flatMap (·.targets))) ts).flatten ++
        t.mentions (xs ++ Binding.idents (bs.flatMap (·.targets)))))
  | .cond t u v =>
    Occurrence.insert xs [.any] ++ (t.mentions xs ++ u.mentions xs ++ mentionsElse xs v)
  | .fn ps ts t =>
    Occurrence.insert xs (ps.types ++ [.any]) ++
      ((mentionsEach (xs ++ ps.idents) ts).flatten ++ t.mentions (xs ++ ps.idents))

def mentionsEach (xs : List String) : List Term → List (List Occurrence)
  | [] => []
  | t :: ts => t.mentions xs :: mentionsEach xs ts

/-- A value sees the bindings before its own. -/
def mentionsBindings (xs : List String) : List (Binding Term) → List Occurrence
  | [] => []
  | ⟨ys, t⟩ :: bs =>
    Occurrence.names xs (ys.filter Identifier.Qualified) ++ t.mentions xs ++
      mentionsBindings (xs ++ Binding.idents ys) bs

def mentionsElse (xs : List String) : Option Term → List Occurrence
  | none => Occurrence.insert xs [.nil]
  | some t => t.mentions xs

end

end Term

/-! ## What a place sees -/

/-- The identifiers declared around the place are those in `xs`, which come from the source, and
generated ones. -/
structure Sees (xs : List String) (p : Place) : Prop where
  source : ∀ x ∈ xs, ∃ name, x = ofName name
  declared : ∀ x, ¬IsGenerated x → (x ∈ p.flatMap Block.declared ↔ x ∈ xs)

namespace Sees

theorem nil : Sees [] [] := ⟨nofun, fun _ _ => Iff.rfl⟩

theorem extend (h : Sees xs p) (hys : ∀ y ∈ ys, ∃ name, y = ofName name)
    (hq : ∀ x, ¬IsGenerated x →
      (x ∈ q.flatMap Block.declared ↔ x ∈ p.flatMap Block.declared ∨ x ∈ ys)) :
    Sees (xs ++ ys) q where
  source x hx := (List.mem_append.1 hx).elim (h.source x) (hys x)
  declared x hx := by rw [hq x hx, h.declared x hx, List.mem_append]

theorem same (h : Sees xs p)
    (hq : ∀ x, ¬IsGenerated x → (x ∈ q.flatMap Block.declared ↔ x ∈ p.flatMap Block.declared)) :
    Sees xs q where
  source := h.source
  declared x hx := (hq x hx).trans (h.declared x hx)

theorem block (h : Sees xs p) (hb : ∀ x ∈ b.declared, IsGenerated x) : Sees xs (b :: p) := by
  refine h.same fun x hx => ?_
  rw [List.flatMap_cons, List.mem_append, or_iff_right fun hmem => hx (hb x hmem)]

theorem mem_snoc {x : String} {kind : BlockKind} {before ss : List Stmt} {p : Place} :
    x ∈ List.flatMap Block.declared (⟨kind, before ++ ss⟩ :: p) ↔
      x ∈ List.flatMap Block.declared (⟨kind, before⟩ :: p) ∨
        x ∈ (ss.flatMap Stmt.declared).filter (· != "_") := by
  have hdeclared : (⟨kind, before ++ ss⟩ : Block).declared =
      (⟨kind, before⟩ : Block).declared ++ (ss.flatMap Stmt.declared).filter (· != "_") := by
    simp [Block.declared]
  rw [List.flatMap_cons, List.flatMap_cons, hdeclared, List.mem_append, List.mem_append,
    List.mem_append, or_right_comm]

theorem skip (h : Sees xs (⟨kind, before⟩ :: p)) (ss : List Stmt)
    (hss : ∀ x ∈ ss.flatMap Stmt.declared, IsGenerated x) :
    Sees xs (⟨kind, before ++ ss⟩ :: p) := by
  refine h.same fun x hx => ?_
  rw [mem_snoc, or_iff_left fun hmem => hx (hss x (List.mem_of_mem_filter hmem))]

theorem effects (h : Sees xs (⟨kind, before⟩ :: p)) (es : List Expr) :
    Sees xs (⟨kind, before ++ es.map .expr⟩ :: p) := by
  refine h.skip _ fun x hx => ?_
  obtain ⟨s, hs, hx⟩ := List.mem_flatMap.1 hx
  obtain ⟨e, -, rfl⟩ := List.mem_map.1 hs
  cases hx

theorem define (h : Sees xs (⟨kind, before⟩ :: p)) (ys : List String) (vs : List Expr) :
    Sees (xs ++ Binding.idents ys)
      (⟨kind, before ++ [.assign .define (ys.map Expr.ofName) vs]⟩ :: p) := by
  refine h.extend (fun y hy => ?_) fun x _ => ?_
  · have hy := List.mem_of_mem_filter hy
    rw [Expr.names_ofName] at hy
    obtain ⟨name, -, rfl⟩ := List.mem_map.1 hy
    exact ⟨name, rfl⟩
  · rw [mem_snoc, List.flatMap_singleton]
    rfl

theorem fn (h : Sees xs p) (ps : Params) (c : Bool) (results : List TypeExpr) :
    Sees (xs ++ ps.idents) (⟨.function c ⟨ps.groups cfg, results⟩, []⟩ :: p) := by
  have hdeclared : (⟨.function c ⟨ps.groups cfg, results⟩, []⟩ : Block).declared = ps.idents := by
    simp [Block.declared, BlockKind.params, Signature.names_groups, Params.idents]
  refine h.extend (fun y hy => ?_) fun x _ => ?_
  · obtain ⟨name, -, rfl⟩ := List.mem_map.1 (List.mem_of_mem_filter hy)
    exact ⟨name, rfl⟩
  · rw [List.flatMap_cons, hdeclared, List.mem_append, or_comm]

end Sees

/-! ## References for mentions -/

/-- The reference is the one in what is emitted for the mention, and its place sees the identifiers
in scope. -/
structure Occurrence.Stands (cfg : Config) (o : Occurrence) (r : Ref) : Prop where
  refs : o.mention.refs cfg r.place = [r]
  sees : Sees o.scope r.place

theorem Occurrence.Stands.eq_of_mention {o : Occurrence} {r r' : Ref} {m : Mention}
    (h : o.Stands cfg r) (hmention : o.mention = m) (hrefs : m.refs cfg r.place = [r']) :
    r = r' := by
  rw [← hmention, h.refs] at hrefs
  exact List.singleton_injective hrefs

/-- Wherever the identifiers `xs` are seen, the references in the expression are those for the
occurrences. -/
def Matches (cfg : Config) (xs : List String) (os : List Occurrence) (e : Expr) : Prop :=
  ∀ p c, Sees xs p → List.Forall₂ (Occurrence.Stands cfg) os (e.refs p c [])

namespace Matches

theorem name (x : String) : Matches cfg xs [⟨.name x, xs⟩] (.ofName x) := by
  intro p c h
  obtain ⟨root, members, hrefs⟩ := Expr.refs_ofName x
  rw [hrefs]
  exact .cons ⟨hrefs p false, h⟩ .nil

theorem all (hes : List.Forall₂ (Matches cfg xs) oss es) (h : Sees xs p) :
    List.Forall₂ (Occurrence.Stands cfg) oss.flatten (Expr.refsAll p es) := by
  induction hes with
  | nil => exact .nil
  | cons he _ ih => exact List.rel_append (he p false h) ih

theorem names (ys : List String) (h : Sees xs p) :
    List.Forall₂ (Occurrence.Stands cfg) (Occurrence.names xs ys)
      (Expr.refsAll p (ys.map Expr.ofName)) := by
  induction ys with
  | nil => exact .nil
  | cons y ys ih => exact List.rel_append (name y p false h) ih

theorem effects (hes : List.Forall₂ (Matches cfg xs) oss es)
    (h : Sees xs (⟨kind, before⟩ :: p)) :
    List.Forall₂ (Occurrence.Stands cfg) oss.flatten
      (Stmt.refsAll kind before p (es.map .expr)) := by
  induction hes generalizing before with
  | nil => exact .nil
  | cons he _ ih =>
    exact List.rel_append (he _ false h) (ih (h.skip [.expr _] (List.forall_mem_nil _)))

/-- One assignment for each binding. -/
private theorem assigns {yss : List (List String)} (hes : List.Forall₂ (Matches cfg xs) oss es)
    (h : Sees xs (⟨kind, before⟩ :: p)) :
    List.Forall₂ (Occurrence.Stands cfg)
      (yss.zipWith (fun names value => Occurrence.names xs names ++ value) oss).flatten
      (Stmt.refsAll kind before p
        (yss.zipWith (fun names e => .assign .assign (names.map Expr.ofName) [e]) es)) := by
  induction hes generalizing yss before with
  | nil => cases yss <;> exact .nil
  | cons he _ ih =>
    cases yss with
    | nil => exact .nil
    | cons ys yss =>
      rw [List.zipWith_cons_cons, List.zipWith_cons_cons, List.flatten_cons, Stmt.refsAll,
        Stmt.refs, Expr.refsAll_singleton]
      refine List.rel_append (List.rel_append (names ys h) (he _ false h)) (ih ?_)
      exact h.skip [.assign .assign _ _] (List.forall_mem_nil _)

theorem update (l : Loop) (hes : List.Forall₂ (Matches cfg xs) oss es)
    (h : Sees xs (⟨kind, []⟩ :: p)) :
    List.Forall₂ (Occurrence.Stands cfg) (l.mentions xs oss)
      (Stmt.refsAll kind [] p (l.update es)) := by
  unfold Loop.mentions Loop.update
  split
  · split
    · exact .nil
    · rw [Stmt.refsAll_singleton, Stmt.refs]
      exact List.rel_append (names _ h) (all hes h)
  · exact assigns hes h

/-- The type of the function counts as mentioned around it. -/
theorem closure (hbody : ∀ p, Sees xs (⟨cfg.called, []⟩ :: p) →
      List.Forall₂ (Occurrence.Stands cfg) os (Stmt.refsAll cfg.called [] p body)) :
    Matches cfg xs (Occurrence.insert xs [.any] ++ os) (cfg.closure body) := by
  intro p c h
  rw [Config.closure, Expr.refs, Expr.refsAll, List.append_nil, Expr.refs]
  refine List.rel_append (.cons ⟨rfl, h⟩ .nil) (hbody p (h.block (List.forall_mem_nil _)))

/-- The types of the parameters of a function. -/
theorem types (ps : Params) (h : Sees xs p) :
    List.Forall₂ (Occurrence.Stands cfg) (Occurrence.insert xs ps.types)
      ((ps.groups cfg).flatMap (·.type.refs p)) := by
  obtain ⟨names, rest⟩ := ps
  unfold Params.types Params.groups
  rw [Occurrence.insert, List.map_append, List.flatMap_append]
  apply List.rel_append
  · split
    · exact .nil
    · exact .cons ⟨rfl, h⟩ .nil
  · cases rest with
    | none => exact .nil
    | some => exact .cons ⟨rfl, h⟩ .nil

theorem signature (ps : Params) (h : Sees xs p) :
    List.Forall₂ (Occurrence.Stands cfg) (Occurrence.insert xs (ps.types ++ [.any]))
      (Signature.refs p ⟨ps.groups cfg, [cfg.any]⟩) := by
  rw [Occurrence.insert, List.map_append]
  exact List.rel_append (types ps h) (.cons ⟨rfl, h⟩ .nil)

/-- The body of a function. Its last expression counts alike as a value and for its effects. -/
theorem body {last : Stmt} (hes : List.Forall₂ (Matches cfg xs) oss es) (hr : Matches cfg xs os r)
    (hlast : last = .ret [r] ∨ last = .expr r) (h : Sees xs (⟨kind, []⟩ :: p)) :
    List.Forall₂ (Occurrence.Stands cfg) (oss.flatten ++ os)
      (Stmt.refsAll kind [] p (es.map .expr ++ [last])) := by
  rw [Stmt.refsAll_append]
  apply List.rel_append (effects hes h)
  obtain rfl | rfl := hlast
  · rw [Stmt.refsAll_ret]
    exact hr _ false (h.effects es)
  · rw [Stmt.refsAll_expr]
    exact hr _ false (h.effects es)

/-- The passes of a loop, after its bindings. Only generated names are declared there. -/
theorem passes (l : Loop) (hes : List.Forall₂ (Matches cfg xs) oss es) (hr : Matches cfg xs os r)
    (h : Sees xs (⟨cfg.called, before⟩ :: p)) :
    List.Forall₂ (Occurrence.Stands cfg) (l.mentionsPasses xs oss.flatten os)
      (Stmt.refsAll cfg.called before p [.var [l.resultName] (some cfg.any) [],
        l.stmt (.set l.flag (.bool false) :: es.map .expr ++ [.set (.ident l.resultName) r]),
        .ret [.ident l.resultName]]) := by
  have hvar : Sees xs (⟨cfg.called, before ++ [.var [l.resultName] (some cfg.any) []]⟩ :: p) := by
    refine h.skip _ fun x hx => ?_
    obtain rfl := List.mem_singleton.1 hx
    exact IsGenerated.result _
  have hheader := hvar.block (b := ⟨.header, []⟩) (List.forall_mem_nil _)
  have hflag := hvar.block (b := ⟨.header, [.define l.flag (.bool true)]⟩) fun x hx => by
    obtain rfl := List.mem_singleton.1 (List.mem_of_mem_filter hx)
    exact IsGenerated.flag _
  have hpass := hflag.block (b := ⟨.pass, []⟩) (List.forall_mem_nil _)
  have hclear := hpass.skip [.set l.flag (.bool false)] (List.forall_mem_nil _)
  have heffects := hclear.effects es
  have hloop := hvar.skip [l.stmt (.set l.flag (.bool false) :: es.map .expr ++
    [.set (.ident l.resultName) r])] (List.forall_mem_nil _)
  rw [refsAll_loop rfl, refsAll_pass]
  simp only [List.append_assoc]
  refine .cons ⟨rfl, h⟩ (.cons ⟨rfl, hheader⟩ (.cons ⟨rfl, hflag⟩ ?_))
  refine .cons ⟨rfl, hpass⟩ (.cons ⟨rfl, hpass⟩ (List.rel_append (effects hes hclear) ?_))
  refine .cons ⟨rfl, heffects⟩ (List.rel_append (hr _ false heffects) (.cons ⟨rfl, ?_⟩ .nil))
  simpa using hloop

end Matches

/-! ## Terms -/

namespace Term

mutual

theorem matches_emit (cfg : Config) (xs : List String) :
    (t : Term) → Matches cfg xs (t.mentions xs) (t.emit cfg)
  | .symbol x => .name x
  | .number .. | .string _ => fun _ _ _ => .nil
  | .vector ts | .operator _ ts => by
    intro p c h
    exact List.rel_append (.cons ⟨rfl, h⟩ .nil) (Matches.all (matches_emitAll cfg xs ts) h)
  | .call t ts => by
    intro p c h
    exact List.rel_append (t.matches_emit cfg xs p true h)
      (Matches.all (matches_emitAll cfg xs ts) h)
  | .not t => fun p _ h => t.matches_emit cfg xs p false h
  | .logic op t ts => by
    intro p c h
    obtain ⟨c', hrefs⟩ := Expr.refs_logics p c op (t.emit cfg) (emitAll cfg ts)
    rw [mentions, emit, hrefs]
    exact List.rel_append (t.matches_emit cfg xs p c' h)
      (Matches.all (matches_emitAll cfg xs ts) h)
  | .loop n bs ts t => by
    refine Matches.closure fun p h => ?_
    obtain ⟨hin, hbs⟩ := matches_emitBindings cfg xs bs h
    rw [Loop.passes, Stmt.refsAll_append, emitEffects_eq]
    exact List.rel_append hbs
      (Matches.passes _ (matches_emitAll cfg _ ts) (t.matches_emit cfg _) hin)
  | .recur l ts => by
    refine Matches.closure fun p h => ?_
    rw [Stmt.refsAll_append]
    refine List.rel_append (Matches.update l (matches_emitAll cfg xs ts) h) ?_
    have hset := h.skip (l.update (emitAll cfg ts)) (Loop.declared_update ▸ List.forall_mem_nil _)
    have hret := hset.skip [.set l.flag (.bool true)] (List.forall_mem_nil _)
    exact .cons ⟨rfl, hset⟩ (.cons ⟨rfl, hset⟩ (.cons ⟨rfl, hret⟩ .nil))
  | .assert type t => by
    intro p c h
    obtain ⟨root, members, hrefs⟩ := (TypeExpr.ofName type).refs_eq
    rw [mentions, emit, Expr.refs, hrefs]
    exact List.rel_append (t.matches_emit cfg xs p false h) (.cons ⟨hrefs p, h⟩ .nil)
  | .get ts => by
    intro p c h
    obtain ⟨root, members, hrefs⟩ := Expr.refs_ofName (cfg.corePackage ++ "/" ++ "get")
    rw [mentions, emit, Expr.refs, Config.coreFunction, hrefs]
    exact List.rel_append (.cons ⟨hrefs p false, h⟩ .nil)
      (Matches.all (matches_emitAll cfg xs ts) h)
  | .letIn bs ts t => by
    refine Matches.closure fun p h => ?_
    obtain ⟨hin, hbs⟩ := matches_emitBindings cfg xs bs h
    have hes := matches_emitAll cfg (xs ++ Binding.idents (bs.flatMap (·.targets))) ts
    rw [List.append_assoc, Stmt.refsAll_append, emitEffects_eq, Stmt.refsAll_append,
      Stmt.refsAll_ret]
    exact List.rel_append hbs (List.rel_append (Matches.effects hes hin)
      (t.matches_emit cfg _ _ false (hin.effects _)))
  | .cond t u v => by
    refine Matches.closure fun p h => ?_
    have hbranch := h.block (b := ⟨.branch, []⟩) (List.forall_mem_nil _)
    rw [Stmt.refsAll_singleton, Stmt.refs, Stmt.refsElse, Stmt.refsAll_ret, Stmt.refsAll_ret]
    exact List.rel_append (List.rel_append (t.matches_emit cfg xs _ false h)
      (u.matches_emit cfg xs _ false hbranch)) (matches_emitElse cfg xs v _ false hbranch)
  | .fn ps ts t => by
    intro p c h
    rw [mentions, emit, Expr.refs, emitEffects_eq]
    exact List.rel_append (Matches.signature ps h)
      (Matches.body (matches_emitAll cfg _ ts) (t.matches_emit cfg _) (.inl rfl) (h.fn ps c _))

theorem matches_emitAll (cfg : Config) (xs : List String) :
    (ts : List Term) → List.Forall₂ (Matches cfg xs) (mentionsEach xs ts) (emitAll cfg ts)
  | [] => .nil
  | t :: ts => .cons (t.matches_emit cfg xs) (matches_emitAll cfg xs ts)

theorem matches_emitBindings (cfg : Config) (xs : List String) :
    (bs : List (Binding Term)) → (h : Sees xs (⟨kind, before⟩ :: p)) →
    Sees (xs ++ Binding.idents (bs.flatMap (·.targets)))
        (⟨kind, before ++ emitBindings cfg bs⟩ :: p) ∧
      List.Forall₂ (Occurrence.Stands cfg) (mentionsBindings xs bs)
        (Stmt.refsAll kind before p (emitBindings cfg bs))
  | [], h => by
    refine ⟨?_, .nil⟩
    rw [emitBindings, List.append_nil]
    exact (List.append_nil xs).symm ▸ h
  | ⟨ys, t⟩ :: bs, h => by
    obtain ⟨hin, hbs⟩ := matches_emitBindings cfg _ bs (h.define ys [t.emit cfg])
    rw [mentionsBindings, emitBindings, Stmt.refsAll, Stmt.refs, Expr.refsNew_ofName,
      Expr.refsAll_singleton, List.flatMap_cons, Binding.idents_append, ← List.append_assoc]
    exact ⟨by rwa [← List.append_cons] at hin, List.rel_append
      (List.rel_append (Matches.names _ h) (t.matches_emit cfg xs _ false h)) hbs⟩

theorem matches_emitElse (cfg : Config) (xs : List String) :
    (t? : Option Term) → Matches cfg xs (mentionsElse xs t?) (emitElse cfg t?)
  | none => fun _ _ h => .cons ⟨rfl, h⟩ .nil
  | some t => t.matches_emit cfg xs

end

/-! ## Files -/

/-- The parts of a term that is emitted as a function literal: a function, or a chain that has it
as its one operand. -/
def function? : Term → Option (Params × List Term × Term)
  | .fn ps ts t => some (ps, ts, t)
  | .logic _ t [] => t.function?
  | _ => none

/-- What holds of a function holds of the chains that have it as their one operand, if it carries
over to those. -/
theorem of_function? {motive : Term → Prop} {t : Term} (h : t.function? = some (ps, ts, r))
    (fn : motive (.fn ps ts r)) (logic : ∀ op t, motive t → motive (.logic op t [])) :
    motive t := by
  induction t using function?.induct with
  | case1 ps' ts' r' =>
    cases h
    exact fn
  | case2 op t ih => exact logic op t (ih h)
  | case3 t hfn hlogic =>
    rw [function?] at h
    · cases h
    · exact hfn
    · exact hlogic

theorem emit_of_function? (cfg : Config) {t : Term} (h : t.function? = some (ps, ts, r)) :
    t.emit cfg = (Term.fn ps ts r).emit cfg :=
  of_function? (motive := fun t => t.emit cfg = _) h rfl fun _ _ ih => ih

theorem emit_ne_func {cfg : Config} {t : Term} (h : t.function? = none)
    (signature : Signature) (body : List Stmt) : t.emit cfg ≠ .func signature body := by
  induction t using function?.induct with
  | case1 ps ts r => cases h
  | case2 op t ih => exact ih h
  | case3 t hfn hlogic =>
    intro heq
    cases t with
    | symbol x =>
      obtain hx | ⟨base, field, hx⟩ := Expr.ofName_cases x
      · cases hx.symm.trans heq
      · cases hx.symm.trans heq
    | logic op t ts =>
      cases ts with
      | nil => exact hlogic op t rfl
      | cons _ _ => exact logics_ne_func heq
    | fn ps ts r => exact hfn ps ts r rfl
    | _ => cases heq

end Term

/-- What a definition or an expression at the top level mentions. The function where the program
starts has no result. -/
def TopLevel.mentions (cfg : Config) : TopLevel → List Occurrence
  | .define name t =>
    match t.function? with
    | some (ps, ts, r) =>
      Occurrence.insert [] (ps.types ++ if ofName name = cfg.entryPoint then [] else [.any]) ++
        ((Term.mentionsEach ps.idents ts).flatten ++ r.mentions ps.idents)
    | none => t.mentions []
  | .discard t => t.mentions []

def SourceFile.mentions (cfg : Config) (f : SourceFile) : List Occurrence :=
  f.items.flatMap (·.mentions cfg)

theorem definition_eq_var {cfg : Config} {name : String} {value : Expr}
    (h : ∀ signature body, value ≠ .func signature body) :
    definition cfg name value = .var [name] none [value] := by
  unfold definition
  split
  · exact absurd rfl (h _ _)
  · rfl

theorem TopLevel.stands (cfg : Config) (i : TopLevel) :
    List.Forall₂ (Occurrence.Stands cfg) (i.mentions cfg) (i.emit cfg).refs := by
  have hvalue (t : Term) (name : String) :
      List.Forall₂ (Occurrence.Stands cfg) (t.mentions [])
        (Decl.var [name] none [t.emit cfg]).refs := by
    rw [Decl.refs, Expr.refsAll_singleton]
    exact t.matches_emit cfg [] [] false .nil
  cases i with
  | discard t => exact hvalue t "_"
  | define name t =>
    rw [mentions, emit]
    cases hfunction : t.function? with
    | none =>
      rw [definition_eq_var (Term.emit_ne_func hfunction)]
      exact hvalue t _
    | some parts =>
      obtain ⟨ps, ts, r⟩ := parts
      have hes := Term.matches_emitAll cfg ps.idents ts
      have hr := r.matches_emit cfg ps.idents
      rw [Term.emit_of_function? cfg hfunction, Term.emit, emitEffects_eq, definition]
      by_cases hname : ofName name = cfg.entryPoint
      · rw [if_pos hname, entryBody_concat_ret]
        simp only [if_pos hname, List.append_nil]
        refine List.rel_append ?_ (Matches.body hes hr (.inr rfl) (Sees.nil.fn ps false _))
        rw [Signature.refs, List.flatMap_nil, List.append_nil]
        exact Matches.types ps .nil
      · rw [if_neg hname]
        simp only [if_neg hname]
        exact List.rel_append (Matches.signature ps .nil)
          (Matches.body hes hr (.inl rfl) (Sees.nil.fn ps false _))

theorem SourceFile.stands (cfg : Config) (f : SourceFile) :
    List.Forall₂ (Occurrence.Stands cfg) (f.mentions cfg) (f.emit cfg).refs := by
  rw [mentions, File.refs, f.flatMap_emit fun _ => rfl]
  induction f.items with
  | nil => exact .nil
  | cons i items ih => exact List.rel_append (i.stands cfg) ih

end SmallLisp
