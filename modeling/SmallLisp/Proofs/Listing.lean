import SmallLisp.Proofs.Mentions

/-!
# Declarations in emitted programs

A term declares names where it has the parameters of a function, a binding, or a loop, which has a
flag. A listing says what to list for each of these, and `Term.listed` lists it for a term, in the
order in which the term is emitted. A function on the items of programs reads the listing off if it
gives what is related to it for every declaration on its own (`Listing.Reads`). Then it does so for
whole terms (`Checked.emitsListed`) and files (`CheckedItems.listed`).
-/

namespace SmallLisp

open Program

/-- What to list for each declaration in a term. -/
structure Listing (β : Type) where
  params : Params → List β
  /-- For a binding of `targets`, in a vector that binds `earlier` before it. -/
  binding : (earlier targets : List String) → List β
  /-- For the flag of the loop with this number. -/
  flag : (number : Nat) → List β

namespace Term

mutual

/-- What is listed for the declarations in a term. -/
def listed (f : Listing β) : Term → List β
  | .symbol _ | .number .. | .string _ => []
  | .vector ts => listedAll f ts
  | .call t ts => t.listed f ++ listedAll f ts
  | .not t => t.listed f
  | .operator _ ts => listedAll f ts
  | .logic _ t ts => t.listed f ++ listedAll f ts
  | .loop n bs ts t => listedBindings f [] bs ++ (f.flag n ++ (listedAll f ts ++ t.listed f))
  | .recur _ ts => listedAll f ts
  | .assert _ t => t.listed f
  | .get ts => listedAll f ts
  | .letIn bs ts t => listedBindings f [] bs ++ (listedAll f ts ++ t.listed f)
  | .cond t u v => t.listed f ++ u.listed f ++ listedElse f v
  | .fn ps ts t => f.params ps ++ (listedAll f ts ++ t.listed f)

def listedAll (f : Listing β) : List Term → List β
  | [] => []
  | t :: ts => t.listed f ++ listedAll f ts

/-- Bindings after those of `earlier` in the same vector. -/
def listedBindings (f : Listing β) (earlier : List String) : List (Binding Term) → List β
  | [] => []
  | ⟨xs, t⟩ :: bs => f.binding earlier xs ++ t.listed f ++ listedBindings f (earlier ++ xs) bs

def listedElse (f : Listing β) : Option Term → List β
  | none => []
  | some t => t.listed f

end

theorem listed_of_function? (f : Listing β) {t : Term} (h : t.function? = some (ps, ts, r)) :
    t.listed f = (Term.fn ps ts r).listed f := by
  refine of_function? (motive := fun t => t.listed f = _) h rfl fun op t ih => ?_
  rw [listed, listedAll, List.append_nil, ih]

end Term

def TopLevel.listed (f : Listing β) : TopLevel → List β
  | .define _ t => t.listed f
  | .discard t => t.listed f

def SourceFile.listed (f : Listing β) (file : SourceFile) : List β :=
  file.items.flatMap (·.listed f)

/-! ## Reading a listing off a program -/

/-- Whether a statement is of a kind that declares names. -/
def Program.Stmt.declares : Stmt → Bool
  | .assign .define _ _ | .var .. => true
  | _ => false

theorem Program.Stmt.declares_eq_false {s : Stmt} (h : s.declares = false) :
    s.declared = [] ∧ s.defined? = none := by
  cases s with
  | assign op =>
    cases op with
    | define => cases h
    | assign => exact ⟨rfl, rfl⟩
  | var => cases h
  | branch | loop | ret | expr => exact ⟨rfl, rfl⟩

/-- The function gives for emitted statements and parameters what is related to the listing of their
origins. -/
structure Listing.Reads (cfg : Config) (R : α → β → Prop) (f : Listing α)
    (g : Place × Item → List β) : Prop where
  name {p : Place} {x : String} : g (p, .name x) = []
  silent {p : Place} {s : Stmt} : s.declares = false → g (p, .stmt s) = []
  result {p : Place} {l : Loop} {type : Option TypeExpr} :
    g (p, .stmt (.var [l.resultName] type [])) = []
  /-- The functions that are called where they stand have no parameters. -/
  closure {p : Place} {results : List TypeExpr} : g (p, .params ⟨[], results⟩) = []
  params {p : Place} {ps : Params} {results : List TypeExpr} :
    List.Forall₂ R (f.params ps) (g (p, .params ⟨ps.groups cfg, results⟩))
  /-- Only the bindings before one declare names earlier in its block. -/
  binding {kind : BlockKind} {before : List Stmt} {p : Place} {earlier targets : List String}
    {values : List Expr} : before.flatMap Stmt.declared = Expr.names (earlier.map Expr.ofName) →
    List.Forall₂ R (f.binding earlier targets)
      (g (⟨kind, before⟩ :: p, .stmt (.assign .define (targets.map Expr.ofName) values)))
  flag {p : Place} {l : Loop} :
    List.Forall₂ R (f.flag l.number) (g (⟨.header, []⟩ :: p, .stmt (.define l.flag (.bool true))))

/-- What the function gives for the items is related to `os`. -/
def Lists (R : α → β → Prop) (g : Place × Item → List β) (os : List α)
    (is : List (Place × Item)) : Prop :=
  List.Forall₂ R os (is.flatMap g)

namespace Lists

theorem nil : Lists R g [] [] := List.Forall₂.nil

theorem append (his : Lists R g os is) (hjs : Lists R g os' js) :
    Lists R g (os ++ os') (is ++ js) := by
  rw [Lists, List.flatMap_append]
  exact List.rel_append his hjs

theorem item (hi : List.Forall₂ R os (g i)) (his : Lists R g os' is) :
    Lists R g (os ++ os') (i :: is) := by
  rw [Lists, List.flatMap_cons]
  exact List.rel_append hi his

theorem skip (hi : g i = []) (his : Lists R g os is) : Lists R g os (i :: is) := by
  rwa [Lists, List.flatMap_cons, hi]

theorem cons (hs : Lists R g os (Stmt.itemsAll kind before p [s]))
    (hss : Lists R g os' (Stmt.itemsAll kind (before ++ [s]) p ss)) :
    Lists R g (os ++ os') (Stmt.itemsAll kind before p (s :: ss)) := by
  rw [← List.singleton_append, Stmt.itemsAll_append]
  exact hs.append hss

end Lists

namespace Listing.Reads

variable {cfg : Config} {R : α → β → Prop} {f : Listing α} {g : Place × Item → List β}
  (hg : f.Reads cfg R g)
include hg

/-- Names that are referred to are not declared. -/
theorem ofNames {is : List (Place × Item)} (h : ∀ i ∈ is, ∃ p x, i = (p, .name x)) :
    Lists R g [] is := by
  have hnil : is.flatMap g = [] := by
    refine List.flatMap_eq_nil_iff.2 fun i hi => ?_
    obtain ⟨p, x, rfl⟩ := h i hi
    exact hg.name
  rw [Lists, hnil]
  exact .nil

theorem targets (p : Place) (xs : List String) :
    Lists R g [] (Expr.itemsAll p (xs.map Expr.ofName)) :=
  hg.ofNames fun _ hi => (Expr.itemsAll_ofName hi).elim fun _ h => ⟨_, _, h⟩

theorem newTargets (p : Place) (xs : List String) :
    Lists R g [] (Expr.itemsNew p (xs.map Expr.ofName)) :=
  hg.ofNames fun _ hi => (Expr.itemsNew_ofName hi).elim fun _ h => ⟨_, _, h⟩

theorem ret (h : Lists R g os (e.items (⟨kind, before⟩ :: p) false)) :
    Lists R g os (Stmt.itemsAll kind before p [.ret [e]]) := by
  rw [Stmt.itemsAll_singleton, Stmt.items, Expr.itemsAll_singleton]
  exact .skip (hg.silent rfl) h

theorem expr (h : Lists R g os (e.items (⟨kind, before⟩ :: p) false)) :
    Lists R g os (Stmt.itemsAll kind before p [.expr e]) := by
  rw [Stmt.itemsAll_singleton, Stmt.items]
  exact .skip (hg.silent rfl) h

theorem called (h : Lists R g os (Stmt.itemsAll cfg.called [] p body)) :
    Lists R g os ((cfg.closure body).items p c) := by
  rw [Config.closure, Expr.items, Expr.items, Expr.itemsAll, List.append_nil]
  exact .skip hg.closure h

theorem branch (ht : Lists R g os (test.items (⟨kind, before⟩ :: p) false))
    (hy : Lists R g os' (yes.items (⟨.branch, []⟩ :: ⟨kind, before⟩ :: p) false))
    (hn : Lists R g os'' (no.items (⟨.branch, []⟩ :: ⟨kind, before⟩ :: p) false)) :
    Lists R g (os ++ os' ++ os'')
      (Stmt.itemsAll kind before p [.branch test [.ret [yes]] (some [.ret [no]])]) := by
  rw [Stmt.itemsAll_singleton, Stmt.items, Stmt.itemsElse]
  exact .skip (hg.silent rfl) ((ht.append (hg.ret hy)).append (hg.ret hn))

/-- A statement that declares the targets of a binding. -/
theorem define (hbefore : before.flatMap Stmt.declared = Expr.names (earlier.map Expr.ofName))
    (xs : List String) (h : Lists R g os (e.items (⟨kind, before⟩ :: p) false)) :
    Lists R g (f.binding earlier xs ++ os)
      (Stmt.itemsAll kind before p [.assign .define (xs.map Expr.ofName) [e]]) := by
  rw [Stmt.itemsAll_singleton, Stmt.items, Expr.itemsAll_singleton]
  exact .item (hg.binding hbefore) ((hg.newTargets _ xs).append h)

theorem set {es : List Expr} (hes : Lists R g [] (Expr.itemsAll (⟨kind, before⟩ :: p) es))
    (h : Lists R g os (Expr.itemsAll (⟨kind, before⟩ :: p) vs)) :
    Lists R g os (Stmt.itemsAll kind before p [.assign .assign es vs]) := by
  rw [Stmt.itemsAll_singleton, Stmt.items]
  exact .skip (hg.silent rfl) (hes.append h)

theorem setName {x : String} (h : Lists R g os (e.items (⟨kind, before⟩ :: p) false)) :
    Lists R g os (Stmt.itemsAll kind before p [.set (.ident x) e]) := by
  refine hg.set (.skip hg.name .nil) ?_
  rwa [Expr.itemsAll_singleton]

/-- The end of the function that a `recur` becomes. -/
theorem again {l : Loop} :
    Lists R g [] (Stmt.itemsAll kind before p [.set l.flag (.bool true), .ret [.nil]]) := by
  have hset : Lists R g [] (Stmt.itemsAll kind before p [.set l.flag (.bool true)]) :=
    hg.setName (.skip hg.name .nil)
  exact hset.cons (hg.ret (.skip hg.name .nil))

/-- The statements around the passes of a loop. -/
theorem passes {l : Loop} {type : Option TypeExpr} {es : List Stmt} {r : Expr} {q : Place}
    (hq : q = ⟨.header, [.define l.flag (.bool true)]⟩ ::
      ⟨kind, before ++ [.var [l.resultName] type []]⟩ :: p)
    (hes : Lists R g os (Stmt.itemsAll .pass [.set l.flag (.bool false)] q es))
    (hr : Lists R g os' (r.items (⟨.pass, .set l.flag (.bool false) :: es⟩ :: q) false)) :
    Lists R g (f.flag l.number ++ (os ++ os')) (Stmt.itemsAll kind before p
      [.var [l.resultName] type [],
        l.stmt (.set l.flag (.bool false) :: es ++ [.set (.ident l.resultName) r]),
        .ret [.ident l.resultName]]) := by
  have hclear : Lists R g [] (Stmt.itemsAll .pass [] q [.set l.flag (.bool false)]) :=
    hg.setName (.skip hg.name .nil)
  have hbody : Lists R g (os ++ os') (Stmt.itemsAll .pass [] q
      (.set l.flag (.bool false) :: es ++ [.set (.ident l.resultName) r])) := by
    rw [List.cons_append]
    refine hclear.cons ?_
    rw [List.nil_append, Stmt.itemsAll_append]
    exact hes.append (hg.setName hr)
  subst hq
  rw [items_loop rfl, List.append_assoc]
  refine .skip hg.result (.skip (hg.silent rfl) (.item hg.flag ?_))
  refine .skip hg.name (.skip hg.name ?_)
  rw [← List.append_nil (os ++ os')]
  exact hbody.append (.skip (hg.silent rfl) (.skip hg.name .nil))

end Listing.Reads

/-! ## Terms -/

namespace Term

/-- What is emitted for the term declares what is listed for it. -/
def EmitsListed (cfg : Config) (R : α → β → Prop) (f : Listing α) (g : Place × Item → List β)
    (t : Term) : Prop :=
  ∀ p c, Lists R g (t.listed f) ((t.emit cfg).items p c)

end Term

theorem Lists.all {g : Place × Item → List β} (hts : ∀ t ∈ ts, Term.EmitsListed cfg R f g t)
    (p : Place) : Lists R g (Term.listedAll f ts) (Expr.itemsAll p (Term.emitAll cfg ts)) := by
  induction ts with
  | nil => exact .nil
  | cons t ts ih =>
    obtain ⟨ht, hts⟩ := List.forall_mem_cons.1 hts
    exact (ht p false).append (ih hts)

namespace Listing.Reads

open Term

variable {cfg : Config} {R : α → β → Prop} {f : Listing α} {g : Place × Item → List β}
  (hg : f.Reads cfg R g)
include hg

theorem effects (hts : ∀ t ∈ ts, EmitsListed cfg R f g t) (kind : BlockKind) (before : List Stmt)
    (p : Place) :
    Lists R g (listedAll f ts) (Stmt.itemsAll kind before p (emitEffects cfg ts)) := by
  induction ts generalizing before with
  | nil => exact .nil
  | cons t ts ih =>
    obtain ⟨ht, hts⟩ := List.forall_mem_cons.1 hts
    exact .cons (hg.expr (ht _ false)) (ih hts _)

theorem bindings (hbs : ∀ b ∈ bs, EmitsListed cfg R f g b.value) (kind : BlockKind)
    (earlier : List String)
    (hbefore : before.flatMap Stmt.declared = Expr.names (earlier.map Expr.ofName)) (p : Place) :
    Lists R g (listedBindings f earlier bs)
      (Stmt.itemsAll kind before p (emitBindings cfg bs)) := by
  induction bs generalizing before earlier with
  | nil => exact .nil
  | cons b bs ih =>
    obtain ⟨xs, t⟩ := b
    obtain ⟨ht, hbs⟩ := List.forall_mem_cons.1 hbs
    refine .cons (hg.define hbefore xs (ht _ false)) (ih hbs _ ?_)
    rw [List.flatMap_append, hbefore, List.flatMap_singleton, Stmt.declared, List.map_append]
    exact List.filterMap_append.symm

/-- One assignment for each binding. -/
private theorem assigns {xss : List (List String)} (hts : ∀ t ∈ ts, EmitsListed cfg R f g t)
    (hlen : ts.length = xss.length) (kind : BlockKind) (before : List Stmt) (p : Place) :
    Lists R g (listedAll f ts) (Stmt.itemsAll kind before p (List.zipWith
      (fun (xs : List String) e => .assign .assign (xs.map Expr.ofName) [e]) xss
      (emitAll cfg ts))) := by
  induction ts generalizing xss before with
  | nil =>
    obtain rfl := List.length_eq_zero_iff.1 hlen.symm
    exact .nil
  | cons t ts ih =>
    obtain ⟨xs, xss, rfl⟩ := List.exists_cons_of_length_eq_add_one hlen.symm
    obtain ⟨ht, hts⟩ := List.forall_mem_cons.1 hts
    refine .cons (hg.set (hg.targets _ xs) ?_) (ih hts (Nat.succ.inj hlen) _)
    rw [Expr.itemsAll_singleton]
    exact ht _ false

theorem update {l : Loop} (hts : ∀ t ∈ ts, EmitsListed cfg R f g t)
    (hlen : ts.length = l.targets.length) (kind : BlockKind) (p : Place) :
    Lists R g (listedAll f ts) (Stmt.itemsAll kind [] p (l.update (emitAll cfg ts))) := by
  unfold Loop.update
  split
  · split
    · rename_i hnil
      rw [List.isEmpty_iff.1 hnil] at hlen
      obtain rfl := List.length_eq_zero_iff.1 hlen
      exact .nil
    · exact hg.set (hg.targets _ _) (.all hts _)
  · exact hg.assigns hts hlen kind [] p

/-- The body of a function, whatever becomes of its last expression. -/
theorem body {last : Stmt} (hts : ∀ t ∈ ts, EmitsListed cfg R f g t) (ht : EmitsListed cfg R f g t)
    (hlast : last = .ret [t.emit cfg] ∨ last = .expr (t.emit cfg)) :
    Lists R g (listedAll f ts ++ t.listed f)
      (Stmt.itemsAll kind before p (emitEffects cfg ts ++ [last])) := by
  rw [Stmt.itemsAll_append]
  apply (hg.effects hts kind before p).append
  obtain rfl | rfl := hlast
  · exact hg.ret (ht _ false)
  · exact hg.expr (ht _ false)

end Listing.Reads

mutual

theorem Checked.of_function? (h : Checked ls m d t n) (ht : t.function? = some (ps, ts, r)) :
    ∃ f, CheckedForm ls m f (.fn ps ts r) n := by
  cases h with
  | symbol | number | string | vector _ => cases ht
  | call _ h => exact h.of_function? ht

theorem CheckedForm.of_function? (h : CheckedForm ls m f t n)
    (ht : t.function? = some (ps, ts, r)) : ∃ f, CheckedForm ls m f (.fn ps ts r) n := by
  cases h with
  | fn hs h =>
    cases ht
    exact ⟨_, .fn hs h⟩
  | logic h hs =>
    cases hs with
    | nil => exact h.of_function? ht
    | cons _ _ => cases ht
  | _ => cases ht

end

section

variable {cfg : Config} {R : α → β → Prop} {f : Listing α} {g : Place × Item → List β}

mutual

theorem Checked.emitsListed (hg : f.Reads cfg R g) : Checked ls m d t n → t.EmitsListed cfg R f g
  | .symbol => by
    intro p c
    obtain ⟨root, hi⟩ := Expr.items_ofName p c _
    rw [Term.emit, hi]
    exact .skip hg.name .nil
  | .number | .string => fun _ _ => .nil
  | .vector hs => fun p _ => .all (hs.emitsListed hg) p
  | .call _ h => h.emitsListed hg

theorem CheckedForm.emitsListed (hg : f.Reads cfg R g) :
    CheckedForm ls m form t n → t.EmitsListed cfg R f g
  | .call h hs => fun p _ =>
    (h.emitsListed hg p true).append (.all (hs.emitsListed hg) p)
  | .not h => fun p _ => h.emitsListed hg p false
  | .operator hs => fun p _ => .skip hg.name (.all (hs.emitsListed hg) p)
  | .logic h hs => by
    intro p c
    obtain ⟨c', hi⟩ := Expr.items_logics p c _ _ _
    rw [Term.emit, hi]
    exact (h.emitsListed hg p c').append (.all (hs.emitsListed hg) p)
  | .loop hb hs h => by
    intro p c
    refine hg.called ?_
    rw [Loop.passes, Stmt.itemsAll_append]
    refine (hg.bindings (hb.emitsListed hg) _ [] rfl _).append ?_
    exact hg.passes (l := ⟨_, _⟩) rfl (hg.effects (hs.emitsListed hg) _ _ _)
      (h.emitsListed hg _ false)
  | .recur hlen hs => by
    intro p c
    refine hg.called ?_
    rw [Stmt.itemsAll_append, ← List.append_nil (Term.listed f _)]
    -- With another number of values some of them would not be emitted.
    exact (hg.update (hs.emitsListed hg) (hs.length.trans hlen) _ p).append hg.again
  | .assert h => fun p _ => h.emitsListed hg p false
  | .get hs => by
    intro p c
    obtain ⟨root, hi⟩ := Expr.items_ofName p true (cfg.corePackage ++ "/" ++ "get")
    rw [Term.emit, Expr.items, Config.coreFunction, hi]
    exact .skip hg.name (.all (hs.emitsListed hg) p)
  | .letIn hb hs h => by
    intro p c
    refine hg.called ?_
    rw [List.append_assoc, Stmt.itemsAll_append]
    exact (hg.bindings (hb.emitsListed hg) _ [] rfl _).append
      (hg.body (hs.emitsListed hg) (h.emitsListed hg) (.inl rfl))
  | .cond ht hy => fun p _ =>
    hg.called (hg.branch (ht.emitsListed hg _ false) (hy.emitsListed hg _ false)
      (.skip hg.name .nil))
  | .condElse ht hy hn => fun p _ =>
    hg.called (hg.branch (ht.emitsListed hg _ false) (hy.emitsListed hg _ false)
      (hn.emitsListed hg _ false))
  | .fn hs h => by
    intro p c
    rw [Term.emit, Expr.items]
    exact .item hg.params (hg.body (hs.emitsListed hg) (h.emitsListed hg) (.inl rfl))

theorem CheckedAll.emitsListed (hg : f.Reads cfg R g) :
    CheckedAll ls m ds ts n → ∀ t ∈ ts, t.EmitsListed cfg R f g
  | .nil => nofun
  | .cons h hs => List.forall_mem_cons.2 ⟨h.emitsListed hg, hs.emitsListed hg⟩

theorem CheckedBindings.emitsListed (hg : f.Reads cfg R g) :
    CheckedBindings ls m bs cs n → ∀ c ∈ cs, c.value.EmitsListed cfg R f g
  | .nil => nofun
  | .cons h hs => List.forall_mem_cons.2 ⟨h.emitsListed hg, hs.emitsListed hg⟩

end

/-! ## Files -/

/-- The function where the program starts declares what any other function does. -/
theorem Checked.listed_definition (hg : f.Reads cfg R g) (h : Checked ls m d t n) (name : String) :
    Lists R g (t.listed f) (definition cfg name (t.emit cfg)).items := by
  cases hfunction : t.function? with
  | none =>
    rw [definition_eq_var (Term.emit_ne_func hfunction), Decl.items, Expr.itemsAll_singleton]
    exact h.emitsListed hg [] false
  | some parts =>
    obtain ⟨ps, ts, r⟩ := parts
    obtain ⟨form, hform⟩ := h.of_function? hfunction
    cases hform with
    | fn hs hr =>
      rw [Term.listed_of_function? f hfunction, Term.emit_of_function? cfg hfunction, Term.emit,
        definition]
      split
      · rw [entryBody_concat_ret]
        exact .item hg.params (hg.body (hs.emitsListed hg) (hr.emitsListed hg) (.inr rfl))
      · exact .item hg.params (hg.body (hs.emitsListed hg) (hr.emitsListed hg) (.inl rfl))

theorem CheckedItem.listed (hg : f.Reads cfg R g) (h : CheckedItem ls m d i n) :
    Lists R g (i.listed f) (i.emit cfg).items := by
  cases i with
  | define x t =>
    cases h with
    | define h => exact h.listed_definition hg _
  | discard t =>
    obtain ⟨form, h⟩ := h.form
    rw [TopLevel.emit, discarded, Decl.items, Expr.itemsAll_singleton]
    exact h.emitsListed hg [] false

theorem CheckedItems.listed (hg : f.Reads cfg R g) (h : CheckedItems ls m ds is n) :
    Lists R g (is.flatMap (·.listed f)) ((is.map (·.emit cfg)).flatMap Decl.items) := by
  induction h with
  | nil => exact .nil
  | cons h _ ih => exact (h.listed hg).append ih

end

end SmallLisp
