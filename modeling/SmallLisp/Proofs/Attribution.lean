import Mathlib.Data.List.Forall2
import SmallLisp.Proofs.Recurrence

/-!
# Each `recur` at its loop

`Within cfg l xs p`: the place `p` is in a pass of the loop `l`, and the blocks between it and
that pass declare the identifiers `xs`. Every block that is entered and every statement that is
left behind on the way from a loop to a `recur` keeps this (`Within.block`, `Within.extend`), so
each `recur` of a checked term stands where it should (`Checked.placed`).
-/

namespace SmallLisp

open Program

/-- The place is in a pass of the loop, and `xs` are the identifiers that are declared between
the start of that pass and the place. -/
inductive Within (cfg : Config) (l : Loop) : List String → Place → Prop where
  | pass : (⟨.pass, ss⟩ : Block).declared = [] →
    before.filterMap Stmt.defined? = l.targets.map (·.map Expr.ofName) →
    Within cfg l []
      (⟨.pass, ss⟩ :: ⟨.header, [.define l.flag (.bool true)]⟩ :: ⟨cfg.called, before⟩ :: p)
  | block : b.kind ≠ .pass → Within cfg l xs p → Within cfg l (xs ++ b.declared) (b :: p)

theorem Within.extend (h : Within cfg l xs (⟨kind, before⟩ :: p))
    (hk : kind = .pass → s.declared = []) :
    Within cfg l (xs ++ s.declared.filter (· != "_")) (⟨kind, before ++ [s]⟩ :: p) := by
  cases h with
  | pass hpass hbefore =>
    rw [hk rfl]
    refine .pass ?_ hbefore
    rw [Block.declared_snoc, hpass, hk rfl]
    rfl
  | block hb h =>
    rw [List.append_assoc, ← Block.declared_snoc]
    exact .block hb h

theorem Within.innermostLoop? (h : Within cfg l xs p) :
    ∃ before outer,
      p.innermostLoop? =
        some (⟨.header, [.define l.flag (.bool true)]⟩, ⟨cfg.called, before⟩ :: outer) ∧
      before.filterMap Stmt.defined? = l.targets.map (·.map Expr.ofName) := by
  induction h with
  | pass _ hbefore => exact ⟨_, _, rfl, hbefore⟩
  | block hb _ ih =>
    obtain ⟨before, outer, hp, hbefore⟩ := ih
    exact ⟨before, outer, (Place.innermostLoop?_cons hb).trans hp, hbefore⟩

/-- The place is in a pass of the innermost of the loops, if there is one. -/
def Inside (cfg : Config) (ls : List Loop) (xs : List String) (p : Place) : Prop :=
  ∀ l, ls.head? = some l → Within cfg l xs p

namespace Inside

theorem nil : Inside cfg [] xs p := fun _ h => nomatch h

theorem block (hb : b.kind ≠ .pass) (h : Inside cfg ls xs p) :
    Inside cfg ls (xs ++ b.declared) (b :: p) := fun l hl => .block hb (h l hl)

theorem called (h : Inside cfg ls xs p) : Inside cfg ls xs (⟨cfg.called, []⟩ :: p) :=
  List.append_nil xs ▸ h.block (b := ⟨cfg.called, []⟩) nofun

theorem branch (h : Inside cfg ls xs p) : Inside cfg ls xs (⟨.branch, []⟩ :: p) :=
  List.append_nil xs ▸ h.block (b := ⟨.branch, []⟩) nofun

theorem extend (h : Inside cfg ls xs (⟨kind, before⟩ :: p)) (hk : kind = .pass → s.declared = []) :
    Inside cfg ls (xs ++ s.declared.filter (· != "_")) (⟨kind, before ++ [s]⟩ :: p) :=
  fun l hl => (h l hl).extend hk

theorem skip (h : Inside cfg ls xs (⟨kind, before⟩ :: p)) (hs : s.declared = []) :
    Inside cfg ls xs (⟨kind, before ++ [s]⟩ :: p) := by
  have h := h.extend fun _ => hs
  rwa [hs, List.filter_nil, List.append_nil] at h

theorem define (h : Inside cfg ls xs (⟨kind, before⟩ :: p)) (hk : kind ≠ .pass)
    (ys : List String) (vs : List Expr) :
    Inside cfg ls (xs ++ Binding.idents ys)
      (⟨kind, before ++ [.assign .define (ys.map Expr.ofName) vs]⟩ :: p) :=
  h.extend (s := .assign .define _ vs) fun hp => absurd hp hk

end Inside

/-- The statement is the one that a `recur` becomes: its function gives the bindings of the loop
their next values, and is in a pass of that loop. -/
structure Recurrence.Stands (cfg : Config) (r : Recurrence) (s : Site) : Prop where
  number : s.number = r.loop.number
  length : r.values.length = r.loop.targets.length
  place : ∃ p, s.place = ⟨cfg.called, r.loop.update (Term.emitAll cfg r.values)⟩ :: p ∧
    Within cfg r.loop r.between p

/-! ## Statements that set no flag -/

theorem sites_eq_nil {is : List (Place × Item)} (h : ∀ i ∈ is, Site.ofItem? i = none) :
    sites is = [] := List.filterMap_eq_nil_iff.2 h

theorem sites_targets {p : Place} (xs : List String) :
    sites (Expr.itemsAll p (xs.map Expr.ofName)) = [] := by
  refine sites_eq_nil fun i hi => ?_
  obtain ⟨root, rfl⟩ := Expr.itemsAll_ofName hi
  rfl

theorem sites_newTargets {p : Place} (xs : List String) :
    sites (Expr.itemsNew p (xs.map Expr.ofName)) = [] := by
  refine sites_eq_nil fun i hi => ?_
  obtain ⟨root, rfl⟩ := Expr.itemsNew_ofName hi
  rfl

/-- An update of a loop variable does not set a flag. -/
theorem setFlag?_update {xs : List String} {vs : List Expr} :
    (Stmt.assign .assign (xs.map Expr.ofName) vs).setFlag? = none := by
  unfold Stmt.setFlag?
  split
  · rename_i x v h
    obtain ⟨y, -, hy⟩ := List.map_eq_singleton_iff.1 (Stmt.assign.inj h).2.1
    obtain hx | ⟨base, field, hx⟩ := Expr.ofName_cases y
    · obtain rfl : Identifier.ofName y = x := Expr.ident.inj (hx.symm.trans hy)
      cases hn : Identifier.number? "continue" (Identifier.ofName y) with
      | none => simp
      | some n =>
        exact absurd (Identifier.number?_eq_some.1 hn) (Identifier.ofName_ne_generated y _ n)
    · exact absurd (hx.symm.trans hy) nofun
  · rfl

@[simp] theorem sites_closure {cfg : Config} {body : List Stmt} {p : Place} {c : Bool} :
    sites ((cfg.closure body).items p c) = sites (Stmt.itemsAll cfg.called [] p body) := by
  simp [Config.closure, Expr.items, Expr.itemsAll]

theorem sites_ret {kind : BlockKind} {before : List Stmt} {p : Place} {e : Expr} :
    sites (Stmt.itemsAll kind before p [.ret [e]]) =
      sites (e.items (⟨kind, before⟩ :: p) false) := by
  rw [Stmt.itemsAll_singleton, sites_stmt rfl, Stmt.items, Expr.itemsAll_singleton]

theorem sites_expr {kind : BlockKind} {before : List Stmt} {p : Place} {e : Expr} :
    sites (Stmt.itemsAll kind before p [.expr e]) =
      sites (e.items (⟨kind, before⟩ :: p) false) := by
  rw [Stmt.itemsAll_singleton, sites_stmt rfl, Stmt.items]

theorem sites_branch {kind : BlockKind} {before : List Stmt} {p : Place} {test yes no : Expr} :
    sites (Stmt.itemsAll kind before p [.branch test [.ret [yes]] (some [.ret [no]])]) =
      sites (test.items (⟨kind, before⟩ :: p) false) ++
        sites (yes.items (⟨.branch, []⟩ :: ⟨kind, before⟩ :: p) false) ++
        sites (no.items (⟨.branch, []⟩ :: ⟨kind, before⟩ :: p) false) := by
  rw [Stmt.itemsAll_singleton, sites_stmt rfl, Stmt.items, sites_append, sites_append, sites_ret,
    Stmt.itemsElse, sites_ret]

theorem setFlag?_result {l : Loop} {e : Expr} :
    (Stmt.set (.ident l.resultName) e).setFlag? = none := by
  unfold Stmt.setFlag?
  split
  · rename_i x v h
    obtain rfl : l.resultName = x := by injection h; simp_all
    cases hn : Identifier.number? "continue" l.resultName with
    | none => simp
    | some n => exact absurd (Identifier.number?_eq_some.1 hn).symm Identifier.flag_ne_result
  · rfl

theorem setFlag?_flag {l : Loop} {b : Bool} :
    (Stmt.set l.flag (.bool b)).setFlag? = if b then some l.number else none := by
  cases b <;> simp [Stmt.set, Loop.flag, Expr.bool, Stmt.setFlag?]

/-- The end of the function that a `recur` becomes. -/
theorem sites_again {l : Loop} {kind : BlockKind} {before : List Stmt} {p : Place} :
    sites (Stmt.itemsAll kind before p [.set l.flag (.bool true), .ret [.nil]]) =
      [⟨l.number, ⟨kind, before⟩ :: p⟩] := by
  rw [Stmt.itemsAll, List.cons_append, sites, List.filterMap_cons_some (b := ⟨l.number, _⟩)]
  · rfl
  · simp [Site.ofItem?, setFlag?_flag]

theorem sites_loop {l : Loop} {type : Option TypeExpr} {body : List Stmt} {x : String}
    {kind : BlockKind} {before : List Stmt} {p : Place} :
    sites (Stmt.itemsAll kind before p [.var [x] type [], l.stmt body, .ret [.ident x]]) =
      sites (Stmt.itemsAll .pass [] (⟨.header, [.define l.flag (.bool true)]⟩ ::
        ⟨kind, before ++ [.var [x] type []]⟩ :: p) body) := by
  rw [items_loop rfl, sites_append, sites_append, sites_stmt rfl, sites_stmt rfl, sites_stmt rfl,
    sites_name, sites_name, sites_stmt rfl, sites_name, sites_nil, List.nil_append,
    List.append_nil]

theorem sites_pass {l : Loop} {effects : List Stmt} {result : Expr} {p : Place} :
    sites (Stmt.itemsAll .pass [] p
      (.set l.flag (.bool false) :: effects ++ [.set (.ident l.resultName) result])) =
      sites (Stmt.itemsAll .pass [.set l.flag (.bool false)] p effects) ++
        sites (result.items (⟨.pass, .set l.flag (.bool false) :: effects⟩ :: p) false) := by
  rw [List.cons_append, Stmt.itemsAll, List.cons_append, sites_stmt setFlag?_flag, sites_append,
    Stmt.itemsAll_append, sites_append, Stmt.itemsAll, List.cons_append,
    sites_stmt setFlag?_result]
  simp [Stmt.set, Stmt.items, Expr.itemsAll, Loop.flag, Expr.bool, Expr.items, Stmt.itemsAll]

/-! ## Lists of terms -/

namespace Term

/-- Inside the loops `ls`, the `recur`s of the term stand where they should. -/
def Placed (cfg : Config) (ls : List Loop) (t : Term) : Prop :=
  ∀ xs p c, Inside cfg ls xs p →
    List.Forall₂ (Recurrence.Stands cfg) (t.recurs xs) (sites ((t.emit cfg).items p c))

theorem Placed.all (hts : ∀ t ∈ ts, Placed cfg ls t) (h : Inside cfg ls xs p) :
    List.Forall₂ (Recurrence.Stands cfg) (recursAll xs ts)
      (sites (Expr.itemsAll p (emitAll cfg ts))) := by
  induction ts with
  | nil => exact .nil
  | cons t ts ih =>
    obtain ⟨ht, hts⟩ := List.forall_mem_cons.1 hts
    rw [recursAll, emitAll, Expr.itemsAll, sites_append]
    exact List.rel_append (ht xs p false h) (ih hts)

theorem Placed.effects (hts : ∀ t ∈ ts, Placed cfg ls t)
    (h : Inside cfg ls xs (⟨kind, before⟩ :: p)) :
    Inside cfg ls xs (⟨kind, before ++ emitEffects cfg ts⟩ :: p) ∧
      List.Forall₂ (Recurrence.Stands cfg) (recursAll xs ts)
        (sites (Stmt.itemsAll kind before p (emitEffects cfg ts))) := by
  induction ts generalizing before with
  | nil => exact ⟨by rwa [emitEffects, List.append_nil], .nil⟩
  | cons t ts ih =>
    obtain ⟨ht, hts⟩ := List.forall_mem_cons.1 hts
    obtain ⟨hin, hall⟩ := ih hts (h.skip (s := .expr (t.emit cfg)) rfl)
    rw [recursAll, emitEffects, Stmt.itemsAll, List.cons_append, sites_stmt rfl, sites_append]
    exact ⟨by rwa [← List.append_cons] at hin, List.rel_append (ht xs _ false h) hall⟩

end Term

theorem Binding.idents_append {xs ys : List String} :
    idents (xs ++ ys) = idents xs ++ idents ys := by
  simp [idents, Expr.names]

namespace Term

theorem Placed.bindings (hbs : ∀ b ∈ bs, Placed cfg ls b.value) (hk : kind ≠ .pass)
    (h : Inside cfg ls xs (⟨kind, before⟩ :: p)) :
    Inside cfg ls (xs ++ Binding.idents (bs.flatMap (·.targets)))
        (⟨kind, before ++ emitBindings cfg bs⟩ :: p) ∧
      List.Forall₂ (Recurrence.Stands cfg) (recursBindings xs bs)
        (sites (Stmt.itemsAll kind before p (emitBindings cfg bs))) := by
  induction bs generalizing xs before with
  | nil =>
    refine ⟨?_, .nil⟩
    rw [emitBindings, List.append_nil]
    exact (List.append_nil xs).symm ▸ h
  | cons b bs ih =>
    obtain ⟨ys, t⟩ := b
    obtain ⟨ht, hbs⟩ := List.forall_mem_cons.1 hbs
    obtain ⟨hin, hall⟩ := ih hbs (h.define hk ys [t.emit cfg])
    rw [recursBindings, emitBindings, Stmt.itemsAll, List.cons_append, sites_stmt rfl,
      sites_append, Stmt.items, sites_append, sites_newTargets, List.nil_append,
      Expr.itemsAll_singleton, List.flatMap_cons, Binding.idents_append, ← List.append_assoc]
    exact ⟨by rwa [← List.append_cons] at hin, List.rel_append (ht xs _ false h) hall⟩

/-- One assignment for each binding. -/
private theorem Placed.assigns (hts : ∀ t ∈ ts, Placed cfg ls t) (hlen : ts.length = yss.length)
    (h : Inside cfg ls xs (⟨kind, before⟩ :: p)) :
    List.Forall₂ (Recurrence.Stands cfg) (recursAll xs ts)
      (sites (Stmt.itemsAll kind before p (List.zipWith
        (fun (ys : List String) e => .assign .assign (ys.map Expr.ofName) [e]) yss
        (emitAll cfg ts)))) := by
  induction ts generalizing yss before with
  | nil =>
    obtain rfl := List.length_eq_zero_iff.1 hlen.symm
    exact .nil
  | cons t ts ih =>
    obtain ⟨ht, hts⟩ := List.forall_mem_cons.1 hts
    obtain ⟨ys, yss, rfl⟩ := List.exists_cons_of_length_eq_add_one hlen.symm
    have hall := ih hts (Nat.succ.inj hlen)
      (h.skip (s := .assign .assign (ys.map Expr.ofName) [t.emit cfg]) rfl)
    rw [recursAll, emitAll, List.zipWith_cons_cons, Stmt.itemsAll, List.cons_append,
      sites_stmt setFlag?_update, sites_append, Stmt.items, sites_append, sites_targets,
      List.nil_append, Expr.itemsAll_singleton]
    exact List.rel_append (ht xs _ false h) hall

theorem Placed.update (hts : ∀ t ∈ ts, Placed cfg ls t) (hlen : ts.length = l.targets.length)
    (h : Inside cfg ls xs (⟨kind, []⟩ :: p)) :
    List.Forall₂ (Recurrence.Stands cfg) (recursAll xs ts)
      (sites (Stmt.itemsAll kind [] p (Loop.update l (emitAll cfg ts)))) := by
  unfold Loop.update
  split
  · split
    · rename_i hnil
      rw [List.isEmpty_iff.1 hnil] at hlen
      rw [List.length_eq_zero_iff.1 hlen]
      exact .nil
    · rw [Stmt.itemsAll_singleton, sites_stmt setFlag?_update, Stmt.items, sites_append,
        sites_targets, List.nil_append]
      exact Placed.all hts h
  · exact Placed.assigns hts hlen h

end Term

/-! ## Forms -/

theorem Inside.loop (h : before.filterMap Stmt.defined? = l.targets.map (·.map Expr.ofName)) :
    Inside cfg (l :: ls) []
      (⟨.pass, []⟩ :: ⟨.header, [.define l.flag (.bool true)]⟩ :: ⟨cfg.called, before⟩ :: p) := by
  intro l' hl
  cases hl
  exact .pass rfl h

theorem Inside.fn {ps : Params} {c : Bool} (h : Inside cfg ls xs p) :
    Inside cfg ls (xs ++ ps.idents) (⟨.function c ⟨ps.groups cfg, results⟩, []⟩ :: p) := by
  have hdeclared : (⟨.function c ⟨ps.groups cfg, results⟩, []⟩ : Block).declared = ps.idents := by
    simp [Block.declared, BlockKind.params, Signature.names_groups, Params.idents]
  have hpass : BlockKind.function c ⟨ps.groups cfg, results⟩ ≠ .pass := by
    intro hkind
    cases hkind
  exact hdeclared ▸ h.block hpass

mutual

theorem Checked.placed : Checked ls m d t n → t.Placed cfg ls
  | .symbol => by
    intro xs p c h
    obtain ⟨root, hi⟩ := Expr.items_ofName p c _
    rw [Term.emit, hi]
    exact .nil
  | .number | .string => fun _ _ _ _ => .nil
  | .vector hs => fun xs p c h => Term.Placed.all hs.placed h
  | .call _ h => h.placed

theorem CheckedForm.placed : CheckedForm ls m f t n → t.Placed cfg ls
  | .call h hs => by
    intro xs p c hin
    rw [Term.recurs, Term.emit, Expr.items, sites_append]
    exact List.rel_append (h.placed xs p true hin) (Term.Placed.all hs.placed hin)
  | .not h => fun xs p c hin => h.placed xs p false hin
  | .operator hs => fun xs p c hin => Term.Placed.all hs.placed hin
  | .logic h hs => by
    intro xs p c hin
    rw [Term.recurs, Term.emit]
    obtain ⟨c', hi⟩ := Expr.items_logics p c _ _ _
    rw [hi, sites_append]
    exact List.rel_append (h.placed xs p c' hin) (Term.Placed.all hs.placed hin)
  | .loop hb hs h => by
    intro xs p c hin
    rw [Term.recurs, Term.emit, sites_closure, Loop.passes, Stmt.itemsAll_append, sites_append,
      sites_loop, sites_pass, hb.targets, List.append_assoc]
    obtain ⟨-, hbs⟩ := Term.Placed.bindings hb.placed (Config.called_ne_pass cfg) hin.called
    obtain ⟨hin', hes⟩ := Term.Placed.effects hs.placed (Inside.skip
      (s := .set (Loop.flag ⟨_, _⟩) (.bool false))
      (Inside.loop (hb.targets ▸ defined?_emitBindings)) rfl)
    exact List.rel_append hbs (List.rel_append hes (h.placed [] _ false hin'))
  | .recur hlen hs => by
    intro xs p c hin
    rw [Term.recurs, Term.emit, sites_closure, Stmt.itemsAll_append, sites_append, sites_again]
    refine List.rel_append (Term.Placed.update hs.placed (hs.length.trans hlen) hin.called) ?_
    refine .cons ⟨rfl, hs.length.trans hlen, p, rfl, hin _ rfl⟩ .nil
  | .assert h => fun xs p c hin => h.placed xs p false hin
  | .get hs => by
    intro xs p c hin
    obtain ⟨root, hi⟩ := Expr.items_ofName p true (cfg.corePackage ++ "/" ++ "get")
    rw [Term.recurs, Term.emit, Expr.items, Config.coreFunction, hi]
    exact Term.Placed.all hs.placed hin
  | .letIn hb hs h => by
    intro xs p c hin
    rw [Term.recurs, Term.emit, sites_closure, List.append_assoc, List.append_assoc,
      Stmt.itemsAll_append, Stmt.itemsAll_append, sites_append, sites_append, sites_ret]
    obtain ⟨hin', hbs⟩ := Term.Placed.bindings hb.placed (Config.called_ne_pass cfg) hin.called
    obtain ⟨hin'', hes⟩ := Term.Placed.effects hs.placed hin'
    exact List.rel_append hbs (List.rel_append hes (h.placed _ _ false hin''))
  | .cond ht hy => by
    intro xs p c hin
    rw [Term.recurs, Term.emit, sites_closure, sites_branch]
    exact List.rel_append (List.rel_append (ht.placed xs _ false hin.called)
      (hy.placed xs _ false hin.called.branch)) .nil
  | .condElse ht hy hn => by
    intro xs p c hin
    rw [Term.recurs, Term.emit, sites_closure, sites_branch]
    exact List.rel_append (List.rel_append (ht.placed xs _ false hin.called)
      (hy.placed xs _ false hin.called.branch)) (hn.placed xs _ false hin.called.branch)
  | .fn hs h => by
    intro xs p c hin
    rw [Term.recurs, Term.emit, Expr.items, sites_params, Stmt.itemsAll_append, sites_append,
      sites_ret]
    obtain ⟨hin', hes⟩ := Term.Placed.effects hs.placed hin.fn
    exact List.rel_append hes (h.placed _ _ false hin')

theorem CheckedAll.placed : CheckedAll ls m ds ts n → ∀ t ∈ ts, t.Placed cfg ls
  | .nil => nofun
  | .cons h hs => List.forall_mem_cons.2 ⟨h.placed, hs.placed⟩

theorem CheckedBindings.placed : CheckedBindings ls m bs cs n → ∀ c ∈ cs, c.value.Placed cfg ls
  | .nil => nofun
  | .cons h hs => List.forall_mem_cons.2 ⟨h.placed, hs.placed⟩

end

end SmallLisp
