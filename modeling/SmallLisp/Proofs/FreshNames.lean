import SmallLisp.Proofs.Definition

/-!
# Generated names

The names that loops generate for their variables are new: those declared in the output of a check
have their numbers between the next number before the check and the one after it, and no two are
the same (`Fresh`). Wherever one is used, the function around a loop that declares it is around the
place as well (`Place.Bound`). Both hold of every expression of a checked datum
(`Checked.emitsTidy`), and so of the outputs of a whole session.
-/

namespace SmallLisp

open Program Identifier

/-! ## Fresh names -/

/-- The generated names among some names are pairwise different, and their numbers are not less
than `m` but less than `n`. -/
structure Fresh (m n : Nat) (xs : List String) : Prop where
  le : m ≤ n
  bounded : ∀ x ∈ xs, IsGenerated x →
    ∃ k, m ≤ k ∧ k < n ∧ (x = generated "continue" k ∨ x = generated "result" k)
  distinct : xs.Pairwise fun x y => IsGenerated x → x ≠ y

theorem generated_eq_iff {x : String} {j k : Nat}
    (hj : x = generated "continue" j ∨ x = generated "result" j)
    (hk : x = generated "continue" k ∨ x = generated "result" k) : j = k := by
  obtain rfl | rfl := hj
  · obtain hk | hk := hk
    · exact generated_inj hk
    · exact absurd hk flag_ne_result
  · obtain hk | hk := hk
    · exact absurd hk.symm flag_ne_result
    · exact generated_inj hk

namespace Fresh

theorem of_none (h : ∀ x ∈ xs, ¬IsGenerated x) : Fresh m m xs where
  le := Nat.le_refl m
  bounded x hx hg := absurd hg (h x hx)
  distinct := List.pairwise_of_forall_mem_list fun x hx _ _ hg => absurd hg (h x hx)

theorem weaken (h : Fresh k n xs) (hm : m ≤ k) : Fresh m n xs where
  le := Nat.le_trans hm h.le
  bounded x hx hg := by
    obtain ⟨i, hk, hn, hi⟩ := h.bounded x hx hg
    exact ⟨i, Nat.le_trans hm hk, hn, hi⟩
  distinct := h.distinct

theorem append (hxs : Fresh m k xs) (hys : Fresh k n ys) : Fresh m n (xs ++ ys) where
  le := Nat.le_trans hxs.le hys.le
  bounded x hx hg := by
    obtain hx | hx := List.mem_append.1 hx
    · obtain ⟨i, hm, hk, hi⟩ := hxs.bounded x hx hg
      exact ⟨i, hm, Nat.lt_of_lt_of_le hk hys.le, hi⟩
    · obtain ⟨i, hk, hn, hi⟩ := hys.bounded x hx hg
      exact ⟨i, Nat.le_trans hxs.le hk, hn, hi⟩
  distinct := by
    refine List.pairwise_append.2 ⟨hxs.distinct, hys.distinct, fun x hx y hy hg heq => ?_⟩
    subst heq
    obtain ⟨i, -, hlt, hi⟩ := hxs.bounded x hx hg
    obtain ⟨j, hle, -, hj⟩ := hys.bounded x hy hg
    have := generated_eq_iff hi hj
    omega

theorem perm (h : Fresh m n xs) (hp : xs.Perm ys) : Fresh m n ys where
  le := h.le
  bounded y hy := h.bounded y (hp.mem_iff.2 hy)
  distinct := h.distinct.perm hp fun hxy hy heq => hxy (heq ▸ hy) heq.symm

/-- The two names of a loop. -/
theorem pair (n : Nat) : Fresh n (n + 2) [generated "result" (n + 1), generated "continue" n] where
  le := Nat.le_add_right n 2
  bounded := by
    intro x hx _
    obtain rfl | hx := List.mem_cons.1 hx
    · exact ⟨n + 1, by omega, by omega, .inr rfl⟩
    · exact ⟨n, by omega, by omega, .inl (List.mem_singleton.1 hx)⟩
  distinct := by
    refine List.pairwise_pair.2 fun _ h => flag_ne_result h.symm

end Fresh

/-! ## Places of generated names -/

namespace Program.Place

/-- The innermost function around a place: whether it is called where it stands, and its
signature. -/
def function? : Place → Option (Bool × Signature)
  | ⟨.function called signature, _⟩ :: _ => some (called, signature)
  | _ :: p => function? p
  | [] => none

/-- The statements before a place do not matter for the function around it. -/
theorem function?_before {kind : BlockKind} {before before' : List Stmt} {p : Place} :
    function? (⟨kind, before⟩ :: p) = function? (⟨kind, before'⟩ :: p) := by
  cases kind <;> rfl

/-- The place is in the scope of a declaration of the name, and the innermost function around that
declaration has no parameters and is called at once. -/
inductive Bound (x : String) : Place → Prop where
  | here : x ∈ b.declared → function? (b :: p) = some (true, ⟨[], results⟩) → Bound x (b :: p)
  | there : Bound x p → Bound x (b :: p)

theorem Bound.skip {s : Stmt} (h : Bound x (⟨kind, before⟩ :: p)) :
    Bound x (⟨kind, before ++ [s]⟩ :: p) := by
  cases h with
  | here hx hf =>
    exact .here (Block.declared_snoc ▸ List.mem_append_left _ hx) (function?_before.trans hf)
  | there h => exact .there h

end Program.Place

/-- The flag of the innermost of the loops, if there is one, is bound at the place. -/
def Ready (ls : List Loop) (p : Place) : Prop :=
  ∀ l, ls.head? = some l → p.Bound (generated "continue" l.number)

namespace Ready

theorem nil : Ready [] p := fun _ h => nomatch h

theorem block (h : Ready ls p) : Ready ls (b :: p) := fun l hl => .there (h l hl)

theorem skip {s : Stmt} (h : Ready ls (⟨kind, before⟩ :: p)) :
    Ready ls (⟨kind, before ++ [s]⟩ :: p) := fun l hl => (h l hl).skip

end Ready

/-- The flag of a loop is bound in the body of the loop. -/
theorem bound_flag {cfg : Config} {l : Loop} :
    Place.Bound (generated "continue" l.number)
      (⟨.header, [.define l.flag (.bool true)]⟩ :: ⟨cfg.called, before⟩ :: p) := by
  refine .here (List.mem_filter.2 ⟨List.mem_singleton.2 rfl, ?_⟩) rfl
  exact bne_iff_ne.2 (IsGenerated.flag _).ne_blank

/-- The result of a loop is bound after its declaration. -/
theorem bound_result {cfg : Config} {l : Loop} {type : Option TypeExpr} :
    Place.Bound l.resultName (⟨cfg.called, before ++ [.var [l.resultName] type []]⟩ :: p) := by
  refine .here ?_ rfl
  rw [Block.declared_snoc]
  refine List.mem_append_right _ (List.mem_filter.2 ⟨List.mem_singleton.2 rfl, ?_⟩)
  exact bne_iff_ne.2 (IsGenerated.result _).ne_blank

/-! ## Tidy items -/

/-- Wherever a generated name is used it is bound. -/
def Scoped (is : List (Place × Item)) : Prop :=
  ∀ p x, (p, .name x) ∈ is → IsGenerated x → p.Bound x

namespace Scoped

theorem nil : Scoped [] := nofun

theorem append (his : Scoped is) (hjs : Scoped js) : Scoped (is ++ js) := by
  intro p x hx
  obtain hx | hx := List.mem_append.1 hx
  · exact his p x hx
  · exact hjs p x hx

theorem name (hx : IsGenerated x → Place.Bound x p) (his : Scoped is) :
    Scoped ((p, .name x) :: is) := by
  intro q y hy
  obtain hy | hy := List.mem_cons.1 hy
  · cases hy
    exact hx
  · exact his q y hy

theorem cons (hi : ∀ x, i.2 ≠ .name x) (his : Scoped is) : Scoped (i :: is) := by
  intro p x hx
  obtain rfl | hx := List.mem_cons.1 hx
  · exact absurd rfl (hi x)
  · exact his p x hx

theorem stmt (his : Scoped is) : Scoped ((p, .stmt s) :: is) := cons nofun his

end Scoped

/-- The generated names declared among the items are fresh, and wherever one is used it is
bound. -/
structure Tidy (m n : Nat) (is : List (Place × Item)) : Prop where
  fresh : Fresh m n (is.flatMap (·.2.declared))
  bound : Scoped is

namespace Tidy

theorem nil : Tidy m m [] := ⟨.of_none nofun, .nil⟩

theorem append (his : Tidy m k is) (hjs : Tidy k n js) : Tidy m n (is ++ js) :=
  ⟨List.flatMap_append ▸ his.fresh.append hjs.fresh, his.bound.append hjs.bound⟩

theorem name (hx : IsGenerated x → Place.Bound x p) (his : Tidy m n is) :
    Tidy m n ((p, .name x) :: is) := ⟨his.fresh, his.bound.name hx⟩

theorem stmt (hs : ∀ x ∈ s.declared, ¬IsGenerated x) (his : Tidy m n is) :
    Tidy m n ((p, .stmt s) :: is) :=
  ⟨(Fresh.of_none hs).append his.fresh, his.bound.stmt⟩

theorem params (hs : ∀ x ∈ signature.names, ¬IsGenerated x) (his : Tidy m n is) :
    Tidy m n ((p, .params signature) :: is) :=
  ⟨(Fresh.of_none hs).append his.fresh, his.bound.cons nofun⟩

/-- Names that come from the source. -/
theorem of_names (h : ∀ i ∈ is, ∃ root, i = (p, .name (String.ofList (chars false root)))) :
    Tidy m m is := by
  induction is with
  | nil => exact .nil
  | cons i is ih =>
    obtain ⟨⟨root, rfl⟩, his⟩ := List.forall_mem_cons.1 h
    exact .name (fun hg => absurd hg (not_isGenerated_ofChars _ _)) (ih his)

theorem targets (p : Place) (xs : List String) : Tidy m m (Expr.itemsAll p (xs.map Expr.ofName)) :=
  of_names fun _ => Expr.itemsAll_ofName

theorem newTargets (p : Place) (xs : List String) :
    Tidy m m (Expr.itemsNew p (xs.map Expr.ofName)) :=
  of_names fun _ => Expr.itemsNew_ofName

theorem ret (h : Tidy m n (e.items (⟨kind, before⟩ :: p) false)) :
    Tidy m n (Stmt.itemsAll kind before p [.ret [e]]) := by
  rw [Stmt.itemsAll_singleton, Stmt.items, Expr.itemsAll_singleton]
  exact h.stmt (List.forall_mem_nil _)

theorem expr (h : Tidy m n (e.items (⟨kind, before⟩ :: p) false)) :
    Tidy m n (Stmt.itemsAll kind before p [.expr e]) := by
  rw [Stmt.itemsAll_singleton, Stmt.items]
  exact h.stmt (List.forall_mem_nil _)

theorem closure (h : Tidy m n (Stmt.itemsAll cfg.called [] p body)) :
    Tidy m n ((Config.closure cfg body).items p c) := by
  rw [Config.closure, Expr.items, Expr.items, Expr.itemsAll, List.append_nil]
  exact h.params (List.forall_mem_nil _)

theorem branch (ht : Tidy m j (test.items (⟨kind, before⟩ :: p) false))
    (hy : Tidy j k (yes.items (⟨.branch, []⟩ :: ⟨kind, before⟩ :: p) false))
    (hn : Tidy k n (no.items (⟨.branch, []⟩ :: ⟨kind, before⟩ :: p) false)) :
    Tidy m n (Stmt.itemsAll kind before p
      [.branch test [.ret [yes]] (some [.ret [no]])]) := by
  rw [Stmt.itemsAll_singleton, Stmt.items, Stmt.itemsElse]
  exact ((ht.append hy.ret).append hn.ret).stmt (List.forall_mem_nil _)

end Tidy

/-- Names declared by the targets of a binding. -/
theorem not_isGenerated_of_mem_names {xs : List String} {x : String}
    (hx : x ∈ Expr.names (xs.map Expr.ofName)) : ¬IsGenerated x := by
  obtain ⟨e, he, hx⟩ := List.mem_filterMap.1 hx
  obtain ⟨name, -, rfl⟩ := List.mem_map.1 he
  obtain h | ⟨base, field, h⟩ := Expr.ofName_cases name
  · rw [h] at hx
    cases hx
    exact not_isGenerated_ofName name
  · rw [h] at hx
    cases hx

/-! ## Lists of terms -/

namespace Term

/-- The expression of the term is tidy wherever its loop is. -/
def EmitsTidy (cfg : Config) (ls : List Loop) (m : Nat) (t : Term) (n : Nat) : Prop :=
  ∀ p c, Ready ls p → Tidy m n ((t.emit cfg).items p c)

inductive EmitTidy (cfg : Config) (ls : List Loop) : Nat → List Term → Nat → Prop where
  | nil : EmitTidy cfg ls m [] m
  | cons : EmitsTidy cfg ls m t k → EmitTidy cfg ls k ts n → EmitTidy cfg ls m (t :: ts) n

namespace EmitTidy

theorem all (h : EmitTidy cfg ls m ts n) (hp : Ready ls p) :
    Tidy m n (Expr.itemsAll p (emitAll cfg ts)) := by
  induction h with
  | nil => exact .nil
  | cons h _ ih => exact (h p false hp).append ih

theorem effects (h : EmitTidy cfg ls m ts n) (hp : Ready ls (⟨kind, before⟩ :: p)) :
    Ready ls (⟨kind, before ++ emitEffects cfg ts⟩ :: p) ∧
      Tidy m n (Stmt.itemsAll kind before p (emitEffects cfg ts)) := by
  induction h generalizing before with
  | nil => exact ⟨by rwa [emitEffects, List.append_nil], .nil⟩
  | cons h _ ih =>
    rename_i t _ ts _ _
    obtain ⟨hp', ih⟩ := ih (hp.skip (s := .expr (t.emit cfg)))
    rw [emitEffects, Stmt.itemsAll, List.append_cons]
    have hexpr : Tidy _ _ ((⟨kind, before⟩ :: p, .stmt (.expr (t.emit cfg))) :: _) :=
      .stmt (List.forall_mem_nil _) (h _ false hp)
    exact ⟨hp', hexpr.append ih⟩

theorem bindings (h : EmitTidy cfg ls m (bs.map (·.value)) n)
    (hp : Ready ls (⟨kind, before⟩ :: p)) :
    Ready ls (⟨kind, before ++ emitBindings cfg bs⟩ :: p) ∧
      Tidy m n (Stmt.itemsAll kind before p (emitBindings cfg bs)) := by
  induction bs generalizing m before with
  | nil =>
    cases h
    exact ⟨by rwa [emitBindings, List.append_nil], .nil⟩
  | cons b bs ih =>
    obtain ⟨xs, t⟩ := b
    cases h with
    | cons h hs =>
      obtain ⟨hp', ih⟩ := ih hs (hp.skip (s := .assign .define (xs.map Expr.ofName) [t.emit cfg]))
      rw [emitBindings, Stmt.itemsAll, List.append_cons, Stmt.items, Expr.itemsAll_singleton]
      have hitems := (Tidy.newTargets (⟨kind, before⟩ :: p) xs).append (h _ false hp)
      exact ⟨hp', (hitems.stmt fun _ => not_isGenerated_of_mem_names).append ih⟩

private theorem assigns (h : EmitTidy cfg ls m ts n) (hlen : ts.length = xss.length)
    (hp : Ready ls (⟨kind, before⟩ :: p)) :
    Tidy m n (Stmt.itemsAll kind before p (List.zipWith
      (fun (xs : List String) e => .assign .assign (xs.map Expr.ofName) [e]) xss
      (emitAll cfg ts))) := by
  induction h generalizing xss before with
  | nil =>
    obtain rfl := List.length_eq_zero_iff.1 hlen.symm
    exact .nil
  | cons h _ ih =>
    rename_i t _ ts _ _
    obtain ⟨xs, xss, rfl⟩ := List.exists_cons_of_length_eq_add_one hlen.symm
    have ih := ih (Nat.succ.inj hlen)
      (hp.skip (s := .assign .assign (xs.map Expr.ofName) [t.emit cfg]))
    have hitems := (Tidy.targets (⟨kind, before⟩ :: p) xs).append (h _ false hp)
    rw [emitAll, List.zipWith_cons_cons, Stmt.itemsAll, Stmt.items, Expr.itemsAll_singleton]
    refine .append ?_ ih
    exact .stmt (s := .assign .assign (xs.map Expr.ofName) [t.emit cfg]) (List.forall_mem_nil _)
      hitems

theorem update (h : EmitTidy cfg ls m ts n) (hlen : ts.length = l.targets.length)
    (hp : Ready ls (⟨kind, []⟩ :: p)) :
    Tidy m n (Stmt.itemsAll kind [] p (Loop.update l (emitAll cfg ts))) := by
  unfold Loop.update
  split
  · split
    · rename_i hnil
      rw [List.isEmpty_iff.1 hnil] at hlen
      obtain rfl := List.length_eq_zero_iff.1 hlen
      cases h
      exact .nil
    · rw [Stmt.itemsAll_singleton, Stmt.items]
      exact ((Tidy.targets _ _).append (h.all hp)).stmt (List.forall_mem_nil _)
  · exact h.assigns hlen hp

end EmitTidy

end Term

/-! ## Loops -/

theorem Tidy.pass {l : Loop} {es : List Stmt} {r : Expr}
    (hflag : Place.Bound (generated "continue" l.number) p) (hresult : Place.Bound l.resultName p)
    (hes : Tidy m k (Stmt.itemsAll .pass [.set l.flag (.bool false)] p es))
    (hr : Tidy k n (r.items (⟨.pass, .set l.flag (.bool false) :: es⟩ :: p) false)) :
    Tidy m n (Stmt.itemsAll .pass [] p
      (.set l.flag (.bool false) :: es ++ [.set (.ident l.resultName) r])) := by
  have hset : Tidy k n (Stmt.itemsAll .pass (.set l.flag (.bool false) :: es) p
      [.set (.ident l.resultName) r]) := by
    simp only [Stmt.set, Stmt.itemsAll, Stmt.items, Expr.itemsAll, Expr.items, List.append_nil,
      List.cons_append, List.nil_append]
    exact .stmt (List.forall_mem_nil _) (.name (fun _ => .there hresult) hr)
  have hclear : Tidy m m (Stmt.items (⟨.pass, []⟩ :: p) (.set l.flag (.bool false))) :=
    .name (fun _ => .there hflag) (.name (fun h => absurd h (not_isGenerated_of_unmarked rfl)) .nil)
  rw [List.cons_append, Stmt.itemsAll, Stmt.itemsAll_append]
  exact (Tidy.stmt (s := .set l.flag (.bool false)) (List.forall_mem_nil _) hclear).append
    (hes.append hset)

theorem declared_loop {l : Loop} {type : Option TypeExpr} {body : List Stmt} {x : String}
    {kind : BlockKind} {before : List Stmt} {p : Place} :
    (Stmt.itemsAll kind before p
        [.var [x] type [], l.stmt body, .ret [.ident x]]).flatMap (·.2.declared) =
      [x, generated "continue" l.number] ++
        (Stmt.itemsAll .pass [] (⟨.header, [.define l.flag (.bool true)]⟩ ::
          ⟨kind, before ++ [.var [x] type []]⟩ :: p) body).flatMap (·.2.declared) := by
  rw [items_loop rfl, List.flatMap_append, List.flatMap_append]
  simp [Item.declared, Stmt.declared, Stmt.define, Expr.names, Loop.flag]

theorem Scoped.loop {cfg : Config} {l : Loop} {type : Option TypeExpr} {body : List Stmt}
    (hbody : Scoped (Stmt.itemsAll .pass [] (⟨.header, [.define l.flag (.bool true)]⟩ ::
      ⟨cfg.called, before ++ [.var [l.resultName] type []]⟩ :: p) body)) :
    Scoped (Stmt.itemsAll cfg.called before p
      [.var [l.resultName] type [], l.stmt body, .ret [.ident l.resultName]]) := by
  have hend : Place.Bound l.resultName
      (⟨cfg.called, before ++ [.var [l.resultName] type [], l.stmt body]⟩ :: p) :=
    List.append_cons before _ _ ▸ bound_result.skip
  rw [items_loop rfl]
  refine (Scoped.append (.stmt (.stmt (.stmt (.name ?_ (.name ?_ .nil))))) hbody).append
    (.stmt (.name (fun _ => hend) .nil))
  · exact fun h => absurd h (not_isGenerated_of_unmarked rfl)
  · exact fun _ => bound_flag

theorem Tidy.passes {cfg : Config} {l : Loop} {bs es : List Stmt} {r : Expr} {q : Place}
    (hq : q = ⟨.header, [.define l.flag (.bool true)]⟩ ::
      ⟨cfg.called, bs ++ [.var [l.resultName] (some cfg.any) []]⟩ :: p)
    (hbs : Tidy (l.number + 2) j (Stmt.itemsAll cfg.called [] p bs))
    (hes : Tidy j k (Stmt.itemsAll .pass [.set l.flag (.bool false)] q es))
    (hr : Tidy k n (r.items (⟨.pass, .set l.flag (.bool false) :: es⟩ :: q) false)) :
    Tidy l.number n (Stmt.itemsAll cfg.called [] p (l.passes cfg bs es r)) := by
  subst hq
  have hbody := Tidy.pass bound_flag bound_result.there hes hr
  rw [Loop.passes, Stmt.itemsAll_append]
  refine ⟨?_, hbs.bound.append (.loop hbody.bound)⟩
  rw [List.flatMap_append, List.nil_append, declared_loop]
  -- the two names of the loop come first in the order of their numbers
  exact ((Fresh.pair l.number).append (hbs.fresh.append hbody.fresh)).perm
    (List.perm_append_comm_assoc _ _ _)

theorem not_isGenerated_of_mem_groups {cfg : Config} {ps : Params} {results : List TypeExpr} :
    ∀ x ∈ Signature.names ⟨ps.groups cfg, results⟩, ¬IsGenerated x := by
  intro x hx
  rw [Signature.names_groups] at hx
  obtain ⟨name, -, rfl⟩ := List.mem_map.1 hx
  exact not_isGenerated_ofName name

theorem Ready.loop {cfg : Config} {l l' : Loop} (h : l'.number = l.number) :
    Ready (l' :: ls) (⟨.pass, before'⟩ :: ⟨.header, [.define l.flag (.bool true)]⟩ ::
      ⟨cfg.called, before⟩ :: p) := by
  intro k hk
  cases hk
  rw [h]
  exact bound_flag.there

theorem Tidy.again {l : Loop}
    (h : Place.Bound (generated "continue" l.number) (⟨kind, before⟩ :: p)) :
    Tidy m m (Stmt.itemsAll kind before p [.set l.flag (.bool true), .ret [.nil]]) := by
  have hset : Tidy m m (Stmt.items (⟨kind, before⟩ :: p) (.set l.flag (.bool true))) :=
    .name (fun _ => h) (.name (fun h => absurd h (not_isGenerated_of_unmarked rfl)) .nil)
  have hnil : Tidy m m (Stmt.itemsAll kind (before ++ [.set l.flag (.bool true)]) p
      [.ret [.nil]]) :=
    .ret (.name (fun h => absurd h (not_isGenerated_of_unmarked rfl)) .nil)
  rw [Stmt.itemsAll]
  exact (Tidy.stmt (s := .set l.flag (.bool true)) (List.forall_mem_nil _) hset).append hnil

mutual

theorem Checked.emitsTidy (hcore : ¬IsGenerated cfg.corePackage) :
    Checked ls m d t n → t.EmitsTidy cfg ls m n
  | .symbol => fun p c _ => by
    obtain ⟨root, hi⟩ := Expr.items_ofName p c _
    rw [Term.emit, hi]
    exact .of_names fun i hi => ⟨root, List.mem_singleton.1 hi⟩
  | .number | .string => fun _ _ _ => .nil
  | .vector hs => fun p c hp => (hs.emitTidy hcore).all hp
  | .call _ h => h.emitsTidy hcore

theorem CheckedForm.emitsTidy (hcore : ¬IsGenerated cfg.corePackage) :
    CheckedForm ls m f t n → t.EmitsTidy cfg ls m n
  | .call h hs => fun p c hp => (h.emitsTidy hcore p true hp).append ((hs.emitTidy hcore).all hp)
  | .not h => fun p c hp => h.emitsTidy hcore p false hp
  | .operator hs => fun p c hp =>
    .name (fun hg => absurd hg hcore) ((hs.emitTidy hcore).all hp)
  | .logic h hs => fun p c hp => by
    obtain ⟨c', hi⟩ := Expr.items_logics p c _ _ _
    rw [Term.emit, hi]
    exact (h.emitsTidy hcore p c' hp).append ((hs.emitTidy hcore).all hp)
  | .loop hb hs h => fun p c hp => by
    rw [Term.emit]
    obtain ⟨hp', hes⟩ := (hs.emitTidy hcore).effects (.loop rfl)
    exact (Tidy.passes (l := ⟨_, _⟩) rfl ((hb.emitTidy hcore).bindings hp.block).2 hes
      (h.emitsTidy hcore _ false hp')).closure
  | .recur hlen hs => fun p c hp => by
    rw [Term.emit]
    refine Tidy.closure ?_
    rw [Stmt.itemsAll_append]
    exact ((hs.emitTidy hcore).update (hs.length.trans hlen) hp.block).append
      (.again (.there (hp _ rfl)))
  | .assert h => fun p c hp => h.emitsTidy hcore p false hp
  | .get hs => fun p c hp => by
    obtain ⟨root, hi⟩ := Expr.items_ofName p true (cfg.corePackage ++ "/" ++ "get")
    rw [Term.emit, Expr.items, Config.coreFunction, hi]
    exact (Tidy.of_names fun i hi => ⟨root, List.mem_singleton.1 hi⟩).append
      ((hs.emitTidy hcore).all hp)
  | .letIn hb hs h => fun p c hp => by
    rw [Term.emit, List.append_assoc]
    refine Tidy.closure ?_
    rw [Stmt.itemsAll_append, Stmt.itemsAll_append]
    obtain ⟨hp', hbs⟩ := (hb.emitTidy hcore).bindings hp.block
    obtain ⟨hp'', hes⟩ := (hs.emitTidy hcore).effects hp'
    exact hbs.append (hes.append (h.emitsTidy hcore _ false hp'').ret)
  | .cond ht hy => fun p c hp =>
    (Tidy.branch (ht.emitsTidy hcore _ false hp.block) (hy.emitsTidy hcore _ false hp.block.block)
      (.name (fun h => absurd h (not_isGenerated_of_unmarked rfl)) .nil)).closure
  | .condElse ht hy hn => fun p c hp =>
    (Tidy.branch (ht.emitsTidy hcore _ false hp.block) (hy.emitsTidy hcore _ false hp.block.block)
      (hn.emitsTidy hcore _ false hp.block.block)).closure
  | .fn hs h => fun p c hp => by
    rw [Term.emit, Expr.items, Stmt.itemsAll_append]
    obtain ⟨hp', hes⟩ := (hs.emitTidy hcore).effects hp.block
    exact .params not_isGenerated_of_mem_groups (hes.append (h.emitsTidy hcore _ false hp').ret)

theorem CheckedAll.emitTidy (hcore : ¬IsGenerated cfg.corePackage) :
    CheckedAll ls m ds ts n → Term.EmitTidy cfg ls m ts n
  | .nil => .nil
  | .cons h hs => .cons (h.emitsTidy hcore) (hs.emitTidy hcore)

theorem CheckedBindings.emitTidy (hcore : ¬IsGenerated cfg.corePackage) :
    CheckedBindings ls m bs cs n → Term.EmitTidy cfg ls m (cs.map (·.value)) n
  | .nil => .nil
  | .cons h hb => .cons (h.emitsTidy hcore) (hb.emitTidy hcore)

end

end SmallLisp
