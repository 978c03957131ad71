import SmallLisp.Proofs.Attribution
import SmallLisp.Proofs.Definition

/-!
# What a `recur` assigns to

By the scopes of the program, a variable that a `recur` assigns is that of its own loop exactly if
no binder between the `recur` and the loop declares the same identifier
(`recur_target_resolves`). So a `let` in between that reuses a name of the loop takes the new value
away from it.
-/

namespace SmallLisp

open Program

/-- The identifiers that a statement assigns. -/
def Program.Stmt.assigned : Stmt → List String
  | .assign .assign targets _ => Expr.names targets
  | _ => []

/-- The identifiers assigned in the function around a site before the flag is set. -/
def Site.assigned (s : Site) : List String :=
  (s.place.head?.elim [] (·.before)).flatMap Stmt.assigned

/-- The identifiers that the bindings of a loop declare. -/
def Loop.idents (l : Loop) : List String := Expr.names (l.targets.flatten.map Expr.ofName)

theorem names_append {es fs : List Expr} : Expr.names (es ++ fs) = Expr.names es ++ Expr.names fs :=
  List.filterMap_append

private theorem assigned_assigns {xss : List (List String)} {values : List Expr}
    (hlen : values.length = xss.length) :
    (List.zipWith (fun (xs : List String) v => Stmt.assign .assign (xs.map Expr.ofName) [v])
        xss values).flatMap Stmt.assigned =
      Expr.names (xss.flatten.map Expr.ofName) := by
  induction xss generalizing values with
  | nil => rfl
  | cons xs xss ih =>
    obtain ⟨v, values, rfl⟩ := List.exists_cons_of_length_eq_add_one hlen
    rw [List.zipWith_cons_cons, List.flatMap_cons, ih (Nat.succ.inj hlen), List.flatten_cons,
      List.map_append, names_append]
    rfl

/-- The update of a loop assigns all its variables. -/
theorem Loop.assigned_update {l : Loop} {values : List Expr}
    (hlen : values.length = l.targets.length) :
    (l.update values).flatMap Stmt.assigned = l.idents := by
  unfold Loop.update Loop.idents
  split
  · split
    · rename_i hnil
      rw [List.isEmpty_iff.1 hnil]
      rfl
    · exact List.append_nil _
  · exact assigned_assigns hlen

theorem Loop.declared_update {l : Loop} {values : List Expr} :
    (l.update values).flatMap Stmt.declared = [] := by
  refine List.flatMap_eq_nil_iff.2 fun s hs => ?_
  unfold Loop.update at hs
  split at hs
  · split at hs
    · cases hs
    · obtain rfl := List.mem_singleton.1 hs
      rfl
  · rw [← List.map_uncurry_zip_eq_zipWith] at hs
    obtain ⟨b, -, rfl⟩ := List.mem_map.1 hs
    rfl

theorem mem_idents {x : String} {l : Loop} (hx : x ∈ l.idents) :
    ∃ name, x = Identifier.ofName name := by
  obtain ⟨e, he, hx⟩ := List.mem_filterMap.1 hx
  obtain ⟨name, -, rfl⟩ := List.mem_map.1 he
  obtain h | ⟨base, field, h⟩ := Expr.ofName_cases name
  · rw [h] at hx
    exact ⟨name, (Option.some.inj hx).symm⟩
  · rw [h] at hx
    cases hx

theorem declared_of_defined {before : List Stmt} {targets : List Expr}
    (h : targets ∈ before.filterMap Stmt.defined?) :
    ∃ s ∈ before, s.declared = Expr.names targets := by
  obtain ⟨s, hs, hd⟩ := List.mem_filterMap.1 h
  refine ⟨s, hs, ?_⟩
  unfold Stmt.defined? at hd
  split at hd
  · cases hd
    rfl
  · cases hd

/-- The variables of a loop are declared in its function. -/
theorem mem_declared_of_mem_idents {x : String} {l : Loop} {before : List Stmt} (kind : BlockKind)
    (hbefore : before.filterMap Stmt.defined? = l.targets.map (·.map Expr.ofName))
    (hx : x ∈ l.idents) (hne : x ≠ "_") : x ∈ (⟨kind, before⟩ : Block).declared := by
  have hx : Expr.ident x ∈ l.targets.flatten.map Expr.ofName := by
    obtain ⟨e, he, hx⟩ := List.mem_filterMap.1 hx
    cases e with
    | ident y => cases hx; exact he
    | _ => cases hx
  rw [List.map_flatten, ← hbefore] at hx
  obtain ⟨targets, htargets, hx⟩ := List.mem_flatten.1 hx
  obtain ⟨s, hs, hd⟩ := declared_of_defined htargets
  have hxs : x ∈ s.declared := by
    rw [hd]
    exact List.mem_filterMap.2 ⟨_, hx, rfl⟩
  refine List.mem_filter.2 ⟨List.mem_append_right _ (List.mem_flatMap.2 ⟨s, hs, hxs⟩), ?_⟩
  exact bne_iff_ne.2 hne

/-- From a place in a pass, a variable of the loop is found in the function of the loop unless it
is declared in between. -/
theorem Within.resolve (h : Within cfg l xs p) (hx : x ∈ l.idents) (hne : x ≠ "_") :
    ∃ home, p.innermostLoop? = some (⟨.header, [.define l.flag (.bool true)]⟩, home) ∧
      home.length < p.length ∧ (p.resolve x = some home ↔ x ∉ xs) := by
  induction h with
  | pass hpass hbefore =>
    refine ⟨_, rfl, by simp, ?_⟩
    have hflag : x ∉ (⟨.header, [.define l.flag (.bool true)]⟩ : Block).declared := by
      obtain ⟨name, rfl⟩ := mem_idents hx
      intro hmem
      obtain ⟨hmem, -⟩ := List.mem_filter.1 hmem
      exact Identifier.ofName_ne_generated _ _ _ (List.mem_singleton.1 hmem)
    have hhome := mem_declared_of_mem_idents cfg.called hbefore hx hne
    simp [Place.resolve, hpass, hflag, hhome]
  | block hb h ih =>
    obtain ⟨home, hinner, hlen, hresolve⟩ := ih
    refine ⟨home, (Place.innermostLoop?_cons hb).trans hinner, Nat.lt_succ_of_lt hlen, ?_⟩
    rw [Place.resolve]
    split
    · rename_i hmem
      refine iff_of_false (fun heq => ?_) (fun hn => hn (List.mem_append_right _ hmem))
      rw [← Option.some.inj heq] at hlen
      exact absurd hlen (by simp)
    · rename_i hmem
      rw [hresolve, List.mem_append, not_or]
      exact ⟨fun hn => ⟨hn, hmem⟩, And.left⟩

/-- The `recur` assigns the variables of its loop in the function around `s`. The names there
refer to what the loop declares unless a binder between the two declares them. -/
structure Recurrence.Assigns (r : Recurrence) (s : Site) : Prop where
  assigned : s.assigned = r.loop.idents
  resolve : ∃ block outer,
    s.place.innermostLoop? =
      some (⟨.header, [.define r.loop.flag (.bool true)]⟩, block :: outer) ∧
    block.before.filterMap Stmt.defined? = r.loop.targets.map (·.map Expr.ofName) ∧
    ∀ x ∈ s.assigned, x ≠ "_" → (s.place.resolve x = some (block :: outer) ↔ x ∉ r.between)

theorem Recurrence.Stands.assigns {r : Recurrence} {s : Site} (h : r.Stands cfg s) :
    r.Assigns s := by
  obtain ⟨p, hplace, hwithin⟩ := h.place
  obtain ⟨before, outer, hinner, hbefore⟩ := hwithin.innermostLoop?
  have hassigned : s.assigned = r.loop.idents := by
    rw [Site.assigned, hplace]
    exact Loop.assigned_update (emitAll_length.trans h.length)
  refine ⟨hassigned, ⟨cfg.called, before⟩, outer, hplace ▸ hinner, hbefore, ?_⟩
  intro x hx hne
  obtain ⟨home, hinner', -, hresolve⟩ := hwithin.resolve (hassigned ▸ hx) hne
  cases hinner.symm.trans hinner'
  have hown : x ∉ (⟨cfg.called, r.loop.update (Term.emitAll cfg r.values)⟩ : Block).declared := by
    rw [Block.declared, Loop.declared_update]
    exact List.not_mem_nil
  rw [hplace, Place.resolve, if_neg hown]
  exact hresolve

/-! ## Files -/

theorem Checked.placed_definition (h : Checked [] m d t n) (name : String) :
    List.Forall₂ (Recurrence.Stands cfg) (t.recurs [])
      (definition cfg name (t.emit cfg)).sites := by
  rw [Decl.sites]
  obtain hi | ⟨_, _, ps, effects, result, he, hi⟩ := h.items_definition name
  · rw [hi]
    exact h.placed [] [] false .nil
  · obtain ⟨ds, d, k, hs, h⟩ := he.checked
    obtain ⟨-, heffects⟩ := Term.Placed.effects hs.placed Inside.nil
    rw [hi, sites_params, Stmt.itemsAll_append, sites_append, he.recurs, sites_expr]
    exact List.rel_append heffects (h.placed _ _ false .nil)

theorem CheckedItem.placed (h : CheckedItem [] m d i n) :
    List.Forall₂ (Recurrence.Stands cfg) i.recurs (i.emit cfg).sites := by
  cases i with
  | define x t =>
    cases h with
    | define h => exact h.placed_definition _
  | discard t =>
    obtain ⟨f, h⟩ := h.form
    have hsites : List.Forall₂ (Recurrence.Stands cfg) _ _ := h.placed [] [] false .nil
    rwa [← List.append_nil (Expr.items _ _ _)] at hsites

theorem CheckedItems.placed (h : CheckedItems [] m ds is n) :
    List.Forall₂ (Recurrence.Stands cfg) (is.flatMap TopLevel.recurs)
      ((is.map (·.emit cfg)).flatMap Decl.sites) := by
  induction h with
  | nil => exact .nil
  | cons h _ ih => exact List.rel_append h.placed ih

theorem File.sites_emit {cfg : Config} {f : SourceFile} :
    (f.emit cfg).sites = (f.items.map (·.emit cfg)).flatMap Decl.sites :=
  f.flatMap_emit fun _ => rfl

/-- In a compiled file each `recur` assigns the variables of its own loop; and a name that it
assigns refers to the variable that the loop declares exactly if no binder between the `recur` and
the loop declares the same identifier. -/
theorem recur_target_resolves {cfg : Config} {ds : List Datum} {m : Nat} {f : File} {s : Session}
    (h : (Datum.compileFile cfg ds).outcome ⟨m, []⟩ = (.ok f, s)) :
    ∃ source, (Datum.checkFile ds).outcome ⟨m, []⟩ = (.ok source, s) ∧
      List.Forall₂ Recurrence.Assigns source.recurs f.sites := by
  obtain ⟨source, s', hcheck, he⟩ := Check.bind_eq_ok.1 h
  cases he
  obtain ⟨_, n, rfl, hitems⟩ := CheckedItems.of_checkFile hcheck
  refine ⟨source, hcheck, ?_⟩
  rw [File.sites_emit]
  exact hitems.placed.imp fun _ _ hr => hr.assigns

/-! ## A `let` that reuses a name of the loop -/

/-- `(loop [i 0] (let [i 5] (recur i)))` -/
def reusedName : Datum :=
  .call (.symbol "loop") [.vector [.symbol "i", .number "0" .int],
    .call (.symbol "let") [.vector [.symbol "i", .number "5" .int],
      .call (.symbol "recur") [.symbol "i"]]]

/-- What `reusedName` is checked to be. -/
def reusedNameTerm : Term :=
  .loop 0 [⟨["i"], .number "0" .int⟩] []
    (.letIn [⟨["i"], .number "5" .int⟩] [] (.recur ⟨0, [["i"]]⟩ [.symbol "i"]))

theorem reusedName_checked : Checked [] 0 reusedName reusedNameTerm 2 :=
  .call rfl (.loop (.cons .number .nil) .nil (.call rfl (.letIn (.cons .number .nil) .nil
    (.call rfl (.recur rfl (.cons .symbol .nil))))))

theorem compileFile_reusedName :
    (Datum.compileFile {} [reusedName]).outcome ⟨0, []⟩ =
      (.ok (SourceFile.emit {} ⟨none, [.discard reusedNameTerm]⟩), ⟨2, []⟩) :=
  Check.outcome_seq (Check.outcome_seq (Check.outcome_seq
    (Check.outcome_seq reusedName_checked.check rfl) (Check.outcome_seq rfl rfl)) rfl) rfl

theorem recur_target_resolves_reusedName :
    ∃ f s, (Datum.compileFile {} [reusedName]).outcome ⟨0, []⟩ = (.ok f, s) ∧
      ∃ source, (Datum.checkFile [reusedName]).outcome ⟨0, []⟩ = (.ok source, s) ∧
        List.Forall₂ Recurrence.Assigns source.recurs f.sites :=
  ⟨_, _, compileFile_reusedName, recur_target_resolves compileFile_reusedName⟩

/-- The `recur` assigns the variable of the `let`, and the loop variable keeps its value. -/
theorem recur_target_shadowed :
    ∃ f s site header home inner,
      (Datum.compileFile {} [reusedName]).outcome ⟨0, []⟩ = (.ok f, s) ∧
      f.sites = [site] ∧ site.assigned = ["i"] ∧
      site.place.innermostLoop? = some (header, home) ∧
      site.place.resolve "i" = some inner ∧ inner ≠ home :=
  ⟨_, _, _, _, _, _, compileFile_reusedName, rfl, rfl, rfl, rfl,
    fun h => nomatch congrArg List.length h⟩

end SmallLisp
