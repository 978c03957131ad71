import SmallLisp.Proofs.DeclaredNames
import SmallLisp.Proofs.Meaning.Passes
import SmallLisp.TopLevel.Emit

/-!
# Preservation of meaning

A datum that is checked and emitted keeps its meaning (`compile_preserves_meaning`). The proof is by
induction on the derivation of the check, with one lemma of the simulation for each form. That no
declaration in the emitted text hides what it refers to follows from the names that the datum binds
(`Checked.unreserved`).
-/

namespace SmallLisp

open Program

variable {h : Host} {cfg : Config} {names : List String} {n : Nat}

mutual

theorem Checked.simulates (hn : Naming names) (hp : h.Provides cfg) : Checked ls m d t m' →
    Fits cfg names k d → cfg.Safe (t.emit cfg) →
    Simulates h cfg names n k ls (t.emit cfg) fun again ρ w => d.eval h n again ρ w
  | .symbol, .symbol hx, _ => (Evaluates.symbol hn hx).simulates
  | .number, _, _ => Evaluates.simulates fun again sc ρ w ha => by
    simp only [Datum.eval]
    rfl
  | .string, _, _ => Evaluates.simulates fun again sc ρ w ha => by
    simp only [Datum.eval]
    rfl
  | .vector hs, .vector hds, ⟨_, _, hu⟩ => by
    simp only [Datum.eval]
    exact (Evaluates.composite (hs.evaluates hn hp hds hu.all).all).simulates
  | .call hform hc, .call hform' hf, hu => by
    obtain rfl := Except.ok.inj (hform.symm.trans hform')
    simp only [Datum.eval_call hform]
    exact hc.simulates hn hp hf hu

theorem CheckedForm.simulates (hn : Naming names) (hp : h.Provides cfg) : CheckedForm ls m f t m' →
    FitsForm cfg names k f → cfg.Safe (t.emit cfg) →
    Simulates h cfg names n k ls (t.emit cfg) fun again ρ w => f.eval h n again ρ w
  | .call .symbol hs, .call hx hds, ⟨_, _, hu⟩ => by
    have hes := (hs.evaluates hn hp hds hu.right.all).all
    simp only [Form.eval]
    exact (Evaluates.call (hn.root? hx) (.symbol hn hx) hes).simulates
  | .not hc, .not hd, ⟨_, _, hu⟩ => by
    simp only [Form.eval]
    exact (Evaluates.not (hc.simulates hn hp hd ⟨_, _, hu⟩).evaluates).simulates
  | .operator hs, .operator hds, ⟨_, _, hu⟩ => by
    have hes := (hs.evaluates hn hp hds hu.right.all).all
    simp only [Form.eval]
    exact (Evaluates.coreCall rfl cfg.core_mem_reserved (hp.operator _) hes).simulates
  | .get hs, .get hds, ⟨_, _, hu⟩ => by
    have hes := (hs.evaluates hn hp hds hu.right.all).all
    obtain ⟨root, hroot⟩ := Expr.root?_ofName (cfg.corePackage ++ "/" ++ "get")
    have hmem : root ∈ cfg.reserved := List.mem_append_right _ (Option.mem_toList.2 hroot)
    simp only [Form.eval]
    exact (Evaluates.coreCall hroot hmem hp.get hes).simulates
  | .logic hc hs, .logic hd hds, ⟨p, c, hu⟩ => by
    obtain ⟨c', hitems⟩ := Expr.items_logics p c _ _ _
    rw [Term.emit, hitems] at hu
    have he := (hc.simulates hn hp hd ⟨_, _, hu.left⟩).evaluates
    simp only [Form.eval]
    exact (Evaluates.logics (hs.evaluates hn hp hds hu.right.all) he).simulates
  | .loop hb hs hc, .loop hbind hbs hds hd, ⟨p, c, hu⟩ => by
    rw [Term.emit, hb.targets] at hu ⊢
    obtain ⟨hub, hresult, hflag, hus, hu⟩ := hu.closure.loop
    have hdecl := hb.evaluates hn hp hbs hub.bindings
    have hes := (hs.evaluates hn hp hds hus).all
    rw [emitEffects_eq]
    simp only [Form.eval]
    exact (Evaluates.loop hn hbind.targets hbind.subset hbind.unreserved hflag hresult
      (hdecl.declares hn hbind) (fun _ _ _ _ => Binding.length_of_evalAll) hes
      (hc.simulates hn hp hd hu)).simulates
  | .recur hlen hs, .recur hds, ⟨p, c, hu⟩ => by
    have hes := (hs.evaluates hn hp hds (hu.closure.append.1.update (hs.length.trans hlen))).all
    have hlength : (Term.emitAll cfg _).length = _ := emitAll_length.trans hs.length
    simp only [Form.eval]
    exact Simulates.recur hn (hlength.trans hlen) hes
      fun _ _ _ _ hr => (Datum.length_of_evalAll hr).trans hlength.symm
  | .letIn hb hs hc, .letIn hbind hbs hds hd, ⟨p, c, hu⟩ => by
    obtain ⟨hu, hret⟩ := hu.closure.append
    obtain ⟨hub, hus⟩ := hu.append
    have hdecl := hb.evaluates hn hp hbs hub.bindings
    have hes := (hs.evaluates hn hp hds hus.effects).all
    have he := hc.simulates hn hp hd hret.ret
    rw [Term.emit, emitEffects_eq]
    simp only [Form.eval]
    exact (Simulates.letIn (k := none) hn hbind.subset hbind.unreserved nofun
      (hdecl.declares hn hbind) hes he).evaluates.simulates
  | .letIn hb hs hc, .letTail hbind hbs hds hnew hd, ⟨p, c, hu⟩ => by
    obtain ⟨hu, hret⟩ := hu.closure.append
    obtain ⟨hub, hus⟩ := hu.append
    have hdecl := hb.evaluates hn hp hbs hub.bindings
    have hes := (hs.evaluates hn hp hds hus.effects).all
    have he := hc.simulates hn hp hd hret.ret
    rw [Term.emit, emitEffects_eq]
    simp only [Form.eval]
    refine Simulates.letIn hn hbind.subset hbind.unreserved (fun ys hys => ?_)
      (hdecl.declares hn hbind) hes he
    obtain rfl := Option.some.inj hys
    exact hnew
  | .cond ht hy, .cond hft hfy _, ⟨p, c, hu⟩ => by
    have hu := hu.closure.stmt
    have htest := (ht.simulates hn hp hft ⟨_, _, hu.left.left⟩).evaluates
    simp only [Form.eval]
    exact Simulates.cond htest (hy.simulates hn hp hfy hu.left.right.ret) Evaluates.nil.simulates
  | .condElse ht hy hz, .cond hft hfy hfz, ⟨p, c, hu⟩ => by
    have hu := hu.closure.stmt
    have htest := (ht.simulates hn hp hft ⟨_, _, hu.left.left⟩).evaluates
    simp only [Form.eval]
    exact Simulates.cond htest (hy.simulates hn hp hfy hu.left.right.ret)
      (hz.simulates hn hp (hfz _ rfl) hu.right.ret)

theorem CheckedAll.evaluates (hn : Naming names) (hp : h.Provides cfg) : CheckedAll ls m ds ts m' →
    (∀ d ∈ ds, Fits cfg names none d) → (∀ t ∈ ts, cfg.Safe (t.emit cfg)) →
    EvaluateData h cfg names n (Term.emitAll cfg ts) ds
  | .nil, _, _ => .nil
  | .cons hc hs, hf, hu =>
    .cons (hc.simulates hn hp (hf _ (.head _)) (hu _ (.head _))).evaluates
      (hs.evaluates hn hp (fun d hd => hf d (.tail _ hd)) fun t ht => hu t (.tail _ ht))

theorem CheckedBindings.evaluates (hn : Naming names) (hp : h.Provides cfg) :
    CheckedBindings ls m bs cs m' → (∀ b ∈ bs, Fits cfg names none b.value) →
    (∀ c ∈ cs, cfg.Safe (c.value.emit cfg)) →
    EvaluateBindings h cfg names n cs bs
  | .nil, _, _ => .nil
  | .cons hc hb, hf, hu =>
    .cons ⟨rfl, (hc.simulates hn hp (hf _ (.head _)) (hu _ (.head _))).evaluates⟩
      (hb.evaluates hn hp (fun b hb => hf b (.tail _ hb)) fun c hc => hu c (.tail _ hc))

end

/-! ## Names in emitted text -/

mutual

/-- None of the names bound in a datum of the fragment is translated to a reserved one. -/
theorem Checked.binders_unreserved : Checked ls m d t m' → Fits cfg names k d →
    ∀ b ∈ t.binders, Identifier.ofName b.name ∉ cfg.reserved
  | .symbol, _ | .number, _ | .string, _ => fun _ hb => absurd hb List.not_mem_nil
  | .vector hs, .vector hds => hs.binders_unreserved hds
  | .call hform hc, .call hform' hf => by
    obtain rfl := Except.ok.inj (hform.symm.trans hform')
    exact hc.binders_unreserved hf

theorem CheckedForm.binders_unreserved : CheckedForm ls m f t m' → FitsForm cfg names k f →
    ∀ b ∈ t.binders, Identifier.ofName b.name ∉ cfg.reserved
  | .call .symbol hs, .call _ hds => hs.binders_unreserved hds
  | .not hc, .not hd => hc.binders_unreserved hd
  | .operator hs, .operator hds => hs.binders_unreserved hds
  | .get hs, .get hds => hs.binders_unreserved hds
  | .recur _ hs, .recur hds => hs.binders_unreserved hds
  | .logic hc hs, .logic hd hds =>
    List.forall_mem_append.2 ⟨hc.binders_unreserved hd, hs.binders_unreserved hds⟩
  | .loop hb hs hc, .loop hbind hbs hds hd | .letIn hb hs hc, .letIn hbind hbs hds hd
  | .letIn hb hs hc, .letTail hbind hbs hds _ hd =>
    List.forall_mem_append.2 ⟨hb.binders_unreserved hbs hbind.unreserved,
      List.forall_mem_append.2 ⟨hs.binders_unreserved hds, hc.binders_unreserved hd⟩⟩
  | .cond ht hy, .cond hft hfy _ =>
    List.forall_mem_append.2 ⟨List.forall_mem_append.2
      ⟨ht.binders_unreserved hft, hy.binders_unreserved hfy⟩, nofun⟩
  | .condElse ht hy hz, .cond hft hfy hfz =>
    List.forall_mem_append.2 ⟨List.forall_mem_append.2
      ⟨ht.binders_unreserved hft, hy.binders_unreserved hfy⟩, hz.binders_unreserved (hfz _ rfl)⟩

theorem CheckedAll.binders_unreserved : CheckedAll ls m ds ts m' →
    (∀ d ∈ ds, Fits cfg names none d) →
    ∀ b ∈ Term.bindersAll ts, Identifier.ofName b.name ∉ cfg.reserved
  | .nil, _ => nofun
  | .cons hc hs, hf => by
    obtain ⟨hd, hds⟩ := List.forall_mem_cons.1 hf
    exact List.forall_mem_append.2 ⟨hc.binders_unreserved hd, hs.binders_unreserved hds⟩

theorem CheckedBindings.binders_unreserved : CheckedBindings ls m bs cs m' →
    (∀ b ∈ bs, Fits cfg names none b.value) →
    (∀ x ∈ Binding.names bs, Identifier.ofName x ∉ cfg.reserved) →
    ∀ b ∈ Term.bindersBindings cs, Identifier.ofName b.name ∉ cfg.reserved
  | .nil, _, _ => nofun
  | .cons hc hb, hf, hu => by
    obtain ⟨hd, hbs⟩ := List.forall_mem_cons.1 hf
    obtain ⟨hxs, hnames⟩ := List.forall_mem_append.1 hu
    have htargets := (Binding.forall_binders (Identifier.ofName · ∉ cfg.reserved)).2 hxs
    exact List.forall_mem_append.2 ⟨List.forall_mem_append.2
      ⟨htargets, hc.binders_unreserved hd⟩, hb.binders_unreserved hbs hnames⟩

end

/-- Only the core package may have a name of the generated form. -/
theorem Config.eq_corePackage_of_isGenerated {x : String} (hx : x ∈ cfg.reserved)
    (hg : Identifier.IsGenerated x) : x = cfg.corePackage := by
  obtain hx | hx := List.mem_append.1 hx
  · simp only [List.mem_cons, List.not_mem_nil, or_false] at hx
    obtain hx | hx | hx | hx | rfl := hx
    case inr.inr.inr.inr => rfl
    all_goals exact absurd (hx ▸ hg) (Identifier.not_isGenerated_of_unmarked rfl)
  · obtain ⟨root, members, hroot⟩ := Expr.ofName_eq_select (cfg.corePackage ++ "/" ++ "get")
    have hroot' : (cfg.coreFunction "get").root? = some (Identifier.ofName root) := by
      rw [Config.coreFunction, hroot]
      exact Expr.root?_selectors id members
    rw [hroot', Option.toList_some, List.mem_singleton] at hx
    exact absurd hg (hx ▸ Identifier.not_isGenerated_ofName root)

/-- The names that emitted text declares are those bound in the source and generated ones, so none
of them is reserved: a core package with a name of the generated form is the one exception. -/
theorem Checked.unreserved (hc : Checked ls m d t m') (hf : Fits cfg names k d)
    (hcore : Identifier.IsGenerated cfg.corePackage →
      cfg.corePackage ∉ ((t.emit cfg).items p c).flatMap (·.2.declared)) :
    cfg.Unreserved ((t.emit cfg).items p c) := by
  intro i hi x hx hr
  by_cases hg : Identifier.IsGenerated x
  · obtain rfl := Config.eq_corePackage_of_isGenerated hr hg
    exact hcore hg (List.mem_flatMap.2 ⟨i, hi, hx⟩)
  · have hlisted := hc.emitsListed (Binder.reads cfg) p c
    rw [Lists, List.forall₂_eq_eq_eq, t.listed_binders] at hlisted
    have hmem : x ∈ t.binders.filterMap Binder.ident? := by
      rw [hlisted]
      exact List.mem_flatMap.2 ⟨i, hi, List.mem_filter.2 ⟨hx, decide_eq_true hg⟩⟩
    obtain ⟨b, hb, hident⟩ := List.mem_filterMap.1 hmem
    exact hc.binders_unreserved hf b hb (b.eq_ofName_of_ident? hident ▸ hr)

/-- What a datum is compiled to does what the datum means: it has the same value, changes the world
in the same way and leaves the scopes as they are, or it stops in the same way. That holds in any
session, for any host whose run-time library the core package is, in any scopes that agree with the
values of names, and for any number `n` of passes that a loop may make, so a loop ends on one side
if and only if it ends on the other. -/
theorem compile_preserves_meaning {h : Host} {cfg : Config} {names : List String} {d : Datum}
    {e : Expr} {s s' : Session} {sc : Scopes h} {ρ : Env h} (hn : Naming names)
    (hf : Fits cfg names none d) (hp : h.Provides cfg)
    (hok : (d.compile cfg).outcome s = (.ok e, s'))
    (hcore : Identifier.IsGenerated cfg.corePackage →
      cfg.corePackage ∉ (e.items [] false).flatMap (·.2.declared))
    (ha : Agrees cfg names sc ρ) (n : Nat) (again : Again h) (w : h.World) :
    e.eval h n sc w = (do
      let (v, w) ← d.eval h n again ρ w
      return (v, sc, w)) := by
  obtain ⟨t, s'', ht, he⟩ := Check.bind_eq_ok.1 hok
  cases he
  obtain ⟨m, _, hc⟩ := Checked.of_check ht
  exact (hc.simulates hn hp hf ⟨_, _, hc.unreserved hf hcore⟩).evaluates again sc ρ w ha

/-! ### An example -/

/-- Numbers, as far as programs add and compare them. -/
inductive NatValue where
  | nil
  | bool (b : Bool)
  | nat (n : Nat)
  | slice (elements : List NatValue)
  /-- A helper of the core package. -/
  | helper (name : String)

/-- A host whose world is the number of calls. -/
def Host.nat : Host where
  Value := NatValue
  World := Nat
  Failure := String
  nil := .nil
  bool := .bool
  literal _ text := .nat (Nat.ofDigitChars 10 text.toList 0)
  slice vs w := (.slice vs, w)
  global
    | ["nil"], _ => some .nil
    | ["true"], _ => some (.bool true)
    | ["false"], _ => some (.bool false)
    | ["core", name], _ => some (.helper name)
    | _, _ => none
  operator op _ := some (.helper op.helper)
  get _ := some (.helper "Get")
  test
    | .bool b => some b
    | _ => none
  call
    | .helper "ADD", [.nat a, .nat b], w => .ok (.nat (a + b), w + 1)
    | .helper "LT", [.nat a, .nat b], w => .ok (.bool (a < b), w + 1)
    | .helper name, _, w => .error (.panic name w)
    | _, _, w => .error (.panic "call" w)
  test_bool _ := rfl
  global_nil _ := rfl
  global_true _ := rfl
  global_false _ := rfl

/-- `(loop [i 0] (if (< i 3) (recur (+ i 1)) i))` -/
def countToThree : Datum :=
  .call (.symbol "loop")
    [.vector [.symbol "i", .number "0" .int],
      .call (.symbol "if")
        [.call (.symbol "<") [.symbol "i", .number "3" .int],
          .call (.symbol "recur") [.call (.symbol "+") [.symbol "i", .number "1" .int]],
          .symbol "i"]]

theorem compile_preserves_meaning_countToThree :
    ∃ e s, (countToThree.compile {}).outcome {} = (.ok e, s) ∧
      (e.eval Host.nat 4 [] (0 : Nat) = do
        let (v, w) ← countToThree.eval Host.nat 4 (fun _ _ => .error .stuck) Env.empty (0 : Nat)
        return (v, [], w)) ∧
      e.eval Host.nat 4 [] (0 : Nat) = .ok (NatValue.nat 3, [], (7 : Nat)) := by
  have hc : Checked [] 0 countToThree _ 2 := .call rfl (.loop (.cons .number .nil) .nil
    (.call rfl (.condElse (.call rfl (.operator (.cons .symbol (.cons .number .nil))))
      (.call rfl (.recur rfl
        (.cons (.call rfl (.operator (.cons .symbol (.cons .number .nil)))) .nil))) .symbol)))
  have hok : (countToThree.compile {}).outcome {} = _ := Check.outcome_seq hc.check rfl
  have hplain : Binding.Plain {} ["i"] [⟨["i"], .number "0" .int⟩] :=
    ⟨List.forall_mem_singleton.2 ⟨"i", .head _, rfl⟩, by decide, by decide⟩
  have hi {k : Option (List String)} : Fits {} ["i"] k (.symbol "i") := .symbol (.head _)
  have hargs (text : String) : ∀ d ∈ [Datum.symbol "i", .number text .int], Fits {} ["i"] none d :=
    List.forall_mem_cons.2 ⟨hi, List.forall_mem_singleton.2 .number⟩
  have htest : Fits {} ["i"] none (.call (.symbol "<") [.symbol "i", .number "3" .int]) :=
    .call rfl (.operator (hargs "3"))
  have hrecur : Fits {} ["i"] (some ["i"])
      (.call (.symbol "recur") [.call (.symbol "+") [.symbol "i", .number "1" .int]]) :=
    .call rfl (.recur (List.forall_mem_singleton.2 (.call rfl (.operator (hargs "1")))))
  have hbody := FitsForm.cond htest hrecur fun d hd => Option.some.inj hd ▸ hi
  have hfits : Fits {} ["i"] none countToThree :=
    .call rfl (.loop hplain (List.forall_mem_singleton.2 .number) nofun (.call rfl hbody))
  have hnaming : Naming ["i"] := ⟨by decide, by decide⟩
  have hagrees : Agrees (h := Host.nat) {} ["i"] [] Env.empty := ⟨fun _ _ => rfl, fun _ _ => rfl⟩
  have hprovides : Host.nat.Provides {} :=
    (Host.provides_iff (by decide)).2 ⟨fun _ _ => rfl, fun _ => rfl⟩
  have hcore : ¬Identifier.IsGenerated (Config.corePackage {}) :=
    Identifier.not_isGenerated_of_unmarked rfl
  have hmeaning := compile_preserves_meaning hnaming hfits hprovides hok (absurd · hcore) hagrees 4
  exact ⟨_, _, hok, hmeaning _ _, rfl⟩

end SmallLisp
