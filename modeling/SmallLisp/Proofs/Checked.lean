import SmallLisp.Proofs.Session
import SmallLisp.TopLevel

/-!
# Derivations of checks

`Checked ls m d t n`: inside the loops `ls`, with `m` the next number, the datum `d` becomes the
term `t`, and `n` is the next number after that. The rules say once what a check does; what holds
of all accepted data is proved by induction on them. Every check that succeeds has a derivation
(`Checked.of_check`).
-/

namespace SmallLisp

mutual

inductive Checked : List Loop → Nat → Datum → Term → Nat → Prop where
  | symbol : Checked ls m (.symbol x) (.symbol x) m
  | number : Checked ls m (.number literal kind) (.number literal kind) m
  | string : Checked ls m (.string value) (.string value) m
  | vector : CheckedAll ls m ds ts n → Checked ls m (.vector ds) (.vector ts) n
  | call : Form.ofCall callee args = .ok f → CheckedForm ls m f t n →
    Checked ls m (.call callee args) t n

inductive CheckedForm : List Loop → Nat → Form → Term → Nat → Prop where
  | call : Checked ls m d t k → CheckedAll ls k ds ts n →
    CheckedForm ls m (.call d ds) (.call t ts) n
  | not : Checked ls m d t n → CheckedForm ls m (.not d) (.not t) n
  | operator : CheckedAll ls m ds ts n → CheckedForm ls m (.operator op ds) (.operator op ts) n
  | logic : Checked ls m d t k → CheckedAll ls k ds ts n →
    CheckedForm ls m (.logic op d ds) (.logic op t ts) n
  /-- A loop takes two numbers, and only its body is inside it. -/
  | loop : CheckedBindings ls (m + 2) bs cs j →
    CheckedAll (⟨m, bs.map (·.targets)⟩ :: ls) j ds ts k →
    Checked (⟨m, bs.map (·.targets)⟩ :: ls) k d t n →
    CheckedForm ls m (.loop bs ds d) (.loop m cs ts t) n
  /-- A `recur` belongs to the innermost loop. -/
  | recur : ds.length = l.targets.length → CheckedAll (l :: ls) m ds ts n →
    CheckedForm (l :: ls) m (.recur ds) (.recur l ts) n
  | assert : Checked ls m d t n → CheckedForm ls m (.assert type d) (.assert type t) n
  | get : CheckedAll ls m ds ts n → CheckedForm ls m (.get ds) (.get ts) n
  | letIn : CheckedBindings ls m bs cs j → CheckedAll ls j ds ts k → Checked ls k d t n →
    CheckedForm ls m (.letIn bs ds d) (.letIn cs ts t) n
  | cond : Checked ls m test t j → Checked ls j yes u n →
    CheckedForm ls m (.cond test yes none) (.cond t u none) n
  | condElse : Checked ls m test t j → Checked ls j yes u k → Checked ls k no v n →
    CheckedForm ls m (.cond test yes (some no)) (.cond t u (some v)) n
  | fn : CheckedAll ls m ds ts k → Checked ls k d t n →
    CheckedForm ls m (.fn ps ds d) (.fn ps ts t) n

inductive CheckedAll : List Loop → Nat → List Datum → List Term → Nat → Prop where
  | nil : CheckedAll ls m [] [] m
  | cons : Checked ls m d t k → CheckedAll ls k ds ts n → CheckedAll ls m (d :: ds) (t :: ts) n

inductive CheckedBindings :
    List Loop → Nat → List (Binding Datum) → List (Binding Term) → Nat → Prop where
  | nil : CheckedBindings ls m [] [] m
  | cons : Checked ls m d t k → CheckedBindings ls k bs cs n →
    CheckedBindings ls m (⟨xs, d⟩ :: bs) (⟨xs, t⟩ :: cs) n

end

theorem CheckedAll.length : CheckedAll ls m ds ts n → ts.length = ds.length
  | .nil => rfl
  | .cons _ h => congrArg (· + 1) h.length

theorem CheckedBindings.targets :
    CheckedBindings ls m bs cs n → cs.map (·.targets) = bs.map (·.targets)
  | .nil => rfl
  | .cons _ h => congrArg (_ :: ·) h.targets

/-! ## From checks to derivations -/

/-- Where the check succeeds it has a derivation, and it leaves the loops as they were. -/
private def Derives (x : Check α) (checked : List Loop → Nat → α → Nat → Prop) : Prop :=
  ∀ m ls a s, x.outcome ⟨m, ls⟩ = (.ok a, s) → ∃ n, s = ⟨n, ls⟩ ∧ checked ls m a n

private theorem Derives.bind {x : Check α} {f : α → Check β}
    {P : List Loop → Nat → α → Nat → Prop} {Q : List Loop → Nat → β → Nat → Prop}
    (hx : Derives x P)
    (hf : ∀ a, Derives (f a) fun ls k b n => ∀ m, P ls m a k → Q ls m b n) :
    Derives (x >>= f) Q := by
  intro m ls b s h
  obtain ⟨a, s', ha, hb⟩ := Check.bind_eq_ok.1 h
  obtain ⟨k, rfl, hP⟩ := hx _ _ _ _ ha
  obtain ⟨n, rfl, hQ⟩ := hf a _ _ _ _ hb
  exact ⟨n, rfl, hQ m hP⟩

private theorem Derives.pure {a : α} {P : List Loop → Nat → α → Nat → Prop}
    (h : ∀ ls m, P ls m a m) : Derives (pure a) P := by
  intro m ls b s hb
  cases hb
  exact ⟨m, rfl, h ls m⟩

private theorem Derives.fail {e : CompileError} {P : List Loop → Nat → α → Nat → Prop} :
    Derives (Check.fail e) P := by
  intro m ls a s h
  cases h

private theorem Derives.reserve : Derives Check.reserve fun _ m a n => a = m ∧ n = m + 2 := by
  intro m ls a s h
  cases h
  exact ⟨m + 2, rfl, rfl, rfl⟩

private theorem Derives.innermost :
    Derives Check.innermost fun ls m l n => ls.head? = some l ∧ n = m := by
  intro m ls l s h
  cases ls with
  | nil => cases h
  | cons l' ls => cases h; exact ⟨m, rfl, rfl, rfl⟩

private theorem Derives.inside {l : Loop} {x : Check α}
    {P : List Loop → Nat → α → Nat → Prop} (hx : Derives x P) :
    Derives (Check.inside l x) fun ls m a n => P (l :: ls) m a n := by
  intro m ls a s h
  rw [Check.outcome_inside] at h
  cases hr : x.outcome ⟨m, l :: ls⟩ with
  | mk r s' =>
    rw [hr] at h
    cases h
    obtain ⟨n, rfl, hP⟩ := hx _ _ _ _ hr
    exact ⟨n, rfl, hP⟩

private theorem derives :
    (∀ d : Datum, Derives d.check (Checked · · d)) ∧
    (∀ f : Form, Derives (Datum.checkForm f) (CheckedForm · · f)) ∧
    (∀ bs, Derives (Datum.checkBindings bs) (CheckedBindings · · bs)) ∧
    (∀ ds, Derives (Datum.checkAll ds) (CheckedAll · · ds)) := by
  apply Datum.check_induction
  case symbol => intro x; rw [Datum.check]; exact .pure fun _ _ => .symbol
  case number => intro literal kind; rw [Datum.check]; exact .pure fun _ _ => .number
  case string => intro value; rw [Datum.check]; exact .pure fun _ _ => .string
  case vector =>
    intro ds ih
    rw [Datum.check]
    exact .bind ih fun _ => .pure fun _ _ _ => .vector
  case malformed =>
    intro callee args e he
    rw [Datum.check_of_error he]
    exact .fail
  case form =>
    intro callee args f hf ih
    rw [Datum.check_of_form hf]
    intro m ls t s h
    obtain ⟨n, rfl, h'⟩ := ih _ _ _ _ h
    exact ⟨n, rfl, .call hf h'⟩
  case call =>
    intro d ds ih ihs
    rw [Datum.checkForm]
    exact ih.bind fun _ => ihs.bind fun _ => .pure fun _ _ _ hs _ h => .call h hs
  case not => intro d ih; rw [Datum.checkForm]; exact ih.bind fun _ => .pure fun _ _ _ => .not
  case operator =>
    intro op ds ihs
    rw [Datum.checkForm]
    exact ihs.bind fun _ => .pure fun _ _ _ => .operator
  case logic =>
    intro op d ds ih ihs
    rw [Datum.checkForm]
    exact ih.bind fun _ => ihs.bind fun _ => .pure fun _ _ _ hs _ h => .logic h hs
  case loop =>
    intro bs ds d ihb ihs ih
    rw [Datum.checkForm]
    refine Derives.reserve.bind fun l => ihb.bind fun cs =>
      (Derives.inside (P := fun ls m r n => ∃ k, CheckedAll ls m ds r.1 k ∧ Checked ls k d r.2 n)
        (ihs.bind fun ts => ih.bind fun t => .pure ?_)).bind fun r => .pure ?_
    · exact fun _ _ k h _ hs => ⟨k, hs, h⟩
    · rintro ls n m ⟨k, hs, h⟩ j hb i ⟨rfl, rfl⟩
      exact .loop hb hs h
  case recur =>
    intro ds ihs
    rw [Datum.checkForm]
    refine Derives.innermost.bind fun l => ?_
    split
    · rename_i hl
      refine ihs.bind fun ts => .pure ?_
      rintro (_ | ⟨l', ls⟩) n m hs k ⟨h, rfl⟩
      · cases h
      · cases h
        exact .recur hl hs
    · exact .fail
  case assert =>
    intro type d ih
    rw [Datum.checkForm]
    exact ih.bind fun _ => .pure fun _ _ _ => .assert
  case get => intro ds ihs; rw [Datum.checkForm]; exact ihs.bind fun _ => .pure fun _ _ _ => .get
  case letIn =>
    intro bs ds d ihb ihs ih
    rw [Datum.checkForm]
    exact ihb.bind fun _ => ihs.bind fun _ => ih.bind fun _ =>
      .pure fun _ _ _ h _ hs _ hb => .letIn hb hs h
  case cond =>
    intro test yes iht ihy
    rw [Datum.checkForm]
    exact iht.bind fun _ => ihy.bind fun _ => .pure fun _ _ _ hy _ ht => .cond ht hy
  case condElse =>
    intro test yes no iht ihy ihn
    rw [Datum.checkForm]
    exact iht.bind fun _ => ihy.bind fun _ => ihn.bind fun _ =>
      .pure fun _ _ _ hn _ hy _ ht => .condElse ht hy hn
  case fn =>
    intro ps ds d ihs ih
    rw [Datum.checkForm]
    exact ihs.bind fun _ => ih.bind fun _ => .pure fun _ _ _ h _ hs => .fn hs h
  case noBindings => rw [Datum.checkBindings]; exact .pure fun _ _ => .nil
  case binding =>
    intro xs d bs ih ihb
    rw [Datum.checkBindings]
    exact ih.bind fun _ => ihb.bind fun _ => .pure fun _ _ _ hb _ h => .cons h hb
  case nil => rw [Datum.checkAll]; exact .pure fun _ _ => .nil
  case cons =>
    intro d ds ih ihs
    rw [Datum.checkAll]
    exact ih.bind fun _ => ihs.bind fun _ => .pure fun _ _ _ hs _ h => .cons h hs

theorem Checked.of_check {d : Datum} (h : d.check.outcome ⟨m, ls⟩ = (.ok t, s)) :
    ∃ n, s = ⟨n, ls⟩ ∧ Checked ls m d t n := derives.1 d _ _ _ _ h

theorem CheckedAll.of_checkAll {ds : List Datum}
    (h : (Datum.checkAll ds).outcome ⟨m, ls⟩ = (.ok ts, s)) :
    ∃ n, s = ⟨n, ls⟩ ∧ CheckedAll ls m ds ts n := derives.2.2.2 ds _ _ _ _ h

/-! ## From derivations to checks -/

theorem Check.outcome_seq {x : Check α} {f : α → Check β}
    (hx : x.outcome s = (.ok a, u)) (hf : (f a).outcome u = (.ok b, v)) :
    (x >>= f).outcome s = (.ok b, v) := bind_eq_ok.2 ⟨a, u, hx, hf⟩

mutual

theorem Checked.check : Checked ls m d t n → d.check.outcome ⟨m, ls⟩ = (.ok t, ⟨n, ls⟩)
  | .symbol | .number | .string => by rw [Datum.check]; rfl
  | .vector hs => by rw [Datum.check]; exact Check.outcome_seq hs.check rfl
  | .call hf h => by rw [Datum.check_of_form hf]; exact h.check

theorem CheckedForm.check :
    CheckedForm ls m f t n → (Datum.checkForm f).outcome ⟨m, ls⟩ = (.ok t, ⟨n, ls⟩)
  | .call h hs | .logic h hs => by
    rw [Datum.checkForm]
    exact Check.outcome_seq h.check (Check.outcome_seq hs.check rfl)
  | .not h | .assert h => by
    rw [Datum.checkForm]
    exact Check.outcome_seq h.check rfl
  | .operator hs | .get hs => by
    rw [Datum.checkForm]
    exact Check.outcome_seq hs.check rfl
  | .loop hb hs h => by
    rw [Datum.checkForm]
    refine Check.outcome_seq Check.outcome_reserve (Check.outcome_seq hb.check
      (Check.outcome_seq (a := (_, _)) (u := ⟨_, _⟩) ?_ rfl))
    rw [Check.outcome_inside, Check.outcome_seq hs.check (Check.outcome_seq h.check rfl)]
    rfl
  | .recur hlen hs => by
    rw [Datum.checkForm]
    refine Check.outcome_seq Check.outcome_innermost_cons ?_
    rw [if_pos hlen]
    exact Check.outcome_seq hs.check rfl
  | .letIn hb hs h => by
    rw [Datum.checkForm]
    exact Check.outcome_seq hb.check (Check.outcome_seq hs.check (Check.outcome_seq h.check rfl))
  | .cond ht hy => by
    rw [Datum.checkForm]
    exact Check.outcome_seq ht.check (Check.outcome_seq hy.check rfl)
  | .condElse ht hy hn => by
    rw [Datum.checkForm]
    exact Check.outcome_seq ht.check (Check.outcome_seq hy.check (Check.outcome_seq hn.check rfl))
  | .fn hs h => by
    rw [Datum.checkForm]
    exact Check.outcome_seq hs.check (Check.outcome_seq h.check rfl)

theorem CheckedAll.check :
    CheckedAll ls m ds ts n → (Datum.checkAll ds).outcome ⟨m, ls⟩ = (.ok ts, ⟨n, ls⟩)
  | .nil => by rw [Datum.checkAll]; rfl
  | .cons h hs => by
    rw [Datum.checkAll]
    exact Check.outcome_seq h.check (Check.outcome_seq hs.check rfl)

theorem CheckedBindings.check :
    CheckedBindings ls m bs cs n → (Datum.checkBindings bs).outcome ⟨m, ls⟩ = (.ok cs, ⟨n, ls⟩)
  | .nil => by rw [Datum.checkBindings]; rfl
  | .cons h hb => by
    rw [Datum.checkBindings]
    exact Check.outcome_seq h.check (Check.outcome_seq hb.check rfl)

end

/-! ## The top level -/

/-- Inside the loops `ls`, the datum becomes the definition or the expression at the top level. -/
inductive CheckedItem (ls : List Loop) (m : Nat) : Datum → TopLevel → Nat → Prop where
  | define : Checked ls m d t n →
    CheckedItem ls m (.call (.symbol "def") (.symbol x :: d :: ds)) (.define x t) n
  /-- After the package form, `ns` is a name like any other. -/
  | package : CheckedAll ls m ds ts n →
    CheckedItem ls m (.call (.symbol "ns") ds) (.discard (.call (.symbol "ns") ts)) n
  | call : Checked ls m (.call callee args) t n →
    CheckedItem ls m (.call callee args) (.discard t) n

inductive CheckedItems (ls : List Loop) : Nat → List Datum → List TopLevel → Nat → Prop where
  | nil : CheckedItems ls m [] [] m
  | cons : CheckedItem ls m d i k → CheckedItems ls k ds is n →
    CheckedItems ls m (d :: ds) (i :: is) n

private theorem derives_checkTopLevel (d : Datum) :
    Derives d.checkTopLevel (CheckedItem · · d) := by
  unfold Datum.checkTopLevel
  split
  · rename_i args
    unfold Datum.checkDefinition
    split
    · rename_i x value ds
      exact Derives.bind (derives.1 value) fun _ => .pure fun _ _ _ => .define
    · exact .fail
    · exact .fail
  · rename_i args
    exact Derives.bind (derives.2.2.2 args) fun _ => .pure fun _ _ _ => .package
  · exact Derives.bind (derives.1 _) fun _ => .pure fun _ _ _ => .call
  · exact .fail

private theorem derives_checkItems (ds : List Datum) :
    Derives (Datum.checkItems ds) (CheckedItems · · ds) := by
  induction ds with
  | nil => exact .pure fun _ _ => .nil
  | cons d ds ih =>
    exact Derives.bind (derives_checkTopLevel d) fun _ => ih.bind fun _ =>
      .pure fun _ _ _ hs _ h => .cons h hs

theorem CheckedItem.of_checkTopLevel {d : Datum}
    (h : d.checkTopLevel.outcome ⟨m, ls⟩ = (.ok i, s)) :
    ∃ n, s = ⟨n, ls⟩ ∧ CheckedItem ls m d i n := derives_checkTopLevel d _ _ _ _ h

/-- The package form of a file is checked apart from the rest. -/
theorem CheckedItems.of_checkFile {ds : List Datum}
    (h : (Datum.checkFile ds).outcome ⟨m, ls⟩ = (.ok f, s)) :
    ∃ es n, s = ⟨n, ls⟩ ∧ CheckedItems ls m es f.items n := by
  unfold Datum.checkFile at h
  split at h
  · obtain ⟨package, s', hp, hf⟩ := Check.bind_eq_ok.1 h
    obtain ⟨items, s'', hi, he⟩ := Check.bind_eq_ok.1 hf
    cases he
    obtain rfl : (⟨m, ls⟩ : Session) = s' := congrArg Prod.snd hp
    exact ⟨ds.tail, derives_checkItems _ _ _ _ _ hi⟩
  · obtain ⟨items, s', hi, he⟩ := Check.bind_eq_ok.1 h
    cases he
    exact ⟨ds, derives_checkItems _ _ _ _ _ hi⟩

theorem CheckedItem.form (h : CheckedItem ls m d (.discard t) n) :
    ∃ f, CheckedForm ls m f t n := by
  cases h with
  | package hs => exact ⟨_, .call .symbol hs⟩
  | call h =>
    cases h with
    | call _ h => exact ⟨_, h⟩

end SmallLisp
