import SmallLisp.Proofs.Calls
import SmallLisp.TopLevel

/-!
# Outcomes of checks in a session

The outcomes of the building blocks of a check, and the inversion of a sequence that succeeds
(`Check.bind_eq_ok`). Whether a check succeeds or fails, it leaves the loops as they were and
`Takes` two numbers for each call to `loop` that it reaches: for all calls in the data if it
succeeds (`Datum.check_takes`), and for no more if it fails.
-/

namespace SmallLisp

namespace Check

theorem outcome_bind {x : Check α} {f : α → Check β} {s : Session} :
    (x >>= f).outcome s =
      match x.outcome s with
      | (.ok a, s') => (f a).outcome s'
      | (.error e, s') => (.error e, s') := by
  change ExceptT.bindCont f (x s).1 (x s).2 =
    match x s with
    | (.ok a, s') => f a s'
    | (.error e, s') => (.error e, s')
  cases x s with
  | mk r s' => cases r <;> rfl

theorem bind_eq_ok {x : Check α} {f : α → Check β} {s s'' : Session} {b : β} :
    (x >>= f).outcome s = (.ok b, s'') ↔
      ∃ a s', x.outcome s = (.ok a, s') ∧ (f a).outcome s' = (.ok b, s'') := by
  rw [outcome_bind]
  constructor
  · intro h
    cases hx : x.outcome s with
    | mk r s' =>
      rw [hx] at h
      cases r with
      | error e => cases h
      | ok a => exact ⟨a, s', rfl, h⟩
  · rintro ⟨a, s', hx, h⟩
    rw [hx]
    exact h

@[simp] theorem outcome_reserve {s : Session} :
    reserve.outcome s = (.ok s.next, { s with next := s.next + 2 }) := rfl

theorem outcome_innermost_cons {m : Nat} {l : Loop} {ls : List Loop} :
    innermost.outcome ⟨m, l :: ls⟩ = (.ok l, ⟨m, l :: ls⟩) := rfl

theorem outcome_inside {l : Loop} {x : Check α} {m : Nat} {ls : List Loop} :
    (inside l x).outcome ⟨m, ls⟩ =
      ((x.outcome ⟨m, l :: ls⟩).1,
        ⟨(x.outcome ⟨m, l :: ls⟩).2.next, (x.outcome ⟨m, l :: ls⟩).2.loops.tail⟩) := rfl

/-- The check leaves the loops as they were and takes the numbers of at most `k` loops, also when
it fails. If it succeeds, it takes those of `k` loops. -/
def Takes (k : Nat) (x : Check α) : Prop :=
  ∀ s, ∃ j ≤ k, (x.outcome s).2 = ⟨s.next + 2 * j, s.loops⟩ ∧ ∀ a, (x.outcome s).1 = .ok a → j = k

theorem Takes.pure {a : α} : Takes 0 (pure a) :=
  fun _ => ⟨0, Nat.le_refl 0, rfl, fun _ _ => rfl⟩

theorem Takes.fail {e : CompileError} : Takes k (fail e : Check α) :=
  fun _ => ⟨0, Nat.zero_le k, rfl, nofun⟩

theorem Takes.ofExcept {x : Except CompileError α} : Takes 0 (ofExcept x) :=
  fun _ => ⟨0, Nat.le_refl 0, rfl, fun _ _ => rfl⟩

theorem Takes.reserve : Takes 1 reserve :=
  fun _ => ⟨1, Nat.le_refl 1, rfl, fun _ _ => rfl⟩

theorem Takes.innermost : Takes 0 innermost
  | ⟨_, []⟩ | ⟨_, _ :: _⟩ => ⟨0, Nat.le_refl 0, rfl, fun _ _ => rfl⟩

theorem Takes.bind {x : Check α} {f : α → Check β} (hx : Takes i x) (hf : ∀ a, Takes k (f a)) :
    Takes (i + k) (x >>= f) := by
  intro s
  obtain ⟨j, hj, hs, heq⟩ := hx s
  rw [outcome_bind]
  generalize x.outcome s = r at hs heq
  obtain ⟨r, s'⟩ := r
  obtain rfl : s' = _ := hs
  cases r with
  | error e => exact ⟨j, by omega, rfl, nofun⟩
  | ok a =>
    obtain rfl := heq a rfl
    obtain ⟨l, hl, hs', heq'⟩ := hf a ⟨s.next + 2 * j, s.loops⟩
    refine ⟨j + l, by omega, hs'.trans ?_, fun b hb => congrArg (j + ·) (heq' b hb)⟩
    rw [Nat.mul_add, Nat.add_assoc]

theorem Takes.inside {l : Loop} {x : Check α} (hx : Takes k x) : Takes k (inside l x) := by
  intro ⟨m, ls⟩
  obtain ⟨j, hj, hs, heq⟩ := hx ⟨m, l :: ls⟩
  refine ⟨j, hj, ?_, heq⟩
  rw [outcome_inside, hs]
  rfl

/-- The check leaves the loops as they were and takes no number back, also when it fails. -/
def Keeps (x : Check α) : Prop :=
  ∀ s, (x.outcome s).2.loops = s.loops ∧ s.next ≤ (x.outcome s).2.next

theorem Takes.keeps {x : Check α} (hx : Takes k x) : Keeps x := by
  intro s
  obtain ⟨j, -, hs, -⟩ := hx s
  rw [hs]
  exact ⟨rfl, Nat.le_add_right ..⟩

theorem Takes.cast {x : Check α} (hx : Takes i x) (h : i = k) : Takes k x := h ▸ hx

end Check

/-! ## Calls to `loop` -/

/-- Number of calls to `loop` in a form, itself among them. -/
def Form.loopCount (f : Form) : Nat :=
  (f.callsTo "loop").length + if f.keyword? = some .loop then 1 else 0

theorem Form.loopCount_ofCall {callee : Datum} {args : List Datum} {f : Form}
    (h : ofCall callee args = .ok f) :
    ((Datum.call callee args).callsTo "loop").length = f.loopCount := by
  rw [callsTo_ofCall h, List.length_append, loopCount, keyword?_ofCall h]
  by_cases hcallee : callee.symbol? = some "loop"
  · rw [if_pos hcallee, if_pos (by rw [hcallee]; rfl)]
    rfl
  · rw [if_neg hcallee, if_neg]
    · rfl
    · intro hk
      obtain ⟨x, hx, hk⟩ := Option.bind_eq_some_iff.1 hk
      obtain rfl := List.mem_singleton.1 (Keyword.mem_names_of_ofName? hk)
      exact hcallee hx

/-! ## Checks -/

open Check in
private theorem checks_take :
    (∀ d : Datum, Takes (d.callsTo "loop").length d.check) ∧
    (∀ f : Form, Takes f.loopCount (Datum.checkForm f)) ∧
    (∀ bs, Takes (Binding.callsTo "loop" bs).length (Datum.checkBindings bs)) ∧
    (∀ ds, Takes (Datum.callsToAll "loop" ds).length (Datum.checkAll ds)) := by
  apply Datum.check_induction
  case symbol | number | string => intros; rw [Datum.check]; exact .pure
  case vector => intro ds ih; rw [Datum.check]; exact ih.bind fun _ => .pure
  case malformed =>
    intro callee args e he
    rw [Datum.check_of_error he]
    exact .fail
  case form =>
    intro callee args f hf ih
    rw [Datum.check_of_form hf]
    exact ih.cast (Form.loopCount_ofCall hf).symm
  case call =>
    intro callee args ih ihs
    rw [Datum.checkForm]
    exact (ih.bind fun _ => ihs.bind fun _ => .pure).cast (List.length_append ..).symm
  case not | operator | assert | get =>
    intros
    rename_i ih
    rw [Datum.checkForm]
    exact ih.bind fun _ => .pure
  case logic =>
    intro op first rest ih ihs
    rw [Datum.checkForm]
    exact (ih.bind fun _ => ihs.bind fun _ => .pure).cast (List.length_append ..).symm
  case loop =>
    intro bs ds d ihb ihs ih
    rw [Datum.checkForm]
    refine Takes.cast (.bind .reserve fun _ => ihb.bind fun _ =>
      .bind (.inside (ihs.bind fun _ => ih.bind fun _ => .pure)) fun _ => .pure) ?_
    rw [Form.loopCount, Form.callsTo, List.length_append, List.length_append, Form.keyword?,
      if_pos rfl]
    omega
  case recur =>
    intro ds ihs
    rw [Datum.checkForm]
    refine Takes.cast (.bind .innermost fun l => ?_) (Nat.zero_add _)
    split
    · exact ihs.bind fun _ => .pure
    · exact .fail
  case letIn =>
    intro bs ds d ihb ihs ih
    rw [Datum.checkForm]
    refine Takes.cast (ihb.bind fun _ => ihs.bind fun _ => ih.bind fun _ => .pure) ?_
    simp [Form.loopCount, Form.callsTo, Form.keyword?]
  case cond =>
    intro test yes iht ihy
    rw [Datum.checkForm]
    refine Takes.cast (iht.bind fun _ => ihy.bind fun _ => .pure) ?_
    simp [Form.loopCount, Form.callsTo, Form.keyword?]
  case condElse =>
    intro test yes no iht ihy ihn
    rw [Datum.checkForm]
    refine Takes.cast (iht.bind fun _ => ihy.bind fun _ => ihn.bind fun _ => .pure) ?_
    simp [Form.loopCount, Form.callsTo, Form.keyword?]
  case fn =>
    intro ps ds d ihs ih
    rw [Datum.checkForm]
    exact (ihs.bind fun _ => ih.bind fun _ => .pure).cast (List.length_append ..).symm
  case noBindings => rw [Datum.checkBindings]; exact .pure
  case binding =>
    intro xs d bs ih ihb
    rw [Datum.checkBindings]
    exact (ih.bind fun _ => ihb.bind fun _ => .pure).cast (List.length_append ..).symm
  case nil => rw [Datum.checkAll]; exact .pure
  case cons =>
    intro d ds ih ihs
    rw [Datum.checkAll]
    exact (ih.bind fun _ => ihs.bind fun _ => .pure).cast (List.length_append ..).symm

namespace Datum

open Check

theorem check_takes (d : Datum) : Takes (d.callsTo "loop").length d.check := checks_take.1 d

theorem checkAll_takes (ds : List Datum) :
    Takes (callsToAll "loop" ds).length (checkAll ds) := checks_take.2.2.2 ds

/-! ## The top level -/

/-- What stands after the value of a definition is not checked. -/
theorem checkTopLevel_takes (d : Datum) :
    ∃ k ≤ (d.callsTo "loop").length, Takes k d.checkTopLevel := by
  unfold checkTopLevel
  split
  · rename_i args
    unfold checkDefinition
    split
    · rename_i x value ds
      refine ⟨_, ?_, (check_takes value).bind fun _ => .pure⟩
      simp [callsTo, callsToAll, symbol?]
    · exact ⟨0, Nat.zero_le _, .fail⟩
    · exact ⟨0, Nat.zero_le _, .fail⟩
  · rename_i args
    refine ⟨_, ?_, (checkAll_takes args).bind fun _ => .pure⟩
    simp [callsTo, symbol?]
  · exact ⟨_, Nat.le_refl _, (check_takes _).bind fun _ => .pure⟩
  · exact ⟨0, Nat.zero_le _, .fail⟩

theorem checkItems_takes (ds : List Datum) :
    ∃ k ≤ (callsToAll "loop" ds).length, Takes k (checkItems ds) := by
  induction ds with
  | nil => exact ⟨0, Nat.le_refl 0, .pure⟩
  | cons d ds ih =>
    obtain ⟨i, hi, hd⟩ := checkTopLevel_takes d
    obtain ⟨k, hk, hds⟩ := ih
    refine ⟨i + k, ?_, hd.bind fun _ => hds.bind fun _ => .pure⟩
    rw [callsToAll, List.length_append]
    exact Nat.add_le_add hi hk

theorem checkFile_takes (ds : List Datum) :
    ∃ k ≤ (callsToAll "loop" ds).length, Takes k (checkFile ds) := by
  unfold checkFile
  split
  · obtain ⟨k, hk, hds⟩ := checkItems_takes ds.tail
    have htail : (callsToAll "loop" ds.tail).length ≤ (callsToAll "loop" ds).length := by
      cases ds with
      | nil => exact Nat.le_refl _
      | cons d ds => simp [callsToAll]
    exact ⟨k, Nat.le_trans hk htail,
      (Takes.bind .ofExcept fun _ => hds.bind fun _ => .pure).cast (Nat.zero_add k)⟩
  · obtain ⟨k, hk, hds⟩ := checkItems_takes ds
    exact ⟨k, hk, hds.bind fun _ => .pure⟩

end Datum

end SmallLisp
