import SmallLisp.Proofs.Attribution

/-!
# The loop of each `recur`

The calls to `recur` in a datum and the statements that set a flag in its expression correspond,
one to one and in order (`recur_sites_attributed`): each statement is in the body of the loop that
declares the flag, with no other loop between, and comes after the assignments that give the
variables of that loop the values of the call.
-/

namespace SmallLisp

open Program

/-! ## From calls to `recur`s -/

/-- The arguments of a call become the values of the `recur`. -/
def Recurrence.OfCall (args : List Datum) (r : Recurrence) : Prop :=
  ∃ m n ls, CheckedAll (r.loop :: ls) m args r.values n

/-- The arguments of the form itself, if it is a `recur`. -/
def Form.recurArgs : Form → List (List Datum)
  | .recur args => [args]
  | _ => []

theorem Form.recurArgs_ofCall {callee : Datum} {args : List Datum} {f : Form}
    (h : ofCall callee args = .ok f) :
    (if callee.symbol? = some "recur" then [args] else []) = f.recurArgs := by
  split
  · rename_i hcallee
    cases callee with
    | symbol x =>
      cases Option.some.inj hcallee
      cases ofCall_recur.symm.trans h
      rfl
    | _ => cases hcallee
  · rename_i hcallee
    cases f with
    | recur ds =>
      obtain ⟨rfl, -⟩ := eq_recur_of_ofCall h
      exact absurd rfl hcallee
    | _ => rfl

mutual

theorem Checked.recurs : Checked ls m d t n → ∀ xs,
    List.Forall₂ Recurrence.OfCall (d.callsTo "recur") (t.recurs xs)
  | .symbol | .number | .string => fun _ => .nil
  | .vector hs => hs.recurs
  | .call hf h => fun xs => by
    rw [Form.callsTo_ofCall hf, Form.recurArgs_ofCall hf]
    exact h.recurs xs

theorem CheckedForm.recurs : CheckedForm ls m f t n → ∀ xs,
    List.Forall₂ Recurrence.OfCall (f.callsTo "recur" ++ f.recurArgs) (t.recurs xs)
  | .recur hlen hs => fun xs => List.rel_append (hs.recurs xs) (.cons ⟨_, _, _, hs⟩ .nil)
  | .call h hs | .logic h hs => fun xs => by
    simp only [Form.recurArgs, List.append_nil]
    exact List.rel_append (h.recurs xs) (hs.recurs xs)
  | .not h | .assert h => fun xs => by
    simp only [Form.recurArgs, List.append_nil]
    exact h.recurs xs
  | .operator hs | .get hs => fun xs => by
    simp only [Form.recurArgs, List.append_nil]
    exact hs.recurs xs
  | .loop hb hs h | .letIn hb hs h => fun xs => by
    simp only [Form.recurArgs, List.append_nil]
    exact List.rel_append (List.rel_append (hb.recurs xs) (hs.recurs _)) (h.recurs _)
  | .cond ht hy => fun xs => by
    simp only [Form.recurArgs, List.append_nil]
    exact List.rel_append (List.rel_append (ht.recurs xs) (hy.recurs xs)) .nil
  | .condElse ht hy hn => fun xs => by
    simp only [Form.recurArgs, List.append_nil]
    exact List.rel_append (List.rel_append (ht.recurs xs) (hy.recurs xs)) (hn.recurs xs)
  | .fn hs h => fun xs => by
    simp only [Form.recurArgs, List.append_nil]
    exact List.rel_append (hs.recurs _) (h.recurs _)

theorem CheckedAll.recurs : CheckedAll ls m ds ts n → ∀ xs,
    List.Forall₂ Recurrence.OfCall (Datum.callsToAll "recur" ds) (Term.recursAll xs ts)
  | .nil => fun _ => .nil
  | .cons h hs => fun xs => List.rel_append (h.recurs xs) (hs.recurs xs)

theorem CheckedBindings.recurs : CheckedBindings ls m bs cs n → ∀ xs,
    List.Forall₂ Recurrence.OfCall (Binding.callsTo "recur" bs) (Term.recursBindings xs cs)
  | .nil => fun _ => .nil
  | .cons h hb => fun xs => List.rel_append (h.recurs xs) (hb.recurs _)

end

/-! ## From `recur`s to statements -/

/-- Assignments that give the targets of some declarations new values: one for all of them if
each declaration has one target, and otherwise one for each declaration. -/
def reassign (declared : List (List Expr)) (values : List Expr) : List Stmt :=
  if declared.all (·.length == 1) then
    if declared.isEmpty then [] else [.assign .assign declared.flatten values]
  else declared.zipWith (fun targets value => .assign .assign targets [value]) values

theorem Loop.update_eq_reassign (l : Loop) (values : List Expr) :
    l.update values = reassign (l.targets.map (·.map Expr.ofName)) values := by
  have hall : (l.targets.map (·.map Expr.ofName)).all (·.length == 1) =
      l.targets.all (·.length == 1) := by
    rw [List.all_map]
    congr 1
    funext xs
    simp
  rw [Loop.update, reassign, hall, List.isEmpty_map, List.map_flatten, List.zipWith_map_left]

/-- The statement `s` sets the flag for a call to `recur` with the arguments `args`. The block
`header` is that of the innermost loop around the statement, `before` stands in front of that loop
in its function, and `values` are the new values of what is declared there. -/
structure Attributed (cfg : Config) (args : List Datum) (s : Site) (header : Block)
    (before : List Stmt) (values : List Expr) : Prop where
  innermost : ∃ outer, s.place.innermostLoop? = some (header, ⟨cfg.called, before⟩ :: outer)
  /-- The loop declares the flag that is set. -/
  flag : header.before = [.define (.ident (Identifier.generated "continue" s.number)) (.bool true)]
  /-- In the function of the statement stand the assignments, and nothing else before it. -/
  assigns : ∃ around, s.place =
    ⟨cfg.called, reassign (before.filterMap Stmt.defined?) values⟩ :: around
  arity : values.length = (before.filterMap Stmt.defined?).length
  /-- The values are the arguments, compiled inside the loop. -/
  compiled : ∃ m n l ls, l.number = s.number ∧
    (Datum.compileAll cfg args).outcome ⟨m, l :: ls⟩ = (.ok values, ⟨n, l :: ls⟩)

theorem Recurrence.Stands.attributed {args : List Datum} {r : Recurrence} {s : Site}
    (hr : r.OfCall args) (hs : r.Stands cfg s) :
    ∃ header before values, Attributed cfg args s header before values := by
  obtain ⟨around, hplace, hwithin⟩ := hs.place
  obtain ⟨before, outer, hinner, hbefore⟩ := hwithin.innermostLoop?
  obtain ⟨m, n, ls, hargs⟩ := hr
  refine ⟨⟨.header, [.define r.loop.flag (.bool true)]⟩, before, Term.emitAll cfg r.values,
    ⟨outer, ?_⟩, ?_, ⟨around, ?_⟩, ?_, ?_⟩
  · rw [hplace]
    exact hinner
  · rw [hs.number]
    rfl
  · rw [hplace, hbefore, Loop.update_eq_reassign]
  · rw [hbefore, List.length_map, emitAll_length, hs.length]
  · exact ⟨m, n, r.loop, ls, hs.number.symm, Check.outcome_seq hargs.check rfl⟩

theorem forall₂_comp {P : α → β → Prop} {Q : β → γ → Prop} {R : α → γ → Prop}
    (h : ∀ a b c, P a b → Q b c → R a c) :
    ∀ {as bs cs}, List.Forall₂ P as bs → List.Forall₂ Q bs cs → List.Forall₂ R as cs
  | _, _, _, .nil, .nil => .nil
  | _, _, _, .cons hp hps, .cons hq hqs => .cons (h _ _ _ hp hq) (forall₂_comp h hps hqs)

/-- In the expression of a datum there is exactly one statement that sets a flag for each call to
`recur` in the datum. -/
theorem recur_sites_attributed {cfg : Config} {d : Datum} {m : Nat} {e : Expr} {s : Session}
    (h : (d.compile cfg).outcome ⟨m, []⟩ = (.ok e, s)) :
    List.Forall₂ (fun args site => ∃ header before values,
        Attributed cfg args site header before values)
      (d.callsTo "recur") e.sites := by
  obtain ⟨t, s', ht, he⟩ := Check.bind_eq_ok.1 h
  cases he
  obtain ⟨n, -, hc⟩ := Checked.of_check ht
  have hsites : List.Forall₂ (Recurrence.Stands cfg) _ _ := hc.placed [] [] false .nil
  exact forall₂_comp (fun _ _ _ hr hs => hs.attributed hr) (hc.recurs []) hsites

/-- `(loop [i 0] (loop [j (recur i)] (recur j)))`, where the first `recur` is that of the outer
loop. -/
def recurInInitialValue : Datum :=
  .call (.symbol "loop") [.vector [.symbol "i", .number "0" .int],
    .call (.symbol "loop") [.vector [.symbol "j", .call (.symbol "recur") [.symbol "i"]],
      .call (.symbol "recur") [.symbol "j"]]]

theorem recurInInitialValue_checked :
    Checked [] 0 recurInInitialValue
      (.loop 0 [⟨["i"], .number "0" .int⟩] []
        (.loop 2 [⟨["j"], .recur ⟨0, [["i"]]⟩ [.symbol "i"]⟩] []
          (.recur ⟨2, [["j"]]⟩ [.symbol "j"]))) 4 :=
  .call rfl (.loop (.cons .number .nil) .nil (.call rfl (.loop
    (.cons (.call rfl (.recur rfl (.cons .symbol .nil))) .nil) .nil
    (.call rfl (.recur rfl (.cons .symbol .nil))))))

theorem recur_sites_attributed_nested :
    ∃ e s, (recurInInitialValue.compile {}).outcome ⟨0, []⟩ = (.ok e, s) ∧
      List.Forall₂ (fun args site => ∃ header before values,
          Attributed {} args site header before values)
        (recurInInitialValue.callsTo "recur") e.sites :=
  have h := Check.outcome_seq recurInInitialValue_checked.check rfl
  ⟨_, _, h, recur_sites_attributed h⟩

end SmallLisp
