import SmallLisp.Proofs.Recurrence

/-!
# Definitions

What stands in a definition is what stands in its value, except in the function where the program
starts: that one returns nothing, so its last expression stands there for its effects.
-/

namespace SmallLisp

open Program

/-- The term is a function, and `signature` and `body` are what it is emitted as. -/
structure EmitsFunction (cfg : Config) (ls : List Loop) (m : Nat) (t : Term) (n : Nat)
    (signature : Signature) (body : List Stmt) (ps : Params) (effects : List Term)
    (result : Term) : Prop where
  checked : ∃ ds d k, CheckedAll ls m ds effects k ∧ Checked ls k d result n
  signature : signature = ⟨ps.groups cfg, [cfg.any]⟩
  body : body = Term.emitEffects cfg effects ++ [.ret [result.emit cfg]]
  recurs : ∀ xs,
    t.recurs xs = Term.recursAll (xs ++ ps.idents) effects ++ result.recurs (xs ++ ps.idents)

mutual

/-- Only functions are emitted as function literals, by themselves or as the one operand of a
chain. -/
theorem Checked.emitsFunction (h : Checked ls m d t n) (ht : t.emit cfg = .func signature body) :
    ∃ ps effects result, EmitsFunction cfg ls m t n signature body ps effects result := by
  cases h with
  | symbol =>
    obtain h | ⟨base, field, h⟩ := Expr.ofName_cases _ <;> exact absurd (h.symm.trans ht) nofun
  | number | string | vector _ => cases ht
  | call _ h => exact h.emitsFunction ht

theorem CheckedForm.emitsFunction (h : CheckedForm ls m f t n)
    (ht : t.emit cfg = .func signature body) :
    ∃ ps effects result, EmitsFunction cfg ls m t n signature body ps effects result := by
  cases h with
  | fn hs h =>
    cases ht
    exact ⟨_, _, _, ⟨_, _, _, hs, h⟩, rfl, rfl, fun _ => rfl⟩
  | logic h hs =>
    cases hs with
    | nil =>
      obtain ⟨ps, effects, result, he⟩ := h.emitsFunction ht
      refine ⟨ps, effects, result, { he with recurs := fun xs => ?_ }⟩
      rw [← he.recurs, Term.recurs, Term.recursAll, List.append_nil]
    | cons _ _ => exact absurd ht logics_ne_func
  | _ => cases ht

end

theorem names_definition {cfg : Config} {name : String} {value : Expr} :
    (definition cfg name value).names = [name] := by
  unfold definition
  split
  · split <;> rfl
  · rfl

/-- What stands in a definition: either its value stands there as it is, or it is a function whose
last expression does not give its value. -/
theorem Checked.items_definition (h : Checked ls m d t n) (name : String) :
    (definition cfg name (t.emit cfg)).items = (t.emit cfg).items [] false ∨
      ∃ signature body ps effects result,
        EmitsFunction cfg ls m t n signature body ps effects result ∧
        (definition cfg name (t.emit cfg)).items =
          ([], .params ⟨ps.groups cfg, []⟩) ::
            Stmt.itemsAll (.function false ⟨ps.groups cfg, []⟩) [] []
              (Term.emitEffects cfg effects ++ [.expr (result.emit cfg)]) := by
  unfold definition
  split
  · rename_i signature body ht
    split
    · obtain ⟨ps, effects, result, he⟩ := h.emitsFunction ht
      refine .inr ⟨_, _, ps, effects, result, he, ?_⟩
      rw [he.signature, he.body]
      simp [Decl.items, entryBody]
    · exact .inl (ht ▸ rfl)
  · exact .inl (List.append_nil _)

end SmallLisp
