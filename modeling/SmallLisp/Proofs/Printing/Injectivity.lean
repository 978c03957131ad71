import SmallLisp.Proofs.Printing.ReadBack

/-!
# The printed text determines the tree

Trees in which no integer stands directly before a point can be read back from their text
(`Expr.Separated.readExpr_print`), so two of them with one text are equal. An integer before a point
is printed without parentheses, and its text may then be that of a float.
-/

namespace SmallLisp.Program

/-- The scanner finds the lexemes of the tree, so none of them fuses with a point after it. -/
theorem Expr.Separated.lex_print {e : Expr} (h : e.Separated) :
    lex e.print.toList = e.lexemes := by
  rw [print, String.toList_ofList, (Expr.Legal.scans 0 h).lex_eq]

/-- The text of an expression is read as that expression. -/
theorem Expr.Separated.readExpr_print {e : Expr} (h : e.Separated) :
    ReadExpr 1 (lex e.print.toList) e [] := by
  have hread := (h.reads.mono e.one_le_tightness).read_alone [] (by decide) Nat.one_pos
    follows_nil.closed
  rwa [h.lex_print, ← List.append_nil e.lexemes]

/-- Trees in which no integer stands directly before a point are told apart by their text, and no
lexeme of theirs fuses with the next. -/
theorem print_injective {e : Expr} (h : e.Separated) :
    lex e.print.toList = e.lexemes ∧
      ∀ e' : Expr, e'.Separated → e.print = e'.print → e = e' := by
  refine ⟨h.lex_print, fun e' h' heq => ?_⟩
  have hread := h.readExpr_print
  rw [heq] at hread
  exact (hread.unique h'.readExpr_print).1

theorem valid_digit (hc : c.isDigit = true) : ValidLiteral .int (String.ofList [c]) :=
  .number (.decimal (.last hc))

theorem valid_digit_point (hc : c.isDigit = true) : ValidLiteral .float (String.ofList [c, '.']) :=
  .number (.fraction (@Mantissa.point _ [c] [] (.last hc) (.inl rfl)) (by simp))

/-- A negative integer before a point is parenthesized, and a float before one needs nothing. -/
theorem print_injective_negative :
    (Expr.logic .and (.assert (.literal .int "-1") (.named "int"))
        (.selector (.literal .float "1.") "x")).Separated ∧
      lex "(-1).(int) && 1..x".toList =
        [.parenOpen, .minus, .literal .int "1", .parenClose, .point, .parenOpen, .name "int",
          .parenClose, .logic .and, .literal .float "1.", .point, .name "x"] ∧
      ∀ e : Expr, e.Separated → "(-1).(int) && 1..x" = e.print →
        .logic .and (.assert (.literal .int "-1") (.named "int"))
          (.selector (.literal .float "1.") "x") = e := by
  have hnegative : ValidLiteral .int "-1" := @ValidLiteral.negative _ ['1'] (.decimal (.last rfl))
  have hfloat : ValidLiteral .float "1." := valid_digit_point (c := '1') rfl
  have h : (Expr.logic .and (.assert (.literal .int "-1") (.named "int"))
      (.selector (.literal .float "1.") "x")).Separated :=
    .logic (.assert (.literal hnegative) rfl rfl) (.selector (.literal hfloat) rfl rfl)
  obtain ⟨hlex, hinjective⟩ := print_injective h
  exact ⟨h, hlex, hinjective⟩

/-- The point of an assertion fuses with an integer before it: asserting the type of `1` is printed
like calling the float `1.`. -/
theorem print_assert_int_eq_call_float :
    (Expr.assert (.literal .int "1") (.named "int")).WellFormed ∧
      (Expr.call (.literal .float "1.") [.ident "int"]).WellFormed ∧
      (Expr.assert (.literal .int "1") (.named "int")).print =
        (Expr.call (.literal .float "1.") [.ident "int"]).print ∧
      Expr.assert (.literal .int "1") (.named "int") ≠
        Expr.call (.literal .float "1.") [.ident "int"] := by
  have hint : ValidLiteral .int "1" := valid_digit (c := '1') rfl
  have hfloat : ValidLiteral .float "1." := valid_digit_point (c := '1') rfl
  have hargs : ∀ a ∈ [Expr.ident "int"], a.WellFormed := by
    intro a ha
    rw [List.mem_singleton.1 ha]
    exact .ident rfl
  exact ⟨.assert (.literal hint) trivial rfl, .call (.literal hfloat) hargs, rfl, nofun⟩

end SmallLisp.Program
