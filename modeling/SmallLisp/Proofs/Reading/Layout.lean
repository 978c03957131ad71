import SmallLisp.Proofs.Reading.Lexical
import SmallLisp.Proofs.Reading.Spelling

/-!
# Layouts

A layout of tokens is a text with these tokens in order and gaps between them. Only between two
words, the atoms that are no strings, may a gap not be empty (`Layout`). All layouts of the tokens
of data are read as these data (`read_of_layout`).
-/

namespace SmallLisp

/-- White space, commas and comments, each comment up to the end of its line. -/
inductive Gap : List Char → Prop
  | nil : Gap []
  | blank {c : Char} {cs : List Char} :
    (Text.isBlank c || c == ',') = true → Gap cs → Gap (c :: cs)
  | comment {body cs : List Char} :
    (∀ c ∈ body, c ≠ '\n') → Gap cs → Gap (';' :: (body ++ '\n' :: cs))

namespace Token

/-- The texts of a token. Only a string has more than one. -/
inductive Writes : Token → List Char → Prop
  | opening (b : Bracket) : Writes (.opening b) [b.opener]
  | closing (b : Bracket) : Writes (.closing b) [b.closer]
  | symbol (name : String) : Writes (.atom (.symbol name)) name.toList
  | number (literal : String) {kind : NumberKind} :
    kind ≠ .char → Writes (.atom (.number literal kind)) literal.toList
  | rune {c : Char} {literal : String} :
    IsRune c literal.toList → Writes (.atom (.number literal .char)) ['\\', c]
  | string {value : String} {text : List Char} :
    Reader.StringText value.toList text →
      Writes (.atom (.string value)) ('"' :: (text ++ ['"']))

/-- Two of these in a row would be read as one. -/
def isWord : Token → Bool
  | .atom (.symbol _) | .atom (.number ..) => true
  | .atom (.string _) | .opening _ | .closing _ => false

end Token

/-- The texts of some tokens, each followed by a gap. -/
inductive Layout : List Token → List Char → Prop
  | nil : Layout [] []
  | cons {t : Token} {ts : List Token} {word gap text : List Char} :
    t.Writes word → Gap gap →
      (t.isWord = true → ts.head?.any Token.isWord = true → gap ≠ []) → Layout ts text →
        Layout (t :: ts) (word ++ (gap ++ text))

open Reader

variable {t : Token} {ts : List Token} {cs rest word gap text : List Char}

theorem Gap.spells (h : Gap gap) (hts : Spells ts text rest) : Spells ts (gap ++ text) rest := by
  induction h with
  | nil => exact hts
  | blank hc _ ih => exact .blank hc ih
  | comment hbody _ ih =>
    rw [List.cons_append, List.append_assoc, List.cons_append]
    exact .comment hbody ih

theorem Gap.stops (h : Gap gap) (hne : gap ≠ []) : Stops (gap ++ text) := by
  cases h with
  | nil => exact absurd rfl hne
  | comment _ _ => exact isDelimiter_iff.2 (.inr (by decide))
  | blank hc _ =>
    rcases Bool.or_eq_true_iff.1 hc with hblank | hcomma
    · exact isDelimiter_iff.2 (.inl hblank)
    · exact isDelimiter_iff.2 (.inr (by simp [eq_of_beq hcomma]))

namespace Token.Writes

theorem spells (h : t.Writes word) (hread : ∀ a, t = .atom a → a.Readable)
    (hstop : t.isWord = true → Stops text) (hts : Spells ts text rest) :
    Spells (t :: ts) (word ++ text) rest := by
  cases h with
  | opening b => exact .opening hts
  | closing b => exact .closing hts
  | symbol name => exact .atom (hread _ rfl) (hstop rfl) hts
  | @number literal kind hkind =>
    cases kind with
    | char => exact absurd rfl hkind
    | int | float | imag => exact .atom (hread _ rfl) (hstop rfl) hts
  | rune hrune =>
    rw [isRune_iff.1 hrune]
    exact .rune (hstop rfl) hts
  | string htext =>
    rw [List.cons_append, List.append_assoc]
    exact .string htext hts

theorem stops (h : t.Writes word) (hword : t.isWord = false) : Stops (word ++ text) := by
  cases h with
  | opening b => cases b <;> rfl
  | closing b => cases b <;> rfl
  | string _ => rfl
  | symbol _ | number _ _ | rune _ => cases hword

end Token.Writes

namespace Layout

theorem stops (h : Layout ts text) (hword : ts.head?.any Token.isWord = false) : Stops text := by
  cases h with
  | nil => trivial
  | cons hwrites _ _ _ => exact hwrites.stops hword

/-- A word stops at the gap after it or, without a gap, at the token after it. -/
theorem stops_gap (h : Layout ts text) (hgap : Gap gap)
    (hsep : ts.head?.any Token.isWord = true → gap ≠ []) : Stops (gap ++ text) := by
  cases hword : ts.head?.any Token.isWord with
  | true => exact hgap.stops (hsep hword)
  | false =>
    by_cases hne : gap = []
    · rw [hne, List.nil_append]
      exact h.stops hword
    · exact hgap.stops hne

theorem spells (h : Layout ts text) (hread : ∀ a, .atom a ∈ ts → a.Readable) :
    Spells ts text [] := by
  induction h with
  | nil => exact .done
  | @cons t ts word gap text hwrites hgap hsep hlayout ih =>
    have hts := ih fun a ha => hread a (List.mem_cons_of_mem t ha)
    refine hwrites.spells (fun a ha => hread a ?_) (fun hword => ?_) (hgap.spells hts)
    · exact ha ▸ List.mem_cons_self
    · exact hlayout.stops_gap hgap (hsep hword)

end Layout

/-- The reader does not depend on the layout of a text: it returns the data whose tokens the text
has, whatever stands in the gaps and wherever they are empty. -/
theorem read_of_layout {ds : List Datum} (hlexical : ∀ d ∈ Datum.nodesAll ds, d.Lexical)
    (hgap : Gap gap) (h : Layout (Datum.tokensAll ds) text) :
    read (String.ofList (gap ++ text)) = .ok ds := by
  have hspells := hgap.spells (h.spells (Datum.forall_lexical_iff.1 hlexical))
  exact read_of_spells (by rwa [String.toList_ofList])

/-- Between a symbol and a number there must be a gap; a bracket may be a character. -/
theorem read_of_layout_tight :
    ∃ gap text ds, (∀ d ∈ Datum.nodesAll ds, d.Lexical) ∧ Gap gap ∧
      Layout (Datum.tokensAll ds) text ∧
        String.ofList (gap ++ text) = ";)\n(f,-1\"\\n\"\\))" ∧
          read (String.ofList (gap ++ text)) = .ok ds := by
  let ds : List Datum :=
    [.call (.symbol "f") [.number "-1" .int, .string "\n", .number "')'" .char]]
  have hlexical : ∀ d ∈ Datum.nodesAll ds, d.Lexical := by
    intro d hd
    simp only [ds, Datum.nodesAll, Datum.nodes, List.append_nil, List.cons_append,
      List.nil_append, List.mem_cons, List.not_mem_nil, or_false] at hd
    rcases hd with rfl | rfl | rfl | rfl | rfl
    · trivial
    · exact isAtom_symbol_iff.1 ⟨by decide, List.forall_mem_singleton.2 rfl, by decide, rfl⟩
    · exact ⟨['1'], .decimal (.int (.last rfl)), .inr rfl⟩
    · trivial
    · exact ⟨')', .plain (by decide)⟩
  have hbody : ∀ c ∈ [')'], c ≠ '\n' := List.forall_mem_singleton.2 (by decide)
  have hgap : Gap [';', ')', '\n'] := Gap.nil.comment hbody
  have hstring : StringText "\n".toList ['\\', 'n'] := .escaped (by decide) .nil
  have hlayout : Layout (Datum.tokensAll ds) _ :=
    .cons (.opening .round) .nil (by decide) <|
    .cons (.symbol "f") (.blank (c := ',') rfl .nil) (by decide) <|
    .cons (.number "-1" (by decide)) .nil (by decide) <|
    .cons (.string hstring) .nil (by decide) <|
    .cons (.rune (.plain (c := ')') (by decide))) .nil (by decide) <|
    .cons (.closing .round) .nil (by decide) .nil
  exact ⟨_, _, ds, hlexical, hgap, hlayout, rfl, read_of_layout hlexical hgap hlayout⟩

end SmallLisp
