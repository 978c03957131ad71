import Mathlib.Data.List.Induction
import SmallLisp.Proofs.Reading.Concatenation
import SmallLisp.Proofs.Reading.Layout

/-!
# Where errors are found

Every error of the reader is charged to a place in the text, and `ReadError.Cause.Fits` says for
each cause what stands before and after this place. The reader keeps the places of the token under
way and of the brackets that are open (`State.Follows`): a character either keeps this up or is the
last one of a text that fits an error (`State.take_settles`). So line and column of an error point
at what its text says (`read_error_located`).
-/

namespace SmallLisp

open Outcome

/-- The position after a text is told by its line breaks and what follows the last one. -/
theorem Position.foldl_advance_start (cs : List Char) :
    cs.foldl advance start =
      ⟨1 + cs.count '\n', 1 + (cs.reverse.takeWhile (· ≠ '\n')).length⟩ := by
  induction cs using List.reverseRecOn with
  | nil => rfl
  | append_singleton cs c ih =>
    rw [List.foldl_append, List.foldl_cons, List.foldl_nil, ih, advance, List.reverse_append,
      List.count_append]
    by_cases hc : c = '\n'
    · simp [hc, Nat.add_assoc]
    · simp [hc, Nat.add_assoc]

namespace Reader

/-- The text comes to `cs` at the position `p`. -/
def StandsAt (source cs : List Char) (p : Position) : Prop :=
  ∃ before, source = before ++ cs ∧ before.foldl Position.advance .start = p

/-- The text of a string that no quote ends: each of its quotes has a backslash of its own. -/
inductive Unclosed : List Char → Prop
  | nil : Unclosed []
  | backslash : Unclosed ['\\']
  | plain {c : Char} {cs : List Char} : c ≠ '"' → c ≠ '\\' → Unclosed cs → Unclosed (c :: cs)
  | escaped {c : Char} {cs : List Char} : Unclosed cs → Unclosed ('\\' :: c :: cs)

/-- The brackets that are open where the pieces of a text have come to `rest`, innermost first. -/
inductive OpenBrackets (source : List Char) : List Char → List Bracket → Prop
  | start : OpenBrackets source source []
  | gap {gap rest : List Char} {bs : List Bracket} :
    Gap gap → OpenBrackets source (gap ++ rest) bs → OpenBrackets source rest bs
  /-- A comment in the last line. -/
  | comment {body : List Char} {bs : List Bracket} :
    (∀ c ∈ body, c ≠ '\n') → OpenBrackets source (';' :: body) bs → OpenBrackets source [] bs
  | opening {b : Bracket} {rest : List Char} {bs : List Bracket} :
    OpenBrackets source (b.opener :: rest) bs → OpenBrackets source rest (b :: bs)
  | closing {b : Bracket} {rest : List Char} {bs : List Bracket} :
    OpenBrackets source (b.closer :: rest) (b :: bs) → OpenBrackets source rest bs
  | string {value text rest : List Char} {bs : List Bracket} :
    StringText value text → OpenBrackets source ('"' :: (text ++ '"' :: rest)) bs →
      OpenBrackets source rest bs
  | word {word rest : List Char} {bs : List Bracket} :
    word ≠ [] → (∀ c ∈ word, isDelimiter c = false) → word.head? ≠ some '\\' → Stops rest →
      OpenBrackets source (word ++ rest) bs → OpenBrackets source rest bs
  /-- The character after a backslash may be a bracket. -/
  | rune {c : Char} {word rest : List Char} {bs : List Bracket} :
    (∀ c ∈ word, isDelimiter c = false) → Stops rest →
      OpenBrackets source ('\\' :: c :: (word ++ rest)) bs → OpenBrackets source rest bs

end Reader

open Reader

/-- What stands before and after the place of an error with this cause. -/
inductive ReadError.Cause.Fits : ReadError.Cause → List Char → List Char → Prop
  | unexpectedCloser {b : Bracket} {before rest : List Char} :
    Fits (.unexpectedCloser b) before (b.closer :: rest)
  | emptyCall {before gap rest : List Char} :
    Gap gap → Fits .emptyCall before ('(' :: (gap ++ ')' :: rest))
  | unterminatedString {before text : List Char} :
    Unclosed text → Fits .unterminatedString before ('"' :: text)
  | invalidEscape {before rest : List Char} {letter : Char} :
    letter ∉ ['n', 't', 'r', '"', '\\'] →
      Fits (.invalidEscape letter) (before ++ ['\\']) (letter :: rest)
  | invalidNumber {before sign word rest : List Char} {digit : Char} :
    Numeral.IsSign sign → digit.isDigit = true →
      (∀ kind, ¬Numeral.Unsigned kind (digit :: word)) → Stops rest →
        Fits (.invalidNumber (String.ofList (sign ++ digit :: word))) before
          (sign ++ digit :: word ++ rest)
  | invalidRune {before token rest : List Char} :
    Fits (.invalidRune (String.ofList token)) before ('\\' :: (token ++ rest))
  | missingCharacter {before : List Char} : Fits (.unexpectedEnd .character) before ['\\']
  | missingCloser {before : List Char} {b : Bracket} {outer : List Bracket} :
    OpenBrackets before [] (b :: outer) → Fits (.unexpectedEnd (.closer b)) before []

/-- The error is found where its position says. -/
def ReadError.Located (source : List Char) (e : ReadError) : Prop :=
  ∃ before rest, source = before ++ rest ∧
    before.foldl Position.advance .start = e.position ∧ e.cause.Fits before rest

variable {source cs ds gap rest text value word : List Char} {c : Char} {p : Position}

theorem Gap.append (h : Gap gap) (hcs : Gap cs) : Gap (gap ++ cs) := by
  induction h with
  | nil => exact hcs
  | blank hc _ ih => exact .blank hc ih
  | comment hbody _ ih =>
    rw [List.cons_append, List.append_assoc, List.cons_append]
    exact .comment hbody ih

namespace Reader

theorem StandsAt.next (h : StandsAt source (c :: rest) p) :
    StandsAt source rest (p.advance c) := by
  obtain ⟨before, rfl, rfl⟩ := h
  exact ⟨before ++ [c], by simp, by simp⟩

theorem StringText.append (h : StringText value text) (hds : StringText ds cs) :
    StringText (value ++ ds) (text ++ cs) := by
  induction h with
  | nil => exact hds
  | plain hquote hescape _ ih => exact .plain hquote hescape ih
  | escaped hmem _ ih => exact .escaped hmem ih

theorem StringText.unclosed (h : StringText value text) (hcs : Unclosed cs) :
    Unclosed (text ++ cs) := by
  induction h with
  | nil => exact hcs
  | plain hquote hescape _ ih => exact .plain hquote hescape ih
  | escaped _ _ ih => exact .escaped ih

theorem mem_of_escapedChar {letter : Char} (h : Text.escapedChar letter = some c) :
    (c, letter) ∈ [('\n', 'n'), ('\t', 't'), ('\r', 'r'), ('"', '"'), ('\\', '\\')] := by
  unfold Text.escapedChar at h
  split at h <;> cases h <;> decide

theorem not_mem_of_escapedChar {letter : Char} (h : Text.escapedChar letter = none) :
    letter ∉ ['n', 't', 'r', '"', '\\'] := by
  unfold Text.escapedChar at h
  split at h <;> simp_all

/-- What is no datum starts as a number and goes on as none. -/
theorem exists_digit_of_ofAtom?_eq_none (h : ofAtom? cs = none) :
    ∃ sign digit word, Numeral.IsSign sign ∧ digit.isDigit = true ∧ cs = sign ++ digit :: word ∧
      ∀ kind, ¬Numeral.Unsigned kind (digit :: word) := by
  by_contra hno
  have hsymbol : ofAtom? cs = some (.symbol (String.ofList cs)) := by
    refine ofAtom?_symbol fun sign digit word hsign hcs => ?_
    by_contra hdigit
    have hdigit : digit.isDigit = true := by simpa using hdigit
    refine hno ⟨sign, digit, word, hsign, hdigit, hcs, fun kind hkind => ?_⟩
    rw [hcs, ofAtom?_signed hsign hdigit, hkind.kind?] at h
    cases h
  rw [hsymbol] at h
  cases h

theorem enclose?_eq_none {b : Bracket} {ds : List Datum} (h : b.enclose? ds = none) :
    b = .round ∧ ds = [] := by
  unfold Bracket.enclose? at h
  split at h <;> cases h
  exact ⟨rfl, rfl⟩

/-! ## The token under way -/

/-- The characters of the token under way are those from `cs` to `rest`, and the position that the
token keeps is that of its start. -/
inductive Mode.Covers (source : List Char) : Mode → List Char → List Char → Prop
  | between {rest : List Char} : Covers source .between rest rest
  | comment {body rest : List Char} :
    (∀ c ∈ body, c ≠ '\n') → Covers source .comment (';' :: (body ++ rest)) rest
  | string {start : Position} {chars text rest : List Char} :
    StringText chars.reverse text → StandsAt source ('"' :: (text ++ rest)) start →
      Covers source (.string start chars) ('"' :: (text ++ rest)) rest
  | escape {start : Position} {chars text rest : List Char} :
    StringText chars.reverse text → StandsAt source ('"' :: (text ++ '\\' :: rest)) start →
      Covers source (.escape start chars) ('"' :: (text ++ '\\' :: rest)) rest
  | atom {start : Position} {chars rest : List Char} :
    (Mode.atom start chars).Valid → StandsAt source (chars.reverse ++ rest) start →
      Covers source (.atom start chars) (chars.reverse ++ rest) rest
  | rune {start : Position} {chars rest : List Char} :
    (∀ c ∈ chars.dropLast, isDelimiter c = false) →
      StandsAt source ('\\' :: (chars.reverse ++ rest)) start →
        Covers source (.rune start chars) ('\\' :: (chars.reverse ++ rest)) rest

namespace Mode.Covers

variable {start : Position} {chars : List Char}

theorem commentChar (h : Covers source .comment cs (c :: rest)) (hc : c ≠ '\n') :
    Covers source .comment cs rest := by
  cases h with
  | @comment body _ hbody =>
    have hbody : ∀ e ∈ body ++ [c], e ≠ '\n' := by simpa [or_imp, forall_and, hc] using hbody
    have hcovers : Covers source .comment (';' :: (body ++ [c] ++ rest)) rest := .comment hbody
    simpa using hcovers

theorem stringChar (h : Covers source (.string start chars) cs (c :: rest)) (hquote : c ≠ '"')
    (hescape : c ≠ '\\') : Covers source (.string start (c :: chars)) cs rest := by
  cases h with
  | @string _ _ text _ htext hstart =>
    have hplain : StringText (c :: chars).reverse (text ++ [c]) := by
      rw [List.reverse_cons]
      exact htext.append (.plain hquote hescape .nil)
    have hcovers : Covers source (.string start (c :: chars)) ('"' :: (text ++ [c] ++ rest)) rest :=
      .string hplain (by simpa using hstart)
    simpa using hcovers

theorem escapedChar {d : Char} (h : Covers source (.escape start chars) cs (c :: rest))
    (hc : Text.escapedChar c = some d) : Covers source (.string start (d :: chars)) cs rest := by
  cases h with
  | @escape _ _ text _ htext hstart =>
    have hescaped : StringText (d :: chars).reverse (text ++ ['\\', c]) := by
      rw [List.reverse_cons]
      exact htext.append (.escaped (mem_of_escapedChar hc) .nil)
    have hcovers : Covers source (.string start (d :: chars))
        ('"' :: (text ++ ['\\', c] ++ rest)) rest :=
      .string hescaped (by simpa using hstart)
    simpa using hcovers

theorem exists_backslash (h : Covers source (.escape start chars) cs rest) :
    ∃ before, source = before ++ ['\\'] ++ rest := by
  cases h with
  | @escape _ _ text _ _ hstart =>
    obtain ⟨before, hsource, -⟩ := hstart
    exact ⟨before ++ '"' :: text, by simp [hsource]⟩

theorem atomChar (h : Covers source (.atom start chars) cs (c :: rest))
    (hc : isDelimiter c = false) : Covers source (.atom start (c :: chars)) cs rest := by
  cases h with
  | atom hvalid hstart =>
    obtain ⟨hne, hdelim, hlast⟩ := hvalid
    have hvalid : (Mode.atom start (c :: chars)).Valid := by
      refine ⟨List.cons_ne_nil _ _, by simpa [hc] using hdelim, ?_⟩
      rwa [List.getLast?_cons_of_ne_nil hne]
    have hcovers : Covers source (.atom start (c :: chars)) ((c :: chars).reverse ++ rest) rest :=
      .atom hvalid (by simpa using hstart)
    simpa using hcovers

theorem runeChar (h : Covers source (.rune start chars) cs (c :: rest))
    (hc : chars = [] ∨ isDelimiter c = false) :
    Covers source (.rune start (c :: chars)) cs rest := by
  cases h with
  | rune htail hstart =>
    have htail : ∀ e ∈ (c :: chars).dropLast, isDelimiter e = false := by
      cases chars with
      | nil => nofun
      | cons d chars => exact List.forall_mem_cons.2 ⟨hc.resolve_left (List.cons_ne_nil _ _), htail⟩
    have hcovers : Covers source (.rune start (c :: chars))
        ('\\' :: ((c :: chars).reverse ++ rest)) rest :=
      .rune htail (by simpa using hstart)
    simpa using hcovers

end Mode.Covers

/-- The lists that are open at `cs` are those of the frames, and an innermost list without data has
nothing but a gap after its bracket. -/
structure Enclosed (source cs : List Char) (outer : List Frame) (items : List Datum) : Prop where
  brackets : OpenBrackets source cs (outer.map Frame.bracket)
  empty : ∀ f ∈ outer.head?, items = [] →
    ∃ gap, Gap gap ∧ StandsAt source (f.bracket.opener :: (gap ++ cs)) f.opened

variable {outer : List Frame} {items : List Datum} {s t : State} {b : Bracket} {e : ReadError}

theorem Enclosed.skip (h : Enclosed source (gap ++ cs) outer items) (hgap : Gap gap) :
    Enclosed source cs outer items := by
  refine ⟨h.brackets.gap hgap, fun f hf hitems => ?_⟩
  obtain ⟨before, hbefore, hplace⟩ := h.empty f hf hitems
  refine ⟨before ++ gap, hbefore.append hgap, ?_⟩
  rwa [List.append_assoc]

theorem Enclosed.push (hbrackets : OpenBrackets source cs (outer.map Frame.bracket))
    (d : Datum) : Enclosed source cs outer (d :: items) :=
  ⟨hbrackets, fun _ _ hitems => nomatch hitems⟩

namespace State

/-- The state is one after the part of the text before `rest`. -/
def Follows (source rest : List Char) (s : State) : Prop :=
  ∃ cs, s.mode.Covers source cs rest ∧ Enclosed source cs s.outer s.items

/-- The outcome is a state before `rest`, or an error in its place. -/
inductive Settles (source rest : List Char) : Except ReadError State → Prop
  | ok {t : State} : t.Follows source rest → Settles source rest (.ok t)
  | error {e : ReadError} : e.Located source → Settles source rest (.error e)

theorem Follows.enclosed (h : s.Follows source rest) (hmode : s.mode = .between) :
    Enclosed source rest s.outer s.items := by
  obtain ⟨cs, hcovers, henclosed⟩ := h
  rw [hmode] at hcovers
  cases hcovers
  exact henclosed

theorem closeList_settles (h : Enclosed source (b.closer :: rest) s.outer s.items)
    (hplace : StandsAt source (b.closer :: rest) s.position) :
    Settles source rest (s.closeList b) := by
  have hcloser : ReadError.Located source ⟨.unexpectedCloser b, s.position⟩ := by
    obtain ⟨before, rfl, hposition⟩ := hplace
    exact ⟨before, _, rfl, hposition, .unexpectedCloser⟩
  cases houter : s.outer with
  | nil =>
    rw [closeList, houter]
    exact .error hcloser
  | cons f outer =>
    rw [closeList_cons s b houter]
    rw [houter] at h
    split
    · rename_i hb
      subst hb
      cases hd : f.bracket.enclose? s.items.reverse with
      | some d => exact .ok ⟨rest, .between, .push h.brackets.closing d⟩
      | none =>
        obtain ⟨hround, hitems⟩ := enclose?_eq_none hd
        obtain ⟨gap, hgap, before, hsource, hposition⟩ :=
          h.empty f rfl (List.reverse_eq_nil_iff.1 hitems)
        rw [hround] at hsource
        exact .error ⟨before, _, hsource, hposition, .emptyCall hgap⟩
    · exact .error hcloser

/-- A token starts at `c` and the text of it is told by its mode alone. -/
theorem Follows.start {m : Mode} (h : Enclosed source (c :: rest) s.outer s.items)
    (hcovers : m.Covers source (c :: rest) rest) : Follows source rest { s with mode := m } :=
  ⟨c :: rest, hcovers, h⟩

theorem enter_settles (h : Enclosed source (c :: rest) s.outer s.items)
    (hplace : StandsAt source (c :: rest) s.position) : Settles source rest (s.enter c) := by
  have hopen (b : Bracket) (hc : c = b.opener) : Settles source rest (.ok (s.openList b)) := by
    subst hc
    refine .ok ⟨rest, .between, h.brackets.opening, fun f hf _ => ?_⟩
    cases hf
    exact ⟨[], .nil, hplace⟩
  unfold enter
  split
  · rename_i hblank
    have hgap : Enclosed source ([c] ++ rest) s.outer s.items := h
    exact .ok ⟨rest, .between, hgap.skip (.blank hblank .nil)⟩
  split
  · rename_i hc
    subst hc
    exact .ok (.start h (@Mode.Covers.comment source [] rest nofun))
  split
  · exact hopen .round ‹_›
  split
  · exact hopen .square ‹_›
  split
  · rename_i hc
    subst hc
    exact closeList_settles (b := .round) h hplace
  split
  · rename_i hc
    subst hc
    exact closeList_settles (b := .square) h hplace
  split
  · rename_i hc
    subst hc
    exact .ok (.start h (@Mode.Covers.string source s.position [] [] rest .nil hplace))
  split
  · rename_i hc
    subst hc
    exact .ok (.start h (@Mode.Covers.rune source s.position [] rest nofun hplace))
  · have hvalid : (Mode.atom s.position [c]).Valid := by
      refine ⟨List.cons_ne_nil _ _, fun e he => ?_, by simpa⟩
      cases List.mem_singleton.1 he
      simp_all [isDelimiter]
    exact .ok (.start h (.atom hvalid hplace))

/-- Where a token may end, ending it leads to a place between tokens. -/
theorem endToken_settles (h : s.Follows source rest) (hmode : ¬s.mode.CutsOff)
    (hcomment : s.mode ≠ .comment) (hstop : Stops rest) :
    (∃ t, s.endToken = .ok t ∧ t.position = s.position ∧
      Enclosed source rest t.outer t.items) ∨
        ∃ e, s.endToken = .error e ∧ e.Located source := by
  obtain ⟨cs, hcovers, henclosed⟩ := h
  obtain ⟨position, outer, items, mode⟩ := s
  cases hcovers with
  | between => exact .inl ⟨_, rfl, rfl, henclosed⟩
  | comment => exact absurd rfl hcomment
  | string | escape => exact absurd trivial hmode
  | @atom start chars _ hvalid hplace =>
    obtain ⟨hne, hdelim, hlast⟩ := hvalid
    simp only [endToken]
    split
    · refine .inl ⟨_, rfl, rfl, .push (.word ?_ ?_ ?_ hstop henclosed.brackets) _⟩
      · simpa using hne
      · simpa using hdelim
      · simpa using hlast
    · rename_i hnone
      obtain ⟨sign, digit, word, hsign, hdigit, hword, hno⟩ :=
        exists_digit_of_ofAtom?_eq_none hnone
      obtain ⟨before, hsource, hposition⟩ := hplace
      rw [hword] at hsource ⊢
      exact .inr ⟨_, rfl, before, _, hsource, hposition, .invalidNumber hsign hdigit hno hstop⟩
  | @rune start chars _ htail hplace =>
    simp only [endToken]
    split
    · cases hchars : chars.reverse with
      | nil =>
        rw [List.reverse_eq_nil_iff] at hchars
        subst hchars
        exact absurd trivial hmode
      | cons c word =>
        have hword : ∀ e ∈ word, isDelimiter e = false := by
          have hdrop : chars.dropLast = word.reverse := by
            rw [← List.reverse_reverse chars, hchars, List.reverse_cons, List.dropLast_concat]
          rw [hdrop] at htail
          simpa using htail
        have hbrackets := henclosed.brackets
        rw [hchars] at hbrackets
        exact .inl ⟨_, rfl, rfl, .push (.rune hword hstop hbrackets) _⟩
    · obtain ⟨before, hsource, hposition⟩ := hplace
      exact .inr ⟨_, rfl, before, _, hsource, hposition, .invalidRune⟩

theorem endToken_enter_settles (h : s.Follows source (c :: rest)) (hmode : ¬s.mode.CutsOff)
    (hcomment : s.mode ≠ .comment) (hdelim : isDelimiter c = true)
    (hplace : StandsAt source (c :: rest) s.position) :
    Settles source rest (s.endToken >>= (·.enter c)) := by
  rcases endToken_settles h hmode hcomment hdelim with ⟨t, ht, hposition, henclosed⟩ | ⟨e, he, hat⟩
  · rw [ht]
    exact enter_settles henclosed (hposition ▸ hplace)
  · rw [he]
    exact .error hat

theorem take_settles (h : s.Follows source (c :: rest))
    (hplace : StandsAt source (c :: rest) s.position) : Settles source rest (s.take c) := by
  have hfollows := h
  obtain ⟨cs, hcovers, henclosed⟩ := h
  obtain ⟨position, outer, items, mode⟩ := s
  cases mode with
  | between => exact enter_settles (hfollows.enclosed rfl) hplace
  | comment =>
    simp only [take]
    split
    · rename_i hc
      subst hc
      cases hcovers with
      | @comment body _ hbody =>
        have hgap : Gap (';' :: (body ++ ['\n'])) := Gap.nil.comment hbody
        refine .ok ⟨rest, .between, Enclosed.skip ?_ hgap⟩
        simpa using henclosed
    · exact .ok ⟨cs, hcovers.commentChar ‹_›, henclosed⟩
  | string start chars =>
    simp only [take]
    split
    · rename_i hc
      subst hc
      cases hcovers with
      | string htext _ => exact .ok ⟨rest, .between, .push (.string htext henclosed.brackets) _⟩
    split
    · rename_i hc
      subst hc
      cases hcovers with
      | string htext hstart => exact .ok ⟨_, .escape htext hstart, henclosed⟩
    · exact .ok ⟨cs, hcovers.stringChar ‹_› ‹_›, henclosed⟩
  | escape start chars =>
    simp only [take]
    split
    · exact .ok ⟨cs, hcovers.escapedChar ‹_›, henclosed⟩
    · rename_i hnone
      -- The string tells what stands before the letter.
      obtain ⟨before, hend⟩ := hcovers.exists_backslash
      obtain ⟨front, hsource, hposition⟩ := hplace
      obtain rfl : front = before ++ ['\\'] :=
        List.append_cancel_right (hsource.symm.trans hend)
      exact .error ⟨_, c :: rest, hsource, hposition,
        .invalidEscape (not_mem_of_escapedChar hnone)⟩
  | atom start chars =>
    simp only [take]
    split
    · exact endToken_enter_settles hfollows id (by simp) ‹_› hplace
    · rename_i hc
      exact .ok ⟨cs, hcovers.atomChar (Bool.not_eq_true _ ▸ hc), henclosed⟩
  | rune start chars =>
    simp only [take]
    split
    · rename_i hc
      obtain ⟨hne, hc⟩ := Bool.and_eq_true_iff.1 hc
      refine endToken_enter_settles hfollows ?_ (by simp) hc hplace
      cases chars with
      | nil => cases hne
      | cons => exact id
    · rename_i hc
      have hc : chars = [] ∨ isDelimiter c = false := by cases chars <;> simp_all
      exact .ok ⟨cs, hcovers.runeChar hc, henclosed⟩

/-- A list that is open at the end of a text is missed there. -/
theorem closed_located (hbrackets : OpenBrackets source [] (t.outer.map Frame.bracket))
    (hplace : StandsAt source [] t.position) (he : t.closed = .error e) : e.Located source := by
  unfold closed at he
  split at he
  · cases he
  · rename_i f outer houter
    cases he
    rw [houter] at hbrackets
    obtain ⟨before, hsource, hbefore⟩ := hplace
    rw [List.append_nil] at hsource
    subst hsource
    exact ⟨source, [], by simp, hbefore, .missingCloser hbrackets⟩

/-- A token that the end of a text cuts off is found at its start. -/
theorem finish_located_of_cutsOff (h : s.Follows source []) (hmode : s.mode.CutsOff)
    (he : s.finish = .error e) : e.Located source := by
  obtain ⟨cs, hcovers, -⟩ := h
  obtain ⟨position, outer, items, mode⟩ := s
  cases hcovers with
  | between | comment | atom => exact hmode.elim
  | string htext hstart =>
    cases he
    obtain ⟨before, hsource, hposition⟩ := hstart
    exact ⟨before, _, hsource, hposition, .unterminatedString (htext.unclosed .nil)⟩
  | escape htext hstart =>
    cases he
    obtain ⟨before, hsource, hposition⟩ := hstart
    exact ⟨before, _, hsource, hposition, .unterminatedString (htext.unclosed .backslash)⟩
  | @rune start chars _ htail hstart =>
    cases chars with
    | cons => exact hmode.elim
    | nil =>
      cases he
      obtain ⟨before, hsource, hposition⟩ := hstart
      exact ⟨before, _, hsource, hposition, .missingCharacter⟩

theorem finish_located (h : s.Follows source []) (hplace : StandsAt source [] s.position)
    (he : s.finish = .error e) : e.Located source := by
  by_cases hmode : s.mode.CutsOff
  · exact finish_located_of_cutsOff h hmode he
  rw [finish_eq_closed hmode] at he
  by_cases hcomment : s.mode = .comment
  · obtain ⟨cs, hcovers, henclosed⟩ := h
    have hend : s.endToken = .ok s := by rw [endToken, hcomment]
    rw [hend] at he
    rw [hcomment] at hcovers
    cases hcovers with
    | @comment body _ hbody =>
      have hbrackets := henclosed.brackets
      rw [List.append_nil] at hbrackets
      exact closed_located (.comment hbody hbrackets) hplace he
  · rcases endToken_settles h hmode hcomment trivial with
      ⟨t, ht, hposition, henclosed⟩ | ⟨e', he', hat⟩
    · rw [ht] at he
      exact closed_located henclosed.brackets (hposition ▸ hplace) he
    · rw [he'] at he
      cases he
      exact hat

theorem readAll_located (h : s.Follows source rest) (hplace : StandsAt source rest s.position)
    (he : s.readAll rest = .error e) : e.Located source := by
  induction rest generalizing s with
  | nil => exact finish_located h hplace he
  | cons c rest ih =>
    rw [readAll_cons, step] at he
    have hsettles := take_settles h hplace
    cases hsettles' : s.take c with
    | error e' =>
      rw [hsettles'] at he hsettles
      cases he
      cases hsettles with
      | error hat => exact hat
    | ok t =>
      rw [hsettles'] at he hsettles
      cases hsettles with
      | ok hfollows =>
        exact ih (s := { t with position := s.position.advance c }) hfollows hplace.next he

end State

end Reader

/-- An error of the reader is where its line and column say, and the text there is as its cause
says. -/
theorem read_error_located {source : String} {e : ReadError} (h : read source = .error e) :
    (∃ before rest, source.toList = before ++ rest ∧
      e.position.line = 1 + before.count '\n' ∧
        e.position.column = 1 + (before.reverse.takeWhile (· ≠ '\n')).length ∧
          e.cause.Fits before rest) ∧
      ∀ missing, e.cause = .unexpectedEnd missing → missing.text ≠ "a form" := by
  have hstart : State.initial.Follows source.toList source.toList :=
    ⟨source.toList, .between, .start, nofun⟩
  obtain ⟨before, rest, hsource, hposition, hfits⟩ :=
    State.readAll_located hstart ⟨[], rfl, rfl⟩ h
  rw [Position.foldl_advance_start] at hposition
  refine ⟨⟨before, rest, hsource, ?_, ?_, hfits⟩, fun missing hcause => ?_⟩
  · rw [← hposition]
  · rw [← hposition]
  · -- No place in a text fits an end where a form is missing.
    rw [hcause] at hfits
    cases hfits with
    | missingCharacter => decide
    | @missingCloser _ b => cases b <;> decide

/-- A number that is none, in the second line; and a vector that is open where a text ends in a
comment. -/
theorem read_error_located_nested :
    (read "(f\n  1_x)" = .error ⟨.invalidNumber "1_x", ⟨2, 3⟩⟩ ∧
      ∃ before rest, "(f\n  1_x)".toList = before ++ rest ∧ 2 = 1 + before.count '\n' ∧
        3 = 1 + (before.reverse.takeWhile (· ≠ '\n')).length ∧
          (ReadError.Cause.invalidNumber "1_x").Fits before rest) ∧
      read "(f [\\] ; (" = .error ⟨.unexpectedEnd (.closer .square), ⟨1, 11⟩⟩ ∧
        ∃ before rest, "(f [\\] ; (".toList = before ++ rest ∧ 1 = 1 + before.count '\n' ∧
          11 = 1 + (before.reverse.takeWhile (· ≠ '\n')).length ∧
            (ReadError.Cause.unexpectedEnd (.closer .square)).Fits before rest := by
  have hnumber : read "(f\n  1_x)" = .error ⟨.invalidNumber "1_x", ⟨2, 3⟩⟩ := rfl
  have hvector : read "(f [\\] ; (" = .error ⟨.unexpectedEnd (.closer .square), ⟨1, 11⟩⟩ := rfl
  exact ⟨⟨hnumber, (read_error_located hnumber).1⟩, hvector, (read_error_located hvector).1⟩

end SmallLisp
