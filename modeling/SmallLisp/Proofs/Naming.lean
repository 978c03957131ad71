import SmallLisp.Proofs.Place

/-!
# Names and what they are translated to

A slash is in no identifier of a source name (`Identifier.not_mem_chars`), so a text with a slash
is not its own translation. A reference is an identifier unless its name is qualified
(`Expr.ofName_eq_ident`); a qualified name selects members from the translation of its first part,
and from that part itself only if it is its own translation (`Expr.ofName_member_iff`).
-/

namespace SmallLisp

open Program

namespace Text

/-! ## Upper-case forms -/

theorem letters_caseExpansions : ∀ e ∈ caseExpansions, ∀ n ∈ e.2, 0x41 ≤ n := by decide

theorem letters_caseRuns (r : CaseRun) (hr : r ∈ caseRuns) : 0x41 ≤ r.upper := by
  have hall : caseRuns.all (0x41 ≤ ·.upper) := by decide
  exact of_decide_eq_true (List.all_eq_true.1 hall r hr)

/-- A number that no character has stands for the character 0. -/
theorem toNat_ofNat_of_pos {n : Nat} (h : 0 < (Char.ofNat n).toNat) :
    (Char.ofNat n).toNat = n := by
  by_cases hn : n.isValidChar
  · rw [Char.ofNat, dif_pos hn]
    rfl
  · rw [Char.ofNat, dif_neg hn] at h
    exact absurd h (Nat.lt_irrefl 0)

theorem toNat_toUpper {c : Char} (h : c.toUpper ≠ c) : 0x41 ≤ c.toUpper.toNat := by
  by_cases hc : c.val ≥ 'a'.val ∧ c.val ≤ 'z'.val
  · have ha : 0x61 ≤ c.val.toNat := hc.1
    have hz : c.val.toNat ≤ 0x7a := hc.2
    have hdistance : ('A'.val - 'a'.val).toNat = 2 ^ 32 - 32 := rfl
    have hupper : (c.val + ('A'.val - 'a'.val)).toNat = c.val.toNat - 32 := by
      rw [UInt32.toNat_add, hdistance]
      omega
    unfold Char.toUpper
    rw [dif_pos hc]
    change 0x41 ≤ (c.val + ('A'.val - 'a'.val)).toNat
    omega
  · exact absurd (dif_neg hc) h

/-- In upper case, no character before the capital letters comes from another one. -/
theorem mem_upperCase {c d : Char} (hpos : 0 < d.toNat) (hd : d.toNat < 0x41)
    (h : d ∈ upperCase c) : d = c := by
  unfold upperCase at h
  split at h
  · obtain rfl := List.mem_singleton.1 h
    by_contra hne
    have := toNat_toUpper hne
    omega
  · split at h
    · rename_i ns hns
      obtain ⟨n, hn, rfl⟩ := List.mem_map.1 h
      obtain ⟨before, after, heq, -⟩ := List.lookup_eq_some_iff.1 hns
      have := letters_caseExpansions (c.toNat, ns) (heq ▸ by simp) n hn
      rw [toNat_ofNat_of_pos hpos] at hd
      omega
    · obtain rfl := List.mem_singleton.1 h
      rw [toNat_ofNat_of_pos hpos] at hd
      cases hrun : caseRuns.findSome? (·.upper? c.toNat) with
      | none => rw [Option.getD_none, Char.ofNat_toNat]
      | some n =>
        rw [hrun, Option.getD_some] at hd
        obtain ⟨r, hr, hn⟩ := List.exists_of_findSome?_eq_some hrun
        have := letters_caseRuns r hr
        unfold CaseRun.upper? at hn
        split at hn
        · cases hn
          omega
        · cases hn

end Text

/-! ## Identifiers of source names -/

namespace Identifier

theorem mem_capitalize {d : Char} {cs : List Char} (h : d ∈ capitalize cs) :
    ∃ c, d = allowed c ∨ d ∈ Text.upperCase (allowed c) := by
  cases cs with
  | nil => cases h
  | cons c cs =>
    obtain h | h := List.mem_append.1 h
    · exact ⟨c, .inr h⟩
    · obtain ⟨c', -, rfl⟩ := List.mem_map.1 h
      exact ⟨c', .inl rfl⟩

theorem mem_joinWords {d : Char} {exported : Bool} {ws : List (List Char)}
    (h : d ∈ joinWords exported ws) : ∃ c, d = allowed c ∨ d ∈ Text.upperCase (allowed c) := by
  cases ws with
  | nil => cases h
  | cons w ws =>
    obtain h | h := List.mem_append.1 h
    · split at h
      · exact mem_capitalize h
      · obtain ⟨c, -, rfl⟩ := List.mem_map.1 h
        exact ⟨c, .inl rfl⟩
    · obtain ⟨w', -, h⟩ := List.mem_flatMap.1 h
      exact mem_capitalize h

/-- The escapes add underscores only. -/
theorem mem_chars_iff {d : Char} (hd : d ≠ '_') {exported : Bool} {name : List Char} :
    d ∈ chars exported name ↔ d ∈ joinWords exported (words name) := by
  have hfill {cs : List Char} : d ∈ fillEmpty cs ↔ d ∈ cs := by
    unfold fillEmpty
    split
    · rename_i hcs
      simp [hd, List.isEmpty_iff.1 hcs]
    · rfl
  have hstart {cs : List Char} : d ∈ escapeStart cs ↔ d ∈ cs := by
    unfold escapeStart
    split <;> simp [hd]
  have hmark {cs : List Char} : d ∈ escapeMark cs ↔ d ∈ cs := by
    unfold escapeMark
    split <;> simp [hd]
  rw [chars, hmark, hstart, hfill]

theorem mem_chars {d : Char} {exported : Bool} {name : List Char} (h : d ∈ chars exported name) :
    d = '_' ∨ ∃ c, d = allowed c ∨ d ∈ Text.upperCase (allowed c) := by
  by_cases hd : d = '_'
  · exact .inl hd
  · exact .inr (mem_joinWords ((mem_chars_iff hd).1 h))

theorem allowed_ne_slash (c : Char) : allowed c ≠ '/' := by
  intro h
  unfold allowed at h
  split at h
  · rename_i hc
    rw [h] at hc
    exact absurd hc (by decide)
  · exact absurd h (by decide)

theorem not_mem_chars (exported : Bool) (name : List Char) : '/' ∉ chars exported name := by
  intro h
  obtain h | ⟨c, h | h⟩ := mem_chars h
  · exact absurd h (by decide)
  · exact allowed_ne_slash c h.symm
  · exact allowed_ne_slash c (Text.mem_upperCase (by decide) (by decide) h).symm

theorem fillEmpty_ne_nil (cs : List Char) : fillEmpty cs ≠ [] := by
  unfold fillEmpty
  split
  · exact List.cons_ne_nil _ _
  · rename_i hcs
    exact fun h => hcs (List.isEmpty_iff.2 h)

theorem chars_ne_nil (exported : Bool) (name : List Char) : chars exported name ≠ [] := by
  have hstart {cs : List Char} (h : cs ≠ []) : escapeStart cs ≠ [] := by
    unfold escapeStart
    split
    · exact List.cons_ne_nil _ _
    · exact h
  unfold chars escapeMark
  split
  · exact List.append_ne_nil_of_right_ne_nil _ (List.cons_ne_nil _ _)
  · exact hstart (fillEmpty_ne_nil _)

/-- No part of the name between slashes is empty. -/
def Whole (name : String) : Prop := ∀ part ∈ Text.split '/' name.toList, part ≠ []

/-- The name leads from a package to a member: it has slashes, and something around each. -/
def Qualified (name : String) : Prop := '/' ∈ name.toList ∧ Whole name

instance : DecidablePred Whole := fun _ => inferInstanceAs (Decidable (∀ _ ∈ _, _))

instance : DecidablePred Qualified := fun _ => inferInstanceAs (Decidable (_ ∧ _))

/-- The identifier of a name has one part. -/
theorem split_ofName (name : String) :
    Text.split '/' (ofName name).toList = [(ofName name).toList] ∧ (ofName name).toList ≠ [] := by
  rw [ofName, String.toList_ofList]
  exact ⟨Text.split_of_not_mem (not_mem_chars false _), chars_ne_nil false _⟩

end Identifier

/-! ## References -/

namespace Program.Expr

/-- Selects members in turn. -/
def select (base : Expr) (members : List String) : Expr := members.foldl .selector base

theorem select_selector_ne_ident {base : Expr} {field x : String} {members : List String} :
    select (.selector base field) members ≠ .ident x := by
  induction members generalizing base field with
  | nil => nofun
  | cons member members ih => exact ih

theorem items_select {p : Place} {c : Bool} {x : String} (members : List String) :
    (select (.ident x) members).items p c = [(p, .name x)] := items_selectors id members

theorem select_ident_inj {x y : String} {xs ys : List String}
    (h : select (.ident x) xs = select (.ident y) ys) : x = y := by
  have hitems := congrArg (items [] false) h
  rw [items_select, items_select] at hitems
  cases hitems
  rfl

theorem ofName_of_not_qualified {name : String} (h : ¬Identifier.Qualified name) :
    ofName name = .ident (Identifier.ofName name) := by
  unfold ofName
  split
  · rename_i package member members hsplit
    rw [if_pos]
    by_contra hany
    refine h ⟨?_, fun part hpart hempty => hany (List.any_eq_true.2 ⟨part, hsplit ▸ hpart, ?_⟩)⟩
    · by_contra hmem
      rw [Text.split_of_not_mem hmem] at hsplit
      cases hsplit
    · exact List.isEmpty_iff.2 hempty
  · rfl

/-- A qualified name selects exported members from its first part. -/
theorem ofName_of_whole {name : String} {package member : List Char} {members : List (List Char)}
    (hsplit : Text.split '/' name.toList = package :: member :: members)
    (hwhole : Identifier.Whole name) :
    ofName name = select (.ident (String.ofList (Identifier.chars false package)))
      ((member :: members).map fun part => String.ofList (Identifier.chars true part)) := by
  have hany : ¬(package :: member :: members).any List.isEmpty := by
    intro h
    obtain ⟨part, hpart, hempty⟩ := List.any_eq_true.1 h
    exact hwhole part (hsplit ▸ hpart) (List.isEmpty_iff.1 hempty)
  rw [ofName, hsplit]
  simp only [if_neg hany, select, List.foldl_map]

theorem split_of_qualified {name : String} (h : Identifier.Qualified name) :
    ∃ package member members, Text.split '/' name.toList = package :: member :: members := by
  obtain ⟨before, after, heq⟩ := List.append_of_mem h.1
  rw [heq, Text.split_append]
  obtain ⟨part, parts, hbefore⟩ := List.exists_cons_of_ne_nil (Text.split_ne_nil '/' before)
  obtain ⟨part', parts', hafter⟩ := List.exists_cons_of_ne_nil (Text.split_ne_nil '/' after)
  rw [hbefore, hafter]
  cases parts with
  | nil => exact ⟨_, _, _, rfl⟩
  | cons second parts => exact ⟨_, _, _, rfl⟩

/-- Every reference starts at the identifier of some name. -/
theorem ofName_eq_select (name : String) :
    ∃ root members, ofName name = select (.ident (Identifier.ofName root)) members := by
  by_cases hq : Identifier.Qualified name
  · obtain ⟨package, member, members, hsplit⟩ := split_of_qualified hq
    have h := ofName_of_whole hsplit hq.2
    rw [← String.toList_ofList (l := package)] at h
    exact ⟨_, _, h⟩
  · exact ⟨name, [], ofName_of_not_qualified hq⟩

theorem ofName_eq_ident {name x : String} :
    ofName name = .ident x ↔ ¬Identifier.Qualified name ∧ Identifier.ofName name = x := by
  constructor
  · intro h
    have hname : ¬Identifier.Qualified name := by
      intro hq
      obtain ⟨package, member, members, hsplit⟩ := split_of_qualified hq
      rw [ofName_of_whole hsplit hq.2] at h
      exact select_selector_ne_ident h
    rw [ofName_of_not_qualified hname] at h
    exact ⟨hname, Expr.ident.inj h⟩
  · rintro ⟨hname, rfl⟩
    exact ofName_of_not_qualified hname

theorem ofName_of_qualified {name : String} (h : Identifier.Qualified name) :
    ∃ base field, ofName name = .selector base field :=
  (ofName_cases name).resolve_left fun hident => (ofName_eq_ident.1 hident).1 h

/-- Names in the place of declared targets declare their identifiers, except for qualified ones. -/
theorem names_ofName (xs : List String) :
    names (xs.map ofName) =
      (xs.filter fun x => ¬Identifier.Qualified x).map Identifier.ofName := by
  induction xs with
  | nil => rfl
  | cons x xs ih =>
    have ih : List.filterMap _ (xs.map ofName) = _ := ih
    rw [List.map_cons, names, List.filterMap_cons, ih]
    by_cases hq : Identifier.Qualified x
    · obtain ⟨base, field, h⟩ := ofName_of_qualified hq
      rw [h, List.filter_cons_of_neg (by simpa using hq)]
    · rw [ofName_of_not_qualified hq, List.filter_cons_of_pos (by simpa using hq), List.map_cons]

theorem split_member (package x : String) :
    Text.split '/' (package ++ "/" ++ x).toList =
      Text.split '/' package.toList ++ Text.split '/' x.toList := by
  rw [String.toList_append, String.toList_append, List.append_assoc]
  exact Text.split_append '/' package.toList x.toList

/-- The members of a package whose name has one part. -/
theorem ofName_member {package x : String} (hone : Text.split '/' package.toList = [package.toList])
    (hne : package.toList ≠ []) (hx : Identifier.Whole x) :
    ofName (package ++ "/" ++ x) = select (.ident (Identifier.ofName package))
      ((Text.split '/' x.toList).map fun part => String.ofList (Identifier.chars true part)) := by
  have hsplit := split_member package x
  have hwhole : Identifier.Whole (package ++ "/" ++ x) := by
    intro part hpart
    rw [hsplit, hone] at hpart
    obtain rfl | hpart := List.mem_cons.1 hpart
    · exact hne
    · exact hx part hpart
  obtain ⟨part, parts, hparts⟩ := List.exists_cons_of_ne_nil (Text.split_ne_nil '/' x.toList)
  rw [hone, hparts] at hsplit
  rw [ofName_of_whole hsplit hwhole, hparts]
  rfl

/-- A reference to something in a package selects it from the name of the package as it is written
exactly if that name is its own translation and nothing is missing between slashes. -/
theorem ofName_member_iff {package x : String} :
    (∃ member members,
      ofName (package ++ "/" ++ x) = select (.ident package) (member :: members)) ↔
      Identifier.ofName package = package ∧ Identifier.Whole x := by
  constructor
  · rintro ⟨member, members, h⟩
    have hq : Identifier.Qualified (package ++ "/" ++ x) := by
      by_contra hn
      rw [ofName_of_not_qualified hn] at h
      exact select_selector_ne_ident h.symm
    have hx : Identifier.Whole x := by
      intro part hpart
      apply hq.2
      rw [split_member]
      exact List.mem_append_right _ hpart
    obtain ⟨root, roots, hroot⟩ := ofName_eq_select (package ++ "/" ++ x)
    have hpackage : Identifier.ofName root = package := select_ident_inj (hroot.symm.trans h)
    obtain ⟨hone, hne⟩ := Identifier.split_ofName root
    rw [hpackage] at hone hne
    rw [ofName_member hone hne hx] at h
    exact ⟨select_ident_inj h, hx⟩
  · rintro ⟨hpackage, hx⟩
    obtain ⟨hone, hne⟩ := Identifier.split_ofName package
    rw [hpackage] at hone hne
    obtain ⟨part, parts, hparts⟩ := List.exists_cons_of_ne_nil (Text.split_ne_nil '/' x.toList)
    have h := ofName_member hone hne hx
    rw [hpackage, hparts] at h
    exact ⟨_, _, h⟩

end Program.Expr

end SmallLisp
