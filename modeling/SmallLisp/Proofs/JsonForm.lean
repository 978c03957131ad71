import Mathlib.Data.List.Perm.Basic
import Mathlib.Logic.Relation
import SmallLisp.Datum.Json

/-!
# The JSON form of data

What the fields of a JSON object must hold to be those of a datum depends on its field `kind` alone
(`Json.required`). The decoder reads these fields by their names (`Datum.ofJson?_object`), so it
does not see their order or any other field, and it fails where one of them is missing or of a wrong
type. `Widens` and `Spoils` are these two kinds of changes, at any depth (`Datum.json_form`).
-/

namespace SmallLisp

open Datum (ofJson? ofJsons? ofJsonArray? datumField? listField? textField?)

/-- What a field in the JSON form of a datum holds. -/
inductive FieldType where
  | kind
  | text
  | numberKind
  | datum
  | data
  deriving DecidableEq

namespace Json

/-- The kinds of data. -/
def kinds : List String := ["call", "vector", "number", "string", "ident"]

/-- The fields of a datum besides `kind`. -/
def partsOf : String → List (String × FieldType)
  | "call" => [("callee", .datum), ("args", .data)]
  | "vector" => [("elements", .data)]
  | "number" => [("literal", .text), ("number", .numberKind)]
  | "string" => [("value", .text)]
  | "ident" => [("name", .text)]
  | _ => []

/-- The fields that an object must have to be a datum of its kind. -/
def required (fields : List (String × Json)) : List (String × FieldType) :=
  ("kind", .kind) :: ((textField? "kind" fields).map partsOf).getD []

def setField (name : String) (value : Json) (fields : List (String × Json)) :
    List (String × Json) :=
  fields.map fun field => if field.1 = name then (name, value) else field

def dropField (name : String) (fields : List (String × Json)) : List (String × Json) :=
  fields.filter fun field => field.1 ≠ name

/-- Objects, and arrays: whether some array may stand for a datum is left open. -/
def IsComposite : Json → Prop
  | .object _ | .array _ => True
  | _ => False

end Json

open Json

/-- The values of the type of a field, as far as their outermost shape shows it. -/
def FieldType.Admits : FieldType → Json → Prop
  | .kind, .string s => s ∈ kinds
  | .text, .string _ => True
  | .numberKind, .string s => s ∈ ["int", "float", "imag", "char"]
  | .datum, j => j.IsComposite
  | .data, .array items => ∀ j ∈ items, j.IsComposite
  | _, _ => False

/-- A change that no decoder should see: at any depth, the fields of an object in another order, or
one more field that its kind does not have. An object has no two fields of one name. -/
inductive Json.Widens : Json → Json → Prop
  | reorder {fields fields' : List (String × Json)} :
    (fields.map Prod.fst).Nodup → fields.Perm fields' → Widens (.object fields) (.object fields')
  | add {before after : List (String × Json)} {name : String} (value : Json) :
    name ∉ (required (before ++ after)).map Prod.fst →
      Widens (.object (before ++ after)) (.object (before ++ (name, value) :: after))
  | field {fields : List (String × Json)} {name : String} {j j' : Json} :
    field? name fields = some j → Widens j j' →
      Widens (.object fields) (.object (setField name j' fields))
  | item {before after : List Json} {j j' : Json} :
    Widens j j' → Widens (.array (before ++ j :: after)) (.array (before ++ j' :: after))

/-- A change that leaves no datum: at the depth of some datum, a required field is missing or holds
a value of a wrong type. -/
inductive Json.Spoils : Json → Json → Prop
  | missing {fields : List (String × Json)} {name : String} {type : FieldType} :
    (name, type) ∈ required fields → Spoils (.object fields) (.object (dropField name fields))
  | mistyped {fields : List (String × Json)} {name : String} {type : FieldType} {value : Json} :
    (name, type) ∈ required fields → ¬type.Admits value →
      Spoils (.object fields) (.object (setField name value fields))
  | datum {fields : List (String × Json)} {name : String} {j j' : Json} :
    (name, .datum) ∈ required fields → field? name fields = some j → Spoils j j' →
      Spoils (.object fields) (.object (setField name j' fields))
  | data {fields : List (String × Json)} {name : String} {before after : List Json}
    {j j' : Json} :
    (name, .data) ∈ required fields → field? name fields = some (.array (before ++ j :: after)) →
      Spoils j j' →
        Spoils (.object fields) (.object (setField name (.array (before ++ j' :: after)) fields))

variable {fields fields' : List (String × Json)} {name other : String} {j j' value : Json}
  {js ks : List Json} {d : Datum} {ds : List Datum} {type : FieldType}

/-! ## Fields of an object -/

namespace Json

theorem field?_setField_self (h : field? name fields = some j) :
    field? name (setField name value fields) = some value := by
  induction fields with
  | nil => cases h
  | cons field fields ih =>
    obtain ⟨key, i⟩ := field
    rw [setField, List.map_cons, ← setField]
    by_cases hkey : key = name
    · rw [if_pos hkey, field?, if_pos rfl]
    · rw [field?, if_neg hkey] at h
      rw [if_neg hkey, field?, if_neg hkey, ih h]

theorem eq_of_field?_setField (h : field? name (setField name value fields) = some j) :
    j = value := by
  induction fields with
  | nil => cases h
  | cons field fields ih =>
    rw [setField, List.map_cons, ← setField] at h
    by_cases hkey : field.1 = name
    · rw [if_pos hkey, field?, if_pos rfl] at h
      exact (Option.some.inj h).symm
    · rw [if_neg hkey, field?, if_neg hkey] at h
      exact ih h

theorem field?_setField_of_ne (h : other ≠ name) :
    field? other (setField name value fields) = field? other fields := by
  induction fields with
  | nil => rfl
  | cons field fields ih =>
    obtain ⟨key, i⟩ := field
    rw [setField, List.map_cons, ← setField]
    by_cases hkey : key = name
    · rw [if_pos hkey, field?, if_neg h.symm, field?, if_neg (hkey ▸ h.symm), ih]
    · rw [if_neg hkey, field?, field?, ih]

theorem field?_dropField_self : field? name (dropField name fields) = none := by
  induction fields with
  | nil => rfl
  | cons field fields ih =>
    obtain ⟨key, i⟩ := field
    by_cases hkey : key = name
    · rw [dropField, List.filter_cons_of_neg (by simp [hkey]), ← dropField, ih]
    · rw [dropField, List.filter_cons_of_pos (by simp [hkey]), ← dropField, field?, if_neg hkey, ih]

theorem field?_dropField_of_ne (h : other ≠ name) :
    field? other (dropField name fields) = field? other fields := by
  induction fields with
  | nil => rfl
  | cons field fields ih =>
    obtain ⟨key, j⟩ := field
    by_cases hkey : key = name
    · simpa [dropField, hkey, field?, h.symm] using ih
    · by_cases hother : key = other
      · simp [dropField, field?, hother, h]
      · simpa [dropField, hkey, field?, hother] using ih

theorem field?_insert_of_ne {before after : List (String × Json)} (h : other ≠ name) :
    field? other (before ++ (name, value) :: after) = field? other (before ++ after) := by
  induction before with
  | nil => simp [field?, h.symm]
  | cons field before ih => simp only [List.cons_append, field?, ih]

/-- Where names are not repeated, a field is found if and only if it is there. -/
theorem field?_eq_some_iff_mem (hnodup : (fields.map Prod.fst).Nodup) :
    field? name fields = some j ↔ (name, j) ∈ fields := by
  induction fields with
  | nil => simp [field?]
  | cons field fields ih =>
    obtain ⟨key, i⟩ := field
    obtain ⟨hkey, hnodup⟩ := List.nodup_cons.1 hnodup
    rw [field?, List.mem_cons, Prod.mk.injEq]
    split
    · rename_i heq
      subst heq
      have hmem : (key, j) ∉ fields := fun hmem => hkey (List.mem_map.2 ⟨(key, j), hmem, rfl⟩)
      simp [hmem, eq_comm]
    · rename_i hne
      simp [ih hnodup, Ne.symm hne]

theorem field?_perm (hnodup : (fields.map Prod.fst).Nodup) (hperm : fields.Perm fields') :
    field? name fields' = field? name fields := by
  have hnodup' : (fields'.map Prod.fst).Nodup := (hperm.map Prod.fst).nodup_iff.1 hnodup
  refine Option.ext fun j => ?_
  rw [field?_eq_some_iff_mem hnodup, field?_eq_some_iff_mem hnodup', hperm.mem_iff]

end Json

/-! ## The decoder -/

namespace Datum

theorem datumField?_eq_some_iff :
    datumField? name fields = some d ↔ ∃ j, field? name fields = some j ∧ ofJson? j = some d := by
  induction fields with
  | nil => simp [datumField?, field?]
  | cons field fields ih =>
    obtain ⟨key, j⟩ := field
    rw [datumField?, field?]
    split
    · simp
    · exact ih

theorem listField?_eq_some_iff :
    listField? name fields = some ds ↔
      ∃ j, field? name fields = some j ∧ ofJsonArray? j = some ds := by
  induction fields with
  | nil => simp [listField?, field?]
  | cons field fields ih =>
    obtain ⟨key, j⟩ := field
    rw [listField?, field?]
    split
    · simp
    · exact ih

theorem textField?_eq_some_iff {s : String} :
    textField? name fields = some s ↔ field? name fields = some (.string s) := by
  unfold textField?
  cases field? name fields with
  | none => simp
  | some j => cases j <;> simp [Json.string?]

theorem ofJsons?_cons_eq_some_iff :
    ofJsons? (j :: js) = some ds ↔
      ∃ d es, ofJson? j = some d ∧ ofJsons? js = some es ∧ ds = d :: es := by
  simp only [ofJsons?, Option.bind_eq_bind, Option.bind_eq_some_iff, Option.pure_def,
    Option.some.injEq]
  grind

theorem ofJsons?_middle_eq_some_iff :
    ofJsons? (js ++ j :: ks) = some ds ↔
      ∃ front d back, ofJsons? js = some front ∧ ofJson? j = some d ∧ ofJsons? ks = some back ∧
        ds = front ++ d :: back := by
  induction js generalizing ds with
  | nil =>
    rw [List.nil_append, ofJsons?_cons_eq_some_iff]
    simp [ofJsons?]
  | cons i js ih =>
    rw [List.cons_append, ofJsons?_cons_eq_some_iff]
    constructor
    · rintro ⟨e, es, he, hes, rfl⟩
      obtain ⟨front, d, back, hfront, hd, hback, rfl⟩ := ih.1 hes
      exact ⟨e :: front, d, back, ofJsons?_cons_eq_some_iff.2 ⟨e, front, he, hfront, rfl⟩,
        hd, hback, rfl⟩
    · rintro ⟨front, d, back, hfront, hd, hback, rfl⟩
      obtain ⟨e, es, he, hes, rfl⟩ := ofJsons?_cons_eq_some_iff.1 hfront
      exact ⟨e, es ++ d :: back, he, ih.2 ⟨es, d, back, hes, hd, hback, rfl⟩, rfl⟩

/-- The fields of an object are those of a datum. -/
inductive Decodes (fields : List (String × Json)) : Datum → Prop
  | call {callee : Datum} {args : List Datum} {j i : Json} :
    field? "kind" fields = some (.string "call") →
      field? "callee" fields = some j → ofJson? j = some callee →
        field? "args" fields = some i → ofJsonArray? i = some args →
          Decodes fields (.call callee args)
  | vector {elements : List Datum} {i : Json} :
    field? "kind" fields = some (.string "vector") →
      field? "elements" fields = some i → ofJsonArray? i = some elements →
        Decodes fields (.vector elements)
  | number {literal : String} {kind : NumberKind} :
    field? "kind" fields = some (.string "number") →
      field? "literal" fields = some (.string literal) →
        field? "number" fields = some (.string kind.label) → Decodes fields (.number literal kind)
  | string {value : String} :
    field? "kind" fields = some (.string "string") →
      field? "value" fields = some (.string value) → Decodes fields (.string value)
  | symbol {name : String} :
    field? "kind" fields = some (.string "ident") →
      field? "name" fields = some (.string name) → Decodes fields (.symbol name)

theorem label_of_ofLabel? {label : String} {kind : NumberKind}
    (h : NumberKind.ofLabel? label = some kind) : label = kind.label := by
  unfold NumberKind.ofLabel? at h
  split at h <;> cases h <;> rfl

theorem ofJson?_object : ofJson? (.object fields) = some d ↔ Decodes fields d := by
  constructor
  · intro h
    rw [ofJson?] at h
    split at h
    · rename_i hkind
      obtain ⟨callee, hcallee, h⟩ := Option.bind_eq_some_iff.1 h
      obtain ⟨args, hargs, h⟩ := Option.bind_eq_some_iff.1 h
      obtain ⟨j, hj, hcallee⟩ := datumField?_eq_some_iff.1 hcallee
      obtain ⟨i, hi, hargs⟩ := listField?_eq_some_iff.1 hargs
      cases h
      exact .call (textField?_eq_some_iff.1 hkind) hj hcallee hi hargs
    · rename_i hkind
      obtain ⟨elements, helements, h⟩ := Option.bind_eq_some_iff.1 h
      obtain ⟨i, hi, helements⟩ := listField?_eq_some_iff.1 helements
      cases h
      exact .vector (textField?_eq_some_iff.1 hkind) hi helements
    · rename_i hkind
      obtain ⟨literal, hliteral, h⟩ := Option.bind_eq_some_iff.1 h
      obtain ⟨label, hlabel, h⟩ := Option.bind_eq_some_iff.1 h
      obtain ⟨kind, hofLabel, h⟩ := Option.bind_eq_some_iff.1 h
      cases h
      rw [label_of_ofLabel? hofLabel] at hlabel
      exact .number (textField?_eq_some_iff.1 hkind) (textField?_eq_some_iff.1 hliteral)
        (textField?_eq_some_iff.1 hlabel)
    · rename_i hkind
      obtain ⟨value, hvalue, h⟩ := Option.bind_eq_some_iff.1 h
      cases h
      exact .string (textField?_eq_some_iff.1 hkind) (textField?_eq_some_iff.1 hvalue)
    · rename_i hkind
      obtain ⟨name, hname, h⟩ := Option.bind_eq_some_iff.1 h
      cases h
      exact .symbol (textField?_eq_some_iff.1 hkind) (textField?_eq_some_iff.1 hname)
    · cases h
  · intro h
    cases h with
    | call hkind hj hcallee hi hargs =>
      simp [ofJson?, textField?_eq_some_iff.2 hkind, datumField?_eq_some_iff.2 ⟨_, hj, hcallee⟩,
        listField?_eq_some_iff.2 ⟨_, hi, hargs⟩]
    | vector hkind hi helements =>
      simp [ofJson?, textField?_eq_some_iff.2 hkind,
        listField?_eq_some_iff.2 ⟨_, hi, helements⟩]
    | number hkind hliteral hlabel =>
      simp [ofJson?, textField?_eq_some_iff.2 hkind, textField?_eq_some_iff.2 hliteral,
        textField?_eq_some_iff.2 hlabel]
    | string hkind hvalue =>
      simp [ofJson?, textField?_eq_some_iff.2 hkind, textField?_eq_some_iff.2 hvalue]
    | symbol hkind hname =>
      simp [ofJson?, textField?_eq_some_iff.2 hkind, textField?_eq_some_iff.2 hname]

/-! ## Encoding and decoding -/

mutual

theorem ofJson?_toJson : ∀ d : Datum, ofJson? d.toJson = some d
  | .call callee args =>
    ofJson?_object.2 (.call rfl rfl (ofJson?_toJson callee) rfl (ofJsons?_toJsons args))
  | .vector elements => ofJson?_object.2 (.vector rfl rfl (ofJsons?_toJsons elements))
  | .number _ _ => ofJson?_object.2 (.number rfl rfl rfl)
  | .string _ => ofJson?_object.2 (.string rfl rfl)
  | .symbol _ => ofJson?_object.2 (.symbol rfl rfl)

theorem ofJsons?_toJsons : ∀ ds : List Datum, ofJsons? (toJsons ds) = some ds
  | [] => rfl
  | d :: ds => ofJsons?_cons_eq_some_iff.2 ⟨d, ds, ofJson?_toJson d, ofJsons?_toJsons ds, rfl⟩

end

/-- The encoder writes the required fields of a datum and no others. -/
theorem required_toJson (d : Datum) :
    ∃ fields, d.toJson = .object fields ∧
      fields.map Prod.fst = (required fields).map Prod.fst := by
  cases d <;> exact ⟨_, rfl, rfl⟩

/-! ## Changes that keep the datum -/

/-- Whatever is read from `j`, in any of the places where a value may stand, is read from `j'`. -/
structure Keeps (j j' : Json) : Prop where
  datum : ∀ d, ofJson? j = some d → ofJson? j' = some d
  data : ∀ ds, ofJsonArray? j = some ds → ofJsonArray? j' = some ds
  text : ∀ s, j = .string s → j' = .string s

theorem Keeps.refl (j : Json) : Keeps j j := ⟨fun _ => id, fun _ => id, fun _ => id⟩

/-- Only the required fields matter. -/
theorem Decodes.keep (h : Decodes fields d)
    (hkeep : ∀ name ∈ (required fields).map Prod.fst, ∀ j, field? name fields = some j →
      ∃ j', field? name fields' = some j' ∧ Keeps j j') : Decodes fields' d := by
  have hnames {kind : String} (hkind : field? "kind" fields = some (.string kind)) :
      required fields = ("kind", .kind) :: partsOf kind := by
    rw [required, textField?_eq_some_iff.2 hkind]
    rfl
  have htext {name s : String} (hname : name ∈ (required fields).map Prod.fst)
      (h : field? name fields = some (.string s)) : field? name fields' = some (.string s) := by
    obtain ⟨j', hj', hkept⟩ := hkeep name hname _ h
    rw [hj', hkept.text s rfl]
  have hkindOf {kind : String} (hkind : field? "kind" fields = some (.string kind)) :=
    htext (by rw [hnames hkind]; exact List.mem_cons_self) hkind
  cases h with
  | call hkind hj hcallee hi hargs =>
    obtain ⟨j', hj', hkeepsCallee⟩ := hkeep "callee" (by simp [hnames hkind, partsOf]) _ hj
    obtain ⟨i', hi', hkeepsArgs⟩ := hkeep "args" (by simp [hnames hkind, partsOf]) _ hi
    exact .call (hkindOf hkind) hj' (hkeepsCallee.datum _ hcallee) hi' (hkeepsArgs.data _ hargs)
  | vector hkind hi helements =>
    obtain ⟨i', hi', hkeeps⟩ := hkeep "elements" (by simp [hnames hkind, partsOf]) _ hi
    exact .vector (hkindOf hkind) hi' (hkeeps.data _ helements)
  | number hkind hliteral hlabel =>
    exact .number (hkindOf hkind) (htext (by simp [hnames hkind, partsOf]) hliteral)
      (htext (by simp [hnames hkind, partsOf]) hlabel)
  | string hkind hvalue =>
    exact .string (hkindOf hkind) (htext (by simp [hnames hkind, partsOf]) hvalue)
  | symbol hkind hname =>
    exact .symbol (hkindOf hkind) (htext (by simp [hnames hkind, partsOf]) hname)

theorem Keeps.object
    (hkeep : ∀ name ∈ (required fields).map Prod.fst, ∀ j, field? name fields = some j →
      ∃ j', field? name fields' = some j' ∧ Keeps j j') :
    Keeps (.object fields) (.object fields') :=
  ⟨fun _ h => ofJson?_object.2 ((ofJson?_object.1 h).keep hkeep), nofun, nofun⟩

theorem Keeps.item {before after : List Json} (h : Keeps j j') :
    Keeps (.array (before ++ j :: after)) (.array (before ++ j' :: after)) := by
  refine ⟨nofun, fun ds hds => ?_, nofun⟩
  rw [ofJsonArray?] at hds ⊢
  obtain ⟨front, d, back, hfront, hd, hback, rfl⟩ := ofJsons?_middle_eq_some_iff.1 hds
  exact ofJsons?_middle_eq_some_iff.2 ⟨front, d, back, hfront, h.datum d hd, hback, rfl⟩

end Datum

open Datum

theorem Json.Widens.keeps (h : Widens j j') : Keeps j j' := by
  induction h with
  | reorder hnodup hperm =>
    exact .object fun name _ j hj => ⟨j, (field?_perm hnodup hperm).trans hj, .refl j⟩
  | add value hname =>
    refine .object fun other hmem j hj => ⟨j, ?_, .refl j⟩
    rwa [field?_insert_of_ne]
    rintro rfl
    exact hname hmem
  | @field fields name j j' hfield _ ih =>
    refine .object fun other _ i hi => ?_
    by_cases hother : other = name
    · subst hother
      rw [hfield] at hi
      cases hi
      exact ⟨j', field?_setField_self hfield, ih⟩
    · exact ⟨i, (field?_setField_of_ne hother).trans hi, .refl i⟩
  | item _ ih => exact ih.item

theorem ofJson?_of_widens (hwiden : Relation.ReflTransGen Widens j j')
    (h : ofJson? j = some d) : ofJson? j' = some d := by
  induction hwiden with
  | refl => exact h
  | tail _ hstep ih => exact hstep.keeps.datum d ih

/-! ## Changes that leave no datum -/

/-- The value can be read where a value of the type stands. -/
def FieldType.Holds : FieldType → Json → Prop
  | .kind, j => ∃ s ∈ kinds, j = .string s
  | .text, j => ∃ s, j = .string s
  | .numberKind, j => ∃ kind : NumberKind, j = .string kind.label
  | .datum, j => ∃ d, ofJson? j = some d
  | .data, j => ∃ ds, ofJsonArray? j = some ds

theorem isComposite_of_ofJson? (h : ofJson? j = some d) : j.IsComposite := by
  cases j with
  | object fields => trivial
  | null | bool | number | string | array => cases h

theorem FieldType.Holds.admits (h : type.Holds j) : type.Admits j := by
  cases type with
  | kind =>
    obtain ⟨s, hs, rfl⟩ := h
    exact hs
  | text =>
    obtain ⟨s, rfl⟩ := h
    trivial
  | numberKind =>
    obtain ⟨kind, rfl⟩ := h
    cases kind <;> simp [Admits, NumberKind.label]
  | datum =>
    obtain ⟨d, hd⟩ := h
    exact isComposite_of_ofJson? hd
  | data =>
    obtain ⟨ds, hds⟩ := h
    cases j with
    | array items =>
      intro j hj
      obtain ⟨before, after, rfl⟩ := List.append_of_mem hj
      obtain ⟨_, d, _, _, hd, _⟩ := ofJsons?_middle_eq_some_iff.1 hds
      exact isComposite_of_ofJson? hd
    | null | bool | number | string | object => cases hds

namespace Datum

theorem Decodes.parts (h : Decodes fields d) :
    ∃ kind ∈ kinds, field? "kind" fields = some (.string kind) ∧
      ∀ part ∈ partsOf kind, ∃ j, field? part.1 fields = some j ∧ part.2.Holds j := by
  cases h with
  | call hkind hj hcallee hi hargs =>
    exact ⟨"call", by simp [kinds], hkind, List.forall_mem_cons.2
      ⟨⟨_, hj, _, hcallee⟩, List.forall_mem_singleton.2 ⟨_, hi, _, hargs⟩⟩⟩
  | vector hkind hi helements =>
    exact ⟨"vector", by simp [kinds], hkind,
      List.forall_mem_singleton.2 ⟨_, hi, _, helements⟩⟩
  | number hkind hliteral hlabel =>
    exact ⟨"number", by simp [kinds], hkind, List.forall_mem_cons.2
      ⟨⟨_, hliteral, _, rfl⟩, List.forall_mem_singleton.2 ⟨_, hlabel, _, rfl⟩⟩⟩
  | string hkind hvalue =>
    exact ⟨"string", by simp [kinds], hkind, List.forall_mem_singleton.2 ⟨_, hvalue, _, rfl⟩⟩
  | symbol hkind hname =>
    exact ⟨"ident", by simp [kinds], hkind, List.forall_mem_singleton.2 ⟨_, hname, _, rfl⟩⟩

theorem Decodes.holds (h : Decodes fields d) (hmem : (name, type) ∈ required fields) :
    ∃ j, field? name fields = some j ∧ type.Holds j := by
  obtain ⟨kind, hkinds, hkind, hparts⟩ := h.parts
  rw [required, textField?_eq_some_iff.2 hkind] at hmem
  rcases List.mem_cons.1 hmem with heq | hpart
  · cases heq
    exact ⟨_, hkind, kind, hkinds, rfl⟩
  · exact hparts (name, type) hpart

end Datum

theorem Json.ne_kind_of_mem_partsOf {kind : String} (h : (name, type) ∈ partsOf kind) :
    name ≠ "kind" := by
  unfold partsOf at h
  split at h <;> simp only [List.mem_cons, Prod.mk.injEq, List.not_mem_nil, or_false] at h <;>
    grind

/-- A field stays required when it alone changes. -/
theorem Json.mem_required_of_same (hmem : (name, type) ∈ required fields)
    (hsame : ∀ other ≠ name, field? other fields' = field? other fields) :
    (name, type) ∈ required fields' := by
  rcases List.mem_cons.1 hmem with heq | hpart
  · exact heq ▸ List.mem_cons_self
  · cases hkind : textField? "kind" fields with
    | none =>
      rw [hkind] at hpart
      cases hpart
    | some kind =>
      rw [hkind] at hpart
      have hne : "kind" ≠ name := (ne_kind_of_mem_partsOf hpart).symm
      rw [textField?_eq_some_iff, ← hsame "kind" hne, ← textField?_eq_some_iff] at hkind
      rw [required, hkind]
      exact List.mem_cons_of_mem _ hpart

/-- Without a value that can be read in a required field there is no datum. -/
theorem Datum.ofJson?_eq_none_of_required (hmem : (name, type) ∈ required fields)
    (hsame : ∀ other ≠ name, field? other fields' = field? other fields)
    (hbad : ∀ j, field? name fields' = some j → ¬type.Holds j) :
    ofJson? (.object fields') = none := by
  rw [Option.eq_none_iff_forall_ne_some]
  intro d hd
  obtain ⟨j, hj, hholds⟩ := (ofJson?_object.1 hd).holds (mem_required_of_same hmem hsame)
  exact hbad j hj hholds

theorem Json.Spoils.ofJson?_eq_none (h : Spoils j j') : ofJson? j' = none := by
  induction h with
  | missing hmem =>
    refine ofJson?_eq_none_of_required hmem (fun _ => field?_dropField_of_ne) fun j hj => ?_
    rw [field?_dropField_self] at hj
    cases hj
  | mistyped hmem hwrong =>
    refine ofJson?_eq_none_of_required hmem (fun _ => field?_setField_of_ne) fun j hj => ?_
    rw [eq_of_field?_setField hj]
    exact fun hholds => hwrong hholds.admits
  | datum hmem _ _ ih =>
    refine ofJson?_eq_none_of_required hmem (fun _ => field?_setField_of_ne) fun j hj => ?_
    rw [eq_of_field?_setField hj]
    rintro ⟨d, hd⟩
    rw [ih] at hd
    cases hd
  | data hmem _ _ ih =>
    refine ofJson?_eq_none_of_required hmem (fun _ => field?_setField_of_ne) fun j hj => ?_
    rw [eq_of_field?_setField hj]
    rintro ⟨ds, hds⟩
    obtain ⟨_, d, _, _, hd, _⟩ := ofJsons?_middle_eq_some_iff.1 hds
    rw [ih] at hd
    cases hd

/-- A datum is its JSON form: the form has the required fields and is decoded as the datum, and from
any value that is decoded the datum can be encoded and decoded again. No change of order and no
further field has an effect, at any depth, and no required field can be missing or mistyped. -/
theorem Datum.json_form :
    (∀ d : Datum, ofJson? d.toJson = some d ∧
      ∃ fields, d.toJson = .object fields ∧
        fields.map Prod.fst = (required fields).map Prod.fst) ∧
      ∀ (j : Json) (d : Datum), ofJson? j = some d →
        ofJson? d.toJson = some d ∧
          (∀ j', Relation.ReflTransGen Widens j j' → ofJson? j' = some d) ∧
            ∀ j', Spoils j j' → ofJson? j' = none :=
  ⟨fun d => ⟨ofJson?_toJson d, required_toJson d⟩, fun _ d h =>
    ⟨ofJson?_toJson d, fun _ hwiden => ofJson?_of_widens hwiden h,
      fun _ hspoil => hspoil.ofJson?_eq_none⟩⟩

/-- The number in `[1]` is the same with its fields turned round and a note of its own, and it is
none where its kind is not written as it should be. -/
theorem Datum.json_form_number :
    ∃ j j' j'' : Json, ofJson? j = some (.vector [.number "1" .int]) ∧
      (Relation.ReflTransGen Widens j j' ∧ j ≠ j' ∧
        ofJson? j' = some (.vector [.number "1" .int])) ∧ Spoils j j'' ∧ ofJson? j'' = none := by
  let vector (number : List (String × Json)) : List (String × Json) :=
    [("kind", .string "vector"), ("elements", .array [.object number])]
  let one : List (String × Json) :=
    [("kind", .string "number"), ("literal", .string "1"), ("number", .string "int")]
  have hin {number number' : List (String × Json)}
      (h : Widens (.object number) (.object number')) :
      Widens (.object (vector number)) (.object (vector number')) :=
    @Widens.field (vector number) "elements" _ _ rfl (@Widens.item [] [] _ _ h)
  have hturn : Widens (.object (vector one)) (.object (vector one.reverse)) :=
    hin (.reorder (by decide) (List.reverse_perm one).symm)
  have hnote : Widens (.object (vector one.reverse))
      (.object (vector (("note", .null) :: one.reverse))) :=
    hin (@Widens.add [] one.reverse "note" .null (by decide))
  have hwiden := (Relation.ReflTransGen.single hturn).tail hnote
  have hmistyped : Spoils (.object one) (.object (setField "number" (.string "Int") one)) :=
    @Spoils.mistyped one "number" .numberKind (.string "Int") (by decide)
      (by simp [FieldType.Admits])
  have hspoil :=
    @Spoils.data (vector one) "elements" [] [] _ _ (by decide) rfl hmistyped
  have hdecode : ofJson? (.object (vector one)) = some (.vector [.number "1" .int]) := rfl
  obtain ⟨-, hkeep, hfail⟩ := Datum.json_form.2 _ _ hdecode
  exact ⟨_, _, _, hdecode, ⟨hwiden, by simp [vector, one], hkeep _ hwiden⟩,
    hspoil, hfail _ hspoil⟩

end SmallLisp
