/-! Settings: trees of named values, as a TOML document describes them, and the rules on which
tables a document may extend. -/

namespace SmallLisp

namespace Settings

/-- How a table came about, which decides what may be added to it later. -/
inductive TableKind where
  /-- Named by a header, or an element of an array of tables. -/
  | header
  /-- On the way to a table that a header names. -/
  | passed
  /-- On the way to a value with a dotted key. -/
  | dotted
  /-- Written in braces, complete where it ends. -/
  | inline
  deriving DecidableEq

end Settings

inductive Setting where
  | string (value : String)
  | integer (value : Int)
  /-- A float, as it is written. -/
  | float (literal : String)
  | boolean (value : Bool)
  /-- A date, a time or both, as it is written. -/
  | moment (literal : String)
  | array (items : List Setting)
  | table (kind : Settings.TableKind) (entries : List (String × Setting))
  /-- An array of tables, the last one first. -/
  | tables (elements : List (List (String × Setting)))

namespace Settings

/-- Named values in the order of the document. -/
abbrev Entries := List (String × Setting)

/-- Replaces the value of a key, which may be missing. -/
def alter (key : String) (f : Option Setting → Option Setting) : Entries → Option Entries
  | [] => (f none).map fun v => [(key, v)]
  | (k, v) :: es =>
    if k = key then (f (some v)).map fun v => (k, v) :: es
    else (alter key f es).map ((k, v) :: ·)

/-- Changes the table at the end of a path, and makes the tables on the way that are missing. An
array of tables stands for its last element. A dotted key leads through no table that has a
header. -/
def within (dotted : Bool) (f : TableKind → Entries → Option Entries) :
    List String → TableKind → Entries → Option Entries
  | [], kind, es => f kind es
  | key :: keys, _, es =>
    alter key
      (fun
        | none =>
          let kind := if dotted then .dotted else .passed
          (within dotted f keys kind []).map (.table kind)
        | some (.table .inline _) => none
        | some (.table kind es) =>
          if dotted && kind = .header then none
          else (within dotted f keys kind es).map (.table kind)
        | some (.tables (es :: before)) =>
          (within dotted f keys .header es).map fun es => .tables (es :: before)
        | some _ => none)
      es

/-- Adds a value under a dotted key. The key must be new, and the tables that it passes must be
its own, or those of other dotted keys. -/
def insert (path : List String) (key : String) (v : Setting) (kind : TableKind) (es : Entries) :
    Option Entries :=
  within true
    (fun inner es =>
      if !path.isEmpty && inner ≠ .dotted then none
      else if (es.lookup key).isSome then none
      else some (es ++ [(key, v)]))
    path kind es

/-- Opens the table of a header. A table that has been passed only is opened as it is. -/
def openTable (path : List String) (key : String) (es : Entries) : Option Entries :=
  within false
    (fun _ =>
      alter key fun
        | none => some (.table .header [])
        | some (.table .passed es) => some (.table .header es)
        | some _ => none)
    path .header es

/-- Adds an element to the array of tables of a header. -/
def openElement (path : List String) (key : String) (es : Entries) : Option Entries :=
  within false
    (fun _ =>
      alter key fun
        | none => some (.tables [[]])
        | some (.tables elements) => some (.tables ([] :: elements))
        | some _ => none)
    path .header es

/-- Adds a value to the table at `header`. -/
def insertAt (header path : List String) (key : String) (v : Setting) (es : Entries) :
    Option Entries :=
  within false (insert path key v) header .header es

end Settings

end SmallLisp
