import LoggerLint.Data.Checked
import LoggerLint.Toml.Number

/-!
# TOML documents under construction

A document is filled statement by statement. Which tables may still be opened or added to does not show in
its values, so it is kept beside them: tables that were opened by a header or by a dotted key cannot be
opened again, and a value that was written as a whole cannot be added to at all.
-/

namespace LoggerLint.Toml

/-- The names on the way to a value. -/
abbrev Key := List String

/-! ## Tables within tables -/

/-- Put a value in the place of the one under a name. -/
def replace (name : String) (value : Value) (entries : Entries) : Entries :=
  entries.map fun entry => if entry.1 = name then (name, value) else entry

/-- Change the table under a key, which is made where it is missing. A list stands for its last item if
`lists` says so. -/
def alter (lists : Bool) (change : Entries → Option Entries) : Key → Entries → Option Entries
  | [], entries => change entries
  | name :: key, entries =>
    match entries.lookup name with
    | none => (alter lists change key []).map fun inner => entries ++ [(name, .table inner)]
    | some (.table inner) =>
      (alter lists change key inner).map fun inner => replace name (.table inner) entries
    | some (.array items) =>
      match lists, items.getLast? with
      | true, some (.table inner) =>
        (alter lists change key inner).map fun inner =>
          replace name (.array (items.dropLast ++ [.table inner])) entries
      | _, _ => none
    | some _ => none

/-- Add a value under a name that is still free. -/
def add (name : String) (value : Value) (entries : Entries) : Option Entries :=
  match entries.lookup name with
  | none => some (entries ++ [(name, value)])
  | some _ => none

/-- Add an empty table to the list under a name. -/
def addItem (name : String) (entries : Entries) : Option Entries :=
  match entries.lookup name with
  | none => some (entries ++ [(name, .array [.table []])])
  | some (.array items) => some (replace name (.array (items ++ [.table []])) entries)
  | some _ => none

/-- Is this value a list or a table, written as a whole? -/
def isNested : Value → Bool
  | .array _ => true
  | .table _ => true
  | _ => false

/-! ## Documents -/

/-- A document and what may still be done with its tables. -/
structure Document where
  /-- the values -/
  entries : Entries := []
  /-- the table that statements now add to -/
  header : Key := []
  /-- the tables that cannot be opened again -/
  opened : List Key := []
  /-- the tables that cannot be opened again once another header came -/
  pending : List Key := []
  /-- the values that cannot be added to, with all they hold -/
  frozen : List Key := []
  deriving Inhabited

namespace Document

/-- Is this value part of one that cannot be added to? -/
def isFrozen (doc : Document) (key : Key) : Bool :=
  doc.frozen.any fun frozen => frozen.isPrefixOf key

/-- A header came: what waited for it takes effect. -/
def settle (doc : Document) : Document :=
  { doc with opened := doc.pending ++ doc.opened, pending := [] }

/-- Open a table. -/
def openTable (key : Key) (doc : Document) : Option Document :=
  if doc.opened.contains key || doc.isFrozen key then
    none
  else
    (alter true some key doc.entries).map fun entries =>
      { doc with entries, header := key, opened := key :: doc.opened }

/-- Open a new item of a list of tables; nothing is known yet of the tables in it. -/
def openItem (key : Key) (doc : Document) : Option Document :=
  if doc.isFrozen key then
    none
  else do
    let entries ← alter true (addItem (key.getLast?.getD "")) key.dropLast doc.entries
    return { doc with
      entries
      header := key
      opened := key :: doc.opened.filter fun other => !key.isPrefixOf other
      frozen := doc.frozen.filter fun other => !key.isPrefixOf other }

/-- The tables on the way from the header to the value under a key. -/
def between (doc : Document) (key : Key) : List Key :=
  (List.range key.length).filterMap fun i =>
    if i = 0 then none else some (doc.header ++ key.take i)

/-- Add a value under a key, seen from the header. -/
def insert (key : Key) (value : Value) (doc : Document) : Option Document :=
  let tables := doc.between key
  let parent := doc.header ++ key.dropLast
  if tables.any doc.opened.contains || doc.isFrozen parent then
    none
  else
    (alter true (add (key.getLast?.getD "") value) parent doc.entries).map fun entries =>
      { doc with
        entries
        pending := tables ++ doc.pending
        frozen := if isNested value then (doc.header ++ key) :: doc.frozen else doc.frozen }

end Document

/-! ## Tables written as a whole -/

/-- A table between braces, and the values in it that cannot be added to. -/
structure Inline where
  /-- the values -/
  entries : Entries := []
  /-- the values that cannot be added to -/
  frozen : List Key := []
  deriving Inhabited

namespace Inline

/-- Add a value under a key. -/
def insert (key : Key) (value : Value) (table : Inline) : Option Inline :=
  if table.frozen.any fun frozen => frozen.isPrefixOf key then
    none
  else
    (alter false (add (key.getLast?.getD "") value) key.dropLast table.entries).map fun entries =>
      { entries, frozen := if isNested value then key :: table.frozen else table.frozen }

end Inline

end LoggerLint.Toml
