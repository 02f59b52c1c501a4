import CollisionMesh.Number.Decimal

namespace CollisionMesh

/-!
# TOML documents

The values that a TOML document can hold, and how its statements build up tables.
A table remembers how it came about, since that decides whether later statements
may still add to it.

* `TableOrigin`, `Toml` — values and tables;
* `Toml.Entries` — keys with their values, in the order of the document;
* `Entries.define` — a key with dots set to a value;
* `Entries.within` — a change inside the table that a header names;
* `Entries.openTable`, `Entries.openElement` — what a header does itself.
-/

/-- How a table came about. -/
inductive TableOrigin where
  /-- A header names it. -/
  | header
  /-- A header names a table inside it. -/
  | implied
  /-- A key with dots leads through it. -/
  | dotted
  /-- It stands between braces, and nothing can be added to it. -/
  | inline
deriving DecidableEq, Repr

/-- A value of a TOML document. -/
inductive Toml where
  | text (content : String)
  | integer (value : Int)
  | float (value : Float)
  | boolean (value : Bool)
  /-- A date, a time or both. -/
  | moment
  | array (elements : List Toml)
  | table (origin : TableOrigin) (entries : List (String × Toml))
  /-- The tables that headers with double brackets name. -/
  | tables (elements : List (List (String × Toml)))

namespace Toml

/-- Keys with their values. -/
abbrev Entries := List (String × Toml)

namespace Entries

/-- The entries with the value of a key replaced. -/
def replace (key : String) (value : Toml) (entries : Entries) : Entries :=
  entries.map fun entry => if entry.1 = key then (key, value) else entry

/-- The entries with a key more. -/
def add (key : String) (value : Toml) (entries : Entries) : Entries :=
  entries ++ [(key, value)]

/-- A change of the last of some tables. -/
def changeLast (change : Entries → Option Entries) (elements : List Entries) :
    Option (List Entries) :=
  elements.getLast?.bind fun last => (change last).map fun last => elements.dropLast ++ [last]

/-- The entries with a key set to a value, where `path` leads from them to the table
    of the key. The key must be new. The path goes through tables that keys with
    dots made, and makes those that are missing; it may go through, but not end in,
    tables that are only implied. -/
def define (key : String) (value : Toml) : List String → Entries → Option Entries
  | [], entries =>
    match entries.lookup key with
    | none => some (add key value entries)
    | some _ => none
  | name :: path, entries =>
    match entries.lookup name with
    | none => (define key value path []).map fun inner => add name (.table .dotted inner) entries
    | some (.table .dotted inner) =>
      (define key value path inner).map fun inner => replace name (.table .dotted inner) entries
    | some (.table .implied inner) =>
      if path.isEmpty then none
      else (define key value path inner).map fun inner =>
        replace name (.table .implied inner) entries
    | some (.tables elements) =>
      if path.isEmpty then none
      else (changeLast (define key value path) elements).map fun elements =>
        replace name (.tables elements) entries
    | some _ => none

/-- A change inside the table that a path of a header leads to. Missing tables are
    implied; of several tables of one name the last is meant. -/
def within (change : Entries → Option Entries) : List String → Entries → Option Entries
  | [], entries => change entries
  | name :: path, entries =>
    match entries.lookup name with
    | none => (within change path []).map fun inner => add name (.table .implied inner) entries
    | some (.table .inline _) => none
    | some (.table origin inner) =>
      (within change path inner).map fun inner => replace name (.table origin inner) entries
    | some (.tables elements) =>
      (changeLast (within change path) elements).map fun elements =>
        replace name (.tables elements) entries
    | some _ => none

/-- What a header with single brackets does in the table above: the name must be
    new, or that of a table that was only implied. -/
def openTable (name : String) (entries : Entries) : Option Entries :=
  match entries.lookup name with
  | none => some (add name (.table .header []) entries)
  | some (.table .implied inner) => some (replace name (.table .header inner) entries)
  | some _ => none

/-- What a header with double brackets does in the table above: one more table of
    that name. -/
def openElement (name : String) (entries : Entries) : Option Entries :=
  match entries.lookup name with
  | none => some (add name (.tables [[]]) entries)
  | some (.tables elements) => some (replace name (.tables (elements ++ [[]])) entries)
  | some _ => none

end Entries

end Toml

end CollisionMesh
