import ContractFuzz.Binary64
/-!
# TOML documents

What the lines of a TOML document say, and the tables that they build together. A table can be
given piece by piece, by headers and by dotted keys, but no part of it twice.

## Main definitions

* `Toml`: values. `TableOrigin` says how a table has come about.
* `Toml.addPair`, `Toml.openTable`, `Toml.openElement`: what may be added to a table.
* `Toml.Statement`, `Toml.ofStatements`: lines, and the table that they build.
-/

namespace ContractFuzz.Text

/-- How a table has come about. -/
inductive TableOrigin where
  /-- It is written in braces. -/
  | braces
  /-- It has a header of its own. -/
  | header
  /-- The header of a table inside it has mentioned it. -/
  | outer
  /-- A dotted key has mentioned it. -/
  | dotted
deriving DecidableEq

/-- Whether more can be put into a table: nothing into braces, and by dotted keys nothing into a
table that has a header. -/
def TableOrigin.isOpen (dotted : Bool) : TableOrigin → Bool
  | braces => false
  | header => !dotted
  | _ => true

/-- A value. -/
inductive Toml where
  | text (s : String)
  | integer (n : Int)
  | real (x : Binary64)
  | bool (b : Bool)
  /-- A date, a time, or both; which one is not kept. -/
  | moment
  /-- A list in brackets. -/
  | array (items : List Toml)
  | table (origin : TableOrigin) (entries : List (String × Toml))
  /-- A list of tables that each have a header. -/
  | tables (elements : List (List (String × Toml)))
deriving Inhabited

namespace Toml

/-- The entries of a table, in the order in which they were added. -/
abbrev Entries := List (String × Toml)

/-- Where an entry stands: the tables around it, the outermost first, and its own key. -/
structure KeyPath where
  /-- The keys of the tables around it. -/
  above : List String
  /-- Its own key. -/
  last : String

/-- All keys of a path. -/
def KeyPath.keys (p : KeyPath) : List String := p.above ++ [p.last]

/-- Replace the entry of a key, or add one. -/
def put (key : String) (v : Toml) (es : Entries) : Entries :=
  if (es.lookup key).isSome then es.map fun e => if e.1 = key then (key, v) else e
  else es ++ [(key, v)]

/-- Add the entry of a key that has none. -/
def addNew (key : String) (v : Toml) (es : Entries) : Option Entries :=
  if (es.lookup key).isSome then none else some (es ++ [(key, v)])

/-- Change the table at the end of a path. Tables that are missing on the way are made; of a list
of tables the way leads through the last one. -/
def changeAt (dotted : Bool) (change : TableOrigin → Entries → Option Entries) :
    List String → TableOrigin → Entries → Option Entries
  | [], origin, es => change origin es
  | key :: path, _, es =>
    match es.lookup key with
    | none => do
      let origin := if dotted then .dotted else .outer
      return put key (.table origin (← changeAt dotted change path origin [])) es
    | some (.table origin inner) => do
      guard (origin.isOpen dotted)
      return put key (.table origin (← changeAt dotted change path origin inner)) es
    | some (.tables elements) => do
      let last ← changeAt dotted change path .header (← elements.getLast?)
      return put key (.tables (elements.dropLast ++ [last])) es
    | some _ => none

/-- Add a pair of key and value to a table. A dotted key adds only to a table that dotted keys have
made, and a plain key only to one that they have not. -/
def addPair (path : KeyPath) (v : Toml) : TableOrigin → Entries → Option Entries :=
  changeAt true
    (fun origin es =>
      if (origin == .dotted) == path.above.isEmpty then none else addNew path.last v es)
    path.above

/-- Open the table of a key by its header. -/
def openTable (key : String) (es : Entries) : Option Entries :=
  match es.lookup key with
  | none => some (put key (.table .header []) es)
  | some (.table .outer inner) => some (put key (.table .header inner) es)
  | some _ => none

/-- Open a further element of the list of tables of a key by its header. -/
def openElement (key : String) (es : Entries) : Option Entries :=
  match es.lookup key with
  | none => some (put key (.tables [[]]) es)
  | some (.tables elements) => some (put key (.tables (elements ++ [[]])) es)
  | some _ => none

/-- The table of the pairs in braces. -/
def ofPairs (pairs : List (KeyPath × Toml)) : Option Toml := do
  return .table .braces (← pairs.foldlM (fun es (path, v) => addPair path v .braces es) [])

/-- A line that says something. -/
inductive Statement where
  /-- A pair of key and value. -/
  | pair (path : KeyPath) (value : Toml)
  /-- The header of a table. -/
  | header (path : KeyPath)
  /-- The header of an element of a list of tables. -/
  | element (path : KeyPath)

/-- A document of which some lines are read. -/
structure Draft where
  /-- The outermost table. -/
  entries : Entries
  /-- Where the table is to which the next pair belongs. -/
  place : List String

/-- The document with a further line. -/
def Draft.add (d : Draft) : Statement → Option Draft
  | .pair path v => do
    return { d with entries := ← changeAt false (addPair path v) d.place .header d.entries }
  | .header path => do
    let entries ← changeAt false (fun _ => openTable path.last) path.above .header d.entries
    return ⟨entries, path.keys⟩
  | .element path => do
    let entries ← changeAt false (fun _ => openElement path.last) path.above .header d.entries
    return ⟨entries, path.keys⟩

/-- The table that lines build together. -/
def ofStatements (statements : List Statement) : Option Toml := do
  let d ← statements.foldlM Draft.add ⟨[], []⟩
  return .table .header d.entries

end Toml

end ContractFuzz.Text
