/-
TOML values, and how the lines of a document build its root table.

A table remembers how it came into being, because that decides who may still add to it. A table that
was only passed through on the way to another header may get its own header later. A table made by
dotted keys can be extended by dotted keys only. A table with a header is closed to dotted keys, and
an inline table is closed to everything.
-/

set_option autoImplicit false

namespace CodeRecovery.Toml

/-- How a table came into being. -/
inductive Origin where
  /-- By its own header, or as the root. -/
  | header
  /-- On the way to the header of a table inside it. -/
  | path
  /-- By a dotted key. -/
  | dotted
deriving DecidableEq, Repr

/-- A value of a document. -/
inductive Value where
  | string (text : String)
  | integer (n : Int)
  | boolean (b : Bool)
  | array (items : List Value)
  /-- A table in braces. -/
  | inline (entries : List (String × Value))
  | table (origin : Origin) (entries : List (String × Value))
  /-- The tables under a doubled header, the last one first. -/
  | tables (elements : List (List (String × Value)))

/-- The keys of a table with their values. -/
abbrev Entries := List (String × Value)

namespace Entries

/-- Gives a key that is already there a new value. -/
def replace (key : String) (value : Value) (entries : Entries) : Entries :=
  entries.map fun entry => if entry.1 == key then (key, value) else entry

/-- Changes the entries at the end of `path` by `change`, which also sees how that table came into
being. Missing tables on the way are made; `dotted` says that the path is a dotted key. -/
def descend (dotted : Bool) (change : Origin → Entries → Option Entries) :
    List String → Origin → Entries → Option Entries
  | [], origin, entries => change origin entries
  | key :: path, _, entries =>
    match entries.lookup key with
    | none => do
      let origin := if dotted then .dotted else .path
      let child ← descend dotted change path origin []
      return entries ++ [(key, .table origin child)]
    | some (.table origin child) =>
      if dotted && origin == .header then none
      else do
        let child ← descend dotted change path origin child
        return replace key (.table origin child) entries
    | some (.tables (last :: earlier)) => do
      let last ← descend dotted change path .header last
      return replace key (.tables (last :: earlier)) entries
    | some _ => none

/-- Adds one key and value to a table. `path` is what stands before the last dot of the key. -/
def addPair (path : List String) (key : String) (value : Value) :
    Origin → Entries → Option Entries :=
  descend true
    (fun origin entries =>
      if (origin == .dotted) == path.isEmpty then none
      else if (entries.lookup key).isSome then none
      else some (entries ++ [(key, value)]))
    path

/-- Opens the table of a header in the table around it. -/
def openTable (key : String) (entries : Entries) : Option Entries :=
  match entries.lookup key with
  | none => some (entries ++ [(key, .table .header [])])
  | some (.table .path child) => some (replace key (.table .header child) entries)
  | some _ => none

/-- Opens one more table of a doubled header in the table around it. -/
def openElement (key : String) (entries : Entries) : Option Entries :=
  match entries.lookup key with
  | none => some (entries ++ [(key, .tables [[]])])
  | some (.tables elements) => some (replace key (.tables ([] :: elements)) entries)
  | some _ => none

end Entries

/-- A line of a document. A key is the list of its parts. -/
inductive Statement where
  | header (key : List String)
  | element (key : List String)
  | pair (key : List String) (value : Value)

/-- A document while its lines are being read: the root, and the key of the current header. -/
structure Document where
  root : Entries := []
  current : List String := []

namespace Document

/-- Takes one more line into the document. -/
def add (d : Document) : Statement → Option Document
  | .header key => do
    let last ← key.getLast?
    let root ← Entries.descend false (fun _ => Entries.openTable last) key.dropLast .header d.root
    return { root, current := key }
  | .element key => do
    let last ← key.getLast?
    let root ← Entries.descend false (fun _ => Entries.openElement last) key.dropLast .header d.root
    return { root, current := key }
  | .pair key value => do
    let last ← key.getLast?
    let root ←
      Entries.descend false (Entries.addPair key.dropLast last value) d.current .header d.root
    return { d with root }

/-- The root table that the lines build. -/
def ofStatements? (lines : List Statement) : Option Entries :=
  (lines.foldlM add ({} : Document)).map (·.root)

end Document

end CodeRecovery.Toml
