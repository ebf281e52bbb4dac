import AnonCred.Config.Value

/-!
# How a TOML document fills its tables

A header `[a.b]` opens a table, `[[a.b]]` opens a new item of an array of tables, and a dotted key
`c.d = …` defines an entry of a table inside the open one. Each table is defined in one place: one
that a header or dotted keys have defined cannot be opened again, dotted keys only add to tables
that dotted keys have made, and what is written as a value is closed.

Main definitions: `Node.change` follows a path to a table and changes it, and every other operation
is made from it.
-/

namespace AnonCred.Toml

/-- What has made a table: a header for it, a header for a table inside it, or a dotted key. -/
inductive Origin
  | header
  | deeperHeader
  | dottedKey
deriving DecidableEq, Repr

/-- What stands under a key while a document is read. -/
inductive Node
  | closed (value : Value)
  | table (origin : Origin) (entries : List (String × Node))
  | items (tables : List (List (String × Node)))

namespace Node

abbrev Entries := List (String × Node)

/-- A change of the table that a path leads to; it may depend on what has made the table. -/
abbrev Change := Origin → Entries → Option Entries

/-! ## Entries -/

/-- Puts a node under a key, in place of an older one. -/
def put (key : String) (node : Node) : Entries → Entries
  | [] => [(key, node)]
  | (other, old) :: rest =>
    if other = key then (key, node) :: rest else (other, old) :: put key node rest

/-- Puts a node under a key that is still free. -/
def putNew (key : String) (node : Node) (entries : Entries) : Option Entries :=
  match entries.lookup key with
  | none => some (put key node entries)
  | some _ => none

/-! ## Paths -/

/-- Changes the last table of an array. -/
def changeLast (change : Entries → Option Entries) : List Entries → Option (List Entries)
  | [] => none
  | [last] => do return [← change last]
  | first :: rest => do return first :: (← changeLast change rest)

/-- Changes the table that a path leads to, and makes the tables on the way that are not there yet.
Through an array of tables the path leads to the last one. -/
def change (made : Origin) (f : Change) : List String → Origin → Entries → Option Entries
  | [], origin, entries => f origin entries
  | key :: path, _, entries =>
    match entries.lookup key with
    | none => do
      let inner ← change made f path made []
      pure (put key (.table made inner) entries)
    | some (.closed _) => none
    | some (.table origin inner) =>
      if made = .dottedKey ∧ origin = .header then none
      else do
        let inner ← change made f path origin inner
        pure (put key (.table origin inner) entries)
    | some (.items tables) => do
      let tables ← changeLast (change made f path .header) tables
      pure (put key (.items tables) entries)

/-! ## What the lines of a document do -/

/-- Defines an entry by a key, which may be dotted, of an open table. -/
def define (keys : List String) (value : Value) : Change := fun origin entries =>
  match keys.getLast? with
  | none => none
  | some key =>
    let outer := keys.dropLast
    let enter : Change := fun origin entries =>
      if outer.isEmpty ∨ origin = .dottedKey then putNew key (.closed value) entries else none
    change .dottedKey enter outer origin entries

/-- Opens a table: it is new, or only headers for tables inside it were there. -/
def openTable (keys : List String) : Change := fun origin entries =>
  match keys.getLast? with
  | none => none
  | some key =>
    let enter : Change := fun _ entries =>
      match entries.lookup key with
      | none => some (put key (.table .header []) entries)
      | some (.table .deeperHeader inner) => some (put key (.table .header inner) entries)
      | some _ => none
    change .deeperHeader enter keys.dropLast origin entries

/-- Opens a new item of an array of tables. -/
def openItem (keys : List String) : Change := fun origin entries =>
  match keys.getLast? with
  | none => none
  | some key =>
    let enter : Change := fun _ entries =>
      match entries.lookup key with
      | none => some (put key (.items [[]]) entries)
      | some (.items tables) => some (put key (.items (tables ++ [[]])) entries)
      | some _ => none
    change .deeperHeader enter keys.dropLast origin entries

/-- Applies a change to an open table, which its own path leads to. -/
def within (opened : List String) (f : Change) : Change := change .deeperHeader f opened

/-! ## Values -/

mutual

/-- The value that a node stands for. -/
def toValue : Node → Value
  | .closed value => value
  | .table _ entries => .table (toEntries entries)
  | .items tables => .list (toTables tables)

/-- The entries of a table, ordered by key. -/
def toEntries : List (String × Node) → Value.Entries
  | [] => []
  | (key, node) :: rest => (toEntries rest).insert key node.toValue

/-- The tables of an array. -/
def toTables : List (List (String × Node)) → List Value
  | [] => []
  | entries :: rest => .table (toEntries entries) :: toTables rest

end

end Node

/-- The table of an inline list of entries. -/
def inlineTable (pairs : List (List String × Value)) : Option Value := do
  let entries ← pairs.foldlM (fun entries (keys, value) => Node.define keys value .header entries) []
  pure (.table (Node.toEntries entries))

end AnonCred.Toml
