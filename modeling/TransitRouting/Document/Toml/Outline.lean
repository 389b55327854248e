/-
  TransitRouting.Document.Toml.Outline
  ────────────────────────────────────
  How the statements of a TOML text make up a table.

  A table is opened by a header, by a header of something within it, or by a
  dotted key.  A header may complete a table of the second kind.  Nothing else
  may be defined twice, and a value that is written out is complete.
-/
import TransitRouting.Document

namespace TransitRouting

namespace Toml

/-! ## §1. Nodes. -/

/-- How a table came to be. -/
inductive Origin where
  /-- By a header of its own. -/
  | header
  /-- By a header of something within it. -/
  | outer
  /-- By a dotted key. -/
  | dotted
deriving DecidableEq, Repr

/-- What stands under a name. -/
inductive Node where
  /-- A value that is complete. -/
  | value (d : Datum)
  /-- A table that may still grow. -/
  | table (origin : Origin) (fields : List (String × Node))
  /-- A list of tables, of which the last may still grow. -/
  | tables (earlier : List (List (String × Node))) (last : List (String × Node))

/-- The nodes of a table, by name. -/
abbrev Fields := List (String × Node)

namespace Node

mutual

/-- What a node says. -/
def toDatum : Node → Datum
  | value d => d
  | table _ fields => .table (fieldData fields)
  | tables earlier last => .list (tableData earlier ++ [.table (fieldData last)])

/-- What the nodes of a table say. -/
def fieldData : List (String × Node) → List (String × Datum)
  | [] => []
  | (name, node) :: rest => (name, toDatum node) :: fieldData rest

/-- What a list of tables says. -/
def tableData : List (List (String × Node)) → List Datum
  | [] => []
  | fields :: rest => .table (fieldData fields) :: tableData rest

end

end Node

/-! ## §2. Changes. -/

/-- A place for a node: the names of the tables around it, and its own. -/
structure Key where
  /-- The names of the tables, from the outside in. -/
  path : List String
  /-- The last name. -/
  name : String
deriving DecidableEq, Repr

/-- The names of a key in order. -/
def Key.names (k : Key) : List String := k.path ++ [k.name]

namespace Fields

/-- The table with a node under a name, in place of any other. -/
def set (name : String) (node : Node) : Fields → Fields
  | [] => [(name, node)]
  | (n, old) :: rest => if n = name then (n, node) :: rest else (n, old) :: set name node rest

/-- Changes the table to which the names of a header lead; what is missing on
the way is opened.  Of a list of tables the last is meant. -/
def within (change : Fields → Option Fields) : List String → Fields → Option Fields
  | [], fields => change fields
  | name :: path, fields =>
    let node? := match fields.lookup name with
      | none => (within change path []).map (Node.table .outer)
      | some (.table origin inner) => (within change path inner).map (Node.table origin)
      | some (.tables earlier last) => (within change path last).map (Node.tables earlier)
      | some (.value _) => none
    node?.map fun node => set name node fields

/-- Opens a table by its header. -/
def openTable (k : Key) (fields : Fields) : Option Fields :=
  within (fun inner =>
    match inner.lookup k.name with
    | none => some (set k.name (.table .header []) inner)
    | some (.table .outer content) => some (set k.name (.table .header content) inner)
    | some _ => none) k.path fields

/-- Opens the next table of a list of tables. -/
def openItem (k : Key) (fields : Fields) : Option Fields :=
  within (fun inner =>
    match inner.lookup k.name with
    | none => some (set k.name (.tables [] []) inner)
    | some (.tables earlier last) => some (set k.name (.tables (earlier ++ [last]) []) inner)
    | some _ => none) k.path fields

/-- Puts a value under a dotted key.  The table that holds it must have come to
be by dotted keys, and none of those around it by a header of its own. -/
def assign (name : String) (d : Datum) : List String → Fields → Option Fields
  | [], fields => if (fields.lookup name).isNone then some (set name (.value d) fields) else none
  | outer :: path, fields =>
    let node? := match fields.lookup outer with
      | none => (assign name d path []).map (Node.table .dotted)
      | some (.table .dotted inner) => (assign name d path inner).map (Node.table .dotted)
      | some (.table .outer inner) =>
        -- One may pass through it, but not add to it.
        if path.isEmpty then none else (assign name d path inner).map (Node.table .outer)
      | some (.tables earlier last) =>
        if path.isEmpty then none else (assign name d path last).map (Node.tables earlier)
      | some (.table .header _) | some (.value _) => none
    node?.map fun node => set outer node fields

/-- The value of a table that is written out as a list of keys and values. -/
def ofAssignments? (entries : List (Key × Datum)) : Option Datum :=
  (entries.foldlM (fun fields entry => assign entry.1.name entry.2 entry.1.path fields) []).map
    fun fields => .table (Node.fieldData fields)

end Fields

/-! ## §3. Statements. -/

/-- A statement of a TOML text. -/
inductive Statement where
  /-- From here on keys belong to the given table. -/
  | table (key : Key)
  /-- From here on keys belong to a new table at the end of the given list. -/
  | item (key : Key)
  /-- A key and its value. -/
  | assignment (key : Key) (value : Datum)

/-- What the statements so far have made up. -/
structure Outline where
  /-- The whole. -/
  root : Fields
  /-- The names of the table to which keys belong. -/
  current : List String

namespace Outline

/-- Before the first statement. -/
def empty : Outline := ⟨[], []⟩

/-- Takes in a statement, unless it defines something twice. -/
def add? (o : Outline) : Statement → Option Outline
  | .table key => (o.root.openTable key).map fun root => ⟨root, key.names⟩
  | .item key => (o.root.openItem key).map fun root => ⟨root, key.names⟩
  | .assignment key value =>
    (o.root.within (Fields.assign key.name value key.path) o.current).map fun root =>
      { o with root }

end Outline

/-- The table that statements make up. -/
def tableOf? (statements : List Statement) : Option Datum :=
  (statements.foldlM Outline.add? Outline.empty).map fun o => .table (Node.fieldData o.root)

end Toml

end TransitRouting
