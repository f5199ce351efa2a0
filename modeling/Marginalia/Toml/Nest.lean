import Marginalia.Toml.Scalar

/-!
# Nested tables

Changing the table that a path of keys leads to. Tables that are missing on the way are made, and a
list of tables stands for its last one.
-/

namespace Marginalia.Toml

abbrev Key := List Text

def Table.replace (t : Table) (key : Text) (v : Value) : Table :=
  t.map fun (k, old) => if k = key then (k, v) else (k, old)

/-- Changes the table at the end of a path. Lists are entered only where that is asked for. -/
def within (intoLists : Bool) (change : Table → Except Fault Table) :
    Key → Table → Except Fault Table
  | [], t => change t
  | k :: ks, t =>
    match t.lookup k with
    | none => (within intoLists change ks []).map fun sub => t ++ [(k, .table sub)]
    | some (.table sub) =>
      (within intoLists change ks sub).map fun sub => Table.replace t k (.table sub)
    | some (.array items) =>
      match intoLists, items.getLast? with
      | true, some (.table sub) =>
        (within intoLists change ks sub).map fun sub =>
          Table.replace t k (.array (items.dropLast ++ [.table sub]))
      | _, _ => .error .malformed
    | some _ => .error .malformed

/-- Enters a value under a key that the table does not have yet. -/
def addEntry (key : Text) (v : Value) (t : Table) : Except Fault Table :=
  if (t.lookup key).isSome then .error .malformed else .ok (t ++ [(key, v)])

/-- Adds an empty table to a list of tables, which may be new. -/
def addItem (key : Text) (t : Table) : Except Fault Table :=
  match t.lookup key with
  | none => .ok (t ++ [(key, .array [.table []])])
  | some (.array items) => .ok (Table.replace t key (.array (items ++ [.table []])))
  | some _ => .error .malformed

/-- Applies a change for the last key of a path in the table that the others lead to. -/
def atKey (intoLists : Bool) (path : Key) (change : Text → Table → Except Fault Table) (t : Table) :
    Except Fault Table :=
  match path.getLast? with
  | none => .error .malformed
  | some key => within intoLists (change key) path.dropLast t

end Marginalia.Toml
