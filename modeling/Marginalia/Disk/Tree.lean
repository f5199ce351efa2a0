import Marginalia.Disk.Content
import Marginalia.Disk.Path
import Marginalia.Excess

/-!
# Folder trees

A tree says what is at each location, a list of names from the top folder. Every location but the
top is entered once, and the one above it is a folder. Following a path goes through folders that
exist and resolves its double dots on the way; a name may have at most `longestName` bytes and a
path as it is written `longestPath`.
-/

namespace Marginalia

abbrev Location := List Name

inductive Node where
  | folder
  | file (content : Content)
  deriving DecidableEq, Repr

namespace Disk

/-- Why an access is refused. -/
inductive Fault where
  | missing
  | occupied
  | notFolder
  | isFolder
  | nameTooLong
  | nulInName
  | tooDeep
  | undecodable (fault : Utf8.Fault)
  deriving DecidableEq, Repr

def longestName : Nat := 255

def longestPath : Nat := 4095

end Disk

open Disk (Fault)

structure Tree where
  entries : List (Location × Node) := []
  deriving DecidableEq, Repr

namespace Tree

/-! ## Locations -/

def node? (t : Tree) (l : Location) : Option Node :=
  if l.isEmpty then some .folder else t.entries.lookup l

def insert (t : Tree) (l : Location) (n : Node) : Tree :=
  ⟨(l, n) :: t.entries.filter fun e => e.1 != l⟩

/-- Without a location and all below it. -/
def erase (t : Tree) (l : Location) : Tree := ⟨t.entries.filter fun e => !l.isPrefixOf e.1⟩

/-- What is directly in a folder, in ascending order of the names. -/
def children (t : Tree) (l : Location) : List (Name × Node) :=
  let found := t.entries.filterMap fun (k, n) =>
    match k.getLast? with
    | none => none
    | some name => if k.dropLast == l then some (name, n) else none
  found.mergeSort fun a b => !decide (b.1 < a.1)

/-- Enters a node and the folders above it that are missing. -/
def put (t : Tree) (l : Location) (n : Node) : Tree :=
  let above := (List.range l.length).map l.take
  let t := above.foldl (fun t up => if (t.node? up).isNone then t.insert up .folder else t) t
  t.insert l n

/-! ## Paths -/

/-- The location that names lead to from a folder. It need not exist, the folder above it does. -/
def follow (t : Tree) : Location → List Name → Except Fault Location
  | l, [] => .ok l
  | l, n :: rest =>
    match t.node? l with
    | none => .error .missing
    | some (.file _) => .error .notFolder
    | some .folder =>
      if n = Path.above then follow t l.dropLast rest
      else if Disk.longestName < Utf8.size n then .error .nameTooLong
      else follow t (l ++ [n]) rest

/-- The location that a path leads to, from a folder unless it starts at the top. -/
def resolveFrom (t : Tree) (start : Location) (p : Path) : Except Fault Location :=
  if p.hasNul then .error .nulInName
  else if Disk.longestPath < Utf8.size p.text then .error .nameTooLong
  else t.follow (if p.isAbsolute then [] else start) p.parts

def resolve (t : Tree) (p : Path) : Except Fault Location := t.resolveFrom [] p

def stat (t : Tree) (p : Path) : Except Fault Node :=
  match t.resolve p with
  | .error e => .error e
  | .ok l =>
    match t.node? l with
    | none => .error .missing
    | some n => .ok n

/-- Whether a node of a kind is at a path. Only a name that is too long is an error here. -/
def holds (t : Tree) (kind : Node → Bool) (p : Path) : Except Fault Bool :=
  match t.stat p with
  | .ok n => .ok (kind n)
  | .error .nameTooLong => .error .nameTooLong
  | .error _ => .ok false

def isFile (t : Tree) (p : Path) : Except Fault Bool := t.holds (· != .folder) p

def isFolder (t : Tree) (p : Path) : Except Fault Bool := t.holds (· == .folder) p

def contains (t : Tree) (p : Path) : Except Fault Bool := t.holds (fun _ => true) p

/-! ## Reading -/

def contentAt (t : Tree) (l : Location) : Except Fault Content :=
  match t.node? l with
  | none => .error .missing
  | some .folder => .error .isFolder
  | some (.file c) => .ok c

/-- The text of a file with unified line endings. -/
def readText (t : Tree) (p : Path) : Except Fault Text := do
  let c ← t.contentAt (← t.resolve p)
  c.unified.mapError .undecodable

/-- The text of a file as it stands there. -/
def verbatimAt (t : Tree) (l : Location) : Except Fault Text := do
  let c ← t.contentAt l
  c.verbatim.mapError .undecodable

/-- What is directly in the folder at a path. -/
def listing (t : Tree) (p : Path) : Except Fault (List (Name × Node)) :=
  match t.resolve p with
  | .error e => .error e
  | .ok l =>
    match t.node? l with
    | none => .error .missing
    | some (.file _) => .error .notFolder
    | some .folder => .ok (t.children l)

/-- Of some names in a folder those for whose paths a question is answered with yes. -/
def select (question : Path → Except Fault Bool) (p : Path) : List Name → Except Fault (List Name)
  | [] => .ok []
  | name :: rest => do
    if ← question (p.child name) then pure (name :: (← select question p rest))
    else select question p rest

/-- The names of the files in the folder at a path, ascending. -/
def filesIn (t : Tree) (p : Path) : Except Fault (List Name) := do
  select t.isFile p ((← t.listing p).map Prod.fst)

/-- The names of the folders in the folder at a path, ascending. -/
def foldersIn (t : Tree) (p : Path) : Except Fault (List Name) := do
  select t.isFolder p ((← t.listing p).map Prod.fst)

/-! ## Writing -/

/-- Writes a file, new or in place of the old one. -/
def writeAt (t : Tree) (l : Location) (c : Content) : Except Fault Tree :=
  if t.node? l = some .folder then .error .isFolder else .ok (t.insert l (.file c))

def write (t : Tree) (p : Path) (s : Text) : Except Fault Tree :=
  match t.resolve p with
  | .error e => .error e
  | .ok l => t.writeAt l (.text s)

/-- Writes a file where there is nothing yet. -/
def create (t : Tree) (p : Path) (s : Text) : Except Fault Tree :=
  match t.resolve p with
  | .error e => .error e
  | .ok l =>
    if (t.node? l).isSome then .error .occupied else .ok (t.insert l (.file (.text s)))

/-- Makes the folders that are missing on the way down from a location. Those made before an error
stay. A file on the way is no folder, but one at the end, or after a folder was made, occupies the
place of one. Nothing is made when more than `deepest` folders might be missing. -/
def descend (t : Tree) (made : Bool) : Location → List Name → Tree × Option Fault
  | _, [] => (t, none)
  | l, n :: rest =>
    if n = Path.above then descend t made l.dropLast rest
    else if Disk.longestName < Utf8.size n then (t, some .nameTooLong)
    else
      match t.node? (l ++ [n]) with
      | some .folder => descend t made (l ++ [n]) rest
      | some (.file _) => (t, some (if rest.isEmpty || made then .occupied else .notFolder))
      | none =>
        if deepest < rest.length + 1 then (t, some .tooDeep)
        else descend (t.insert (l ++ [n]) .folder) true (l ++ [n]) rest

/-- Makes a folder and the missing ones above it. -/
def makeFolders (t : Tree) (p : Path) : Tree × Option Fault :=
  if p.hasNul then (t, some .nulInName)
  else if Disk.longestPath < Utf8.size p.text then (t, some .nameTooLong)
  else t.descend false [] p.parts

/-- Removes what is at a path, with all below it. -/
def remove (t : Tree) (p : Path) : Except Fault Tree := do
  let l ← t.resolve p
  match t.node? l with
  | none => .error .missing
  | some _ => pure (t.erase l)

end Tree

end Marginalia
