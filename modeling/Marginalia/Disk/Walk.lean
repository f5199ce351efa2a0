import Marginalia.Disk.Tree

/-!
# Walks

A walk goes through a folder and all below it but what is below an excluded name: the files of a
folder come before those of its folders, and each kind in ascending order of the names. It reaches
everything by its path. A folder whose path is too long counts as empty. A file whose path is too
long ends the walk with a fault, and so does a folder inside of more others than the walk can be in
at a time.
-/

namespace Marginalia

namespace Tree

/-- The order of a walk on locations of files. -/
def walksBefore : Location → Location → Bool
  | [], _ => true
  | _ :: _, [] => false
  | [a], [b] => !decide (b < a)
  | [_], _ :: _ :: _ => true
  | _ :: _ :: _, [_] => false
  | a :: as, b :: bs => if a = b then walksBefore as bs else !decide (b < a)

/-- A file below a folder, its location taken from there. -/
structure Found where
  location : Location
  content : Content
  deriving DecidableEq, Repr

def Found.path (f : Found) : Text := Path.relativeText f.location

/-- Whether a location lies below a folder, with no excluded folder on the way. -/
def isWalked (base : Location) (excluded : List Name) (l : Location) : Bool :=
  let location := l.drop base.length
  base.isPrefixOf l && !location.isEmpty &&
    !location.dropLast.any fun name => excluded.contains name

/-- The entry of a file below a folder, unless a folder on the way to it is excluded. -/
def found? (base : Location) (excluded : List Name) : Location × Node → Option Found
  | (_, .folder) => none
  | (l, .file content) =>
    if isWalked base excluded l then some { location := l.drop base.length, content } else none

/-- All files below a folder but those below an excluded name, in the order of a walk. -/
def files (t : Tree) (base : Location) (excluded : List Name) : List Found :=
  (t.entries.filterMap (found? base excluded)).mergeSort fun a b =>
    walksBefore a.location b.location

end Tree

/-! ## What a walk comes to -/

/-- What ends a walk, and where in its order. -/
structure Obstacle where
  location : Location
  fault : Disk.Fault
  deriving DecidableEq, Repr

/-- The location that a walk starts from, the files it finds and what ends it early. -/
structure Walk where
  base : Location := []
  found : List Tree.Found := []
  ended : Option Obstacle := none
  deriving DecidableEq, Repr

namespace Walk

/-- The walk over some files up to the first of its obstacles. -/
def upTo (base : Location) (files : List Tree.Found) (obstacles : List Obstacle) : Walk where
  base := base
  found := files.filter fun f => obstacles.all fun o => !Tree.walksBefore o.location f.location
  ended := (obstacles.mergeSort fun a b => Tree.walksBefore a.location b.location).head?

/-- The files of a walk that is not ended early. -/
def files (w : Walk) : Except Disk.Fault (List Tree.Found) :=
  match w.ended with
  | none => .ok w.found
  | some o => .error o.fault

end Walk

namespace Tree

/-- A folder below the root by the text that a walk has for it. Below a dot the dot is kept. -/
def folderText (root : Path) (l : Location) : Text :=
  if root.text = ['.'] ∧ l ≠ [] then '.' :: '/' :: Path.joined l else (root.under l).text

/-- Whether the folder that a location below the root is in has a path that is not too long. -/
def isEntered (root : Path) (l : Location) : Bool :=
  Utf8.size (folderText root l.dropLast) ≤ Disk.longestPath

/-- The files that a walk from a root comes to. -/
def reached (t : Tree) (root : Path) (excluded : List Name) : List Found :=
  match t.resolve root with
  | .ok base => (t.files base excluded).filter fun f => isEntered root f.location
  | .error _ => []

def longFile? (root : Path) (f : Found) : Option Obstacle :=
  if Disk.longestPath < Utf8.size (root.under f.location).text then
    some { location := f.location, fault := .nameTooLong }
  else none

/-- A folder with more than so many from the root down to it. It comes before all that is in it, so
an empty name stands for its first file. -/
def deepFolder? (levels : Nat) (root : Path) (base : Location) (excluded : List Name) :
    Location × Node → Option Obstacle
  | (_, .file _) => none
  | (l, .folder) =>
    let below := l.drop base.length
    if isWalked base excluded (l ++ [[]]) && isEntered root below && levels < below.length then
      some { location := below ++ [[]], fault := .tooDeep }
    else none

/-- The walk from a root that can be inside of so many folders at a time. Where there is no folder
at the root there is nothing to walk. -/
def walk (t : Tree) (levels : Nat) (root : Path) (excluded : List Name) : Walk :=
  match t.resolve root with
  | .error .nulInName => { ended := some { location := [], fault := .nulInName } }
  | .error _ => {}
  | .ok base =>
    let reached := t.reached root excluded
    .upTo base reached (reached.filterMap (longFile? root) ++
      t.entries.filterMap (deepFolder? levels root base excluded))

end Tree

end Marginalia
