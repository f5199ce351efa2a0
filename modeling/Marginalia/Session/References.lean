import Marginalia.Disk.Walk
import Marginalia.Session.Lookup

/-!
# References

Where fragments are referred to: the lines of the workspace's files with a marker bound to them.
Files that cannot be scanned, and those below the folder of sets or an excluded name, count for
nothing. A walk that does not come to its end leaves no result.
-/

namespace Marginalia

/-- A line of a file with a marker bound to an id. Lines count from one. -/
structure Occurrence where
  file : Text
  line : Int
  id : Text
  path : Path
  deriving DecidableEq, Repr

namespace Occurrence

def before (a b : Occurrence) : Bool :=
  decide (a.file < b.file) || (a.file == b.file && a.line ≤ b.line)

/-- The occurrences in a text. -/
def ofText (file : Text) (path : Path) (s : Text) : List Occurrence :=
  (Text.editorLines s).zipIdx.filterMap fun (line, number) =>
    ((Marker.scan number line).bind Marker.id?).map fun id =>
      { file, line := (number : Int) + 1, id, path }

/-- The occurrences in a file found below the root. -/
def ofFound (root : Path) (f : Tree.Found) : List Occurrence :=
  match f.content.scannable? with
  | none => []
  | some s => ofText f.path (root.under f.location) s

/-- The occurrences in some files found below the root, by file and line. -/
def ofFiles (root : Path) (found : List Tree.Found) : List Occurrence :=
  (found.flatMap (ofFound root)).mergeSort before

end Occurrence

namespace Session

/-- The most folders that a full scan can be inside of at a time. It walks on a stack of its own. -/
def scanLevels : Nat := 990

/-- The occurrences of each id asked for. -/
def scan (s : Session) (t : Tree) (ids : List Text) :
    Except Fault (List (Text × List Occurrence)) :=
  if ids.isEmpty then .ok []
  else do
    let root ← s.requireRoot "scan_references".toList
    let found ← ask (t.walk scanLevels root s.unscanned).files
    let all := Occurrence.ofFiles root found
    pure (ids.eraseDups.map fun id => (id, all.filter (·.id == id)))

def findReferences (s : Session) (t : Tree) (id : Text) : Except Fault (List Occurrence) :=
  (s.scan t [id]).map fun found => (found.lookup id).getD []

/-- The occurrences of each fragment of a set, in the order of the ids. -/
def scanSet (s : Session) (t : Tree) (set : Option Text) :
    Except Fault (List (Text × List Occurrence)) := do
  let ids ← s.listIds t set
  let found ← s.scan t ids
  pure (ids.eraseDups.map fun id => (id, (found.lookup id).getD []))

end Session

end Marginalia
