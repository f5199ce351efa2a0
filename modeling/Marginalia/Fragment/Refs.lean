import Marginalia.Text.Basic

/-!
# Reference counts

How often each file refers to a fragment: one count per path, in ascending order of the paths by
code point.
-/

namespace Marginalia

structure Refs where
  entries : List (Text × Int) := []
  deriving DecidableEq, Repr

namespace Refs

def isEmpty (r : Refs) : Bool := r.entries.isEmpty

def get? (r : Refs) (path : Text) : Option Int := r.entries.lookup path

def putEntry (path : Text) (n : Int) : List (Text × Int) → List (Text × Int)
  | [] => [(path, n)]
  | (q, m) :: rest =>
    if path = q then (path, n) :: rest
    else if path < q then (path, n) :: (q, m) :: rest
    else (q, m) :: putEntry path n rest

/-- Sets the count of a path. -/
def put (r : Refs) (path : Text) (n : Int) : Refs := ⟨putEntry path n r.entries⟩

def erase (r : Refs) (path : Text) : Refs := ⟨r.entries.filter fun e => e.1 != path⟩

/-- Sets a positive count, and removes the entry of a path for any other. -/
def merge (r : Refs) (path : Text) (n : Int) : Refs :=
  if 0 < n then r.put path n else r.erase path

def ofList (es : List (Text × Int)) : Refs := es.foldl (fun r (path, n) => r.put path n) {}

def total (r : Refs) : Int := r.entries.foldr (fun e n => e.2 + n) 0

/-- How often each path occurs in a list. -/
def tally (paths : List Text) : Refs :=
  paths.foldl (fun r path => r.put path ((r.get? path).getD 0 + 1)) {}

end Refs

end Marginalia
