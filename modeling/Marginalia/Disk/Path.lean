import Marginalia.Text.Basic

/-!
# Paths

A path is a list of names, from the top folder when slashes stand before them. Reading one drops
empty names and single dots and keeps double dots, which name the folder above. Exactly two slashes
in front are kept, any other number counts as one.
-/

namespace Marginalia

abbrev Name := Text

structure Path where
  /-- The slashes in front, none for a path from the folder at hand. -/
  slashes : Nat := 0
  parts : List Name := []
  deriving DecidableEq, Repr

namespace Path

def above : Name := ['.', '.']

/-- The pieces of a text between slashes. -/
def pieces : Text → List Name
  | [] => [[]]
  | c :: r =>
    if c = '/' then [] :: pieces r
    else
      match pieces r with
      | [] => [[c]]
      | p :: ps => (c :: p) :: ps

def ofText (s : Text) : Path :=
  let n := (s.takeWhile (· == '/')).length
  { slashes := if n = 2 then 2 else min n 1
    parts := (pieces s).filter fun p => p != [] && p != ['.'] }

def isAbsolute (p : Path) : Bool := p.slashes != 0

/-- The names with a slash between neighbours. -/
def joined (parts : List Name) : Text := Text.join ['/'] parts

def text (p : Path) : Text :=
  if !p.isAbsolute && p.parts.isEmpty then ['.']
  else List.replicate p.slashes '/' ++ joined p.parts

/-- The second path as seen from the first. -/
def join (p q : Path) : Path := if q.isAbsolute then q else { p with parts := p.parts ++ q.parts }

def child (p : Path) (name : Name) : Path := { p with parts := p.parts ++ [name] }

/-- The path of what is at a location below. -/
def under (p : Path) (l : List Name) : Path := { p with parts := p.parts ++ l }

/-- Whether a name in the path has a NUL, so that no file can be there. -/
def hasNul (p : Path) : Bool := p.parts.any (·.contains '\x00')

/-- The last name, empty for a path of none. -/
def name (p : Path) : Name := p.parts.getLast?.getD []

def parent (p : Path) : Path := { p with parts := p.parts.dropLast }

/-- The last name without its ending: what stands before its last dot, when that is neither its
first nor its last character. -/
def stem (p : Path) : Name :=
  let afterDot := (p.name.reverse.takeWhile (· != '.')).length
  let beforeDot := p.name.take (p.name.length - afterDot - 1)
  if afterDot = 0 || p.name.length ≤ afterDot || beforeDot.isEmpty then p.name else beforeDot

/-- The names left when each double dot has taken away the name before it. -/
def collapse (parts : List Name) : List Name :=
  (parts.foldl (fun up n => if n = above then up.tail else n :: up) []).reverse

/-- The path with its double dots resolved. -/
def collapsed (p : Path) : Path := { p with parts := collapse p.parts }

/-- The names of an absolute path below a folder, both with their double dots resolved. -/
def below? (folder p : Path) : Option (List Name) :=
  let top := collapse folder.parts
  let all := collapse p.parts
  if top.isPrefixOf all then some (all.drop top.length) else none

/-- The names as a text, a dot for none. -/
def relativeText (parts : List Name) : Text := text { parts }

end Path

end Marginalia
