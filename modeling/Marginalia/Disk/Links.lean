import Marginalia.Disk.Walk

/-!
# Folders with links

A listing of a folder that may hold links. A link to a file, over any number of links up to
`mostLinks`, is a file with that content. One that leads to a folder, nowhere or in a circle is
left out, and one to a name that is too long makes the walk over its folder fail.
-/

namespace Marginalia

inductive Listed where
  | node (n : Node)
  | link (target : Text)
  deriving DecidableEq, Repr

/-- A tree with its links replaced by the files they lead to, and the links that no walk gets
past. -/
structure Linked where
  tree : Tree
  refused : List Location := []
  deriving DecidableEq, Repr

namespace Linked

def mostLinks : Nat := 40

/-- Whether a piece of a target stays where it is, as an empty one and a single dot do. -/
def staysHere (n : Name) : Bool := n == [] || n == ['.']

/-- The file that the pieces of a target lead to from a folder, past at most `fuel` links. All but
the last lead through folders. -/
def follow (t : Tree) (links : List (Location × Text)) (fuel : Nat) (l : Location) :
    List Name → Except Disk.Fault Content
  | [] => t.contentAt l
  | n :: rest =>
    if n = Path.above then follow t links fuel l.dropLast rest
    else if staysHere n then
      if t.node? l = some .folder then follow t links fuel l rest else .error .notFolder
    else if Disk.longestName < Utf8.size n then .error .nameTooLong
    else
      match links.lookup (l ++ [n]) with
      | some target =>
        match fuel with
        | 0 => .error .missing
        | fuel + 1 =>
          follow t links fuel (if target.head? == some '/' then [] else l)
            (Path.pieces target ++ rest)
      | none =>
        if rest.isEmpty || t.node? (l ++ [n]) = some .folder then
          follow t links fuel (l ++ [n]) rest
        else .error .missing
termination_by parts => (fuel, parts.length)

/-- The entries of a listing that are no links, with the folders that hold links. -/
def plain (listing : List (Location × Listed)) : Tree :=
  listing.foldl
    (fun t (l, e) =>
      match e with
      | .node n => t.put l n
      | .link _ => t.put l.dropLast .folder)
    {}

def links (listing : List (Location × Listed)) : List (Location × Text) :=
  listing.filterMap fun (l, e) =>
    match e with
    | .node _ => none
    | .link target => some (l, target)

def ofListing (listing : List (Location × Listed)) : Linked :=
  let t := plain listing
  let ls := links listing
  ls.foldl
    (fun found (l, _) =>
      match follow t ls mostLinks [] l with
      | .ok c => { found with tree := found.tree.insert l (.file c) }
      | .error .nameTooLong => { found with refused := l :: found.refused }
      | .error _ => found)
    { tree := t }

/-- The walk from a root, which does not get past a link that is refused. -/
def walk (x : Linked) (levels : Nat) (root : Path) (excluded : List Name) : Walk :=
  let w := x.tree.walk levels root excluded
  let met := x.refused.filter fun l =>
    Tree.isWalked w.base excluded l && Tree.isEntered root (l.drop w.base.length)
  let refused := met.map fun l =>
    ({ location := l.drop w.base.length, fault := .nameTooLong } : Obstacle)
  .upTo w.base w.found (w.ended.toList ++ refused)

end Linked

end Marginalia
