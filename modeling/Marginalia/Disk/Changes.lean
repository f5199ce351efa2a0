import Marginalia.Disk.Tree

/-!
# Changes

What differs between two trees below a folder: for every location whose node is not the same, the
node in the second tree, or none when it is gone.
-/

namespace Marginalia.Tree

def changes (root : Location) (old new : Tree) : List (Location × Option Node) :=
  let below (t : Tree) := t.entries.filter fun e => root.isPrefixOf e.1 && e.1 != root
  let gone := (below old).filterMap fun (l, _) =>
    if (new.node? l).isNone then some (l.drop root.length, none) else none
  let fresh := (below new).filterMap fun (l, n) =>
    if old.node? l = some n then none else some (l.drop root.length, some n)
  gone ++ fresh

end Marginalia.Tree
