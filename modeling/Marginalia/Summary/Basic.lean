import Marginalia.Session.Counts

/-!
# Summaries

A summary lists the fragments of a set with their occurrences. The occurrences come from a full
scan; a fragment that cannot be read has the default category and no body.
-/

namespace Marginalia

structure Entry where
  id : Text
  category : Text
  path : Path
  relativePath : Text
  body : Text
  occurrences : List Occurrence := []
  deriving DecidableEq, Repr

structure Summary where
  set : Text
  generated : Text
  entries : List Entry := []
  deriving DecidableEq, Repr

namespace Session

/-- The entry of a fragment in the folder of its set. -/
def entry (s : Session) (t : Tree) (folder : Path) (id : Text) (occurrences : List Occurrence) :
    Except Fault Entry := do
  let path := folder.fragment id
  let fragment ← tolerate (s.read t path)
  let relativePath ← s.relativePath path
  pure
    { id
      category := (fragment.map (·.category)).getD s.config.defaultCategory
      path
      relativePath
      body := (fragment.map (·.body)).getD []
      occurrences }

/-- The summary of a set, of the active one when none is named. The folder of the set is made. -/
def summary (s : Session) (now : Int) (set : Option Text) : Work Summary := do
  let name := match set with
    | none | some [] => s.activeSet
    | some name => name
  let folder ← s.ensureSet (some name)
  let found ← Work.inspect fun t => s.scanSet t (some name)
  let entries ← Work.inspect fun t =>
    found.mapM fun (id, occurrences) => s.entry t folder id occurrences
  pure { set := name, generated := Time.stamp now, entries }

end Session

end Marginalia
