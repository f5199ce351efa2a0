import Marginalia.Session.Counts
import Marginalia.Text.Passed

/-!
# Strings that cannot be encoded

The path that a count is noted for, and the default category of a new record, come from outside and
may have no text. A file is opened before its text is encoded, so a record that was to hold such a
string is empty when the operation fails.
-/

namespace Marginalia.Session

/-! ## Counts -/

/-- Notes a count for a path that has no text. No record has a count for it, so only one that is to
be set changes the record, which is lost then. -/
def spoilCount (s : Session) (id : Text) (count : Int) : Work (Option Refs) := do
  match ← Work.inspect fun t => s.locate t id with
  | none => pure none
  | some file =>
    match ← Work.inspect fun t => tolerate (readHeader t file) with
    | none => pure none
    | some header =>
      if 0 < count then
        if (Numeral.ofInt? count).isNone then
          throw (.excess (.digits (Numeral.ofNat count.natAbs).length))
        Work.change fun t => t.write file []
        throw .unencodable
      else pure (some header.refs)

/-- Notes how often a file refers to a fragment. -/
def recordPassed (s : Session) (id : Text) (path : Passed) (count : Int) : Work (Option Refs) :=
  match path.text? with
  | some path => s.record id path count
  | none => s.spoilCount id count

def spoilAll (s : Session) : List (Text × Nat) → Work Unit
  | [] => pure ()
  | (id, count) :: rest => do
    let _ ← s.spoilCount id count
    spoilAll s rest

/-- Looks for a count of a path that has no text in the records whose ids do not occur in its file.
There is none, but each of them is read. -/
def seek (kept : List Text) : List Path → Work Unit
  | [] => pure ()
  | file :: rest => do
    if (fileId? file.name).any fun id => !kept.contains id then
      let _ ← Work.inspect fun t => tolerate (readHeader t file)
    seek kept rest

/-- Notes the counts of a file from its text. -/
def observePassed (s : Session) (path : Passed) (text : Text) : Work (List (Text × Nat)) :=
  match path.text? with
  | some path => s.observe path text
  | none => do
    let counts := idCounts (boundIds text)
    s.spoilAll counts
    let files ← Work.inspect s.fragmentPaths
    seek (counts.map Prod.fst) files
    pure counts

/-- What saving a document does. -/
def onSavePassed (s : Session) (path : Passed) (text : Text) : Work (List (Text × Nat)) :=
  match s.root with
  | none => pure []
  | some _ => s.observePassed path text

/-! ## New records -/

/-- Makes the record of a fragment in a set, unless there is one, with a default category from
outside. -/
def ensurePassed (s : Session) (category : Passed) (now : Int) (set : Option Text) (id : Text) :
    Work Created :=
  match category.text? with
  | some label => { s with config.defaultCategory := label }.ensure now set id
  | none => do
    let made ← s.makeRecord set id []
    if made.created then throw .unencodable
    pure made

/-! ## Strings that have a text -/

theorem recordPassed_ofText (s : Session) (id path : Text) (count : Int) :
    s.recordPassed id (.ofText path) count = s.record id path count := by
  simp [recordPassed]

theorem onSavePassed_ofText (s : Session) (path text : Text) :
    s.onSavePassed (.ofText path) text = s.onSave path text := by
  unfold onSavePassed onSave observePassed
  cases s.root <;> simp

theorem ensurePassed_ofText (s : Session) (now : Int) (set : Option Text) (id : Text) :
    s.ensurePassed (.ofText s.config.defaultCategory) now set id = s.ensure now set id := by
  simp [ensurePassed]

end Marginalia.Session
