import Marginalia.Session.Records
import Marginalia.Session.References

/-!
# Cached reference counts

A fragment's header keeps how often each file refers to it. One observation sets or removes the
count of one file; a refresh replaces all counts by those of a full scan. A record is written
only when its counts change.
-/

namespace Marginalia.Session

/-- Notes how often a file refers to a fragment. The counts afterwards, unless the fragment is
missing or unreadable. -/
def record (s : Session) (id path : Text) (count : Int) : Work (Option Refs) := do
  match ← Work.inspect fun t => s.locate t id with
  | none => pure none
  | some file =>
    match ← Work.inspect fun t => tolerate (readHeader t file) with
    | none => pure none
    | some header =>
      let merged := header.mergeRef path count
      if merged.refs != header.refs then writeHeader file merged
      pure (some merged.refs)

/-- The ids of the markers in a text, one for each bound marker. -/
def boundIds (text : Text) : List Text := (Marker.scanText text).filterMap Marker.id?

/-- How often each id occurs, in the order of the first occurrences. -/
def idCounts (ids : List Text) : List (Text × Nat) :=
  ids.eraseDups.map fun id => (id, ids.count id)

def recordAll (s : Session) (path : Text) : List (Text × Nat) → Work Unit
  | [] => pure ()
  | (id, count) :: rest => do
    let _ ← s.record id path count
    recordAll s path rest

/-- Takes a file's count out of the records whose ids do not occur in it. -/
def forget (path : Text) (kept : List Text) : List Path → Work Unit
  | [] => pure ()
  | file :: rest => do
    if (fileId? file.name).any fun id => !kept.contains id then
      match ← Work.inspect fun t => tolerate (readHeader t file) with
      | none => pure ()
      | some header =>
        if (header.refs.get? path).isSome then writeHeader file (header.mergeRef path 0)
    forget path kept rest

/-- Notes the counts of a file from its text, and returns those that are not zero. -/
def observe (s : Session) (path text : Text) : Work (List (Text × Nat)) := do
  let counts := idCounts (boundIds text)
  s.recordAll path counts
  let files ← Work.inspect s.fragmentPaths
  forget path (counts.map Prod.fst) files
  pure counts

/-- What saving a document does. Without a workspace it does nothing. -/
def onSave (s : Session) (path text : Text) : Work (List (Text × Nat)) :=
  match s.root with
  | none => pure []
  | some _ => s.observe path text

/-- Replaces the counts of a fragment by those of a full scan. -/
def refresh (s : Session) (id : Text) : Work (Option Refs) := do
  match ← Work.inspect fun t => s.locate t id with
  | none => pure none
  | some file =>
    let found ← Work.inspect fun t => s.findReferences t id
    let counts := Refs.tally (found.map (·.file))
    let header ← Work.inspect fun t => readHeader t file
    if header.refs != counts then writeHeader file { header with refs := counts }
    pure (some counts)

/-- The counts in a fragment's header, none when it is missing or unreadable. -/
def cachedRefs (s : Session) (t : Tree) (id : Text) : Except Fault Refs := do
  match ← s.locate t id with
  | none => pure {}
  | some file =>
    let header ← tolerate (readHeader t file)
    pure ((header.map (·.refs)).getD {})

def cachedCount (s : Session) (t : Tree) (id : Text) : Except Fault Int :=
  (s.cachedRefs t id).map Refs.total

end Marginalia.Session
