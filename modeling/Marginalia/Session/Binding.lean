import Marginalia.Document
import Marginalia.Session.Ids
import Marginalia.Session.Records

/-!
# Binding markers

An unbound marker is bound in one edit: the next id is handed out, the marker's token gets the
canonical form, and the record of the fragment is made in the active set. Typing a space or an
underscore at the end of an unbound marker binds it; the underscore goes, the space stays. What
undo and redo change, and what the session itself edits, binds nothing.
-/

namespace Marginalia

/-- A marker that is bound now, its fragment's file, and its line. -/
structure Bound where
  id : Text
  path : Path
  created : Bool
  line : Text
  deriving DecidableEq, Repr

/-- The session that watches a document: the one that edits it and is muted meanwhile, or another
one, which takes note of changes or does not. -/
inductive Watcher where
  | editor
  | other (observing : Bool)
  deriving DecidableEq, Repr

def Watcher.observes (w : Watcher) (editor : Session) : Bool :=
  match w with
  | .editor => editor.observing
  | .other observing => observing

/-- A workspace with one document open. -/
structure Desk where
  tree : Tree
  document : Document
  watcher : Watcher := .editor

abbrev Editing := ExceptT Fault (StateM Desk)

namespace Editing

def ofExcept {α : Type} (r : Except Fault α) : Editing α := ExceptT.mk (pure r)

def onTree {α : Type} (w : Work α) : Editing α := do
  let d ← get
  let (r, t) := w.run d.tree
  set { d with tree := t }
  ofExcept r

def lineText (line : Int) : Editing Text := do
  ofExcept ((← get).document.lineText line)

/-- Applies an edit for a session. -/
def apply (s : Session) (e : Edit) : Editing Bool := do
  let d ← get
  let (document, applied) ← ofExcept (d.document.apply e (d.watcher.observes s))
  set { d with document }
  pure applied

end Editing

namespace Session

/-- The line as it was before a change, which the document may show already or not yet. -/
def lineBefore (line : Text) (c : Change) : Text :=
  if Text.between line c.column (c.column + 1) = c.text then
    Text.before line c.column ++ Text.after line (c.column + 1)
  else line

/-- Whether a change asks for its line's marker to be bound. -/
def shouldHandle (s : Session) (d : Document) (c : Change) : Except Fault Bool :=
  if c.reason = .undo || c.reason = .redo || !s.observing || !Marker.isTrigger c.text then
    .ok false
  else
    (d.lineText c.line).map fun line =>
      Marker.isActivation (lineBefore line c) c.column c.text

/-- Binds the marker that `source`, if given, or else the line itself shows. The edit takes in
`consumed` characters after the marker, as far as the line has them. -/
def bindFrom (s : Session) (now : Int) (line : Int) (consumed : Nat) (source : Option Text) :
    Editing (Option Bound) := do
  let text ← Editing.lineText line
  match Marker.scan line (source.getD text) with
  | none => pure none
  | some m =>
    if m.isBound then pure none
    else
      let id ← Editing.onTree s.allocate
      let edit : Edit :=
        { line
          start := m.start
          stop := min text.length (m.stop + consumed)
          text := Marker.canonicalText m.token id }
      if ← Editing.apply s.mute edit then
        let made ← Editing.onTree (s.ensure now none id)
        let bound ← Editing.lineText line
        pure (some { id, path := made.path, created := made.created, line := bound })
      else pure none

/-- Binds the marker of a line, unless it is bound or missing. -/
def bindMarker (s : Session) (now : Int) (line : Int) : Editing (Option Bound) :=
  s.bindFrom now line 0 none

/-- Binds the marker that a change asks for. -/
def handleChange (s : Session) (now : Int) (c : Change) : Editing (Option Bound) := do
  if ← Editing.ofExcept (s.shouldHandle (← get).document c) then
    let consumed := if c.text = ['_'] then 1 else 0
    let text ← Editing.lineText c.line
    s.bindFrom now c.line consumed (some (lineBefore text c))
  else pure none

/-- Finds the fragment of a line's marker, makes its record when it is missing, and binds the
marker when it is not bound. -/
def openAtLine (s : Session) (now : Int) (line : Int) : Editing (Option Bound) := do
  let text ← Editing.lineText line
  match Marker.scan line text with
  | none => pure none
  | some m =>
    match m.binding with
    | none => s.bindMarker now line
    | some b =>
      match ← Editing.onTree (Work.inspect fun t => s.locate t b.id) with
      | some path => pure (some { id := b.id, path, created := false, line := text })
      | none =>
        let made ← Editing.onTree (s.ensure now none b.id)
        pure (some { id := b.id, path := made.path, created := made.created, line := text })

end Session

end Marginalia
