import Marginalia.Config.Basic
import Marginalia.Report

/-!
# Sessions

A session is one user's view of a workspace: its root, if a folder is open, the settings, the
active set and how often changes are muted. Fragments are kept in the folders of their sets, which
lie in one folder below the root. Work on a workspace reads and changes its tree and may end in a
fault, with what was done before it in place.
-/

namespace Marginalia

/-! ## Work on a tree -/

abbrev Work := ExceptT Fault (StateM Tree)

namespace Work

def ofExcept {α : Type} (r : Except Fault α) : Work α := ExceptT.mk (pure r)

/-- What the tree gives at this point. -/
def inspect {α : Type} (look : Tree → Except Fault α) : Work α := do
  let t ← get
  ofExcept (look t)

def change (act : Tree → Except Disk.Fault Tree) : Work Unit := do
  match act (← get) with
  | .ok t => set t
  | .error f => throw (.disk f)

def makeFolders (p : Path) : Work Unit := do
  let (t, fault) := (← get).makeFolders p
  set t
  match fault with
  | none => pure ()
  | some f => throw (.disk f)

end Work

/-- A question to the disk, its refusal a fault. -/
def ask {α : Type} (r : Except Disk.Fault α) : Except Fault α := r.mapError .disk

/-! ## Sessions -/

def defaultSet : Text := "default".toList

structure Session where
  root : Option Path
  config : Config := {}
  activeSet : Text := defaultSet
  muted : Nat := 0
  deriving Repr

/-- A session and the tree it works on, at one moment. -/
structure Sitting where
  session : Session
  tree : Tree

/-- Work in which the session itself may change. -/
abbrev Acting := ExceptT Fault (StateM Sitting)

namespace Acting

def ofExcept {α : Type} (r : Except Fault α) : Acting α := ExceptT.mk (pure r)

def onTree {α : Type} (w : Work α) : Acting α := do
  let a ← get
  let (r, t) := w.run a.tree
  set { a with tree := t }
  ofExcept r

/-- What a session comes to. -/
def outcome {α : Type} (act : Acting α) (s : Session) : Work Session := do
  let (r, a) := act.run { session := s, tree := ← get }
  set a.tree
  Work.ofExcept (r.map fun _ => a.session)

end Acting

namespace Session

/-- Whether the session takes note of changes. -/
def observing (s : Session) : Bool := s.muted == 0

/-- The session while its own edits are applied. -/
def mute (s : Session) : Session := { s with muted := s.muted + 1 }

/-- The session when they have been. -/
def unmute (s : Session) : Session := { s with muted := s.muted - 1 }

theorem observing_mute (s : Session) : s.mute.observing = false := rfl

theorem unmute_mute (s : Session) : s.mute.unmute = s := rfl

def requireRoot (s : Session) (operation : Text) : Except Fault Path :=
  match s.root with
  | some root => .ok root
  | none => .error (.noWorkspace operation)

/-- The folder that holds the sets. -/
def folder? (s : Session) : Option Path :=
  s.root.map fun root => root.join (Path.ofText s.config.folder)

def requireFolder (s : Session) (operation : Text) : Except Fault Path :=
  (s.requireRoot operation).map fun root => root.join (Path.ofText s.config.folder)

/-- The path as seen from the root, or as it is when it cannot lie below. -/
def relativePath (s : Session) (p : Path) : Except Fault Text :=
  (s.requireRoot "relative_path".toList).map fun root =>
    match root.below? p with
    | some parts => if p.hasNul then p.text else Path.relativeText parts
    | none => p.text

/-- The names that are never entered in search of markers. -/
def unscanned (s : Session) : List Name :=
  s.config.excluded ++ [(Path.ofText s.config.folder).name]

/-! ## Sets -/

/-- The folder of a set, of the active one when none is named. -/
def setFolder (s : Session) (name : Option Text) : Except Fault Path := do
  let name ← match name with
    | none | some [] => pure s.activeSet
    | some name => (SetName.sanitize (some name)).mapError .setName
  let folder ← s.requireFolder "set_dir".toList
  pure (folder.join (Path.ofText (if name.isEmpty then defaultSet else name)))

def ensureSet (s : Session) (name : Option Text) : Work Path := do
  let path ← Work.ofExcept (s.setFolder name)
  Work.makeFolders path
  pure path

/-- Makes the folder of a set, then makes the set the active one. -/
def switching (name : Option Text) : Acting Text := do
  let name ← Acting.ofExcept ((SetName.sanitize name).mapError .setName)
  let folder ← Acting.ofExcept ((← get).session.requireFolder "switch_set".toList)
  Acting.onTree (Work.makeFolders (folder.join (Path.ofText name)))
  modify fun a => { a with session.activeSet := name }
  pure name

/-- Makes the folder of the default set and switches to the set named. Without a workspace there is
nothing to do. -/
def activating (name : Option Text) : Acting Unit := do
  match (← get).session.root with
  | none => pure ()
  | some _ =>
    let _ ← Acting.onTree ((← get).session.ensureSet (some defaultSet))
    match name with
    | none | some [] => pure ()
    | some name =>
      let _ ← switching (some name)

/-- The session with another active set, whose folder is made. -/
def switchSet (s : Session) (name : Option Text) : Work Session := (switching name).outcome s

/-- The session once it was activated. -/
def activate (s : Session) (name : Option Text) : Work Session := (activating name).outcome s

/-- The names of the folders in the folder of sets, ascending. -/
def setNames (s : Session) (t : Tree) : Except Fault (List Name) :=
  match s.folder? with
  | none => .ok []
  | some folder => ask do
    if ← t.isFolder folder then t.foldersIn folder else pure []

/-- The sets to choose from: the active one, the default one, then the others. -/
def listSets (s : Session) (t : Tree) : Except Fault (List Name) :=
  (s.setNames t).map fun names => (s.activeSet :: defaultSet :: names).eraseDups

end Session

end Marginalia
