import Marginalia.Marker.Basic
import Marginalia.Session.Basic

/-!
# Finding fragments

A fragment's file is named by its id. It lies in the folder of a set or, from former times, in the
folder that holds the sets, which is looked at first. An id is looked up in every set.
-/

namespace Marginalia

/-- The id that a file name gives: its digits before the ending of fragment files, in capitals or
small letters, with at most a line feed after it. -/
def fileId? (name : Name) : Option Text :=
  let id := name.takeWhile isAsciiDigit
  match name.drop id.length with
  | '.' :: m :: d :: rest =>
    if isId id && (m == 'm' || m == 'M') && (d == 'd' || d == 'D') &&
        (rest.isEmpty || rest == ['\n']) then
      some id
    else none
  | _ => none

def ending : Text := ['.', 'm', 'd']

/-- The path of a fragment's file in a folder. -/
def Path.fragment (folder : Path) (id : Text) : Path := folder.join (Path.ofText (id ++ ending))

/-- The fragment files among the files of a folder, each with its id. -/
def fragmentIds (files : List Name) : List (Name × Text) :=
  files.filterMap fun name => (fileId? name).map fun id => (name, id)

namespace Session

/-- Ids in the order of their values, those of one value in the order of their texts. -/
def idsInOrder (ids : List Text) : List Text :=
  ids.mergeSort fun a b =>
    let m := Numeral.value a
    let n := Numeral.value b
    m < n || (m == n && !decide (b < a))

/-- The ids of the fragments in the folder of a set. -/
def listIds (s : Session) (t : Tree) (set : Option Text) : Except Fault (List Text) := do
  let folder ← s.setFolder set
  ask do
    if ← t.isFolder folder then
      pure (idsInOrder ((fragmentIds (← t.filesIn folder)).map Prod.snd))
    else pure []

/-- The first of some folders that has a fragment's file. -/
def firstWith (t : Tree) (id : Text) : List Path → Except Disk.Fault (Option Path)
  | [] => .ok none
  | folder :: rest => do
    if ← t.isFile (folder.fragment id) then pure (some (folder.fragment id))
    else firstWith t id rest

/-- The folders that may hold fragments, the one that holds the sets first. -/
def fragmentFolders (s : Session) (t : Tree) : Except Fault (List Path) :=
  match s.folder? with
  | none => .ok []
  | some folder => do
    if ← ask (t.isFolder folder) then
      pure (folder :: (← s.setNames t).map folder.child)
    else pure []

/-- The file of a fragment. -/
def locate (s : Session) (t : Tree) (id : Text) : Except Fault (Option Path) := do
  ask (firstWith t id (← s.fragmentFolders t))

def hasFragment (s : Session) (t : Tree) (id : Text) : Except Fault Bool :=
  (s.locate t id).map Option.isSome

/-- All fragment files, those of one folder in the order of their names. -/
def fragmentPaths (s : Session) (t : Tree) : Except Fault (List Path) := do
  let folders ← s.fragmentFolders t
  let found ← folders.mapM fun folder =>
    ask ((t.filesIn folder).map fun files =>
      (fragmentIds files).map fun (name, _) => folder.child name)
  pure found.flatten

end Session

end Marginalia
