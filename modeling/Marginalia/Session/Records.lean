import Marginalia.Fragment.Excerpt
import Marginalia.Fragment.Page
import Marginalia.Session.Lookup
import Marginalia.Time.Stamp

/-!
# Fragment records

Making, reading and changing the files of fragments. A record is made at most once: when its file
is there already it stays as it is. In a header that is read or written for a file whose name gives
an id, that id counts.
-/

namespace Marginalia

structure Fragment where
  id : Text
  path : Path
  /-- The folder it lies in, unless that is the one that holds the sets. -/
  set : Option Name
  category : Text
  created : Option Text
  body : Text
  refs : Refs
  deriving DecidableEq, Repr

/-- What is shown of a fragment beside its marker. -/
structure Preview where
  category : Text
  preview : Option Text := none
  inline : Option Text := none
  deriving DecidableEq, Repr

structure Created where
  path : Path
  created : Bool
  deriving DecidableEq, Repr

/-! ## New records -/

/-- The page of a fragment that is made at a moment. -/
def Page.fresh (config : Config) (now : Int) (id : Text) : Page :=
  { header :=
      { fields :=
          [(Header.idKey, id), (Header.createdKey, Time.stamp now),
            (Header.categoryKey, config.defaultCategory)] } }

namespace Session

/-- Makes a file with a text as the record of a fragment in a set, unless there is one. -/
def makeRecord (s : Session) (set : Option Text) (id text : Text) : Work Created := do
  let _ ← Work.ofExcept (s.requireRoot "ensure_fragment".toList)
  let folder ← s.ensureSet set
  let path := folder.fragment id
  match (← get).create path text with
  | .ok t =>
    MonadState.set t
    pure { path, created := true }
  | .error .occupied => pure { path, created := false }
  | .error .nulInName => throw (.disk .nulInName)
  | .error cause => throw (.cannotCreate path cause)

/-- Makes the record of a fragment in a set, unless there is one. -/
def ensure (s : Session) (now : Int) (set : Option Text) (id : Text) : Work Created :=
  s.makeRecord set id (Page.fresh s.config now id).render

/-! ## Reading -/

def readPage (t : Tree) (path : Path) : Except Fault Page := do
  let text ← ask (t.readText path)
  (Page.parse text).mapError .excess

/-- A header with the id that the name of its file gives. -/
def identify (path : Path) (h : Header) : Header :=
  match fileId? path.name with
  | some id => h.set Header.idKey id
  | none => h

def readHeader (t : Tree) (path : Path) : Except Fault Header :=
  (readPage t path).map fun page => identify path page.header

/-- The id of a record: of its file's name, else of its header unless empty, else the name. -/
def recordId (path : Path) (h : Header) : Text :=
  match fileId? path.name, h.get? Header.idKey with
  | some id, _ => id
  | none, some (c :: r) => c :: r
  | none, _ => path.stem

def read (s : Session) (t : Tree) (path : Path) : Except Fault Fragment :=
  (readPage t path).map fun page =>
    { id := recordId path page.header
      path
      set := s.folder?.bind fun folder =>
        if path.parent = folder then none else some path.parent.name
      category := page.header.category s.config.defaultCategory
      created := page.header.get? Header.createdKey
      body := page.body
      refs := page.header.refs }

def mostPreviewLines : Int := 12

def mostPreviewChars : Int := 600

/-- The preview of a body, which is none when the body is blank. -/
def previewBody (category body : Text) : Preview :=
  let trimmed := Text.trim body
  match Text.lines trimmed with
  | [] => { category }
  | first :: more =>
    let first := Text.trim first
    let inline := if more.isEmpty then first else first ++ [Text.ellipsis]
    { category
      preview := some (Text.excerpt mostPreviewLines mostPreviewChars trimmed)
      inline := if inline.isEmpty then none else some inline }

/-- The preview of a fragment. One that is missing or unreadable shows the default category. -/
def preview (s : Session) (t : Tree) (id : Text) : Except Fault Preview := do
  let plain : Preview := { category := s.config.defaultCategory }
  match ← s.locate t id with
  | none => pure plain
  | some path =>
    match ← tolerate (s.read t path) with
    | none => pure plain
    | some fragment => pure (previewBody fragment.category fragment.body)

/-! ## Changing -/

/-- Puts a page in the place of a record, unless its header cannot be written. -/
def writePage (path : Path) (p : Page) : Work Unit :=
  match p.header.excess? with
  | some e => throw (.excess e)
  | none => Work.change fun t => t.write path p.render

/-- Replaces the header of a record. Its body stays. -/
def writeHeader (path : Path) (h : Header) : Work Unit := do
  let page ← Work.inspect fun t => readPage t path
  writePage path { page with header := identify path h }

/-- Replaces the body of a record. Its header stays. -/
def writeBody (path : Path) (body : Text) : Work Unit := do
  let header ← Work.inspect fun t => readHeader t path
  writePage path { header, body }

end Session

end Marginalia
