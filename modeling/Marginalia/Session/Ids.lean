import Marginalia.Json.Reader
import Marginalia.Session.Lookup

/-!
# Ids for new fragments

Ids are handed out in sequence. The next number is kept in a cursor file in the folder that holds
the sets, and numbers of fragments that exist are passed over. A cursor file that is missing or
cannot be understood counts as zero. Random ids of a fixed length are drawn from a stream of
digits.
-/

namespace Marginalia

/-- The text of a cursor file. -/
def cursorText (n : Nat) : Text := "\x7b\"nextId\": ".toList ++ Numeral.ofNat n ++ ['\x7d']

def cursorKey : Text := "nextId".toList

/-- The number in a cursor file, zero unless it is an object with a natural number at the key. Only
an integer with too many digits and nesting too deep are faults. -/
def readCursor (s : Text) : Except Excess Nat :=
  match Json.read s with
  | .error .malformed => .ok 0
  | .error (.excess e) => .error e
  | .ok j =>
    match j.get? cursorKey with
    | some (.integer (.ofNat n)) => .ok n
    | _ => .ok 0

namespace Session

def cursorName : Name := "state.json".toList

/-- The name of the file that replaces the cursor file when it is written. -/
def temporaryName : Name := ".state-TMP.tmp".toList

def cursorPath (s : Session) (operation : Text) : Except Fault Path :=
  (s.requireFolder operation).map (·.child cursorName)

/-- The number to start from. -/
def nextId (s : Session) (t : Tree) : Except Fault Nat := do
  let path ← s.cursorPath "read_state".toList
  match ← tolerate (ask (t.readText path)) with
  | none => pure 0
  | some text => (readCursor text).mapError .excess

/-- Replaces the cursor file, which fails where there is a folder of its name. -/
def writeNextId (s : Session) (n : Nat) : Work Unit := do
  let path ← Work.ofExcept (s.cursorPath "write_state".toList)
  Work.makeFolders path.parent
  match (← get).write path (cursorText n) with
  | .ok t => set t
  | .error cause => throw (.cannotPersist path (path.parent.collapsed.child temporaryName) cause)

/-- The decimal text of a number that is to be an id. -/
def idText (n : Nat) : Except Fault Text :=
  match Numeral.ofInt? n with
  | some id => .ok id
  | none => .error (.excess (.digits (Numeral.ofNat n).length))

/-- The least number from `n` on that is no fragment's id. The search stops when its fuel is used
up; with more fuel than there are files it stops before. -/
def leastFree (s : Session) (t : Tree) : Nat → Nat → Except Fault Nat
  | 0, n => .ok n
  | fuel + 1, n => do
    if ← s.hasFragment t (← idText n) then leastFree s t fuel (n + 1) else pure n

/-- Hands out the next id. The cursor is advanced before. -/
def allocate (s : Session) : Work Text := do
  let _ ← Work.ofExcept (s.requireRoot "allocate".toList)
  let start ← Work.inspect s.nextId
  let n ← Work.inspect fun t => s.leastFree t (t.entries.length + 1) start
  s.writeNextId (n + 1)
  Work.ofExcept (idText n)

/-! ## Random ids -/

def mostAttempts : Nat := 100

/-- The digits of one attempt. -/
def block (digits : Nat → Char) (size attempt : Nat) : Text :=
  (List.range size).map fun k => digits (attempt * size + k)

/-- An id drawn, and how many attempts it took. -/
structure Draw where
  id : Text
  attempts : Nat
  deriving DecidableEq, Repr

/-- The first block from an attempt on that is no fragment's id. -/
def drawFrom (s : Session) (t : Tree) (digits : Nat → Char) (size : Nat) :
    Nat → Nat → Except Fault Draw
  | 0, attempt => .error (.idsTaken size attempt)
  | left + 1, attempt => do
    let id := block digits size attempt
    if ← s.hasFragment t id then drawFrom s t digits size left (attempt + 1)
    else pure { id, attempts := attempt + 1 }

/-- Draws an id of the length asked for, or else of the length in the settings. -/
def randomId (s : Session) (t : Tree) (digits : Nat → Char) (length : Option Toml.Value) :
    Except Fault Draw := do
  let wanted := length.getD (.integer s.config.idLength)
  let size ← (Config.clampIdLength (some wanted)).mapError fun _ => .overflow
  s.drawFrom t digits size.toNat mostAttempts 0

end Session

end Marginalia
