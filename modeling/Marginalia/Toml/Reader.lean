import Marginalia.Toml.Nest

/-!
# TOML documents

A document is a sequence of statements, one a line: a key with its value, the header of a table or
the header of an item in a list of tables. A table may be opened by one header only, and not after
dotted keys have made it in an earlier section. Lists and tables written as values are closed to
every later statement.
-/

namespace Marginalia.Toml

/-! ## Keys -/

def isBareKey (c : Char) : Bool := isAsciiWord c || c == '-'

def isKeyStart (c : Char) : Bool := isBareKey c || c == '"' || c == '\''

def keyPart (s : Text) : Read Text :=
  match s with
  | [] => .error .malformed
  | c :: r =>
    if isBareKey c then
      let key := s.takeWhile isBareKey
      .ok (key, s.drop key.length)
    else if c = '"' || c = '\'' then oneLine c r
    else .error .malformed

/-- The parts of a dotted key, with the space around and after it skipped. Every part takes a
character, so a fuel of the text's length is enough. -/
def keyParts : Nat → Text → Read Key
  | 0, _ => .error .malformed
  | fuel + 1, s =>
    match keyPart s with
    | .error e => .error e
    | .ok (part, rest) =>
      match skipSpace rest with
      | '.' :: more =>
        (keyParts fuel (skipSpace more)).map fun (parts, rest) => (part :: parts, rest)
      | rest => .ok ([part], rest)

def key (s : Text) : Read Key := keyParts (s.length + 1) s

/-! ## Values -/

/-- The text after a comment, from the line feed on. -/
def skipComment (s : Text) : Except Fault Text :=
  match s with
  | '#' :: r =>
    let comment := r.takeWhile (· != '\n')
    if comment.any isControl then .error .malformed else .ok (r.drop comment.length)
  | _ => .ok s

/-- The text after blank space, line feeds and comments inside a list. -/
def skipBetween (inComment : Bool) : Text → Except Fault Text
  | [] => .ok []
  | c :: r =>
    if inComment then
      if c = '\n' then skipBetween false r
      else if isControl c then .error .malformed
      else skipBetween true r
    else if isSpaceOrFeed c then skipBetween false r
    else if c = '#' then skipBetween true r
    else .ok (c :: r)

def Value.isNested : Value → Bool
  | .array _ | .table _ => true
  | _ => false

def equals (s : Text) : Except Fault Text :=
  match s with
  | '=' :: r => .ok (skipSpace r)
  | _ => .error .malformed

/-- The units of depth that a list takes. -/
def listDepth : Nat := 2

/-- The units of depth that a table written as a value takes. -/
def tableDepth : Nat := 3

mutual

/-- A value, with room for so many units of depth. At most two steps are taken before the next
character is read, so a fuel of twice the text's length and one is enough. -/
def value (room : Nat) : Nat → Text → Except Fault (Value × Text)
  | 0, _ => .error .malformed
  | fuel + 1, s =>
    match s with
    | [] => .error .malformed
    | c :: r =>
      if c = '"' || c = '\'' then string c r
      else if c = '[' then
        if room < listDepth then .error (.excess .depth)
        else do
          match ← skipBetween false r with
          | ']' :: rest => .ok (.array [], rest)
          | body =>
            let (vs, rest) ← items (room - listDepth) fuel body
            .ok (.array vs, rest)
      else if c = '\x7b' then
        if room < tableDepth then .error (.excess .depth)
        else
          match skipSpace r with
          | '\x7d' :: rest => .ok (.table [], rest)
          | body =>
            (entries (room - tableDepth) fuel [] [] body).map fun (t, rest) => (.table t, rest)
      else bare s

/-- The items of a list up to its closing bracket. A comma may follow the last one. -/
def items (room : Nat) : Nat → Text → Except Fault (List Value × Text)
  | 0, _ => .error .malformed
  | fuel + 1, s => do
    let (v, rest) ← value room fuel s
    match ← skipBetween false rest with
    | ']' :: rest => .ok ([v], rest)
    | ',' :: rest =>
      match ← skipBetween false rest with
      | ']' :: rest => .ok ([v], rest)
      | body =>
        let (vs, rest) ← items room fuel body
        .ok (v :: vs, rest)
    | _ => .error .malformed

/-- The entries of a table written as a value, after those in `t`, up to its closing brace. The
keys of its own nested values are closed. -/
def entries (room : Nat) : Nat → List Key → Table → Text → Except Fault (Table × Text)
  | 0, _, _, _ => .error .malformed
  | fuel + 1, closed, t, s => do
    let (k, rest) ← key s
    let (v, rest) ← value room fuel (← equals rest)
    if closed.any (·.isPrefixOf k) then .error .malformed
    else
      let t ← atKey false k (addEntry · v) t
      match skipSpace rest with
      | '\x7d' :: rest => .ok (t, rest)
      | ',' :: rest =>
        entries room fuel (if v.isNested then k :: closed else closed) t (skipSpace rest)
      | _ => .error .malformed

end

/-! ## Statements -/

/-- A document read so far: the section that statements go to, the keys of values that are closed,
the keys of tables opened, and those that will count as opened in later sections. -/
structure Draft where
  table : Table := []
  section_ : Key := []
  closed : List Key := []
  opened : List Key := []
  pending : List Key := []

namespace Draft

def isClosed (d : Draft) (k : Key) : Bool := d.closed.any (·.isPrefixOf k)

def isOpened (d : Draft) (k : Key) : Bool := d.opened.contains k

/-- The paths of the tables that a dotted key makes in a section. -/
def madeBy (top k : Key) : List Key :=
  ((List.range k.length).drop 1).map fun n => top ++ k.take n

def addValue (d : Draft) (k : Key) (v : Value) : Except Fault Draft :=
  let made := madeBy d.section_ k
  let full := d.section_ ++ k
  if made.any d.isOpened || d.isClosed full.dropLast then .error .malformed
  else
    (atKey true full (addEntry · v) d.table).map fun table =>
      { d with
        table
        closed := if v.isNested then full :: d.closed else d.closed
        pending := made ++ d.pending }

def settle (d : Draft) : Draft := { d with opened := d.pending ++ d.opened, pending := [] }

def openTable (d : Draft) (k : Key) : Except Fault Draft :=
  if d.isOpened k || d.isClosed k then .error .malformed
  else
    (within true .ok k d.table).map fun table =>
      { d with table, section_ := k, opened := k :: d.opened }

def openItem (d : Draft) (k : Key) : Except Fault Draft :=
  if d.isClosed k then .error .malformed
  else
    (atKey true k addItem d.table).map fun table =>
      { d with
        table
        section_ := k
        closed := d.closed.filter fun other => !k.isPrefixOf other
        opened := k :: d.opened.filter fun other => !k.isPrefixOf other }

end Draft

/-- A header after its first bracket. -/
def header (d : Draft) (s : Text) : Except Fault (Draft × Text) := do
  match s with
  | '[' :: r =>
    let (k, rest) ← key (skipSpace r)
    let d ← d.settle.openItem k
    match Text.dropMark? [']', ']'] rest with
    | some rest => .ok (d, rest)
    | none => .error .malformed
  | _ =>
    let (k, rest) ← key (skipSpace s)
    let d ← d.settle.openTable k
    match Text.dropMark? [']'] rest with
    | some rest => .ok (d, rest)
    | none => .error .malformed

def statement (d : Draft) (s : Text) : Except Fault (Draft × Text) :=
  match s with
  | [] => .ok (d, [])
  | c :: r =>
    if isKeyStart c then do
      let (k, rest) ← key s
      let body ← equals rest
      let (v, rest) ← value deepest (2 * body.length + 1) body
      .ok (← d.addValue k v, rest)
    else if c = '[' then header d r
    else if c = '#' || c = '\n' then .ok (d, s)
    else .error .malformed

/-- The statements of a text, a line each. Every line takes a character, so a fuel of the text's
length is enough. -/
def statements : Nat → Draft → Text → Except Fault Draft
  | 0, _, _ => .error .malformed
  | fuel + 1, d, s => do
    let (d, rest) ← statement d (skipSpace s)
    match ← skipComment (skipSpace rest) with
    | [] => .ok d
    | '\n' :: more => statements fuel d more
    | _ => .error .malformed

/-- A carriage return before a line feed does not count. -/
def dropReturns : Text → Text
  | [] => []
  | '\r' :: '\n' :: r => '\n' :: dropReturns r
  | c :: r => c :: dropReturns r

def read (s : Text) : Except Fault Table :=
  let s := dropReturns s
  (statements (s.length + 1) {} s).map (·.table)

end Marginalia.Toml
