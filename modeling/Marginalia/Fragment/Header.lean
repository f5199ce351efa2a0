import Marginalia.Excess
import Marginalia.Fragment.Refs
import Marginalia.Text.Lines
import Marginalia.Text.Numeral

/-!
# Fragment headers

A header is an ordered list of fields and one block of reference counts. A line `key: value` is a
field, an indented line after a field continues its value, and indented lines after the key of the
counts are entries `count@path`. Lines of no such shape are left out. Values stay raw text. The
block of counts keeps its place among the fields.
-/

namespace Marginalia

structure Header where
  fields : List (Text × Text) := []
  refs : Refs := {}
  /-- The number of fields before the block of counts, once there has been a block. -/
  refsPlace : Option Int := none
  deriving DecidableEq, Repr

namespace Header

def refsKey : Text := ['r', 'e', 'f', 's']

def idKey : Text := ['i', 'd']

def createdKey : Text := ['c', 'r', 'e', 'a', 't', 'e', 'd']

def categoryKey : Text := ['c', 'a', 't', 'e', 'g', 'o', 'r', 'y']

/-! ## Fields -/

/-- The value of the first field with the key. -/
def get? (h : Header) (key : Text) : Option Text := h.fields.lookup key

def setField (key value : Text) : List (Text × Text) → List (Text × Text)
  | [] => [(key, value)]
  | (k, v) :: rest => if k = key then (key, value) :: rest else (k, v) :: setField key value rest

/-- Sets the first field with the key, or adds one at the end. -/
def set (h : Header) (key value : Text) : Header :=
  { h with fields := setField key value h.fields }

def isQuotationMark (c : Char) : Bool := c == '\x22' || c == '\''

/-- The category without blank ends and quotation marks around it. One that is missing, empty or
of several lines counts as the default. -/
def category (h : Header) (fallback : Text) : Text :=
  let label :=
    Text.trim (Text.dropEndsWhile isQuotationMark (Text.trim ((h.get? categoryKey).getD [])))
  if label.isEmpty || label.contains '\n' then fallback else label

def mergeRef (h : Header) (path : Text) (n : Int) : Header :=
  { h with refs := h.refs.merge path n }

/-! ## Reading -/

def isKeyStart (c : Char) : Bool := isAsciiLetter c || c == '_'

def isKeyChar (c : Char) : Bool := isWord c || c == '-'

/-- The key and the value of a field's line. -/
def readPair? (line : Text) : Option (Text × Text) :=
  match line with
  | [] => none
  | c :: _ =>
    let key := line.takeWhile isKeyChar
    match Text.trimStart (line.drop key.length) with
    | ':' :: value => if isKeyStart c then some (key, Text.trim value) else none
    | _ => none

/-- The digits and the path of an entry's line. -/
def readEntry? (line : Text) : Option (Text × Text) :=
  let body := Text.trim line
  let digits := body.takeWhile isAsciiDigit
  match body.drop digits.length with
  | '@' :: path =>
    if digits.isEmpty || path.isEmpty then none else some (digits, Text.trim path)
  | _ => none

/-- A header read so far, and whether the lines just read belong to the block of counts. -/
structure Reading where
  header : Header := {}
  inRefs : Bool := false
  deriving DecidableEq, Repr

def isIndented : Text → Bool
  | c :: _ => c == ' ' || c == '\t'
  | [] => false

namespace Reading

def addEntry (r : Reading) (line : Text) : Except Excess Reading :=
  match readEntry? line with
  | none => .ok r
  | some (digits, path) =>
    if Numeral.limit < digits.length then .error (.digits digits.length)
    else .ok { r with header := r.header.mergeRef path (Numeral.value digits) }

/-- The last field's value goes on in a line of its own. -/
def continueField (r : Reading) (line : Text) : Reading :=
  match r.header.fields.getLast? with
  | none => r
  | some (key, value) =>
    { r with header.fields :=
        r.header.fields.dropLast ++ [(key, value ++ '\n' :: Text.trimEnd line)] }

def addPair (r : Reading) (key value : Text) : Reading :=
  if key = refsKey then
    let place := r.header.refsPlace.getD r.header.fields.length
    { header := { r.header with refsPlace := some place }, inRefs := true }
  else { r with header.fields := r.header.fields ++ [(key, value)] }

def addLine (r : Reading) (line : Text) : Except Excess Reading :=
  if Text.allBlank line then .ok r
  else if r.inRefs && isIndented line then r.addEntry line
  else
    let r := { r with inRefs := false }
    if isIndented line && !r.header.fields.isEmpty then .ok (r.continueField line)
    else
      match readPair? line with
      | none => .ok r
      | some (key, value) => .ok (r.addPair key value)

end Reading

/-- The header in the lines of a block. -/
def read (block : Text) : Except Excess Header :=
  ((Text.lines block).foldlM Reading.addLine {}).map (·.header)

/-! ## Writing -/

def fieldLine (field : Text × Text) : Text := field.1 ++ ':' :: ' ' :: field.2

def refLine (entry : Text × Int) : Text := ' ' :: ' ' :: Numeral.ofInt entry.2 ++ '@' :: entry.1

/-- What keeps a header from being written: the first count with too many digits for a numeral. -/
def excess? (h : Header) : Option Excess :=
  (h.refs.entries.find? fun e => (Numeral.ofInt? e.2).isNone).map fun e =>
    .digits (Numeral.ofNat e.2.natAbs).length

/-- The lines of the block of counts, none when there are no counts. -/
def refsLines (r : Refs) : List Text :=
  if r.isEmpty then [] else (refsKey ++ [':', ' ', '|']) :: r.entries.map refLine

/-- The fields with the block of counts at its place. A negative place shows no block. -/
def innerLines (h : Header) : List Text :=
  let fields := h.fields.map fieldLine
  match h.refsPlace with
  | none => fields ++ refsLines h.refs
  | some (.ofNat place) => fields.take place ++ refsLines h.refs ++ fields.drop place
  | some (.negSucc _) => fields

def fence : Text := ['-', '-', '-']

def render (h : Header) : Text :=
  (fence :: h.innerLines ++ [fence]).flatMap (· ++ ['\n'])

end Header

end Marginalia
