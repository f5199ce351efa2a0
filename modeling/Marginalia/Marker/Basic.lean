import Marginalia.Marker.Token
import Marginalia.Text.Lines
import Marginalia.Text.Numeral

/-!
# Markers

A marker is the earliest token of a line. It is bound when a fragment id of at most 32 ASCII
digits follows: in brackets, in the canonical form, or after blank space in the legacy form, where
the digits must end a word. The rest of a bound marker's line, less a comment closer, is its
note.
-/

namespace Marginalia

inductive IdForm where
  | canonical
  | legacy
  deriving DecidableEq, Repr

def maxIdLength : Nat := 32

def isId (s : Text) : Bool := !s.isEmpty && s.length ≤ maxIdLength && s.all isAsciiDigit

/-- An id read at the head of a text, with the number of characters that it takes there. -/
structure IdReading where
  id : Text
  form : IdForm
  length : Nat
  deriving DecidableEq, Repr

namespace IdReading

def canonical? (s : Text) : Option IdReading :=
  let space := s.takeWhile isBlank
  match s.drop space.length with
  | '[' :: body =>
    let id := body.takeWhile isAsciiDigit
    match body.drop id.length with
    | ']' :: _ =>
      if isId id then some ⟨id, .canonical, space.length + id.length + 2⟩ else none
    | _ => none
  | _ => none

def legacy? (s : Text) : Option IdReading :=
  let space := s.takeWhile isBlank
  let body := s.drop space.length
  let id := body.takeWhile isAsciiDigit
  let ends := match body.drop id.length with
    | [] => true
    | c :: _ => !isWord c
  if !space.isEmpty && isId id && ends then some ⟨id, .legacy, space.length + id.length⟩ else none

def read? (s : Text) : Option IdReading := (canonical? s).or (legacy? s)

end IdReading

/-- What binds a marker. The id ends at column `stop`. -/
structure Binding where
  id : Text
  form : IdForm
  stop : Nat
  note : Option Text
  deriving DecidableEq, Repr

structure Marker where
  line : Int
  start : Nat
  token : Token
  binding : Option Binding
  deriving DecidableEq, Repr

namespace Marker

/-- The column after the keyword. -/
def stop (m : Marker) : Nat := m.start + m.token.text.length

def id? (m : Marker) : Option Text := m.binding.map (·.id)

def isBound (m : Marker) : Bool := m.binding.isSome

/-- Whether the marker has the short keyword or a legacy id. -/
def isLegacy (m : Marker) : Bool :=
  m.token.keyword == .short || m.binding.any (·.form == .legacy)

/-! ## Scanning -/

def dropCloser (closer s : Text) : Text :=
  match Text.dropEnding? closer s with
  | some body => Text.trimEnd body
  | none => s

/-- The note after an id: the rest of its line without blank ends and comment closers. -/
def readNote? (rest : Text) : Option Text :=
  let note := dropCloser ['*', '/'] (dropCloser ['-', '-', '>'] (Text.trim rest))
  if note.isEmpty then none else some note

/-- What binds a token that ends at `stop`, before the rest of its line. -/
def readBinding (stop : Nat) (rest : Text) : Option Binding :=
  (IdReading.read? rest).map fun r =>
    { id := r.id, form := r.form, stop := stop + r.length,
      note := readNote? (rest.drop r.length) }

def scanBy (rules : List Rule) (number : Int) (line : Text) : Option Marker :=
  (Token.findBy? rules line).map fun (start, token) =>
    let stop := start + token.text.length
    { line := number, start, token, binding := readBinding stop (line.drop stop) }

/-- The marker of a line, which gets the given number. -/
def scan (number : Int) (line : Text) : Option Marker := scanBy grammar number line

/-- The markers of a text by its lines as an editor numbers them, from zero. -/
def scanText (s : Text) : List Marker :=
  (Text.editorLines s).zipIdx.filterMap fun (line, number) => scan number line

/-! ## The canonical form -/

/-- A token's text in the bound canonical form. The opener and the gap stay. -/
def canonicalText (t : Token) (id : Text) : Text :=
  t.opener ++ t.gap ++ Keyword.full.text ++ '[' :: id ++ [']']

/-! ## Activation -/

/-- A lone space or underscore, the input that binds an unbound marker. -/
def isTrigger (typed : Text) : Bool := typed == [' '] || typed == ['_']

/-- Whether typing a text at a column of a line, taken before the typing, binds its marker. -/
def isActivation (line : Text) (column : Int) (typed : Text) : Bool :=
  isTrigger typed &&
    (scan 0 line).any fun m => !m.isBound && column == (m.stop : Int)

end Marker

end Marginalia
