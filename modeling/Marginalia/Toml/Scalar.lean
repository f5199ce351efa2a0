import Marginalia.Text.Word
import Marginalia.Toml.Value

/-!
# TOML scalars

Readers of strings, numbers, dates and times at the head of a text. A reader of something that may
be absent gives nothing when the text does not start with it; once a text has started with it, a
fault in the rest is an error.
-/

namespace Marginalia.Toml

inductive Fault where
  | malformed
  | excess (excess : Excess)
  deriving DecidableEq, Repr

/-- What was read, and the text after it. -/
abbrev Read (α : Type) := Except Fault (α × Text)

def isSpace (c : Char) : Bool := c == ' ' || c == '\t'

def isSpaceOrFeed (c : Char) : Bool := isSpace c || c == '\n'

def skipSpace (s : Text) : Text := s.dropWhile isSpace

/-- The control characters, tab apart. -/
def isControl (c : Char) : Bool := (c.toNat < 0x20 && c != '\t') || c.toNat == 0x7F

/-- The characters that may not stand in a string of one line or of several. -/
def isIllegal (several : Bool) (c : Char) : Bool := isControl c && !(several && c == '\n')

/-! ## Strings -/

/-- The value of a run of digits in a radix of at most sixteen. -/
def radixValue (radix : Nat) (ds : Text) : Nat :=
  ds.foldl (fun n c => radix * n + (Numeral.hexDigit? c).getD 0) 0

def isScalarValue (n : Nat) : Bool := n < 0xD800 || (0xDFFF < n && n < 0x110000)

/-- The character that the given number of hexadecimal digits names. -/
def hexCharacter (digits : Nat) (s : Text) : Read Text :=
  let ds := s.take digits
  let n := radixValue 16 ds
  if ds.length = digits && ds.all (fun c => (Numeral.hexDigit? c).isSome) && isScalarValue n then
    .ok ([Char.ofNat n], s.drop digits)
  else .error .malformed

def escapeLetters : List (Char × Char) :=
  [('b', '\x08'), ('t', '\t'), ('n', '\n'), ('f', '\x0c'), ('r', '\r'), ('"', '"'), ('\\', '\\')]

/-- What a backslash before the text stands for. At the end of a line of several it stands for
nothing, and all blank space after it is skipped. -/
def escape (several : Bool) : Text → Read Text
  | [] => .error .malformed
  | c :: r =>
    if several && isSpaceOrFeed c then
      match skipSpace (c :: r) with
      | [] => .ok ([], [])
      | '\n' :: rest => .ok ([], rest.dropWhile isSpaceOrFeed)
      | _ => .error .malformed
    else if c = 'u' then hexCharacter 4 r
    else if c = 'U' then hexCharacter 8 r
    else
      match escapeLetters.lookup c with
      | some d => .ok ([d], r)
      | none => .error .malformed

def prepend (s : Text) (read : Read Text) : Read Text :=
  read.map fun (body, rest) => (s ++ body, rest)

/-- The rest of a string after its opening mark. Every step takes a character, so a fuel of the
text's length is enough. -/
def basicBody (several : Bool) : Nat → Text → Read Text
  | 0, _ => .error .malformed
  | _, [] => .error .malformed
  | fuel + 1, c :: r =>
    if c = '"' then
      if several then
        match Text.dropMark? ['"', '"'] r with
        | some rest => .ok ([], rest)
        | none => prepend [c] (basicBody several fuel r)
      else .ok ([], r)
    else if c = '\\' then
      match escape several r with
      | .error e => .error e
      | .ok (t, rest) => prepend t (basicBody several fuel rest)
    else if isIllegal several c then .error .malformed
    else prepend [c] (basicBody several fuel r)

/-- The rest of a string without escapes, up to its closing mark. -/
def literalBody (several : Bool) (closing : Text) : Text → Read Text
  | [] => .error .malformed
  | c :: r =>
    match Text.dropMark? closing (c :: r) with
    | some rest => .ok ([], rest)
    | none =>
      if isIllegal several c then .error .malformed
      else prepend [c] (literalBody several closing r)

/-- One or two marks more before the three that close a string of several lines belong to it. -/
def extraMarks (mark : Char) (read : Read Text) : Read Text :=
  read.map fun (body, rest) =>
    let extra := (rest.take 2).takeWhile (· == mark)
    (body ++ extra, rest.drop extra.length)

def dropFeed : Text → Text
  | '\n' :: r => r
  | s => s

def oneLine (mark : Char) (s : Text) : Read Text :=
  if mark = '"' then basicBody false s.length s else literalBody false [mark] s

def severalLines (mark : Char) (s : Text) : Read Text :=
  let body := dropFeed s
  extraMarks mark
    (if mark = '"' then basicBody true body.length body
    else literalBody true [mark, mark, mark] body)

/-- The string after its first mark. -/
def string (mark : Char) (s : Text) : Read Value :=
  let read := match Text.dropMark? [mark, mark] s with
    | some body => severalLines mark body
    | none => oneLine mark s
  read.map fun (body, rest) => (.string body, rest)

/-! ## Numbers -/

/-- The digits that go on with a run, single underscores between them, and what follows. -/
def runDigits (isDigit : Char → Bool) : Text → Text × Text
  | [] => ([], [])
  | ['_'] => ([], ['_'])
  | '_' :: c :: r =>
    if isDigit c then
      let (ds, rest) := runDigits isDigit r
      (c :: ds, rest)
    else ([], '_' :: c :: r)
  | c :: r =>
    if isDigit c then
      let (ds, rest) := runDigits isDigit r
      (c :: ds, rest)
    else ([], c :: r)

/-- A run of digits that does not start with an underscore. -/
def run (isDigit : Char → Bool) (s : Text) : Text × Text :=
  if s.head? == some '_' then ([], s) else runDigits isDigit s

def radixOf : Char → Option Nat
  | 'x' => some 16
  | 'o' => some 8
  | 'b' => some 2
  | _ => none

def isRadixDigit (radix : Nat) (c : Char) : Bool := (Numeral.hexDigit? c).any (· < radix)

/-- An integer written in another radix than ten. -/
def radixInteger? : Text → Option (Value × Text)
  | '0' :: letter :: r =>
    (radixOf letter).bind fun radix =>
      let (ds, rest) := run (isRadixDigit radix) r
      if ds.isEmpty then none else some (.integer (radixValue radix ds), rest)
  | _ => none

/-- A point with the digits after it. -/
def fraction (s : Text) : Text × Text :=
  match s with
  | '.' :: r =>
    let (ds, rest) := run isAsciiDigit r
    if ds.isEmpty then ([], s) else (ds, rest)
  | _ => ([], s)

def exponent (s : Text) : Option Int × Text :=
  match s with
  | c :: r =>
    if c = 'e' || c = 'E' then
      let (sgn, body) := Numeral.sign r
      let (ds, rest) := run isAsciiDigit body
      if ds.isEmpty then (none, s) else (some (sgn * Numeral.value ds), rest)
    else (none, s)
  | [] => (none, s)

/-- The digits before the point: a lone zero, or a run that starts with another digit. -/
def wholeDigits (s : Text) : Text × Text :=
  match s with
  | '0' :: r => (['0'], r)
  | _ => run isAsciiDigit s

def decimal? (s : Text) : Option (Read Value) :=
  let (sgn, body) := Numeral.sign s
  let (whole, rest) := wholeDigits body
  if whole.isEmpty then none
  else
    let (frac, rest) := fraction rest
    let (exp, rest) := exponent rest
    if frac.isEmpty && exp.isNone then
      if Numeral.limit < whole.length then some (.error (.excess (.digits whole.length)))
      else some (.ok (.integer (sgn * Numeral.value whole), rest))
    else
      let x := Binary64.ofDecimal (sgn < 0) (Numeral.value (whole ++ frac))
        (exp.getD 0 - frac.length)
      some (.ok (.float x, rest))

/-- Infinity and the value that is no number. -/
def special? (s : Text) : Option (Value × Text) :=
  let (sgn, body) := Numeral.sign s
  match Text.dropMark? ['i', 'n', 'f'] body with
  | some rest => some (.float (.infinite (sgn < 0)), rest)
  | none => (Text.dropMark? ['n', 'a', 'n'] body).map fun rest => (.float .nan, rest)

/-! ## Dates and times -/

/-- A number of exactly the given digits. -/
def digits? (n : Nat) (s : Text) : Option (Nat × Text) :=
  let ds := s.take n
  if ds.length = n && ds.all isAsciiDigit then some (Numeral.value ds, s.drop n) else none

def mark? (c : Char) (s : Text) : Option Text := Text.dropMark? [c] s

/-- The microseconds of a second's fraction. Digits after the sixth are left out. -/
def micros (s : Text) : Nat × Text :=
  match s with
  | '.' :: r =>
    let ds := r.takeWhile isAsciiDigit
    if ds.isEmpty then (0, s)
    else
      let six := ds.take 6
      (Numeral.value six * Nat.pow 10 (6 - six.length), r.drop ds.length)
  | _ => (0, s)

def clock? (s : Text) : Option (Clock × Text) := do
  let (hour, s) ← digits? 2 s
  let (minute, s) ← digits? 2 (← mark? ':' s)
  let (second, s) ← digits? 2 (← mark? ':' s)
  if hour < 24 && minute < 60 && second < 60 then
    let (micro, s) := micros s
    some ({ hour, minute, second, micro }, s)
  else none

def date? (s : Text) : Option (Time.Date × Text) := do
  let (year, s) ← digits? 4 s
  let (month, s) ← digits? 2 (← mark? '-' s)
  let (day, s) ← digits? 2 (← mark? '-' s)
  if 1 ≤ month && month ≤ 12 && 1 ≤ day && day ≤ 31 then some (⟨year, month, day⟩, s) else none

def offset? (s : Text) : Option (Int × Text) :=
  match s with
  | c :: r =>
    if c = 'Z' || c = 'z' then some (0, r)
    else if c = '+' || c = '-' then do
      let (hour, r) ← digits? 2 r
      let (minute, r) ← digits? 2 (← mark? ':' r)
      if hour < 24 && minute < 60 then
        let n : Int := hour * 60 + minute
        some (if c = '-' then -n else n, r)
      else none
    else none
  | [] => none

def isLeap (year : Int) : Bool := year % 4 == 0 && (year % 100 != 0 || year % 400 == 0)

def daysOfMonth (year : Int) (month : Nat) : Nat :=
  if month = 2 then (if isLeap year then 29 else 28)
  else if month = 4 || month = 6 || month = 9 || month = 11 then 30
  else 31

def isDay (d : Time.Date) : Bool := 1 ≤ d.year && d.day ≤ daysOfMonth d.year d.month

/-- The time of day that may follow a date. -/
def clockAfterDate? (s : Text) : Option (Clock × Text) :=
  match s with
  | c :: r => if c = 'T' || c = 't' || c = ' ' then clock? r else none
  | [] => none

def dateTime? (s : Text) : Option (Read Value) :=
  (date? s).map fun (date, rest) =>
    if !isDay date then .error .malformed
    else
      match clockAfterDate? rest with
      | none => .ok (.date date, rest)
      | some (clock, rest) =>
        match offset? rest with
        | some (minutes, rest) => .ok (.dateTime date clock (some minutes), rest)
        | none => .ok (.dateTime date clock none, rest)

def time? (s : Text) : Option (Value × Text) :=
  (clock? s).map fun (clock, rest) => (.time clock, rest)

def boolean? (s : Text) : Option (Value × Text) :=
  match Text.dropMark? ['t', 'r', 'u', 'e'] s with
  | some rest => some (.boolean true, rest)
  | none =>
    (Text.dropMark? ['f', 'a', 'l', 's', 'e'] s).map fun rest => (.boolean false, rest)

/-- A value that is neither a string nor has parts. -/
def bare (s : Text) : Read Value :=
  let plain (found : Option (Value × Text)) : Option (Read Value) := found.map .ok
  ((plain (boolean? s)).or <| (dateTime? s).or <| (plain (time? s)).or <|
    (plain (radixInteger? s)).or <| (decimal? s).or <| plain (special? s)).getD
      (.error .malformed)

end Marginalia.Toml
