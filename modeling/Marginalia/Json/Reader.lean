import Marginalia.Excess
import Marginalia.Text.Numeral

/-!
# JSON texts

A text is one value with blank space around it. The words for infinity and for a value that is no
number count as numbers, a number with neither point nor exponent is an integer, and of the
entries of an object with one key the last counts. Two halves of a surrogate pair are one
character, and half a pair is read as the replacement character.
-/

namespace Marginalia

inductive Json where
  | null
  | boolean (b : Bool)
  | integer (n : Int)
  | real (literal : Text)
  | string (s : Text)
  | array (items : List Json)
  | object (entries : List (Text × Json))
  deriving Repr

namespace Json

inductive Fault where
  | malformed
  | excess (excess : Excess)
  deriving DecidableEq, Repr

/-- The value of the last entry with a key. -/
def get? (j : Json) (key : Text) : Option Json :=
  match j with
  | .object entries => entries.reverse.lookup key
  | _ => none

def isSpace (c : Char) : Bool := c == ' ' || c == '\t' || c == '\n' || c == '\r'

def skipSpace (s : Text) : Text := s.dropWhile isSpace

/-! ## Strings -/

/-- The unit that four hexadecimal digits name. -/
def unit? (s : Text) : Option (Nat × Text) :=
  match s with
  | a :: b :: c :: d :: r =>
    match Numeral.hexDigit? a, Numeral.hexDigit? b, Numeral.hexDigit? c, Numeral.hexDigit? d with
    | some a, some b, some c, some d => some (0x1000 * a + 0x100 * b + 0x10 * c + d, r)
    | _, _, _, _ => none
  | _ => none

def isHigh (n : Nat) : Bool := 0xD800 ≤ n && n ≤ 0xDBFF

def isLow (n : Nat) : Bool := 0xDC00 ≤ n && n ≤ 0xDFFF

def ofUnit (n : Nat) : Char := if isHigh n || isLow n then '\uFFFD' else Char.ofNat n

/-- The character after a backslash and the letter for a unit. -/
def unitCharacter? (s : Text) : Option (Char × Text) :=
  (unit? s).map fun (n, rest) =>
    if isHigh n then
      match rest with
      | '\\' :: 'u' :: more =>
        match unit? more with
        | some (m, rest') =>
          if isLow m then (Char.ofNat (0x10000 + 0x400 * (n - 0xD800) + (m - 0xDC00)), rest')
          else (ofUnit n, rest)
        | none => (ofUnit n, rest)
      | _ => (ofUnit n, rest)
    else (ofUnit n, rest)

def escapeLetters : List (Char × Char) :=
  [('"', '"'), ('\\', '\\'), ('/', '/'), ('b', '\x08'), ('f', '\x0c'), ('n', '\n'), ('r', '\r'),
    ('t', '\t')]

def escape? (s : Text) : Option (Char × Text) :=
  match s with
  | 'u' :: r => unitCharacter? r
  | c :: r => (escapeLetters.lookup c).map fun d => (d, r)
  | [] => none

/-- The rest of a string after its opening mark. Every step takes a character, so a fuel of the
text's length is enough. -/
def stringBody : Nat → Text → Option (Text × Text)
  | 0, _ => none
  | _, [] => none
  | fuel + 1, c :: r =>
    if c = '"' then some ([], r)
    else if c = '\\' then
      (escape? r).bind fun (d, rest) =>
        (stringBody fuel rest).map fun (body, rest) => (d :: body, rest)
    else if c.toNat < 0x20 then none
    else (stringBody fuel r).map fun (body, rest) => (c :: body, rest)

def quotedString (s : Text) : Except Fault (Text × Text) :=
  match stringBody s.length s with
  | some read => .ok read
  | none => .error .malformed

/-! ## Numbers -/

def takeDigits (s : Text) : Text × Text :=
  let ds := s.takeWhile isAsciiDigit
  (ds, s.drop ds.length)

def minus (s : Text) : Text × Text :=
  match s with
  | '-' :: r => (['-'], r)
  | _ => ([], s)

/-- The digits before the point: a lone zero, or a run that starts with another digit. -/
def wholeDigits (s : Text) : Text × Text :=
  match s with
  | '0' :: r => (['0'], r)
  | _ => takeDigits s

def fraction (s : Text) : Text × Text :=
  match s with
  | '.' :: r =>
    let (ds, rest) := takeDigits r
    if ds.isEmpty then ([], s) else ('.' :: ds, rest)
  | _ => ([], s)

def exponent (s : Text) : Text × Text :=
  match s with
  | c :: r =>
    if c = 'e' || c = 'E' then
      let (sign, body) := match r with
        | '+' :: r => (['+'], r)
        | '-' :: r => (['-'], r)
        | _ => ([], r)
      let (ds, rest) := takeDigits body
      if ds.isEmpty then ([], s) else (c :: sign ++ ds, rest)
    else ([], s)
  | [] => ([], s)

def number (s : Text) : Except Fault (Json × Text) :=
  let (sign, body) := minus s
  let (whole, rest) := wholeDigits body
  let (frac, rest) := fraction rest
  let (exp, rest) := exponent rest
  if whole.isEmpty then .error .malformed
  else if !frac.isEmpty || !exp.isEmpty then .ok (.real (sign ++ whole ++ frac ++ exp), rest)
  else if Numeral.limit < whole.length then .error (.excess (.digits whole.length))
  else
    let n : Int := Numeral.value whole
    .ok (.integer (if sign.isEmpty then n else -n), rest)

/-! ## Values -/

/-- The values that are written as words. -/
def words : List (Text × Json) :=
  [("null".toList, .null), ("true".toList, .boolean true), ("false".toList, .boolean false),
    ("NaN".toList, .real "NaN".toList), ("Infinity".toList, .real "Infinity".toList),
    ("-Infinity".toList, .real "-Infinity".toList)]

def word? (s : Text) : Option (Json × Text) :=
  words.findSome? fun (w, v) => (Text.dropMark? w s).map fun rest => (v, rest)

def colon (s : Text) : Except Fault Text :=
  match skipSpace s with
  | ':' :: r => .ok (skipSpace r)
  | _ => .error .malformed

mutual

/-- A value, with room for so many levels more. At most two steps are taken before the next
character is read, so a fuel of twice the text's length and one is enough. -/
def value (room : Nat) : Nat → Text → Except Fault (Json × Text)
  | 0, _ => .error .malformed
  | fuel + 1, s =>
    match s with
    | '"' :: r => (quotedString r).map fun (t, rest) => (.string t, rest)
    | '[' :: r =>
      if room = 0 then .error (.excess .depth)
      else
        match skipSpace r with
        | ']' :: rest => .ok (.array [], rest)
        | body => (items (room - 1) fuel body).map fun (vs, rest) => (.array vs, rest)
    | '\x7b' :: r =>
      if room = 0 then .error (.excess .depth)
      else
        match skipSpace r with
        | '\x7d' :: rest => .ok (.object [], rest)
        | body => (entries (room - 1) fuel body).map fun (es, rest) => (.object es, rest)
    | _ =>
      match word? s with
      | some read => .ok read
      | none => number s

/-- The items of an array up to its closing bracket. -/
def items (room : Nat) : Nat → Text → Except Fault (List Json × Text)
  | 0, _ => .error .malformed
  | fuel + 1, s => do
    let (v, rest) ← value room fuel s
    match skipSpace rest with
    | ']' :: rest => .ok ([v], rest)
    | ',' :: rest =>
      let (vs, rest) ← items room fuel (skipSpace rest)
      .ok (v :: vs, rest)
    | _ => .error .malformed

/-- The entries of an object up to its closing brace. -/
def entries (room : Nat) : Nat → Text → Except Fault (List (Text × Json) × Text)
  | 0, _ => .error .malformed
  | fuel + 1, s => do
    match s with
    | '"' :: r =>
      let (k, rest) ← quotedString r
      let (v, rest) ← value room fuel (← colon rest)
      match skipSpace rest with
      | '\x7d' :: rest => .ok ([(k, v)], rest)
      | ',' :: rest =>
        let (es, rest) ← entries room fuel (skipSpace rest)
        .ok ((k, v) :: es, rest)
      | _ => .error .malformed
    | _ => .error .malformed

end

def read (s : Text) : Except Fault Json := do
  let body := skipSpace s
  let (v, rest) ← value deepest (2 * body.length + 1) body
  if (skipSpace rest).isEmpty then .ok v else .error .malformed

end Json

end Marginalia
