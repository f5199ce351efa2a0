import Marginalia.Decimal.Shortest
import Marginalia.Excess
import Marginalia.Text.Quoted
import Marginalia.Time.Stamp

/-!
# TOML values

The values of a TOML document, tables in the order of their keys' first lines. A value has two
texts: as it is shown alone, where a string is itself, and as it stands inside a list or table,
where a string is quoted and a date names its parts. An integer of more digits than a numeral may
have, and a value that is nested too deep, has no text.
-/

namespace Marginalia.Toml

structure Clock where
  hour : Nat
  minute : Nat
  second : Nat
  micro : Nat := 0
  deriving DecidableEq, Repr

inductive Value where
  | string (s : Text)
  | integer (n : Int)
  | float (x : Binary64)
  | boolean (b : Bool)
  | date (d : Time.Date)
  | time (c : Clock)
  /-- The offset from universal time is in minutes. -/
  | dateTime (d : Time.Date) (c : Clock) (offset : Option Int)
  | array (items : List Value)
  | table (entries : List (Text × Value))
  deriving Repr

abbrev Table := List (Text × Value)

/-- Whether a value is the empty one of its kind: no characters, no items, zero or false. -/
def Value.isVoid : Value → Bool
  | .string s => s.isEmpty
  | .integer n => n == 0
  | .float x => x.isZero
  | .boolean b => !b
  | .array items => items.isEmpty
  | .table entries => entries.isEmpty
  | _ => false

/-! ## Dates and times -/

def Clock.text (c : Clock) : Text :=
  Time.clockText c.hour c.minute c.second ++
    (if c.micro = 0 then [] else '.' :: Time.padded 6 c.micro)

def offsetText (minutes : Int) : Text :=
  let n := minutes.natAbs
  (if minutes < 0 then '-' else '+') :: Time.padded 2 (n / 60) ++ ':' :: Time.padded 2 (n % 60)

/-- A date and a time of day with a mark between them. -/
def dateTimeText (mark : Char) (d : Time.Date) (c : Clock) (offset : Option Int) : Text :=
  d.text ++ mark :: c.text ++ (offset.map offsetText).getD []

def call (head : String) (args : List Text) : Text :=
  head.toList ++ '(' :: Text.join [',', ' '] args ++ [')']

def dateArgs (d : Time.Date) : List Text :=
  [Numeral.ofInt d.year, Numeral.ofNat d.month, Numeral.ofNat d.day]

/-- Hours and minutes always, seconds and microseconds as far as they are not zero. -/
def Clock.args (c : Clock) : List Text :=
  let all := [c.hour, c.minute] ++
    (if c.micro = 0 then (if c.second = 0 then [] else [c.second]) else [c.second, c.micro])
  all.map Numeral.ofNat

/-- An offset by its parts: whole days, which are negative west of universal time, and seconds. -/
def offsetArg (minutes : Int) : Text :=
  if minutes = 0 then "tzinfo=datetime.timezone.utc".toList
  else
    let days := minutes.fdiv 1440
    let seconds := (minutes.fmod 1440) * 60
    let parts := (if days = 0 then [] else ["days=".toList ++ Numeral.ofInt days]) ++
      (if seconds = 0 then [] else ["seconds=".toList ++ Numeral.ofInt seconds])
    "tzinfo=".toList ++ call "datetime.timezone" [call "datetime.timedelta" parts]

/-! ## Texts -/

def booleanText (b : Bool) : Text := if b then "True".toList else "False".toList

mutual

/-- The text of a value inside a list or table, with room for so many levels more. -/
def Value.inner (room : Nat) : Value → Except Excess Text
  | .string s => .ok (Text.quoted s)
  | .integer n =>
    match Numeral.ofInt? n with
    | some t => .ok t
    | none => .error (.digits (Numeral.ofNat n.natAbs).length)
  | .float x => .ok x.text
  | .boolean b => .ok (booleanText b)
  | .date d => .ok (call "datetime.date" (dateArgs d))
  | .time c => .ok (call "datetime.time" c.args)
  | .dateTime d c offset =>
    .ok (call "datetime.datetime" (dateArgs d ++ c.args ++ (offset.map offsetArg).toList))
  | .array items =>
    match room with
    | 0 => .error .depth
    | room + 1 => (innerItems room items).map fun ts => '[' :: Text.join [',', ' '] ts ++ [']']
  | .table entries =>
    match room with
    | 0 => .error .depth
    | room + 1 =>
      (innerEntries room entries).map fun ts => '\x7b' :: Text.join [',', ' '] ts ++ ['\x7d']

def innerItems (room : Nat) : List Value → Except Excess (List Text)
  | [] => .ok []
  | v :: vs => do
    let t ← v.inner room
    let ts ← innerItems room vs
    pure (t :: ts)

def innerEntries (room : Nat) : List (Text × Value) → Except Excess (List Text)
  | [] => .ok []
  | (k, v) :: es => do
    let t ← v.inner room
    let ts ← innerEntries room es
    pure ((Text.quoted k ++ ':' :: ' ' :: t) :: ts)

end

/-- The text of a value alone. -/
def Value.shown : Value → Except Excess Text
  | .string s => .ok s
  | .date d => .ok d.text
  | .time c => .ok c.text
  | .dateTime d c offset => .ok (dateTimeText ' ' d c offset)
  | v => v.inner deepest

end Marginalia.Toml
