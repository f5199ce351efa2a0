import Marginalia.Text.Blank
import Marginalia.Text.Word

/-!
# Numerals

A numeral is written with decimal digits of any script. Read as an integer it may have a sign,
blank characters around it and single underscores between its digits; one of more than
`Numeral.limit` digits is refused, however many of them are leading zeros. Written numerals are
ASCII.
-/

namespace Marginalia.Numeral

/-! ## Digits -/

/-- The zeros of the scripts with decimal digits. The digits one to nine follow each of them. -/
def zeros : List Nat :=
  [0x30, 0x660, 0x6f0, 0x7c0, 0x966, 0x9e6, 0xa66, 0xae6, 0xb66, 0xbe6, 0xc66, 0xce6, 0xd66,
   0xde6, 0xe50, 0xed0, 0xf20, 0x1040, 0x1090, 0x17e0, 0x1810, 0x1946, 0x19d0, 0x1a80, 0x1a90,
   0x1b50, 0x1bb0, 0x1c40, 0x1c50, 0xa620, 0xa8d0, 0xa900, 0xa9d0, 0xa9f0, 0xaa50, 0xabf0,
   0xff10, 0x104a0, 0x10d30, 0x11066, 0x110f0, 0x11136, 0x111d0, 0x112f0, 0x11450, 0x114d0,
   0x11650, 0x116c0, 0x11730, 0x118e0, 0x11950, 0x11c50, 0x11d50, 0x11da0, 0x16a60, 0x16ac0,
   0x16b50, 0x1d7ce, 0x1d7d8, 0x1d7e2, 0x1d7ec, 0x1d7f6, 0x1e140, 0x1e2f0, 0x1e950, 0x1fbf0]

def digit? (c : Char) : Option Nat :=
  zeros.findSome? fun z => if z ≤ c.toNat && c.toNat ≤ z + 9 then some (c.toNat - z) else none

def ofDigits (ds : List Nat) : Nat := ds.foldl (fun n d => 10 * n + d) 0

/-- The value of a run of ASCII digits. -/
def value (s : Text) : Nat := ofDigits (s.map fun c => c.toNat - '0'.toNat)

def hexDigit? (c : Char) : Option Nat :=
  if isAsciiDigit c then some (c.toNat - '0'.toNat)
  else if 'a' ≤ c && c ≤ 'f' then some (c.toNat - 'a'.toNat + 10)
  else if 'A' ≤ c && c ≤ 'F' then some (c.toNat - 'A'.toNat + 10)
  else none

/-- The most digits that a numeral may have. -/
def limit : Nat := 4300

/-! ## Writing -/

def ofNat (n : Nat) : Text := Nat.toDigits 10 n

def ofInt : Int → Text
  | .ofNat n => ofNat n
  | .negSucc n => '-' :: ofNat (n + 1)

/-- The decimal text of an integer, unless it has more digits than a numeral may have. -/
def ofInt? (n : Int) : Option Text :=
  if n.natAbs < Nat.pow 10 limit then some (ofInt n) else none

/-! ## Reading -/

inductive Fault where
  | malformed
  | tooLong (digits : Nat)
  deriving DecidableEq, Repr

/-- The digits that continue a numeral, and what follows them. An underscore must be followed by
a digit. -/
def moreDigits : Text → Option (List Nat × Text)
  | [] => some ([], [])
  | ['_'] => none
  | '_' :: d :: r =>
    match digit? d with
    | none => none
    | some v => (moreDigits r).map fun (ds, rest) => (v :: ds, rest)
  | c :: r =>
    match digit? c with
    | none => some ([], c :: r)
    | some v => (moreDigits r).map fun (ds, rest) => (v :: ds, rest)

def digits : Text → Option (List Nat × Text)
  | [] => none
  | '_' :: _ => none
  | s => (moreDigits s).filter fun (ds, _) => !ds.isEmpty

/-- The characters that may stand around a numeral: the blank ones but the information
separators. -/
def isMargin (c : Char) : Bool := isBlank c && !(0x1C ≤ c.toNat && c.toNat ≤ 0x1F)

def sign : Text → Int × Text
  | '+' :: r => (1, r)
  | '-' :: r => (-1, r)
  | s => (1, s)

def readInt (s : Text) : Except Fault Int :=
  let (sgn, body) := sign (Text.dropEndsWhile isMargin s)
  match digits body with
  | none => .error .malformed
  | some (ds, rest) =>
    if limit < ds.length then .error (.tooLong ds.length)
    else if rest.isEmpty then .ok (sgn * ofDigits ds)
    else .error .malformed

end Marginalia.Numeral
