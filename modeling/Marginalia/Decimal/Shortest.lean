import Marginalia.Decimal.Binary64

/-!
# The shortest decimal

The fewest digits that read back as a given floating point number, and of several such the ones
nearest to it. They are written positionally from `0.0001` up to below `10 ^ 16`, with at least one
digit after the point, and otherwise with an exponent of at least two digits.
-/

namespace Marginalia.Binary64

/-! ## Digits -/

/-- The quotient `num / den` in units of `10 ^ p`, cut. -/
def gridFloor (num den : Nat) (p : Int) : Nat :=
  match p with
  | .ofNat k => num / (den * Nat.pow 10 k)
  | .negSucc k => num * Nat.pow 10 (k + 1) / den

/-- The grid point `d * 10 ^ p` against the quotient `num / den`. -/
def compareGrid (d : Nat) (p : Int) (num den : Nat) : Ordering :=
  match p with
  | .ofNat k => compare (d * Nat.pow 10 k * den) num
  | .negSucc k => compare (d * den) (num * Nat.pow 10 (k + 1))

/-- A decimal `digits * 10 ^ exponent`. -/
structure Decimal where
  digits : Nat
  exponent : Int
  deriving DecidableEq, Repr

/-- A positive number and the bounds of the reals that round to it, as quotients over one
denominator. -/
structure Interval where
  value : Nat
  low : Nat
  high : Nat
  den : Nat
  closed : Bool

def interval (m : Nat) (e : Int) : Interval :=
  let step := if m = Nat.pow 2 52 && leastExponent < e then 1 else 2
  let (num, den) := match e - 2 with
    | .ofNat k => (Nat.pow 2 k, 1)
    | .negSucc k => (1, Nat.pow 2 (k + 1))
  { value := 4 * m * num, low := (4 * m - step) * num, high := (4 * m + 2) * num, den,
    closed := m % 2 = 0 }

def Interval.holds (i : Interval) (d : Nat) (p : Int) : Bool :=
  let aboveLow := match compareGrid d p i.low i.den with
    | .gt => true
    | .eq => i.closed
    | .lt => false
  let belowHigh := match compareGrid d p i.high i.den with
    | .lt => true
    | .eq => i.closed
    | .gt => false
  aboveLow && belowHigh

/-- The nearer of two neighbours on a grid that lie in the interval, a tie to the even one. -/
def Interval.onGrid? (i : Interval) (p : Int) : Option Decimal :=
  let d := gridFloor i.value i.den p
  match i.holds d p, i.holds (d + 1) p with
  | false, false => none
  | true, false => some ⟨d, p⟩
  | false, true => some ⟨d + 1, p⟩
  | true, true =>
    match compareGrid (2 * d + 1) p (2 * i.value) i.den with
    | .gt => some ⟨d, p⟩
    | .lt => some ⟨d + 1, p⟩
    | .eq => some ⟨d + d % 2, p⟩

def mostDigits : Nat := 17

/-- The number of digits before the point of a positive quotient, not positive below a tenth. -/
def magnitude (num den : Nat) : Int :=
  ((Numeral.ofNat (num * Nat.pow 10 330 / den)).length : Int) - 330

def shortest (m : Nat) (e : Int) : Decimal :=
  let i := interval m e
  let size := magnitude i.value i.den
  let grids := (List.range mostDigits).map fun n => size - (n + 1 : Nat)
  (grids.findSome? i.onGrid?).getD ⟨gridFloor i.value i.den (size - mostDigits), size - mostDigits⟩

/-! ## Text -/

def point : Char := '.'

def exponentText (e : Int) : Text :=
  let ds := Numeral.ofNat e.natAbs
  let ds := if ds.length < 2 then '0' :: ds else ds
  'e' :: (if e < 0 then '-' else '+') :: ds

/-- Digits with a point after the given number of places. -/
def placed (ds : Text) (places : Int) : Text :=
  if places ≤ 0 then '0' :: point :: List.replicate (-places).toNat '0' ++ ds
  else
    let whole := ds.take places.toNat
    let rest := ds.drop places.toNat
    whole ++ List.replicate (places.toNat - whole.length) '0' ++
      point :: (if rest.isEmpty then ['0'] else rest)

def scientific (ds : Text) (places : Int) : Text :=
  let rest := ds.drop 1
  ds.take 1 ++ (if rest.isEmpty then [] else point :: rest) ++ exponentText (places - 1)

def Decimal.text (d : Decimal) : Text :=
  let all := Numeral.ofNat d.digits
  let places := (all.length : Int) + d.exponent
  let kept := Text.dropEndWhile (· == '0') all
  if -4 < places && places ≤ 16 then placed kept places else scientific kept places

def text : Binary64 → Text
  | .nan => ['n', 'a', 'n']
  | .infinite negative => (if negative then ['-'] else []) ++ ['i', 'n', 'f']
  | .finite negative m e =>
    (if negative then ['-'] else []) ++
      (if m = 0 then ['0', point, '0'] else (shortest m e).text)

end Marginalia.Binary64
