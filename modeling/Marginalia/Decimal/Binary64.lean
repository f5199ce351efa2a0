import Marginalia.Text.Numeral

/-!
# Binary floating point numbers

A finite number is a sign, a significand below `2 ^ 53` and a power of two not below
`2 ^ (-1074)`. A decimal is rounded to the nearest one, of two equally near to the one with an
even significand, and beyond the largest to infinity.
-/

namespace Marginalia

inductive Binary64 where
  | finite (negative : Bool) (significand : Nat) (exponent : Int)
  | infinite (negative : Bool)
  | nan
  deriving DecidableEq, Repr

namespace Binary64

def leastExponent : Int := -1074

def greatestExponent : Int := 971

/-- The quotient rounded to the nearest number, a tie to the even one. -/
def roundedQuotient (num den : Nat) : Nat :=
  let q := num / den
  let r := num % den
  if 2 * r < den then q
  else if den < 2 * r then q + 1
  else q + q % 2

/-- `num / den / 2 ^ e`, rounded. -/
def scaled (num den : Nat) (e : Int) : Nat :=
  match e with
  | .ofNat k => roundedQuotient num (den * Nat.pow 2 k)
  | .negSucc k => roundedQuotient (num * Nat.pow 2 (k + 1)) den

/-- Whether `num / den` is below `2 ^ e`. -/
def isBelowPower (num den : Nat) (e : Int) : Bool :=
  match e with
  | .ofNat k => num < den * Nat.pow 2 k
  | .negSucc k => num * Nat.pow 2 (k + 1) < den

/-- The number nearest to a quotient. -/
def ofRatio (negative : Bool) (num den : Nat) : Binary64 :=
  let guess : Int := (num.log2 : Int) - den.log2
  let top := if isBelowPower num den guess then guess else guess + 1
  let e := max (top - 53) leastExponent
  let m := scaled num den e
  let (m, e) := if m = Nat.pow 2 53 then (Nat.pow 2 52, e + 1) else (m, e)
  if greatestExponent < e then .infinite negative else .finite negative m e

/-- The number nearest to `n * 10 ^ e`. -/
def ofDecimal (negative : Bool) (n : Nat) (e : Int) : Binary64 :=
  let size : Int := (Numeral.ofNat n).length
  if n = 0 || e + size < -330 then .finite negative 0 leastExponent
  else if 310 < e + size then .infinite negative
  else
    match e with
    | .ofNat k => ofRatio negative (n * Nat.pow 10 k) 1
    | .negSucc k => ofRatio negative n (Nat.pow 10 (k + 1))

/-- The whole part of a finite number. -/
def truncate? : Binary64 → Option Int
  | .finite negative m e =>
    let whole := match e with
      | .ofNat k => m * Nat.pow 2 k
      | .negSucc k => m / Nat.pow 2 (k + 1)
    some (if negative then -(whole : Int) else whole)
  | _ => none

def isZero : Binary64 → Bool
  | .finite _ m _ => m == 0
  | _ => false

end Binary64

end Marginalia
