import Marginalia.Text.Numeral

/-!
# Time stamps

A moment is a number of microseconds since the start of 1970 in universal time. Its stamp has the
date, the time of day to the millisecond, which is cut and not rounded, and the letter of universal
time.
-/

namespace Marginalia.Time

structure Date where
  year : Int
  month : Nat
  day : Nat
  deriving DecidableEq, Repr

/-- The date of a day counted from the start of 1970. Years start in March here, so that a leap day
is the last one of its year. -/
def Date.ofDays (days : Int) : Date :=
  let shifted := days + 719468
  let era := shifted.fdiv 146097
  let dayOfEra := (shifted.fmod 146097).toNat
  let yearOfEra := (dayOfEra - dayOfEra / 1460 + dayOfEra / 36524 - dayOfEra / 146096) / 365
  let dayOfYear := dayOfEra - (365 * yearOfEra + yearOfEra / 4 - yearOfEra / 100)
  let month := (5 * dayOfYear + 2) / 153
  let day := dayOfYear - (153 * month + 2) / 5 + 1
  let year := era * 400 + yearOfEra
  if month < 10 then ⟨year, month + 3, day⟩ else ⟨year + 1, month - 9, day⟩

/-- A number with zeros before it up to the given width. -/
def padded (width n : Nat) : Text :=
  let ds := Numeral.ofNat n
  List.replicate (width - ds.length) '0' ++ ds

def Date.text (d : Date) : Text :=
  padded 4 d.year.toNat ++ '-' :: padded 2 d.month ++ '-' :: padded 2 d.day

def clockText (hour minute second : Nat) : Text :=
  padded 2 hour ++ ':' :: padded 2 minute ++ ':' :: padded 2 second

/-- The stamp of a moment. -/
def stamp (moment : Int) : Text :=
  let millis := moment.fdiv 1000
  let ms := (millis.fmod 1000).toNat
  let seconds := millis.fdiv 1000
  let second := (seconds.fmod 86400).toNat
  (Date.ofDays (seconds.fdiv 86400)).text ++
    'T' :: clockText (second / 3600) (second / 60 % 60) (second % 60) ++
    '.' :: padded 3 ms ++ ['Z']

end Marginalia.Time
