import Marginalia.Text.Quoted

/-!
# UTF-8

Strict reading of bytes as UTF-8. The reader is a machine that holds the character begun: how many
bytes it still needs and between which bounds the next one must lie, which rules out overlong
forms, surrogates and values beyond the last code point. A fault names the first byte of the
character that cannot be read and how many bytes belong to it.
-/

namespace Marginalia.Utf8

inductive Reason where
  | start
  | continuation
  | ended
  deriving DecidableEq, Repr

structure Fault where
  position : Nat
  first : Nat
  span : Nat
  reason : Reason
  deriving DecidableEq, Repr

/-- A character begun: its first byte, the bytes seen and still needed, the bounds of the next one
and the value so far. -/
structure Begun where
  first : Nat
  seen : Nat
  needed : Nat
  low : Nat := 0x80
  high : Nat := 0xBF
  value : Nat

/-- What a first byte beyond ASCII begins. -/
def begin? (b : Nat) : Option Begun :=
  if 0xC2 ≤ b && b ≤ 0xDF then some { first := b, seen := 1, needed := 1, value := b - 0xC0 }
  else if b = 0xE0 then
    some { first := b, seen := 1, needed := 2, low := 0xA0, value := b - 0xE0 }
  else if b = 0xED then
    some { first := b, seen := 1, needed := 2, high := 0x9F, value := b - 0xE0 }
  else if 0xE1 ≤ b && b ≤ 0xEF then some { first := b, seen := 1, needed := 2, value := b - 0xE0 }
  else if b = 0xF0 then
    some { first := b, seen := 1, needed := 3, low := 0x90, value := b - 0xF0 }
  else if b = 0xF4 then
    some { first := b, seen := 1, needed := 3, high := 0x8F, value := b - 0xF0 }
  else if 0xF1 ≤ b && b ≤ 0xF3 then some { first := b, seen := 1, needed := 3, value := b - 0xF0 }
  else none

def Begun.fault (p : Begun) (position : Nat) (reason : Reason) : Fault :=
  { position := position - p.seen, first := p.first, span := p.seen, reason }

/-- `position` is the place of the next byte. -/
def decodeFrom (position : Nat) : Option Begun → List UInt8 → Except Fault Text
  | none, [] => .ok []
  | some p, [] => .error (p.fault position .ended)
  | none, b :: r =>
    if b.toNat < 0x80 then (decodeFrom (position + 1) none r).map (Char.ofNat b.toNat :: ·)
    else
      match begin? b.toNat with
      | none => .error { position, first := b.toNat, span := 1, reason := .start }
      | some p => decodeFrom (position + 1) (some p) r
  | some p, b :: r =>
    if p.low ≤ b.toNat && b.toNat ≤ p.high then
      let value := 0x40 * p.value + (b.toNat - 0x80)
      if p.needed ≤ 1 then (decodeFrom (position + 1) none r).map (Char.ofNat value :: ·)
      else
        decodeFrom (position + 1)
          (some { first := p.first, seen := p.seen + 1, needed := p.needed - 1, value }) r
    else .error (p.fault position .continuation)

def decode (bytes : List UInt8) : Except Fault Text := decodeFrom 0 none bytes

/-- The bytes that a text takes up. -/
def size (s : Text) : Nat := s.foldr (fun c n => c.utf8Size + n) 0

/-! ## Wording -/

def Reason.text : Reason → String
  | .start => "invalid start byte"
  | .continuation => "invalid continuation byte"
  | .ended => "unexpected end of data"

def Fault.text (f : Fault) : String :=
  let what :=
    if f.span = 1 then
      s!"byte 0x{String.ofList (Text.hexadecimal 2 f.first)} in position {f.position}"
    else s!"bytes in position {f.position}-{f.position + f.span - 1}"
  s!"'utf-8' codec can't decode {what}: {f.reason.text}"

end Marginalia.Utf8
