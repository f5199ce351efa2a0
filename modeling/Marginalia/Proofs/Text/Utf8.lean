import Marginalia.Text.Utf8
import Mathlib.Data.Char
import Mathlib.Data.UInt

/-!
# What is read as UTF-8

The machine reads exactly the bytes that encode a text (`decode_eq_ok_iff`). The first byte of a
character beyond ASCII tells how many others follow and which the next one may be (`begin?_two`,
`begin?_three`, `begin?_four`), so the bytes of a character that was read are the ones that it is
encoded to, and none else are read as that character.
-/

namespace Marginalia.Utf8

/-- The bytes of a text. -/
def encode (s : Text) : List UInt8 := s.flatMap String.utf8EncodeChar

@[simp] theorem encode_nil : encode [] = [] := rfl

theorem encode_cons (c : Char) (s : Text) : encode (c :: s) = String.utf8EncodeChar c ++ encode s :=
  rfl

/-! ## The bytes of a character -/

theorem toNat_ofNat {n : Nat} (h : n < 0xD800 ∨ 0xDFFF < n ∧ n < 0x110000) :
    (Char.ofNat n).toNat = n := by
  rw [Char.ofNat, dif_pos h]
  rfl

theorem toNat_cases (c : Char) : c.toNat < 0xD800 ∨ 0xDFFF < c.toNat ∧ c.toNat < 0x110000 := c.valid

theorem toNat_byte {n : Nat} (h : n < 0x100) : (UInt8.ofNat n).toNat = n := by
  rw [UInt8.toNat_ofNat', Nat.mod_eq_of_lt h]

theorem byte_eq {n : Nat} {b : UInt8} (h : n = b.toNat) : UInt8.ofNat n = b := by
  rw [h, UInt8.ofNat_toNat]

/-- The character of some value, with its bytes by the size of the value. -/
theorem encodeChar_eq (c : Char) : String.utf8EncodeChar c =
    if c.toNat ≤ 0x7F then [UInt8.ofNat c.toNat]
    else if c.toNat ≤ 0x7FF then
      [UInt8.ofNat (c.toNat / 64 % 32 + 192), UInt8.ofNat (c.toNat % 64 + 128)]
    else if c.toNat ≤ 0xFFFF then
      [UInt8.ofNat (c.toNat / 4096 % 16 + 224), UInt8.ofNat (c.toNat / 64 % 64 + 128),
        UInt8.ofNat (c.toNat % 64 + 128)]
    else
      [UInt8.ofNat (c.toNat / 262144 % 8 + 240), UInt8.ofNat (c.toNat / 4096 % 64 + 128),
        UInt8.ofNat (c.toNat / 64 % 64 + 128), UInt8.ofNat (c.toNat % 64 + 128)] := rfl

theorem encodeChar_one {a : UInt8} (ha : a.toNat < 0x80) :
    String.utf8EncodeChar (Char.ofNat a.toNat) = [a] := by
  rw [encodeChar_eq, toNat_ofNat (.inl (by omega)), if_pos (by omega), UInt8.ofNat_toNat]

theorem encodeChar_two {v : Nat} {a b : UInt8} (hv : v = 64 * (a.toNat - 0xC0) + (b.toNat - 0x80))
    (ha : 0xC2 ≤ a.toNat ∧ a.toNat ≤ 0xDF) (hb : 0x80 ≤ b.toNat ∧ b.toNat ≤ 0xBF) :
    String.utf8EncodeChar (Char.ofNat v) = [a, b] := by
  rw [encodeChar_eq, toNat_ofNat (.inl (by omega)), if_neg (by omega), if_pos (by omega),
    byte_eq (b := a) (by omega), byte_eq (b := b) (by omega)]

theorem encodeChar_three {v : Nat} {a b c : UInt8}
    (hv : v = 4096 * (a.toNat - 0xE0) + 64 * (b.toNat - 0x80) + (c.toNat - 0x80))
    (ha : 0xE0 ≤ a.toNat ∧ a.toNat ≤ 0xEF) (hb : 0x80 ≤ b.toNat ∧ b.toNat ≤ 0xBF)
    (hc : 0x80 ≤ c.toNat ∧ c.toNat ≤ 0xBF) (hlong : 0x7FF < v)
    (hv' : v < 0xD800 ∨ 0xDFFF < v ∧ v < 0x110000) :
    String.utf8EncodeChar (Char.ofNat v) = [a, b, c] := by
  rw [encodeChar_eq, toNat_ofNat hv', if_neg (by omega), if_neg (by omega), if_pos (by omega),
    byte_eq (b := a) (by omega), byte_eq (b := b) (by omega), byte_eq (b := c) (by omega)]

theorem encodeChar_four {v : Nat} {a b c d : UInt8}
    (hv : v = 262144 * (a.toNat - 0xF0) + 4096 * (b.toNat - 0x80) + 64 * (c.toNat - 0x80) +
      (d.toNat - 0x80))
    (ha : 0xF0 ≤ a.toNat ∧ a.toNat ≤ 0xF4) (hb : 0x80 ≤ b.toNat ∧ b.toNat ≤ 0xBF)
    (hc : 0x80 ≤ c.toNat ∧ c.toNat ≤ 0xBF) (hd : 0x80 ≤ d.toNat ∧ d.toNat ≤ 0xBF)
    (hlong : 0xFFFF < v) (hv' : v < 0x110000) :
    String.utf8EncodeChar (Char.ofNat v) = [a, b, c, d] := by
  rw [encodeChar_eq, toNat_ofNat (.inr ⟨by omega, hv'⟩), if_neg (by omega), if_neg (by omega),
    if_neg (by omega), byte_eq (b := a) (by omega), byte_eq (b := b) (by omega),
    byte_eq (b := c) (by omega), byte_eq (b := d) (by omega)]

/-! ## One byte more -/

theorem begin?_two {a : Nat} (ha : 0xC2 ≤ a ∧ a ≤ 0xDF) :
    begin? a = some { first := a, seen := 1, needed := 1, value := a - 0xC0 } := by
  simp [begin?, ha]

theorem begin?_three {a : Nat} (ha : 0xE0 ≤ a ∧ a ≤ 0xEF) :
    begin? a = some
      { first := a, seen := 1, needed := 2, value := a - 0xE0
        low := if a = 0xE0 then 0xA0 else 0x80
        high := if a = 0xED then 0x9F else 0xBF } := by
  have h2 : ¬(0xC2 ≤ a ∧ a ≤ 0xDF) := by omega
  by_cases h0 : a = 0xE0
  · simp [begin?, h0]
  · by_cases hd : a = 0xED
    · simp [begin?, hd]
    · simp [begin?, h2, h0, hd, show 0xE1 ≤ a ∧ a ≤ 0xEF by omega]

theorem begin?_four {a : Nat} (ha : 0xF0 ≤ a ∧ a ≤ 0xF4) :
    begin? a = some
      { first := a, seen := 1, needed := 3, value := a - 0xF0
        low := if a = 0xF0 then 0x90 else 0x80
        high := if a = 0xF4 then 0x8F else 0xBF } := by
  have : a = 0xF0 ∨ a = 0xF1 ∨ a = 0xF2 ∨ a = 0xF3 ∨ a = 0xF4 := by omega
  rcases this with rfl | rfl | rfl | rfl | rfl <;> rfl

theorem begin?_cases {a : Nat} {p : Begun} (h : begin? a = some p) :
    (0xC2 ≤ a ∧ a ≤ 0xDF) ∨ (0xE0 ≤ a ∧ a ≤ 0xEF) ∨ (0xF0 ≤ a ∧ a ≤ 0xF4) := by
  unfold begin? at h
  simp only [Bool.and_eq_true, decide_eq_true_eq] at h
  repeat' split at h
  all_goals first | omega | cases h

variable {k : Nat} {p : Begun} {a : UInt8} {r : List UInt8} {s : Text}

theorem decodeFrom_ascii (ha : a.toNat < 0x80) : decodeFrom k none (a :: r) = .ok s ↔
    ∃ s', s = Char.ofNat a.toNat :: s' ∧ decodeFrom (k + 1) none r = .ok s' := by
  rw [decodeFrom, if_pos ha]
  cases decodeFrom (k + 1) none r with
  | error f => simp [Except.map]
  | ok s' => simp [Except.map, eq_comm]

theorem decodeFrom_begin (ha : 0x80 ≤ a.toNat) (hp : begin? a.toNat = some p) :
    decodeFrom k none (a :: r) = decodeFrom (k + 1) (some p) r := by
  rw [decodeFrom, if_neg (by omega), hp]

theorem decodeFrom_more (h : 1 < p.needed) : decodeFrom k (some p) r = .ok s ↔
    ∃ b rest, r = b :: rest ∧ (p.low ≤ b.toNat ∧ b.toNat ≤ p.high) ∧
      decodeFrom (k + 1) (some
        { first := p.first, seen := p.seen + 1, needed := p.needed - 1
          value := 64 * p.value + (b.toNat - 0x80) }) rest = .ok s := by
  cases r with
  | nil => simp [decodeFrom]
  | cons b rest =>
    by_cases hb : p.low ≤ b.toNat ∧ b.toNat ≤ p.high
    · simp [decodeFrom, hb, show ¬p.needed ≤ 1 by omega]
    · have : (decide (p.low ≤ b.toNat) && decide (b.toNat ≤ p.high)) = false := by simpa using hb
      simp [decodeFrom, this]
      omega

theorem decodeFrom_last (h : p.needed ≤ 1) : decodeFrom k (some p) r = .ok s ↔
    ∃ b rest s', r = b :: rest ∧ (p.low ≤ b.toNat ∧ b.toNat ≤ p.high) ∧
      s = Char.ofNat (64 * p.value + (b.toNat - 0x80)) :: s' ∧
      decodeFrom (k + 1) none rest = .ok s' := by
  cases r with
  | nil => simp [decodeFrom]
  | cons b rest =>
    by_cases hb : p.low ≤ b.toNat ∧ b.toNat ≤ p.high
    · rw [decodeFrom, if_pos (by simpa using hb), if_pos h]
      cases hrest : decodeFrom (k + 1) none rest with
      | error f => simp [Except.map, hrest]
      | ok s' => simp [Except.map, hrest, hb, eq_comm]
    · rw [decodeFrom, if_neg (by simpa using hb)]
      simp only [reduceCtorEq, false_iff]
      rintro ⟨b', rest', s', e, hb', -⟩
      cases e
      exact hb hb'

/-! ## One character -/

theorem decodeFrom_two (ha : 0xC2 ≤ a.toNat ∧ a.toNat ≤ 0xDF) :
    decodeFrom k none (a :: r) = .ok s ↔ ∃ b rest s', r = b :: rest ∧
      (0x80 ≤ b.toNat ∧ b.toNat ≤ 0xBF) ∧
      s = Char.ofNat (64 * (a.toNat - 0xC0) + (b.toNat - 0x80)) :: s' ∧
      decodeFrom (k + 2) none rest = .ok s' := by
  rw [decodeFrom_begin (by omega) (begin?_two ha), decodeFrom_last (Nat.le_refl 1)]

theorem decodeFrom_three (ha : 0xE0 ≤ a.toNat ∧ a.toNat ≤ 0xEF) :
    decodeFrom k none (a :: r) = .ok s ↔ ∃ b c rest s', r = b :: c :: rest ∧
      ((if a.toNat = 0xE0 then 0xA0 else 0x80) ≤ b.toNat ∧
        b.toNat ≤ if a.toNat = 0xED then 0x9F else 0xBF) ∧
      (0x80 ≤ c.toNat ∧ c.toNat ≤ 0xBF) ∧
      s = Char.ofNat (64 * (64 * (a.toNat - 0xE0) + (b.toNat - 0x80)) + (c.toNat - 0x80)) :: s' ∧
      decodeFrom (k + 3) none rest = .ok s' := by
  rw [decodeFrom_begin (by omega) (begin?_three ha), decodeFrom_more (by simp)]
  constructor
  · rintro ⟨b, r', rfl, hb, h⟩
    obtain ⟨c, rest, s', rfl, hc, rfl, hrest⟩ := (decodeFrom_last (by simp)).mp h
    exact ⟨b, c, rest, s', rfl, hb, hc, rfl, hrest⟩
  · rintro ⟨b, c, rest, s', rfl, hb, hc, rfl, h⟩
    exact ⟨b, _, rfl, hb, (decodeFrom_last (by simp)).mpr ⟨c, rest, s', rfl, hc, rfl, h⟩⟩

theorem decodeFrom_four (ha : 0xF0 ≤ a.toNat ∧ a.toNat ≤ 0xF4) :
    decodeFrom k none (a :: r) = .ok s ↔ ∃ b c d rest s', r = b :: c :: d :: rest ∧
      ((if a.toNat = 0xF0 then 0x90 else 0x80) ≤ b.toNat ∧
        b.toNat ≤ if a.toNat = 0xF4 then 0x8F else 0xBF) ∧
      (0x80 ≤ c.toNat ∧ c.toNat ≤ 0xBF) ∧ (0x80 ≤ d.toNat ∧ d.toNat ≤ 0xBF) ∧
      s = Char.ofNat (64 * (64 * (64 * (a.toNat - 0xF0) + (b.toNat - 0x80)) + (c.toNat - 0x80)) +
        (d.toNat - 0x80)) :: s' ∧
      decodeFrom (k + 4) none rest = .ok s' := by
  rw [decodeFrom_begin (by omega) (begin?_four ha), decodeFrom_more (by simp)]
  constructor
  · rintro ⟨b, r', rfl, hb, h⟩
    obtain ⟨c, r'', rfl, hc, h⟩ := (decodeFrom_more (by simp)).mp h
    obtain ⟨d, rest, s', rfl, hd, rfl, hrest⟩ := (decodeFrom_last (by simp)).mp h
    exact ⟨b, c, d, rest, s', rfl, hb, hc, hd, rfl, hrest⟩
  · rintro ⟨b, c, d, rest, s', rfl, hb, hc, hd, rfl, h⟩
    exact ⟨b, _, rfl, hb, (decodeFrom_more (by simp)).mpr ⟨c, _, rfl, hc,
      (decodeFrom_last (by simp)).mpr ⟨d, rest, s', rfl, hd, rfl, h⟩⟩⟩

/-- What is read first is a character with its bytes. -/
theorem decodeFrom_cons (h : decodeFrom k none (a :: r) = .ok s) :
    ∃ c rest s' j, a :: r = String.utf8EncodeChar c ++ rest ∧ s = c :: s' ∧
      decodeFrom j none rest = .ok s' := by
  by_cases hascii : a.toNat < 0x80
  · obtain ⟨s', rfl, hr⟩ := (decodeFrom_ascii hascii).mp h
    exact ⟨_, r, s', _, by rw [encodeChar_one hascii]; rfl, rfl, hr⟩
  · cases hp : begin? a.toNat with
    | none =>
      rw [decodeFrom, if_neg hascii, hp] at h
      cases h
    | some p =>
      rcases begin?_cases hp with ha | ha | ha
      · obtain ⟨b, rest, s', rfl, hb, rfl, hrest⟩ := (decodeFrom_two ha).mp h
        exact ⟨_, rest, s', _, by rw [encodeChar_two rfl ha hb]; rfl, rfl, hrest⟩
      · obtain ⟨b, c, rest, s', rfl, hb, hc, rfl, hrest⟩ := (decodeFrom_three ha).mp h
        refine ⟨_, rest, s', _, ?_, rfl, hrest⟩
        rw [encodeChar_three (a := a) (b := b) (c := c) (by omega) ha
          (by split at hb <;> split at hb <;> omega) hc
          (by split at hb <;> split at hb <;> omega) (by split at hb <;> split at hb <;> omega)]
        rfl
      · obtain ⟨b, c, d, rest, s', rfl, hb, hc, hd, rfl, hrest⟩ := (decodeFrom_four ha).mp h
        refine ⟨_, rest, s', _, ?_, rfl, hrest⟩
        rw [encodeChar_four (a := a) (b := b) (c := c) (d := d) (by omega) ha
          (by split at hb <;> split at hb <;> omega) hc hd
          (by split at hb <;> split at hb <;> omega) (by split at hb <;> split at hb <;> omega)]
        rfl

/-- The bytes of a character are read as it. -/
theorem decodeFrom_encodeChar (c : Char) (h : ∀ j, decodeFrom j none r = .ok s) (k : Nat) :
    decodeFrom k none (String.utf8EncodeChar c ++ r) = .ok (c :: s) := by
  have hv := toNat_cases c
  have hc : ∀ {n}, n = c.toNat → c = Char.ofNat n := fun e => by rw [e, Char.ofNat_toNat]
  rw [encodeChar_eq]
  split
  · have ha := toNat_byte (n := c.toNat) (by omega)
    exact (decodeFrom_ascii (by omega)).mpr ⟨s, by rw [ha, Char.ofNat_toNat], h _⟩
  · split
    · have ha := toNat_byte (n := c.toNat / 64 % 32 + 192) (by omega)
      have hb := toNat_byte (n := c.toNat % 64 + 128) (by omega)
      refine (decodeFrom_two (by omega)).mpr ⟨_, r, s, rfl, by omega, ?_, h _⟩
      rw [← hc (by omega)]
    · split
      · have ha := toNat_byte (n := c.toNat / 4096 % 16 + 224) (by omega)
        have hb := toNat_byte (n := c.toNat / 64 % 64 + 128) (by omega)
        have hd := toNat_byte (n := c.toNat % 64 + 128) (by omega)
        refine (decodeFrom_three (by omega)).mpr ⟨_, _, r, s, rfl, ?_, by omega, ?_, h _⟩
        · rw [ha, hb]
          split <;> split <;> omega
        · rw [← hc (by omega)]
      · have ha := toNat_byte (n := c.toNat / 262144 % 8 + 240) (by omega)
        have hb := toNat_byte (n := c.toNat / 4096 % 64 + 128) (by omega)
        have hd := toNat_byte (n := c.toNat / 64 % 64 + 128) (by omega)
        have he := toNat_byte (n := c.toNat % 64 + 128) (by omega)
        refine (decodeFrom_four (by omega)).mpr
          ⟨_, _, _, r, s, rfl, ?_, by omega, by omega, ?_, h _⟩
        · rw [ha, hb]
          split <;> split <;> omega
        · rw [← hc (by omega)]

/-! ## Texts -/

theorem decodeFrom_encode (s : Text) (k : Nat) : decodeFrom k none (encode s) = .ok s := by
  induction s generalizing k with
  | nil => rfl
  | cons c s ih => exact decodeFrom_encodeChar c ih k

theorem eq_encode_of_decodeFrom {bytes : List UInt8} (h : decodeFrom k none bytes = .ok s) :
    bytes = encode s := by
  -- on the number of bytes, since a character takes up to four of them
  induction hn : bytes.length using Nat.strong_induction_on generalizing bytes s k with
  | _ n ih =>
    cases bytes with
    | nil =>
      cases h
      rfl
    | cons a r =>
      obtain ⟨c, rest, s', j, e, rfl, hrest⟩ := decodeFrom_cons h
      have hlen := congrArg List.length e
      rw [List.length_append, hn, String.length_utf8EncodeChar] at hlen
      have hpos := c.utf8Size_pos
      rw [e, ih rest.length (by omega) hrest rfl]
      rfl

/-- What is read as UTF-8 is what encodes a text. -/
theorem decode_eq_ok_iff {bytes : List UInt8} : decode bytes = .ok s ↔ bytes = encode s := by
  constructor
  · exact eq_encode_of_decodeFrom
  · rintro rfl
    exact decodeFrom_encode s 0

theorem encode_injective {s s' : Text} (h : encode s = encode s') : s = s' := by
  have := decode_eq_ok_iff.mpr h
  rw [decode_eq_ok_iff.mpr rfl] at this
  exact Except.ok.inj this

end Marginalia.Utf8
