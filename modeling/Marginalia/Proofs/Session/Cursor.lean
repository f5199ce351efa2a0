import Marginalia.Proofs.Numerals
import Marginalia.Proofs.Text.Runs

/-!
# The cursor file

A cursor file reads back as the number that was written. One with more digits than a numeral may
have cannot be read (`readCursor_cursorText`).
-/

namespace Marginalia

/-! ## Reading a numeral -/

namespace Json

theorem takeDigits_append {ds s : Text} (hds : ∀ c ∈ ds, isAsciiDigit c = true)
    (hs : ∀ c, s.head? = some c → isAsciiDigit c = false) : takeDigits (ds ++ s) = (ds, s) := by
  simp [takeDigits, Text.takeWhile_append_stop hds hs]

theorem wholeDigits_ofNat (n : Nat) {s : Text}
    (hs : ∀ c, s.head? = some c → isAsciiDigit c = false) :
    wholeDigits (Numeral.ofNat n ++ s) = (Numeral.ofNat n, s) := by
  by_cases hn : n = 0
  · subst hn; rfl
  · have h0 := Numeral.head?_ofNat hn
    have hrun := takeDigits_append (s := s)
      (fun c h => Numeral.isAsciiDigit_of_mem_ofNat (n := n) h) hs
    cases hd : Numeral.ofNat n with
    | nil => exact absurd hd (Numeral.ofNat_ne_nil n)
    | cons c r =>
      rw [hd] at h0 hrun
      unfold wholeDigits
      split
      · next r' e => exact absurd (by simpa using (List.cons.inj e).1) h0
      · exact hrun

/-- The fault of a numeral that is too long, and the value of any other. -/
def bounded {α : Type} (n : Nat) (v : α) : Except Fault α :=
  if Numeral.limit < (Numeral.ofNat n).length then
    .error (.excess (.digits (Numeral.ofNat n).length))
  else .ok v

theorem number_ofNat (n : Nat) :
    number (Numeral.ofNat n ++ ['\x7d']) = bounded n (.integer n, ['\x7d']) := by
  have hw := wholeDigits_ofNat n (s := ['\x7d']) (by simp; decide)
  have hm : minus (Numeral.ofNat n ++ ['\x7d']) = ([], Numeral.ofNat n ++ ['\x7d']) := by
    unfold minus
    split
    · next r e =>
      cases hd : Numeral.ofNat n with
      | nil => exact absurd hd (Numeral.ofNat_ne_nil n)
      | cons c s =>
        have hc : isAsciiDigit c = true :=
          Numeral.isAsciiDigit_of_mem_ofNat (n := n) (by rw [hd]; exact List.mem_cons_self)
        rw [hd] at e
        rw [(List.cons.inj e).1] at hc
        cases hc
    · rfl
  have hf : fraction ['\x7d'] = ([], ['\x7d']) := rfl
  have he : exponent ['\x7d'] = ([], ['\x7d']) := rfl
  simp only [number, hm, hw, hf, he]
  simp [Numeral.ofNat_ne_nil, bounded]

/-! ## Reading the object -/

theorem stringBody_plain {w : Text} {fuel : Nat} (r : Text)
    (hw : ∀ c ∈ w, c ≠ '"' ∧ c ≠ '\\' ∧ 0x20 ≤ c.toNat) (hf : w.length < fuel) :
    stringBody fuel (w ++ '"' :: r) = some (w, r) := by
  induction w generalizing fuel with
  | nil =>
    obtain ⟨fuel, rfl⟩ := Nat.exists_eq_add_one_of_ne_zero (by omega : fuel ≠ 0)
    simp [stringBody]
  | cons c w ih =>
    obtain ⟨fuel, rfl⟩ := Nat.exists_eq_add_one_of_ne_zero (by omega : fuel ≠ 0)
    obtain ⟨h1, h2, h3⟩ := hw c List.mem_cons_self
    have hlt : w.length < fuel := by simp at hf; omega
    have := ih (fun d hd => hw d (List.mem_cons_of_mem _ hd)) hlt
    simp only [List.cons_append, stringBody, if_neg h1, if_neg h2, if_neg (Nat.not_lt.mpr h3), this]
    rfl

theorem cursorKey_plain : ∀ c ∈ cursorKey, c ≠ '"' ∧ c ≠ '\\' ∧ 0x20 ≤ c.toNat := by
  have h : cursorKey.all fun c => c != '"' && c != '\\' && decide (0x20 ≤ c.toNat) := by decide
  intro c hc
  simpa [and_assoc] using List.all_eq_true.mp h c hc

theorem word?_of_digit {c : Char} (hc : isAsciiDigit c = true) (r : Text) :
    word? (c :: r) = none := by
  have hne : ∀ d, isAsciiDigit d = false → d ≠ c := fun d hd e => by rw [e, hc] at hd; cases hd
  simp [word?, words, Text.dropMark?, hne 'n' (by decide), hne 't' (by decide),
    hne 'f' (by decide), hne 'N' (by decide), hne 'I' (by decide), hne '-' (by decide)]

theorem value_ofNat (n room fuel : Nat) :
    value room (fuel + 1) (Numeral.ofNat n ++ ['\x7d']) = bounded n (.integer n, ['\x7d']) := by
  have hnum := number_ofNat n
  cases hd : Numeral.ofNat n with
  | nil => exact absurd hd (Numeral.ofNat_ne_nil n)
  | cons c r =>
    have hc : isAsciiDigit c = true :=
      Numeral.isAsciiDigit_of_mem_ofNat (n := n) (by rw [hd]; exact List.mem_cons_self)
    have hword := word?_of_digit hc (r ++ ['\x7d'])
    rw [hd] at hnum
    rw [List.cons_append] at hnum ⊢
    unfold value
    split
    · next e => cases e; cases hc
    · next e => cases e; cases hc
    · next e => cases e; cases hc
    · rw [hword, hnum]

theorem entries_cursor (n room fuel : Nat) :
    entries room (fuel + 2) ('"' :: (cursorKey ++ '"' :: ':' :: ' ' ::
      (Numeral.ofNat n ++ ['\x7d']))) = bounded n ([(cursorKey, .integer n)], []) := by
  have hkey : quotedString (cursorKey ++ '"' :: ':' :: ' ' :: (Numeral.ofNat n ++ ['\x7d'])) =
      .ok (cursorKey, ':' :: ' ' :: (Numeral.ofNat n ++ ['\x7d'])) := by
    have hfuel : cursorKey.length <
        (cursorKey ++ '"' :: ':' :: ' ' :: (Numeral.ofNat n ++ ['\x7d'])).length := by
      rw [List.length_append, List.length_cons]
      omega
    rw [quotedString, stringBody_plain _ cursorKey_plain hfuel]
  have hstay : skipSpace (Numeral.ofNat n ++ ['\x7d']) = Numeral.ofNat n ++ ['\x7d'] := by
    cases hd : Numeral.ofNat n with
    | nil => rfl
    | cons c r =>
      have hc : isAsciiDigit c = true :=
        Numeral.isAsciiDigit_of_mem_ofNat (n := n) (by rw [hd]; exact List.mem_cons_self)
      have hs : isSpace c = false := by
        simp [isSpace, isAsciiDigit_ne hc (d := ' ') rfl, isAsciiDigit_ne hc (d := '\t') rfl,
          isAsciiDigit_ne hc (d := '\n') rfl, isAsciiDigit_ne hc (d := '\r') rfl]
      simp [skipSpace, hs]
  have hcolon : colon (':' :: ' ' :: (Numeral.ofNat n ++ ['\x7d'])) =
      .ok (Numeral.ofNat n ++ ['\x7d']) := by
    show Except.ok (skipSpace (Numeral.ofNat n ++ ['\x7d'])) = _
    rw [hstay]
  simp only [entries, hkey, bind, Except.bind, hcolon, value_ofNat, bounded]
  by_cases hlen : Numeral.limit < (Numeral.ofNat n).length
  · simp only [if_pos hlen]
  · simp only [if_neg hlen]
    rfl

theorem read_cursorText (n : Nat) :
    read (cursorText n) = bounded n (.object [(cursorKey, .integer n)]) := by
  have hsplit : cursorText n = '\x7b' :: '"' :: (cursorKey ++ '"' :: ':' :: ' ' ::
      (Numeral.ofNat n ++ ['\x7d'])) := rfl
  have hstay : skipSpace (cursorText n) = cursorText n := rfl
  have hvalue : ∀ fuel, value deepest (fuel + 3) (cursorText n) =
      bounded n (.object [(cursorKey, .integer n)], []) := by
    intro fuel
    rw [hsplit]
    simp only [value]
    rw [if_neg (by decide)]
    show (entries (deepest - 1) (fuel + 2) _).map _ = _
    rw [entries_cursor, bounded, bounded]
    split <;> rfl
  have hlen : 2 * (cursorText n).length + 1 = (2 * (cursorText n).length - 2) + 3 := by
    have : 2 ≤ (cursorText n).length := by rw [hsplit]; simp
    omega
  simp only [read, hstay, hlen, hvalue, bind, Except.bind, bounded]
  by_cases hlong : Numeral.limit < (Numeral.ofNat n).length
  · simp only [if_pos hlong]
  · simp only [if_neg hlong]
    rfl

end Json

theorem readCursor_cursorText {n : Nat} (hn : n < 10 ^ Numeral.limit) :
    readCursor (cursorText n) = .ok n := by
  have hlen := (Numeral.length_ofNat_le_iff (by decide)).mpr hn
  rw [readCursor, Json.read_cursorText, Json.bounded, if_neg (Nat.not_lt.mpr hlen)]
  rfl

theorem readCursor_eq_ok {n m : Nat} (h : readCursor (cursorText n) = .ok m) : m = n := by
  by_cases hn : n < 10 ^ Numeral.limit
  · rw [readCursor_cursorText hn] at h
    exact (Except.ok.inj h).symm
  · have hlen : Numeral.limit < (Numeral.ofNat n).length := by
      rw [← Nat.not_le, Numeral.length_ofNat_le_iff (by decide)]
      exact hn
    rw [readCursor, Json.read_cursorText, Json.bounded, if_pos hlen] at h
    cases h

end Marginalia
