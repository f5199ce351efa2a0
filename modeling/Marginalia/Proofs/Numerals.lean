import Marginalia.Session.Ids
import Mathlib.Algebra.Group.Nat.Defs
import Mathlib.Data.List.Induction

/-!
# Decimal numerals

Written numerals are runs of ASCII digits (`isAsciiDigit_of_mem_ofNat`) that read back as their
number (`value_ofNat`), and their length tells how large it is (`length_ofNat_le_iff`). So the
numbers below `10 ^ maxIdLength` are the ones whose numerals are ids (`isId_ofNat_iff`).
-/

namespace Marginalia

/-! ## Digits -/

theorem isAsciiDigit_iff {c : Char} : isAsciiDigit c = true ↔ 48 ≤ c.toNat ∧ c.toNat ≤ 57 := by
  simp only [isAsciiDigit, Bool.and_eq_true, decide_eq_true_eq, Char.le_def, UInt32.le_iff_toNat_le]
  rfl

theorem isAsciiDigit_of_isDigit {c : Char} (h : c.isDigit = true) : isAsciiDigit c = true := by
  simp only [Char.isDigit, Bool.and_eq_true, decide_eq_true_eq, ge_iff_le,
    UInt32.le_iff_toNat_le] at h
  exact isAsciiDigit_iff.mpr h

theorem isAsciiDigit_utf8Size {c : Char} (h : isAsciiDigit c = true) : c.utf8Size = 1 := by
  have h' := (isAsciiDigit_iff.mp h).2
  unfold Char.utf8Size
  rw [if_pos (by rw [UInt32.le_iff_toNat_le]; exact Nat.le_trans h' (by decide))]

theorem isAsciiDigit_ne {c d : Char} (h : isAsciiDigit c = true) (hd : isAsciiDigit d = false) :
    c ≠ d := fun e => by rw [e, hd] at h; cases h

theorem isAsciiDigit_not_blank {c : Char} (h : isAsciiDigit c = true) : isBlank c = false := by
  have := isAsciiDigit_iff.mp h
  simp [isBlank]
  omega

theorem isAsciiDigit_not_lineEnd {c : Char} (h : isAsciiDigit c = true) :
    Text.isLineEnd c = false := by
  have := isAsciiDigit_iff.mp h
  simp [Text.isLineEnd]
  omega

namespace Numeral

theorem isAsciiDigit_of_mem_ofNat {n : Nat} {c : Char} (h : c ∈ ofNat n) :
    isAsciiDigit c = true :=
  isAsciiDigit_of_isDigit (Nat.isDigit_of_mem_toDigits (by decide) (by decide) h)

theorem ofNat_ne_nil (n : Nat) : ofNat n ≠ [] := Nat.toDigits_ne_nil

theorem length_ofNat_le_iff {n k : Nat} (hk : 0 < k) : (ofNat n).length ≤ k ↔ n < 10 ^ k :=
  Nat.length_toDigits_le_iff (by decide) hk

theorem ofDigits_append_singleton (ds : List Nat) (d : Nat) :
    ofDigits (ds ++ [d]) = 10 * ofDigits ds + d := by
  simp [ofDigits, List.foldl_append]

theorem value_append_singleton (s : Text) (c : Char) :
    value (s ++ [c]) = 10 * value s + (c.toNat - 48) := by
  simp only [value, List.map_append, List.map_cons, List.map_nil, ofDigits_append_singleton]
  rfl

@[simp] theorem value_ofNat (n : Nat) : value (ofNat n) = n := by
  induction n using Nat.strongRecOn with
  | ind n ih =>
    by_cases h : n < 10
    · rw [ofNat, Nat.toDigits_of_lt_base h]
      have := value_append_singleton [] n.digitChar
      simp only [List.nil_append] at this
      rw [this, Nat.toNat_digitChar_sub_48_of_lt_ten h]
      simp [value, ofDigits]
    · rw [ofNat, Nat.toDigits_of_base_le (by decide) (by omega), value_append_singleton,
        Nat.toNat_digitChar_sub_48_of_lt_ten (Nat.mod_lt n (by decide))]
      have := ih (n / 10) (by omega)
      rw [ofNat] at this
      omega

theorem value_lt {s : Text} (h : ∀ c ∈ s, isAsciiDigit c = true) : value s < 10 ^ s.length := by
  induction s using List.reverseRecOn with
  | nil => decide
  | append_singleton s c ih =>
    have hs := ih fun d hd => h d (List.mem_append_left _ hd)
    have hc := isAsciiDigit_iff.mp (h c (by simp))
    rw [value_append_singleton, List.length_append, List.length_singleton, Nat.pow_succ]
    omega

theorem ofInt?_eq (n : Int) :
    ofInt? n = if n.natAbs < 10 ^ limit then some (ofInt n) else none := by
  have hpow (k : Nat) : Nat.pow 10 k = 10 ^ k := rfl
  rw [ofInt?, hpow]

theorem ofInt?_isSome_iff {n : Int} : (ofInt? n).isSome = true ↔ n.natAbs < 10 ^ limit := by
  rw [ofInt?_eq]
  split_ifs with h <;> simp [h]

theorem head?_ofNat {n : Nat} (hn : n ≠ 0) : (ofNat n).head? ≠ some '0' := by
  induction n using Nat.strongRecOn with
  | ind n ih =>
    by_cases h : n < 10
    · rw [ofNat, Nat.toDigits_of_lt_base h, List.head?_cons]
      intro e
      have h0 := Nat.toNat_digitChar_sub_48_of_lt_ten h
      rw [Option.some.inj e] at h0
      exact hn h0.symm
    · have hd : n / 10 ≠ 0 := by omega
      rw [ofNat, Nat.toDigits_of_base_le (by decide) (by omega), List.head?_append]
      have := ih (n / 10) (by omega) hd
      rw [ofNat] at this
      cases hh : (Nat.toDigits 10 (n / 10)).head? with
      | none => simp [List.head?_eq_none_iff, Nat.toDigits_ne_nil] at hh
      | some c => rwa [hh] at this

theorem ofNat_injective {m n : Nat} (h : ofNat m = ofNat n) : m = n := by
  have := congrArg value h
  simpa using this

end Numeral

/-! ## Ids -/

theorem isId_iff {s : Text} :
    isId s = true ↔ s ≠ [] ∧ s.length ≤ maxIdLength ∧ ∀ c ∈ s, isAsciiDigit c = true := by
  simp [isId, and_assoc]

theorem isId_ofNat_iff {n : Nat} : isId (Numeral.ofNat n) = true ↔ n < 10 ^ maxIdLength := by
  rw [isId_iff, ← Numeral.length_ofNat_le_iff (by decide)]
  exact ⟨fun h => h.2.1,
    fun h => ⟨Numeral.ofNat_ne_nil n, h, fun _ => Numeral.isAsciiDigit_of_mem_ofNat⟩⟩

namespace Session

theorem idText_eq_ok_iff {n : Nat} {id : Text} :
    idText n = .ok id ↔ n < 10 ^ Numeral.limit ∧ id = Numeral.ofNat n := by
  unfold idText
  rw [Numeral.ofInt?_eq, Int.natAbs_natCast]
  by_cases h : n < 10 ^ Numeral.limit
  · simp only [h, if_true, Except.ok.injEq, true_and]
    exact eq_comm
  · simp [h]

end Session

end Marginalia
