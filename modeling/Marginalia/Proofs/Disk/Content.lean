import Marginalia.Disk.Content
import Marginalia.Proofs.Text.Utf8

/-!
# What files can be scanned

The content of a file is told by its bytes alone: a file can be scanned, with some text, when no NUL
is among its first bytes and its bytes are those of the text (`scannable?_eq_some_iff`).
-/

namespace Marginalia.Content

/-- The bytes in the file. -/
def bytes : Content → List UInt8
  | .text s => Utf8.encode s
  | .raw bytes => bytes

theorem verbatim_eq_ok_iff {c : Content} {s : Text} : c.verbatim = .ok s ↔ c.bytes = Utf8.encode s := by
  cases c with
  | text s' =>
    constructor
    · intro h
      cases h
      rfl
    · exact fun h => congrArg _ (Utf8.encode_injective h)
  | raw bs => exact Utf8.decode_eq_ok_iff

/-! ## Binary files -/

/-- A zero byte stands for the NUL only. -/
theorem zero_mem_encodeChar {c : Char} : 0 ∈ String.utf8EncodeChar c ↔ c = '\x00' := by
  have hbyte : ∀ n, 0 < n → n < 0x100 → UInt8.ofNat n ≠ 0 := by
    intro n h0 hn e
    have := congrArg UInt8.toNat e
    rw [Utf8.toNat_byte hn] at this
    exact absurd this (Nat.ne_of_gt h0)
  have hc := Utf8.toNat_cases c
  constructor
  · intro h
    rw [Utf8.encodeChar_eq] at h
    split at h
    · by_contra hne
      have hpos : 0 < c.toNat := Nat.pos_of_ne_zero fun e => hne (Char.toNat_inj.mp e)
      exact hbyte _ hpos (by omega) (List.mem_singleton.mp h).symm
    · exfalso
      split at h
      · simp only [List.mem_cons, List.not_mem_nil, or_false] at h
        rcases h with h | h <;> exact hbyte _ (by omega) (by omega) h.symm
      · split at h
        · simp only [List.mem_cons, List.not_mem_nil, or_false] at h
          rcases h with h | h | h <;> exact hbyte _ (by omega) (by omega) h.symm
        · simp only [List.mem_cons, List.not_mem_nil, or_false] at h
          rcases h with h | h | h | h <;> exact hbyte _ (by omega) (by omega) h.symm
  · rintro rfl
    decide

theorem startingWithin_subset (n : Nat) (s : Text) : startingWithin n s ⊆ s := by
  induction s generalizing n with
  | nil => exact List.nil_subset _
  | cons c s ih =>
    rw [startingWithin]
    split
    · exact List.nil_subset _
    · exact List.cons_subset_cons c (ih _)

theorem zero_mem_take_encode (n : Nat) (s : Text) :
    0 ∈ (Utf8.encode s).take n ↔ '\x00' ∈ startingWithin n s := by
  induction s generalizing n with
  | nil => simp [startingWithin]
  | cons c s ih =>
    rw [startingWithin]
    split
    · next h => simp [h]
    · next h =>
      rw [Utf8.encode_cons, List.take_append, String.length_utf8EncodeChar, List.mem_append, ih,
        List.mem_cons]
      refine or_congr_left ?_
      constructor
      · intro h0
        exact (zero_mem_encodeChar.mp (List.take_subset _ _ h0)).symm
      · rintro rfl
        obtain ⟨m, rfl⟩ := Nat.exists_eq_succ_of_ne_zero h
        exact List.mem_cons_self

theorem isBinary_eq_true_iff (c : Content) : c.isBinary = true ↔ 0 ∈ c.bytes.take sniffed := by
  cases c with
  | text s => rw [isBinary, List.contains_iff_mem, bytes, zero_mem_take_encode]
  | raw bs => rw [isBinary, List.contains_iff_mem, bytes]

theorem scannable?_eq_some_iff {c : Content} {s : Text} :
    c.scannable? = some s ↔ 0 ∉ c.bytes.take sniffed ∧ c.bytes = Utf8.encode s := by
  rw [← isBinary_eq_true_iff, ← verbatim_eq_ok_iff, scannable?]
  cases c.isBinary with
  | true => simp
  | false =>
    cases c.verbatim with
    | error f => simp [Except.toOption]
    | ok s' => simp [Except.toOption]

end Marginalia.Content
