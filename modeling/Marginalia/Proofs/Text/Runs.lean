import Marginalia.Text.Basic
import Mathlib.Data.List.TakeWhile

/-!
# Runs of characters

A run at the head of a text and what is left after it, and the cuts that go with them.
-/

namespace Marginalia.Text

theorem drop_takeWhile (p : Char → Bool) (s : Text) :
    s.drop (s.takeWhile p).length = s.dropWhile p := by
  induction s with
  | nil => rfl
  | cons c s ih =>
    cases h : p c with
    | true => simp [h, ih]
    | false => simp [h]

theorem takeWhile_append_drop (p : Char → Bool) (s : Text) :
    s.takeWhile p ++ s.drop (s.takeWhile p).length = s := by
  rw [drop_takeWhile, List.takeWhile_append_dropWhile]

/-- A run that ends where a text starts that does not go on with it. -/
theorem takeWhile_append_stop {p : Char → Bool} {run s : Text} (hrun : ∀ c ∈ run, p c = true)
    (hstop : ∀ c, s.head? = some c → p c = false) : (run ++ s).takeWhile p = run := by
  rw [List.takeWhile_append_of_pos hrun]
  cases s with
  | nil => simp
  | cons c s => simp [hstop c rfl]

/-- A run does not grow by a character that is not of its kind. -/
theorem takeWhile_append_other {p : Char → Bool} {c : Char} (h : p c = false) (s : Text) :
    (s ++ [c]).takeWhile p = s.takeWhile p := by
  induction s with
  | nil => simp [h]
  | cons d s ih => simp [List.takeWhile_cons, ih]

theorem drop_run_append (p : Char → Bool) (s z : Text) :
    (s ++ z).drop (s.takeWhile p).length = s.drop (s.takeWhile p).length ++ z :=
  List.drop_append_of_le_length (List.takeWhile_prefix p).length_le

/-- A text is one run, or its first run ends within it whatever follows. -/
theorem run_cases (p : Char → Bool) (s : Text) : (∀ c ∈ s, p c = true) ∨
    ((∀ z, (s ++ z).takeWhile p = s.takeWhile p) ∧
      ∃ d body, s.drop (s.takeWhile p).length = d :: body) := by
  rw [drop_takeWhile]
  cases h : s.dropWhile p with
  | nil => exact .inl (List.dropWhile_eq_nil_iff.mp h)
  | cons d body =>
    refine .inr ⟨fun z => ?_, d, body, rfl⟩
    rw [List.takeWhile_append, if_neg]
    intro hlen
    have := congrArg List.length (List.takeWhile_append_dropWhile (p := p) (l := s))
    rw [List.length_append, h, List.length_cons] at this
    omega

/-- A text without a character ends before that character in any text they start. -/
theorem length_le_of_append_eq {w rest p z : Text} {c : Char} (h : w ++ rest = p ++ c :: z)
    (hc : c ∉ w) : w.length ≤ p.length := by
  rcases List.append_eq_append_iff.mp h with ⟨u, rfl, -⟩ | ⟨u, rfl, hu⟩
  · simp
  · cases u with
    | nil => simp
    | cons d u =>
      have hd : d = c := (List.cons.inj hu).1.symm
      exact absurd (by simp [hd]) hc

end Marginalia.Text
