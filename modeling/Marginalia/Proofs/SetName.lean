import Marginalia.Disk.Path
import Marginalia.Proofs.Text.Lines
import Marginalia.SetName

/-!
# Names of sets that are let through

A name that is let through names one folder below another: it is not empty, has no slash and is
none of the dots (`sanitize_eq_ok`). The hyphens do not make dots of another name, since a text
without hyphens afterwards is the one before. The names that are left as they are have no blank
character, no slash and no backslash (`sanitize_eq_self_iff`). Which names are refused is said by
`sanitize_error_iff`.
-/

namespace Marginalia

namespace Text

theorem mem_hyphenate {c : Char} {s : Text} (h : c ∈ hyphenate s) : c = '-' ∨ c ∈ s := by
  fun_induction hyphenate s with
  | case1 => cases h
  | case2 => exact .inl (List.mem_singleton.mp h)
  | case3 b _ d r _ ih => exact (ih h).imp_right (List.mem_cons_of_mem _)
  | case4 b _ d r _ ih =>
    rcases List.mem_cons.mp h with h | h
    · exact .inl h
    · exact (ih h).imp_right (List.mem_cons_of_mem _)
  | case5 b r _ ih =>
    rcases List.mem_cons.mp h with rfl | h
    · exact .inr List.mem_cons_self
    · exact (ih h).imp_right (List.mem_cons_of_mem _)

theorem hyphen_mem_of_blank {c : Char} (hc : isBlank c = true) (r : Text) :
    '-' ∈ hyphenate (c :: r) := by
  induction r generalizing c with
  | nil => simp [hyphenate, hc]
  | cons d r ih =>
    unfold hyphenate
    by_cases hd : isBlank d = true
    · simp only [hc, hd, if_true]
      exact ih hd
    · simp [hc, hd]

/-- A text that has no hyphen afterwards had no blank character. -/
theorem hyphenate_eq_self {s : Text} (h : '-' ∉ hyphenate s) : hyphenate s = s := by
  induction s with
  | nil => rfl
  | cons c r ih =>
    by_cases hc : isBlank c = true
    · exact absurd (hyphen_mem_of_blank hc r) h
    · unfold hyphenate at h ⊢
      simp only [hc, Bool.false_eq_true, if_false] at h ⊢
      rw [ih fun hm => h (List.mem_cons_of_mem _ hm)]

end Text

theorem SetName.sanitize_eq_ok {name : Option Text} {n : Text} (h : sanitize name = .ok n) :
    n ≠ [] ∧ n ≠ ['.'] ∧ n ≠ Path.above ∧ '/' ∉ n := by
  unfold sanitize at h
  simp only at h
  split at h
  · cases h
  next hempty =>
  split at h
  · cases h
  next hslash =>
  split at h
  · cases h
  next hdots =>
  cases h
  simp only [Bool.or_eq_true, decide_eq_true_eq, not_or] at hdots
  have hself : ∀ x : Text, '-' ∉ x → Text.hyphenate (Text.trim (name.getD [])) = x →
      Text.trim (name.getD []) = x := fun x hx e =>
    (Text.hyphenate_eq_self (e ▸ hx)).symm.trans e
  refine ⟨fun e => ?_, fun e => hdots.1 (hself _ (by decide) e),
    fun e => hdots.2 (hself _ (by decide) e), fun hm => ?_⟩
  · rw [hself [] (by decide) e] at hempty
    exact hempty rfl
  · rcases Text.mem_hyphenate hm with e | hm
    · cases e
    · exact hslash (List.any_eq_true.mpr ⟨_, hm, rfl⟩)

/-! ## Names that are left as they are -/

namespace Text

theorem hyphenate_of_no_blank {s : Text} (h : ∀ c ∈ s, isBlank c = false) : hyphenate s = s := by
  induction s with
  | nil => rfl
  | cons c r ih =>
    unfold hyphenate
    rw [h c List.mem_cons_self, if_neg (by decide), ih fun d hd => h d (List.mem_cons_of_mem _ hd)]

theorem no_blank_hyphenate {c : Char} {s : Text} (h : c ∈ hyphenate s) : isBlank c = false := by
  fun_induction hyphenate s with
  | case1 => cases h
  | case2 => rw [List.mem_singleton.mp h]; decide
  | case3 b _ d r _ ih => exact ih h
  | case4 b _ d r _ ih =>
    rcases List.mem_cons.mp h with rfl | h
    · decide
    · exact ih h
  | case5 b r hb ih =>
    rcases List.mem_cons.mp h with rfl | h
    · simpa using hb
    · exact ih h

theorem trim_of_no_blank {s : Text} (h : ∀ c ∈ s, isBlank c = false) : trim s = s :=
  trim_eq_self_iff.mpr ⟨fun c hc => h c (List.mem_of_mem_head? hc),
    fun c hc => h c (List.mem_of_getLast? hc)⟩

end Text

namespace SetName

/-- A name that names a folder and has no blank character, no slash and no backslash. -/
structure Kept (n : Text) : Prop where
  not_empty : n ≠ []
  not_dot : n ≠ ['.']
  not_above : n ≠ Path.above
  no_blank : ∀ c ∈ n, isBlank c = false
  no_slash : ∀ c ∈ n, isSlash c = false

theorem Kept.of_sanitize {name : Option Text} {n : Text} (h : sanitize name = .ok n) : Kept n := by
  obtain ⟨hempty, hdot, habove, -⟩ := sanitize_eq_ok h
  unfold sanitize at h
  simp only at h
  split at h
  · cases h
  split at h
  · cases h
  next hslash =>
  split at h
  · cases h
  cases h
  refine ⟨hempty, hdot, habove, fun c => Text.no_blank_hyphenate, fun c hc => ?_⟩
  rcases Text.mem_hyphenate hc with rfl | hc
  · decide
  · cases hs : isSlash c with
    | false => rfl
    | true => exact absurd (List.any_eq_true.mpr ⟨c, hc, hs⟩) hslash

theorem sanitize_eq_self_iff {n : Text} : sanitize (some n) = .ok n ↔ Kept n := by
  refine ⟨.of_sanitize, fun h => ?_⟩
  have hempty : n.isEmpty = false := by simpa using h.not_empty
  have hslash : n.any isSlash = false := List.any_eq_false.mpr fun c hc => by simp [h.no_slash c hc]
  have hdots : (decide (n = ['.']) || decide (n = ['.', '.'])) = false := by
    simpa using ⟨h.not_dot, h.not_above⟩
  simp only [sanitize, Option.getD_some, Text.trim_of_no_blank h.no_blank, hempty, hslash, hdots,
    Bool.false_eq_true, if_false, Text.hyphenate_of_no_blank h.no_blank]

/-! ## Names that are refused -/

theorem isSlash_eq_true_iff {c : Char} : isSlash c = true ↔ c = '/' ∨ c = '\\' := by
  simp [isSlash]

/-- A name is refused when nothing is left of it without the blanks around it, or only dots that
name another folder, or when it has a slash or a backslash. -/
theorem sanitize_error_iff {name : Option Text} {trimmed : Text}
    (h : Text.trim (name.getD []) = trimmed) :
    (∃ f, sanitize name = .error f) ↔
      trimmed = [] ∨ trimmed = ['.'] ∨ trimmed = ['.', '.'] ∨ '/' ∈ trimmed ∨ '\\' ∈ trimmed := by
  have hslash : trimmed.any isSlash = true ↔ '/' ∈ trimmed ∨ '\\' ∈ trimmed := by
    simp only [List.any_eq_true, isSlash_eq_true_iff, and_or_left, exists_or, exists_eq_right]
  simp only [sanitize, h]
  by_cases hempty : trimmed = []
  · simp [hempty]
  by_cases hs : trimmed.any isSlash = true
  · simp [hempty, hs, hslash.mp hs]
  by_cases hdots : trimmed = ['.'] ∨ trimmed = ['.', '.']
  · rcases hdots with hd | hd <;> simp [hd, isSlash]
  · have hno := hslash.not.mp hs
    simp only [not_or] at hdots hno
    simp [hempty, hs, hdots, hno]

end SetName

end Marginalia
