import Marginalia.Text.Basic

/-!
# Strings from outside

A string that is handed in may hold surrogates that stand alone, as the names of files and the
values of an environment do whose bytes are no UTF-8. A surrogate has no UTF-8 of its own, so a text
has none, and a string that holds one cannot be written to a file.
-/

namespace Marginalia

/-- A surrogate, by its distance from the first one. -/
abbrev Surrogate := Fin 2048

abbrev Passed := List (Char ⊕ Surrogate)

namespace Passed

def ofText (s : Text) : Passed := s.map .inl

/-- The text of a string without surrogates. -/
def text? : Passed → Option Text
  | [] => some []
  | .inl c :: r => (text? r).map (c :: ·)
  | .inr _ :: _ => none

@[simp] theorem text?_ofText (s : Text) : text? (ofText s) = some s := by
  induction s with
  | nil => rfl
  | cons c s ih => rw [ofText, List.map_cons, text?, ← ofText, ih]; rfl

theorem ofText_inj {s s' : Text} : ofText s = ofText s' ↔ s = s' :=
  ⟨fun h => Option.some.inj (by rw [← text?_ofText, h, text?_ofText]), congrArg ofText⟩

theorem text?_eq_some_iff {p : Passed} {s : Text} : p.text? = some s ↔ p = ofText s := by
  constructor
  · intro h
    induction p generalizing s with
    | nil => cases h; rfl
    | cons x p ih =>
      cases x with
      | inr u => cases h
      | inl c =>
        obtain ⟨r, hr, rfl⟩ := Option.map_eq_some_iff.mp h
        rw [ih hr]; rfl
  · rintro rfl
    exact text?_ofText s

/-- A string has no text exactly when it holds a surrogate. -/
theorem text?_eq_none_iff {p : Passed} : p.text? = none ↔ ∃ u, .inr u ∈ p := by
  induction p with
  | nil => simp [text?]
  | cons x p ih =>
    cases x with
    | inr u => exact iff_of_true rfl ⟨u, List.mem_cons_self ..⟩
    | inl c => simp [text?, ih]

end Passed

end Marginalia
