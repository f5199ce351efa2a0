import Marginalia.Document
import Mathlib.Data.List.Basic

/-!
# Typing and editing

What typing and editing do to the lines of a document (`type_eq`, `apply_eq`, and back from the
result `apply_cases`), and how cuts of a line behave where a character was put in.
-/

namespace Marginalia

namespace Document

theorem lineText_eq_ok_iff {d : Document} {i : Int} {line : Text} :
    d.lineText i = .ok line ↔ ∃ k, index? d.lines.length i = some k ∧ d.lines[k]? = some line := by
  unfold lineText line?
  cases h : index? d.lines.length i with
  | none => simp
  | some k => cases h' : d.lines[k]? <;> simp [h']

theorem setLine_of_index {d : Document} {i : Int} {k : Nat}
    (h : index? d.lines.length i = some k) (line : Text) :
    d.setLine i line = { d with lines := d.lines.set k line } := by
  simp [setLine, h]

theorem index?_lt {n k : Nat} {i : Int} (h : index? n i = some k) : k < n := by
  simp only [index?, Option.ite_none_right_eq_some, Bool.and_eq_true, decide_eq_true_eq,
    Option.some.injEq] at h
  omega

theorem lineText_set {d : Document} {i : Int} {k : Nat} (h : index? d.lines.length i = some k)
    {lines : List Text} (line : Text) (hlines : lines = d.lines.set k line) (d' : Document)
    (hd : d'.lines = lines) : d'.lineText i = .ok line := by
  have hlen : d'.lines.length = d.lines.length := by simp [hd, hlines]
  refine lineText_eq_ok_iff.mpr ⟨k, by rw [hlen]; exact h, ?_⟩
  rw [hd, hlines, List.getElem?_set_self (index?_lt h)]

theorem type_eq {d : Document} {i : Int} {k : Nat} {line : Text}
    (hk : index? d.lines.length i = some k) (hline : d.lines[k]? = some line) (column : Int)
    (text : Text) (observed : Bool) :
    d.type i column text observed = .ok
      ({ d with
          lines := d.lines.set k (Text.before line column ++ text ++ Text.after line column)
          notices := d.notices ++ [{ change := { line := i, column, text }, observed }] },
        { line := i, column, text }) := by
  have h := lineText_eq_ok_iff.mpr ⟨k, hk, hline⟩
  simp only [type, h, bind, Except.bind, pure, Except.pure, setLine_of_index hk, notify]

theorem apply_eq {d : Document} {e : Edit} {k : Nat} {line : Text} (hd : d.readOnly = false)
    (hk : index? d.lines.length e.line = some k) (hline : d.lines[k]? = some line)
    (hstop : e.stop ≤ line.length) (hstart : e.start ≤ e.stop) (observed : Bool) :
    d.apply e observed = .ok
      ({ d with
          lines := d.lines.set k (Text.before line e.start ++ e.text ++ Text.after line e.stop)
          edits := d.edits ++ [e]
          notices := d.notices ++
            [{ change := { line := e.line, column := e.start, text := e.text }, observed }] },
        true) := by
  have h := lineText_eq_ok_iff.mpr ⟨k, hk, hline⟩
  have hstop' : ¬ ((line.length : Int) < e.stop) := by omega
  have hstart' : ¬ (e.stop < e.start) := by omega
  simp [apply, hd, h, bind, Except.bind, pure, Except.pure, hstop', hstart', setLine_of_index hk,
    notify]

/-- An edit is refused and leaves the document, or it gives its line a new text and leaves the other
lines. -/
theorem apply_cases {d d' : Document} {e : Edit} {observed applied : Bool}
    (h : d.apply e observed = .ok (d', applied)) : applied = false ∧ d' = d ∨
      applied = true ∧ ∃ line k, d.lineText e.line = .ok line ∧
        index? d.lines.length e.line = some k ∧
        d'.lines = d.lines.set k (Text.before line e.start ++ e.text ++ Text.after line e.stop) := by
  unfold apply at h
  simp only [bind, Except.bind, pure, Except.pure] at h
  split at h
  · cases h
    exact .inl ⟨rfl, rfl⟩
  · cases hline : d.lineText e.line with
    | error f =>
      rw [hline] at h
      cases h
    | ok line =>
      obtain ⟨k, hk, -⟩ := lineText_eq_ok_iff.mp hline
      simp only [hline] at h
      split at h
      · cases h
        exact .inl ⟨rfl, rfl⟩
      · obtain ⟨rfl, happlied⟩ := Prod.mk.inj (Except.ok.inj h)
        exact .inr ⟨happlied.symm, line, k, rfl, hk, by rw [setLine_of_index hk]; rfl⟩

theorem lines_of_apply {d d' : Document} {e : Edit} {observed : Bool}
    (h : d.apply e observed = .ok (d', true)) :
    ∃ line k, d.lineText e.line = .ok line ∧ index? d.lines.length e.line = some k ∧
      d'.lines = d.lines.set k (Text.before line e.start ++ e.text ++ Text.after line e.stop) := by
  rcases apply_cases h with ⟨happlied, -⟩ | ⟨-, hlines⟩
  · cases happlied
  · exact hlines

/-- The line that an edit was applied to is in place. -/
theorem lineText_of_apply {d d' : Document} {e : Edit} {observed : Bool}
    (h : d.apply e observed = .ok (d', true)) : ∃ line, d.lineText e.line = .ok line ∧
      d'.lineText e.line = .ok (Text.before line e.start ++ e.text ++ Text.after line e.stop) := by
  obtain ⟨line, k, hline, hk, hlines⟩ := lines_of_apply h
  exact ⟨line, hline, lineText_set hk _ rfl _ hlines⟩

theorem eq_of_refused {d d' : Document} {e : Edit} {observed : Bool}
    (h : d.apply e observed = .ok (d', false)) : d' = d := by
  rcases apply_cases h with ⟨-, hsame⟩ | ⟨happlied, -⟩
  · exact hsame
  · cases happlied

end Document

/-! ## Cuts around a character -/

namespace Text

theorem between_one (p q : Text) (ch : Char) {c : Int} (hc : c = p.length) :
    between (p ++ ch :: q) c (c + 1) = [ch] := by
  subst hc
  have h1 : cut (p ++ ch :: q).length (p.length : Int) = p.length := by simp [cut_natCast]
  have h2 : cut (p ++ ch :: q).length ((p.length : Int) + 1) = p.length + 1 := by
    simpa using cut_natCast (p ++ ch :: q).length (p.length + 1)
  rw [between, h1, h2, List.take_append]
  simp

theorem before_of_nat (s : Text) (k : Nat) : before s k = s.take k := by
  rw [before, cut_natCast, ← List.take_eq_take_min]

theorem after_of_nat (s : Text) (k : Nat) : after s k = s.drop k := by
  rw [after, cut_natCast, ← List.drop_eq_drop_min]

/-- A cut that is not meant to lie beyond the text. -/
theorem after_min_length (s : Text) (k : Nat) : after s (min (s.length : Int) k) = s.drop k := by
  have hcut : min (s.length : Int) k = (min k s.length : Nat) := by omega
  rw [hcut, after_of_nat, ← List.drop_eq_drop_min]

/-- Nothing lies between the end of a text and a place beyond it. -/
theorem between_beyond {s : Text} {c : Int} (h : s.length ≤ c) : between s c (c + 1) = [] := by
  have h1 : cut s.length c = s.length := by unfold cut; split <;> omega
  rw [between, h1, List.drop_eq_nil_iff, List.length_take]
  exact Nat.min_le_right ..

end Text

end Marginalia
