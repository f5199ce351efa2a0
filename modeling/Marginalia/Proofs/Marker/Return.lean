import Marginalia.Proofs.Marker.Canonical
import Marginalia.Proofs.Text.Lines

/-!
# A carriage return at the end of a line

No token has a carriage return, no id is read past one, and a note is trimmed. So a line is scanned
alike with and without one at its end (`scan_dropReturn`), whichever way lines are cut.
-/

namespace Marginalia

/-! ## Tokens -/

theorem Token.no_return {t : Token} (ho : t.opener ∈ openers) (hs : t.Spaced) : '\r' ∉ t.text :=
  not_mem_text ho hs (by decide) (by decide)

theorem endsKeyword_append_return (s : Text) : endsKeyword (s ++ ['\r']) = endsKeyword s := by
  cases s <;> rfl

namespace Token

theorem readBy?_append_return (s : Text) :
    readBy? grammar (s ++ ['\r']) = readBy? grammar s := by
  ext t
  rw [readBy?_eq_some_iff, readBy?_eq_some_iff]
  constructor
  · rintro ⟨rest, e, hend, ho, hs⟩
    -- the carriage return is none of the token's, so it is the last of what follows
    rcases List.eq_nil_or_concat rest with rfl | ⟨rest', c, rfl⟩
    · refine absurd ?_ (no_return ho hs)
      rw [List.append_nil] at e
      rw [← e]
      exact List.mem_append_right _ List.mem_cons_self
    · rw [List.concat_eq_append] at e hend
      rw [← List.append_assoc] at e
      obtain ⟨rfl, hc⟩ := List.append_inj' e rfl
      cases hc
      exact ⟨rest', rfl, by rwa [endsKeyword_append_return] at hend, ho, hs⟩
  · rintro ⟨rest, rfl, hend, ho, hs⟩
    exact ⟨rest ++ ['\r'], by simp, by rw [endsKeyword_append_return, hend], ho, hs⟩

theorem find?_append_return (line : Text) : find? (line ++ ['\r']) = find? line := by
  unfold find?
  induction line with
  | nil => rfl
  | cons c r ih =>
    rw [List.cons_append, findBy?, findBy?, ih, ← List.cons_append, readBy?_append_return]

end Token

/-! ## Ids and notes -/

namespace IdReading

theorem canonical?_of_blank {s : Text} (h : ∀ c ∈ s, isBlank c = true) : canonical? s = none := by
  have hspace : s.takeWhile isBlank = s := List.takeWhile_eq_self_iff.mpr h
  simp [canonical?, hspace]

theorem legacy?_of_blank {s : Text} (h : ∀ c ∈ s, isBlank c = true) : legacy? s = none := by
  have hspace : s.takeWhile isBlank = s := List.takeWhile_eq_self_iff.mpr h
  simp [legacy?, hspace, isId]

theorem blank_append_return {s : Text} (h : ∀ c ∈ s, isBlank c = true) :
    ∀ c ∈ s ++ ['\r'], isBlank c = true := by
  intro c hc
  rcases List.mem_append.mp hc with hc | hc
  · exact h c hc
  · rw [List.mem_singleton.mp hc]
    decide

/-- A carriage return is no digit, so the digits at the head of a text stay the same. -/
theorem digits_append_return (s : Text) :
    (s ++ ['\r']).takeWhile isAsciiDigit = s.takeWhile isAsciiDigit :=
  Text.takeWhile_append_other (by decide) s

theorem canonical?_append_return (s : Text) : canonical? (s ++ ['\r']) = canonical? s := by
  rcases Text.run_cases isBlank s with h | ⟨hspace, d, body, hrest⟩
  · rw [canonical?_of_blank h, canonical?_of_blank (blank_append_return h)]
  · simp only [canonical?, hspace, Text.drop_run_append, hrest, List.cons_append]
    by_cases hd : d = '['
    · subst hd
      simp only [digits_append_return, Text.drop_run_append]
      cases body.drop (body.takeWhile isAsciiDigit).length with
      | nil => rfl
      | cons e after =>
        by_cases he : e = ']'
        · subst he
          rfl
        · simp [he]
    · simp [hd]

theorem legacy?_append_return (s : Text) : legacy? (s ++ ['\r']) = legacy? s := by
  rcases Text.run_cases isBlank s with h | ⟨hspace, -⟩
  · rw [legacy?_of_blank h, legacy?_of_blank (blank_append_return h)]
  · simp only [legacy?, hspace, Text.drop_run_append, digits_append_return]
    generalize s.drop (s.takeWhile isBlank).length = body
    cases body.drop (body.takeWhile isAsciiDigit).length with
    | nil => rfl
    | cons e after => rfl

theorem read?_append_return (s : Text) : read? (s ++ ['\r']) = read? s := by
  rw [read?, read?, canonical?_append_return, legacy?_append_return]

end IdReading

namespace Marker

theorem drop_append_return (n : Nat) (s : Text) :
    (s ++ ['\r']).drop n = s.drop n ++ ['\r'] ∨ (s ++ ['\r']).drop n = [] ∧ s.drop n = [] := by
  rcases Nat.lt_or_ge s.length n with h | h
  · exact .inr ⟨List.drop_eq_nil_of_le (by simp; omega), List.drop_eq_nil_of_le h.le⟩
  · exact .inl (List.drop_append_of_le_length h)

theorem readNote?_append_return (s : Text) : readNote? (s ++ ['\r']) = readNote? s := by
  rw [readNote?, readNote?, Text.trim_append_blank (by decide)]

theorem readBinding_append_return (stop : Nat) (s : Text) :
    readBinding stop (s ++ ['\r']) = readBinding stop s := by
  unfold readBinding
  rw [IdReading.read?_append_return]
  congr 1
  funext r
  rcases drop_append_return r.length s with h | ⟨h, h'⟩
  · rw [h, readNote?_append_return]
  · rw [h, h']

theorem scan_append_return (number : Int) (line : Text) :
    scan number (line ++ ['\r']) = scan number line := by
  unfold scan scanBy
  rw [← Token.find?, ← Token.find?, Token.find?_append_return]
  congr 1
  funext ⟨start, token⟩
  rcases drop_append_return (start + token.text.length) line with h | ⟨h, h'⟩
  · simp only [h, readBinding_append_return]
  · simp only [h, h']

/-- A line's marker does not depend on a carriage return at its end. -/
theorem scan_dropReturn (number : Int) (line : Text) :
    scan number (Text.dropReturn line) = scan number line := by
  rcases Text.return_cases line with ⟨body, rfl⟩ | ⟨h, -⟩
  · rw [Text.dropReturn_append, scan_append_return]
  · rw [Text.dropReturn_of_none h]

end Marker

end Marginalia
