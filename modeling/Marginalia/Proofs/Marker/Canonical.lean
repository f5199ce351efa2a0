import Marginalia.Proofs.Marker.Token
import Marginalia.Proofs.Numerals

/-!
# The canonical form scans as it is meant

A marker scanned on a line cuts the line at its token (`scan_split`). When the token gets its
canonical form with an id, the line scans to a marker at the same place that is bound to this id,
whatever follows (`scan_canonical`).
-/

namespace Marginalia

theorem IdReading.canonical?_bracketed {id : Text} (hid : isId id = true) (rest : Text) :
    canonical? ('[' :: (id ++ ']' :: rest)) = some ⟨id, .canonical, id.length + 2⟩ := by
  have hdigits : (id ++ ']' :: rest).takeWhile isAsciiDigit = id :=
    Text.takeWhile_append_stop (isId_iff.mp hid).2.2 (by simp; decide)
  have hspace : ('[' :: (id ++ ']' :: rest)).takeWhile isBlank = [] := rfl
  simp only [canonical?, hspace, List.length_nil, List.drop_zero, hdigits, List.drop_left, hid,
    if_true, Nat.zero_add]

/-- Only ids are read. -/
theorem IdReading.isId_of_read? {s : Text} {r : IdReading} (h : read? s = some r) :
    isId r.id = true := by
  rcases Option.or_eq_some_iff.mp h with hc | ⟨-, hl⟩
  · unfold canonical? at hc
    simp only at hc
    split at hc
    · split at hc
      · split at hc
        · next hid =>
          cases hc
          exact hid
        · cases hc
      · cases hc
    · cases hc
  · unfold legacy? at hl
    simp only [Option.ite_none_right_eq_some, Bool.and_eq_true, Option.some.injEq] at hl
    obtain ⟨⟨⟨-, hid⟩, -⟩, rfl⟩ := hl
    exact hid

namespace Marker

theorem scan_eq_some_iff {number : Int} {line : Text} {m : Marker} :
    scan number line = some m ↔ Token.find? line = some (m.start, m.token) ∧ m.line = number ∧
      m.binding = readBinding m.stop (line.drop m.stop) := by
  unfold scan scanBy
  change (Token.find? line).map _ = some m ↔ _
  constructor
  · intro h
    obtain ⟨⟨k, t⟩, hk, rfl⟩ := Option.map_eq_some_iff.mp h
    exact ⟨hk, rfl, rfl⟩
  · rintro ⟨hk, rfl, hb⟩
    rw [hk]
    obtain ⟨l, k, t, b⟩ := m
    simp only [stop] at hb
    simp [hb]

/-- The number of a line is only noted. -/
theorem scan_number (number : Int) (line : Text) :
    scan number line = (scan 0 line).map fun m => { m with line := number } := by
  simp [scan, scanBy, Option.map_map, Function.comp_def]

theorem isId_of_scan {number : Int} {line : Text} {m : Marker} (h : scan number line = some m)
    {b : Binding} (hb : m.binding = some b) : isId b.id = true := by
  obtain ⟨-, -, hbind⟩ := scan_eq_some_iff.mp h
  rw [hb] at hbind
  obtain ⟨r, hr, rfl⟩ := Option.map_eq_some_iff.mp hbind.symm
  exact IdReading.isId_of_read? hr

/-- A line is what stands before its marker's token, the token and the rest. -/
theorem scan_split {number : Int} {line : Text} {m : Marker} (h : scan number line = some m) :
    line = line.take m.start ++ (m.token.text ++ line.drop m.stop) ∧
      m.start ≤ line.length ∧ m.stop ≤ line.length := by
  obtain ⟨hfind, -, -⟩ := scan_eq_some_iff.mp h
  obtain ⟨p, s, rfl, hp, -, hs, -⟩ := Token.findBy?_eq_some_iff.mp hfind
  obtain ⟨rest, rfl, -, -, -⟩ := Token.readBy?_eq_some_iff.mp hs
  rw [stop, ← hp, List.take_left, ← List.append_assoc, List.drop_left' (by simp)]
  simp

theorem opener_mem {number : Int} {line : Text} {m : Marker} (h : scan number line = some m) :
    m.token.opener ∈ openers ∧ m.token.Spaced := by
  obtain ⟨hfind, -, -⟩ := scan_eq_some_iff.mp h
  obtain ⟨p, s, -, -, -, hs, -⟩ := Token.findBy?_eq_some_iff.mp hfind
  obtain ⟨-, -, -, ho, hsp⟩ := Token.readBy?_eq_some_iff.mp hs
  exact ⟨ho, hsp⟩

theorem canonicalText_eq (t : Token) (id : Text) :
    canonicalText t id = t.opener ++ (t.gap ++ (Keyword.full.text ++ '[' :: (id ++ [']']))) := by
  simp [canonicalText]

/-- The canonical form has no characters but those of the token, the keyword, brackets and digits. -/
theorem mem_canonicalText {t : Token} {id : Text} (hid : ∀ c ∈ id, isAsciiDigit c = true) {c : Char}
    (h : c ∈ canonicalText t id) :
    c ∈ t.text ∨ c ∈ "codemeta[]".toList ∨ isAsciiDigit c = true := by
  simp only [canonicalText, List.mem_append, List.mem_cons, List.not_mem_nil, or_false] at h
  rcases h with ((h | h) | rfl | h) | rfl
  · exact .inl (List.mem_append_left _ (List.mem_append.mpr h))
  · exact .inr (.inl (List.mem_append_left ['[', ']'] h))
  · exact .inr (.inl (by decide))
  · exact .inr (.inr (hid c h))
  · exact .inr (.inl (by decide))

/-- The marker that a token in its canonical form is scanned to. -/
def bound (m : Marker) (id rest : Text) : Marker :=
  { m with
    token := { m.token with keyword := .full }
    binding := some
      { id, form := .canonical, stop := m.start + (canonicalText m.token id).length
        note := readNote? rest } }

theorem scan_canonical {number : Int} {line : Text} {m : Marker} (h : scan number line = some m)
    {id : Text} (hid : isId id = true) (rest : Text) :
    scan number (line.take m.start ++ (canonicalText m.token id ++ rest)) =
      some (m.bound id rest) := by
  obtain ⟨hfind, hline, -⟩ := scan_eq_some_iff.mp h
  obtain ⟨ho, hsp⟩ := opener_mem h
  obtain ⟨-, hstart, -⟩ := scan_split h
  have hread : Token.readBy? grammar (m.token.opener ++ (m.token.gap ++ (Keyword.full.text ++
      ('[' :: (id ++ ']' :: rest))))) = some { m.token with keyword := .full } := by
    refine Token.readBy?_eq_some_iff.mpr ⟨'[' :: (id ++ ']' :: rest), ?_, by rfl, ho, hsp.isGap⟩
    simp [Token.text]
  have htext : canonicalText m.token id ++ rest = m.token.opener ++ (m.token.gap ++
      (Keyword.full.text ++ ('[' :: (id ++ ']' :: rest)))) := by
    simp [canonicalText]
  refine scan_eq_some_iff.mpr ⟨?_, hline, ?_⟩
  · rw [htext]
    exact Token.find?_replace hfind hread
  · have hdrop : (line.take m.start ++ (canonicalText m.token id ++ rest)).drop
        (m.bound id rest).stop = '[' :: (id ++ ']' :: rest) := by
      rw [htext, ← List.append_assoc, ← List.append_assoc, ← List.append_assoc]
      refine List.drop_left' ?_
      simp [stop, bound, Token.text, Nat.min_eq_left hstart]
    rw [hdrop, readBinding, IdReading.read?, IdReading.canonical?_bracketed hid]
    have hrest : ('[' :: (id ++ ']' :: rest)).drop (id.length + 2) = rest := by
      simp [List.drop_append]
    simp [bound, hrest, stop, canonicalText, Token.text]
    omega

end Marker

end Marginalia
