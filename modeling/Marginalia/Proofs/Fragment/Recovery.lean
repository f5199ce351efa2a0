import Marginalia.Proofs.Fragment.Page

/-!
# Headers that are not as they should be

A line of no shape is skipped: the header that was read so far stays, and reading goes on behind the
line (`addLine_malformed`). Only an entry of the block of counts with too many digits keeps a header,
and with it its page, from being read (`read_eq_error`, `Page.parse_eq_error`), and it always does
(`Page.parse_counting`).
-/

namespace Marginalia

namespace Header

/-- Whether a line is an entry of a block of counts with more digits than a numeral may have. -/
def Overlong (line : Text) : Prop :=
  ∃ digits path, readEntry? line = some (digits, path) ∧ Numeral.limit < digits.length

namespace Reading

variable {r : Reading} {line : Text}

/-- Whether a line has none of the shapes that it may have where it stands: that of an entry in the
block of counts, elsewhere that of a field or of more of one. -/
def Malformed (r : Reading) (line : Text) : Prop :=
  Text.allBlank line = false ∧
    if r.inRefs && isIndented line then readEntry? line = none
    else (isIndented line = false ∨ r.header.fields = []) ∧ readPair? line = none

/-- The header stays as it was read so far. At most the block of counts ends. -/
theorem addLine_malformed (h : r.Malformed line) :
    r.addLine line = .ok { r with inRefs := r.inRefs && isIndented line } := by
  obtain ⟨hblank, hshape⟩ := h
  unfold addLine
  rw [if_neg (by simp [hblank])]
  cases hentry : r.inRefs && isIndented line with
  | true =>
    rw [hentry, if_pos rfl] at hshape
    obtain ⟨hr, -⟩ := Bool.and_eq_true_iff.mp hentry
    rw [if_pos rfl, addEntry, hshape, ← hr]
  | false =>
    rw [hentry, if_neg Bool.false_ne_true] at hshape
    obtain ⟨hplace, hpair⟩ := hshape
    have hfirst : (isIndented line && !r.header.fields.isEmpty) = false := by
      rcases hplace with h | h <;> simp [h]
    rw [if_neg Bool.false_ne_true]
    simp only [hfirst, hpair, Bool.false_eq_true, if_false]

theorem foldlM_malformed {before : List Text} (hbefore : before.foldlM addLine {} = .ok r)
    (h : r.Malformed line) (after : List Text) :
    (before ++ line :: after).foldlM addLine {} =
      after.foldlM addLine { r with inRefs := r.inRefs && isIndented line } := by
  rw [List.foldlM_append, hbefore]
  show (r.addLine line).bind _ = _
  rw [addLine_malformed h]
  rfl

theorem addLine_eq_error {e : Excess} (h : r.addLine line = .error e) : Overlong line := by
  unfold addLine at h
  split at h
  · cases h
  · split at h
    · unfold addEntry at h
      split at h
      · cases h
      · next digits path hentry =>
        split at h
        · next hlong => exact ⟨digits, path, hentry, hlong⟩
        · cases h
    · simp only at h
      split at h
      · cases h
      · split at h <;> cases h

theorem foldlM_eq_error {lines : List Text} {e : Excess}
    (h : lines.foldlM addLine r = .error e) : ∃ line ∈ lines, Overlong line := by
  induction lines generalizing r with
  | nil => cases h
  | cons line lines ih =>
    rw [List.foldlM_cons] at h
    cases hline : r.addLine line with
    | error e => exact ⟨line, List.mem_cons_self, addLine_eq_error hline⟩
    | ok r' =>
      rw [hline] at h
      obtain ⟨bad, hbad, hlong⟩ := ih h
      exact ⟨bad, List.mem_cons_of_mem _ hbad, hlong⟩

end Reading

theorem read_eq_error {block : Text} {e : Excess} (h : read block = .error e) :
    ∃ line ∈ Text.lines block, Overlong line := by
  unfold read at h
  cases hfold : (Text.lines block).foldlM Reading.addLine {} with
  | error e => exact Reading.foldlM_eq_error hfold
  | ok r =>
    rw [hfold] at h
    cases h

end Header

namespace Page

open Header (Overlong Reading IsPath refLine refsKey fence)

theorem parse_eq_error {s : Text} {e : Excess} (h : parse s = .error e) :
    ∃ block body, split? s = some (block, body) ∧ ∃ line ∈ Text.lines block, Overlong line := by
  unfold parse at h
  cases hsplit : split? s with
  | none =>
    rw [hsplit] at h
    cases h
  | some found =>
    obtain ⟨block, body⟩ := found
    rw [hsplit] at h
    cases hread : Header.read block with
    | error e => exact ⟨block, body, rfl, Header.read_eq_error hread⟩
    | ok header =>
      simp only [hread] at h
      cases h

/-- The lines of a block that has one count. -/
def countingLines (path : Text) (n : Nat) : List Text :=
  [refsKey ++ [':', ' ', '|'], refLine (path, n)]

/-- A page that has one count and nothing else. -/
def counting (path : Text) (n : Nat) : Text :=
  fence ++ '\n' ::
    ((countingLines path n).flatMap (· ++ ['\n']) ++ (fence ++ '\n' :: '\n' :: []))

theorem countingLines_oneLine {path : Text} (hp : IsPath path) (n : Nat) :
    ∀ l ∈ countingLines path n,
      Text.OneLine l ∧ Text.allBlank l = false ∧ l.head? ≠ some '-' := by
  intro l hl
  simp only [countingLines, List.mem_cons, List.not_mem_nil, or_false] at hl
  rcases hl with rfl | rfl
  · decide
  · exact Header.refLine_oneLine hp n

/-- A count with too many digits keeps its page from being read. -/
theorem parse_counting {path : Text} (hp : IsPath path) {n : Nat} (hn : 10 ^ Numeral.limit ≤ n) :
    parse (counting path n) = .error (.digits (Numeral.ofNat n).length) := by
  have hlines := countingLines_oneLine hp n
  have hlong : Numeral.limit < (Numeral.ofNat n).length := by
    rw [← Nat.not_le, Numeral.length_ofNat_le_iff (by decide)]
    exact Nat.not_lt.mpr hn
  have hentry : ∀ r : Reading, r.inRefs = true → r.addLine (refLine (path, n)) =
      .error (.digits (Numeral.ofNat n).length) := fun r hr => by
    have hindent : Header.isIndented (refLine (path, n)) = true := rfl
    simp only [Reading.addLine, (Header.refLine_oneLine hp n).2.1, hr, hindent, Reading.addEntry,
      Header.readEntry?_refLine hp n, hlong, Bool.false_eq_true, if_false, Bool.and_self, if_true]
  have hfold : (countingLines path n).foldlM Reading.addLine {} =
      .error (.digits (Numeral.ofNat n).length) := by
    rw [countingLines, List.foldlM_cons, Reading.addLine_refsKey]
    show (List.foldlM Reading.addLine _ [_]) = _
    rw [List.foldlM_cons, hentry _ rfl]
    rfl
  rw [parse, counting, split?_lines hlines]
  simp only
  rw [Header.read_lines fun l hl => (hlines l hl).1, hfold]
  rfl

theorem no_return_counting {path : Text} (hp : IsPath path) (n : Nat) :
    '\r' ∉ counting path n := by
  have hlines : '\r' ∉ (countingLines path n).flatMap (· ++ ['\n']) := by
    intro hm
    obtain ⟨l, hl, hm⟩ := List.mem_flatMap.mp hm
    rcases List.mem_append.mp hm with hm | hm
    · exact (countingLines_oneLine hp n l hl).1.no_return hm
    · exact absurd hm (by decide)
  have hfence : '\r' ∉ fence := by decide
  simp [counting, hlines, hfence]

end Page

end Marginalia
