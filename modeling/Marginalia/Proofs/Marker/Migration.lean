import Marginalia.Marker.Migration
import Marginalia.Proofs.Marker.Canonical
import Marginalia.Proofs.Text.Lines
import Mathlib.Data.List.Forall2

/-!
# Migration keeps every marker

A migrated line is scanned to the marker that was there, in its canonical form if it was a legacy one
(`scan_migrateLine`), and no other part of a line is looked at. So the markers of a migrated text are
those of the text before, on the same lines (`scanText_migrateText`), and a second migration finds
nothing to do.
-/

namespace Marginalia.Marker

/-- Whether migration is for a marker. -/
def isLegacyBound (m : Marker) : Bool := m.isBound && m.isLegacy

/-- The marker that is scanned in the place of a marker after migration. -/
def migrated (m : Marker) : Marker :=
  match m.binding with
  | none => m
  | some b =>
    if m.isLegacy then
      { m with
        token.keyword := .full
        binding := some
          { b with form := .canonical, stop := m.start + (canonicalText m.token b.id).length } }
    else m

/-- How a marker before migration and the one after it go together. -/
structure Migrates (m m' : Marker) : Prop where
  line : m'.line = m.line
  start : m'.start = m.start
  opener : m'.token.opener = m.token.opener
  gap : m'.token.gap = m.token.gap
  id : m'.id? = m.id?
  note : m'.binding.map (·.note) = m.binding.map (·.note)
  canonical : ∀ b, m'.binding = some b → m'.token.keyword = .full ∧ b.form = .canonical
  unbound : m.binding = none → m' = m

theorem isLegacy_eq_false {m : Marker} {b : Binding} (hb : m.binding = some b)
    (h : m.isLegacy = false) : m.token.keyword = .full ∧ b.form = .canonical := by
  unfold isLegacy at h
  rw [hb] at h
  constructor
  · cases hk : m.token.keyword with
    | full => rfl
    | short => rw [hk] at h; cases h
  · cases hf : b.form with
    | canonical => rfl
    | legacy => simp [hf] at h

theorem isLegacy_migrated {m : Marker} (h : m.isBound = true) : m.migrated.isLegacy = false := by
  obtain ⟨b, hb⟩ := Option.isSome_iff_exists.mp h
  unfold migrated
  rw [hb]
  cases hl : m.isLegacy with
  | true => rfl
  | false => exact hl

theorem isLegacyBound_migrated (m : Marker) : m.migrated.isLegacyBound = false := by
  cases hb : m.binding with
  | none => simp [isLegacyBound, isBound, migrated, hb]
  | some b => simp [isLegacyBound, isLegacy_migrated (m := m) (by simp [isBound, hb])]

theorem migrates_migrated (m : Marker) : Migrates m m.migrated := by
  have hcanonical : ∀ b, m.migrated.binding = some b →
      m.migrated.token.keyword = .full ∧ b.form = .canonical := by
    intro b hb
    refine isLegacy_eq_false hb (isLegacy_migrated ?_)
    cases hm : m.binding with
    | none => simp [migrated, hm] at hb
    | some b => simp [isBound, hm]
  cases hb : m.binding with
  | none =>
    have hsame : m.migrated = m := by simp [migrated, hb]
    rw [hsame] at hcanonical ⊢
    exact ⟨rfl, rfl, rfl, rfl, rfl, rfl, hcanonical, fun _ => rfl⟩
  | some b =>
    cases hl : m.isLegacy with
    | false =>
      have hsame : m.migrated = m := by simp [migrated, hb, hl]
      rw [hsame] at hcanonical ⊢
      exact ⟨rfl, rfl, rfl, rfl, rfl, rfl, hcanonical, fun _ => rfl⟩
    | true =>
      refine ⟨?_, ?_, ?_, ?_, ?_, ?_, hcanonical, fun h => by rw [hb] at h; cases h⟩
      all_goals simp [migrated, id?, hb, hl]

theorem migrated_number (m : Marker) (number : Int) :
    { m with line := number }.migrated = { m.migrated with line := number } := by
  obtain ⟨k, start, token, binding⟩ := m
  cases binding with
  | none => rfl
  | some b =>
    have hsame : isLegacy ⟨number, start, token, some b⟩ = isLegacy ⟨k, start, token, some b⟩ := rfl
    cases h : isLegacy ⟨k, start, token, some b⟩ with
    | true => simp only [migrated, hsame, h, if_true]
    | false => simp only [migrated, hsame, h, Bool.false_eq_true, if_false]

/-! ## One line -/

theorem note_eq {number : Int} {line : Text} {m : Marker} (h : scan number line = some m)
    {b : Binding} (hb : m.binding = some b) : b.note = readNote? (line.drop b.stop) := by
  obtain ⟨-, -, hbind⟩ := scan_eq_some_iff.mp h
  rw [hb] at hbind
  obtain ⟨r, -, rfl⟩ := Option.map_eq_some_iff.mp hbind.symm
  rw [List.drop_drop]

theorem migrateLine_of_scan {line : Text} {m : Marker} (h : scan 0 line = some m) {b : Binding}
    (hb : m.binding = some b) (hl : m.isLegacy = true) :
    migrateLine line = line.take m.start ++ (canonicalText m.token b.id ++ line.drop b.stop) := by
  simp [migrateLine, h, hb, hl]

theorem migrateLine_of_not_legacy {line : Text}
    (h : ∀ m, scan 0 line = some m → m.isLegacyBound = false) : migrateLine line = line := by
  unfold migrateLine
  split
  · rfl
  · next m hm =>
    split
    · rfl
    · next b hb =>
      have := h m hm
      simp only [isLegacyBound, isBound, hb, Option.isSome_some, Bool.true_and] at this
      rw [this]
      rfl

/-- What is scanned on a migrated line. -/
theorem scan_migrateLine (number : Int) (line : Text) :
    scan number (migrateLine line) = (scan number line).map migrated := by
  have hzero : scan 0 (migrateLine line) = (scan 0 line).map migrated := by
    cases hm : scan 0 line with
    | none =>
      rw [migrateLine_of_not_legacy (by simp [hm]), hm]
      rfl
    | some m =>
      cases hb : m.binding with
      | none =>
        rw [migrateLine_of_not_legacy (by simp [hm, isLegacyBound, isBound, hb]), hm]
        simp [migrated, hb]
      | some b =>
        cases hl : m.isLegacy with
        | false =>
          rw [migrateLine_of_not_legacy (by simp [hm, isLegacyBound, hl]), hm]
          simp [migrated, hb, hl]
        | true =>
          rw [migrateLine_of_scan hm hb hl, scan_canonical hm (isId_of_scan hm hb)]
          simp [migrated, bound, hb, hl, note_eq hm hb]
  rw [scan_number number (migrateLine line), hzero, scan_number number line, Option.map_map,
    Option.map_map]
  congr 1
  funext m
  exact (migrated_number m number).symm

/-- A token in its canonical form is another text than what stands in a legacy marker. -/
theorem migrateLine_ne {line : Text} {m : Marker} (h : scan 0 line = some m)
    (hl : m.isLegacyBound = true) : migrateLine line ≠ line := by
  rw [isLegacyBound, Bool.and_eq_true] at hl
  obtain ⟨b, hb⟩ := Option.isSome_iff_exists.mp hl.1
  intro e
  have hscan := scan_migrateLine 0 line
  rw [e, h, Option.map_some, Option.some.injEq] at hscan
  have hlegacy := isLegacy_migrated hl.1
  rw [← hscan, hl.2] at hlegacy
  cases hlegacy

/-! ## Ends of lines -/

theorem migrateEnded_append (body : Text) :
    migrateEnded (body ++ ['\r']) = migrateLine body ++ ['\r'] := by
  rw [migrateEnded, Text.dropEnding?_append]

theorem migrateEnded_of_none {line : Text} (h : Text.dropEnding? ['\r'] line = none) :
    migrateEnded line = migrateLine line := by
  rw [migrateEnded, h]

/-- Either a migrated line is as it was or it ends as it did, or with the bracket after the id. -/
theorem migrateLine_ends (line : Text) : migrateLine line = line ∨
    (migrateLine line).getLast? = line.getLast? ∨ (migrateLine line).getLast? = some ']' := by
  cases hm : scan 0 line with
  | none => exact .inl (migrateLine_of_not_legacy (by simp [hm]))
  | some m =>
    cases hl : m.isLegacyBound with
    | false => exact .inl (migrateLine_of_not_legacy (by simp [hm, hl]))
    | true =>
      right
      rw [isLegacyBound, Bool.and_eq_true] at hl
      obtain ⟨b, hb⟩ := Option.isSome_iff_exists.mp hl.1
      rw [migrateLine_of_scan hm hb hl.2, ← List.append_assoc]
      cases hrest : line.drop b.stop with
      | nil =>
        right
        rw [List.append_nil, canonicalText, ← List.append_assoc, List.getLast?_concat]
      | cons c r =>
        left
        rw [← List.take_append_drop b.stop line, hrest,
          List.getLast?_append_of_ne_nil _ (by simp), List.getLast?_append_of_ne_nil _ (by simp)]

theorem dropEnding?_migrateLine {line : Text} (h : Text.dropEnding? ['\r'] line = none) :
    Text.dropEnding? ['\r'] (migrateLine line) = none := by
  rcases Text.return_cases (migrateLine line) with ⟨body, hbody⟩ | ⟨hnone, -⟩
  · have hlast : (migrateLine line).getLast? = some '\r' := by simp [hbody]
    rcases Text.return_cases line with ⟨body', rfl⟩ | ⟨-, hline⟩
    · rw [Text.dropEnding?_append] at h
      cases h
    · rcases migrateLine_ends line with e | e | e
      · rw [e, h]
      · rw [e] at hlast
        exact absurd hlast hline
      · rw [e] at hlast
        exact absurd hlast (by decide)
  · exact hnone

theorem dropReturn_migrateEnded (line : Text) :
    Text.dropReturn (migrateEnded line) = migrateLine (Text.dropReturn line) := by
  rcases Text.return_cases line with ⟨body, rfl⟩ | ⟨h, -⟩
  · rw [migrateEnded_append, Text.dropReturn_append, Text.dropReturn_append]
  · rw [migrateEnded_of_none h, Text.dropReturn_of_none (dropEnding?_migrateLine h),
      Text.dropReturn_of_none h]

/-- The marker of a line of a text, numbered zero. -/
def ofLine? (line : Text) : Option Marker := scan 0 (Text.dropReturn line)

theorem migrateEnded_eq_self_iff {line : Text} :
    migrateEnded line = line ↔ (ofLine? line).any isLegacyBound = false := by
  have hline : ∀ body, migrateLine body = body ↔ (scan 0 body).any isLegacyBound = false := by
    intro body
    cases hm : scan 0 body with
    | none => simp [migrateLine_of_not_legacy, hm]
    | some m =>
      cases hl : m.isLegacyBound with
      | false => simp [migrateLine_of_not_legacy, hm, hl]
      | true => simp [migrateLine_ne hm hl, hl]
  unfold ofLine?
  rcases Text.return_cases line with ⟨body, rfl⟩ | ⟨h, -⟩
  · rw [migrateEnded_append, Text.dropReturn_append, ← hline, List.append_left_inj]
  · rw [migrateEnded_of_none h, Text.dropReturn_of_none h, hline]

theorem return_migrateEnded (line : Text) :
    (migrateEnded line).getLast? = some '\r' ↔ line.getLast? = some '\r' := by
  rcases Text.return_cases line with ⟨body, rfl⟩ | ⟨h, hline⟩
  · simp [migrateEnded_append]
  · rw [migrateEnded_of_none h]
    rcases Text.return_cases (migrateLine line) with ⟨body, hbody⟩ | ⟨-, hlast⟩
    · have := dropEnding?_migrateLine h
      rw [hbody, Text.dropEnding?_append] at this
      cases this
    · exact ⟨fun e => absurd e hlast, fun e => absurd e hline⟩

/-- Migration brings no characters to a line but those of the keyword, brackets and digits. -/
theorem mem_migrateLine {line : Text} {c : Char} (h : c ∈ migrateLine line) :
    c ∈ line ∨ c ∈ "codemeta[]".toList ∨ isAsciiDigit c = true := by
  cases hm : scan 0 line with
  | none =>
    rw [migrateLine_of_not_legacy (by simp [hm])] at h
    exact .inl h
  | some m =>
    cases hl : m.isLegacyBound with
    | false =>
      rw [migrateLine_of_not_legacy (by simp [hm, hl])] at h
      exact .inl h
    | true =>
      rw [isLegacyBound, Bool.and_eq_true] at hl
      obtain ⟨b, hb⟩ := Option.isSome_iff_exists.mp hl.1
      obtain ⟨hsplit, -, -⟩ := scan_split hm
      have htoken : m.token.text ⊆ line := by
        rw [hsplit]
        exact fun c hc => List.mem_append_right _ (List.mem_append_left _ hc)
      have hid := (isId_iff.mp (isId_of_scan hm hb)).2.2
      rw [migrateLine_of_scan hm hb hl.2] at h
      rcases List.mem_append.mp h with h | h
      · exact .inl (List.take_subset _ _ h)
      rcases List.mem_append.mp h with h | h
      · exact (mem_canonicalText hid h).imp_left fun h => htoken h
      · exact .inl (List.drop_subset _ _ h)

theorem no_newline_migrateLine {line : Text} (h : '\n' ∉ line) : '\n' ∉ migrateLine line := by
  intro hc
  rcases mem_migrateLine hc with hc | hc
  · exact h hc
  · exact absurd hc (by decide)

theorem no_newline_migrateEnded {line : Text} (h : '\n' ∉ line) : '\n' ∉ migrateEnded line := by
  rcases Text.return_cases line with ⟨body, rfl⟩ | ⟨hnone, -⟩
  · rw [migrateEnded_append]
    simpa using no_newline_migrateLine fun hc => h (List.mem_append_left _ hc)
  · rw [migrateEnded_of_none hnone]
    exact no_newline_migrateLine h

/-! ## A text -/

theorem atNewlines_migrateText (s : Text) :
    Text.atNewlines (migrateText s).text = (Text.atNewlines s).map migrateEnded := by
  refine Text.atNewlines_joinLines (by simp [Text.atNewlines_ne_nil]) fun l hl => ?_
  obtain ⟨l₀, hl₀, rfl⟩ := List.mem_map.mp hl
  exact no_newline_migrateEnded (Text.no_newline_of_mem_atNewlines hl₀)

theorem scanText_eq (s : Text) : scanText s = (Text.atNewlines s).zipIdx.filterMap
    fun l => scan l.2 (Text.dropReturn l.1) := by
  rw [scanText, Text.editorLines, List.zipIdx_map, List.filterMap_map]
  rfl

/-- The markers of a migrated text. -/
theorem scanText_migrateText (s : Text) :
    scanText (migrateText s).text = (scanText s).map migrated := by
  rw [scanText_eq, atNewlines_migrateText, List.zipIdx_map, List.filterMap_map, scanText_eq,
    List.map_filterMap]
  congr 1
  funext l
  show scan l.2 (Text.dropReturn (migrateEnded l.1)) = _
  rw [dropReturn_migrateEnded, scan_migrateLine]

theorem count_migrateText (s : Text) :
    (migrateText s).count = (Text.atNewlines s).countP fun l => (ofLine? l).any isLegacyBound := by
  have hzip : (Text.atNewlines s).zip ((Text.atNewlines s).map migrateEnded) =
      (Text.atNewlines s).map fun l => (l, migrateEnded l) := by
    simpa using List.zip_map' (l := Text.atNewlines s) (f := id) (g := migrateEnded)
  show List.countP _ (List.zip _ _) = _
  rw [hzip, List.countP_map]
  congr 1
  funext l
  have hiff : migrateEnded l = l ↔ (ofLine? l).any isLegacyBound = false :=
    migrateEnded_eq_self_iff
  cases h : (ofLine? l).any isLegacyBound with
  | false => simp [hiff.mpr h]
  | true =>
    have hne : l ≠ migrateEnded l := fun e => by
      rw [hiff.mp e.symm] at h
      cases h
    simpa using hne

theorem countP_scanText (s : Text) : (scanText s).countP isLegacyBound =
    (Text.atNewlines s).countP fun l => (ofLine? l).any isLegacyBound := by
  have hline : ∀ l : Text × Nat, (((scan l.2 (Text.dropReturn l.1)).map isLegacyBound).getD false) =
      (ofLine? l.1).any isLegacyBound := by
    intro l
    rw [scan_number, ofLine?]
    cases scan 0 (Text.dropReturn l.1) <;> rfl
  rw [scanText_eq, List.countP_filterMap]
  simp only [hline]
  conv_rhs => rw [← List.zipIdx_map_fst 0 (Text.atNewlines s), List.countP_map]
  rfl

/-- There is nothing to migrate in what was migrated. -/
theorem count_migrateText_migrateText (s : Text) : (migrateText (migrateText s).text).count = 0 := by
  rw [count_migrateText, ← countP_scanText, scanText_migrateText, List.countP_map]
  exact List.countP_eq_zero.mpr fun m _ => by simp [isLegacyBound_migrated]

/-- A text without bound legacy markers stays as it is. -/
theorem text_migrateText {s : Text} (h : (migrateText s).count = 0) : (migrateText s).text = s := by
  rw [count_migrateText, List.countP_eq_zero] at h
  have hsame : (Text.atNewlines s).map migrateEnded = Text.atNewlines s :=
    (List.map_congr_left fun l hl => migrateEnded_eq_self_iff.mpr (by simpa using h l hl)).trans
      (List.map_id _)
  show Text.joinLines ((Text.atNewlines s).map migrateEnded) = s
  rw [hsame, Text.joinLines_atNewlines]

/-- Migration brings no NUL into a text. -/
theorem no_nul_migrateText {s : Text} (h : '\x00' ∉ s) : '\x00' ∉ (migrateText s).text := by
  intro hc
  rcases Text.mem_joinLines hc with hc | ⟨l, hl, hc⟩
  · cases hc
  · obtain ⟨line, hline, rfl⟩ := List.mem_map.mp hl
    have hfree : '\x00' ∉ line := fun hc => h (Text.subset_of_mem_atNewlines hline hc)
    rcases Text.return_cases line with ⟨body, rfl⟩ | ⟨hnone, -⟩
    · rw [migrateEnded_append, List.mem_append] at hc
      rcases hc with hc | hc
      · rcases mem_migrateLine hc with hc | hc
        · exact hfree (List.mem_append_left _ hc)
        · exact absurd hc (by decide)
      · exact absurd hc (by decide)
    · rw [migrateEnded_of_none hnone] at hc
      rcases mem_migrateLine hc with hc | hc
      · exact hfree hc
      · exact absurd hc (by decide)

/-- How a line before migration and the one after it go together. -/
structure LineKept (l l' : Text) : Prop where
  others : (ofLine? l).any isLegacyBound = false → l' = l
  ending : l'.getLast? = some '\r' ↔ l.getLast? = some '\r'

/-- Migration keeps the markers of a text and all its other lines. It counts the bound legacy markers,
and when it is done there is nothing to migrate. -/
theorem migrateText_keeps (s : Text) :
    List.Forall₂ Migrates (scanText s) (scanText (migrateText s).text) ∧
      (migrateText s).count = (scanText s).countP isLegacyBound ∧
      List.Forall₂ LineKept (Text.atNewlines s) (Text.atNewlines (migrateText s).text) ∧
      migrateText (migrateText s).text = { text := (migrateText s).text, count := 0 } := by
  refine ⟨?_, by rw [count_migrateText, countP_scanText], ?_, ?_⟩
  · rw [scanText_migrateText, List.forall₂_map_right_iff]
    exact List.forall₂_same.mpr fun m _ => migrates_migrated m
  · rw [atNewlines_migrateText, List.forall₂_map_right_iff]
    exact List.forall₂_same.mpr fun l _ =>
      ⟨migrateEnded_eq_self_iff.mpr, return_migrateEnded l⟩
  · have hcount := count_migrateText_migrateText s
    exact (Migrated.mk.injEq ..).mpr ⟨text_migrateText hcount, hcount⟩

end Marginalia.Marker
