import Marginalia.Proofs.Document
import Marginalia.Proofs.Marker.Grammar
import Marginalia.Proofs.Marker.Migration
import Marginalia.Proofs.Marker.Return

/-!
# One marker for each line

Whoever looks at a line finds the same marker. What the scan of a text reports for a line is on that
line of the document, where a carriage return may end it (`onLine?_eq_line`), and it alone decides
what migration makes of the line (`migrateText_line`). With a carriage return before every line feed
the markers are the same (`scanText_withReturns`), and migration does the same
(`migrateText_withReturns`).
-/

namespace Marginalia

namespace Text

/-- A text with a carriage return before every line feed. -/
def withReturns (s : Text) : Text := replaceChar '\n' ['\r', '\n'] s

/-- Lines with a carriage return at the end of each but the last. -/
def endWithReturns (ls : List Text) : List Text :=
  ls.dropLast.map (· ++ ['\r']) ++ ls.getLast?.toList

theorem endWithReturns_cons (l : Text) {ls : List Text} (h : ls ≠ []) :
    endWithReturns (l :: ls) = (l ++ ['\r']) :: endWithReturns ls := by
  obtain ⟨k, ks, rfl⟩ := List.exists_cons_of_ne_nil h
  simp [endWithReturns, List.getLast?_cons_cons]

theorem atNewlines_withReturns (s : Text) :
    atNewlines (withReturns s) = endWithReturns (atNewlines s) := by
  induction s with
  | nil => rfl
  | cons c s ih =>
    by_cases hc : c = '\n'
    · subst hc
      have hfeed : withReturns ('\n' :: s) = '\r' :: '\n' :: withReturns s := rfl
      have hcut : atNewlines ('\n' :: s) = [] :: atNewlines s := rfl
      rw [hfeed, hcut, endWithReturns_cons [] (atNewlines_ne_nil s), ← ih]
      rfl
    · have hkeep : withReturns (c :: s) = c :: withReturns s := by
        simp [withReturns, replaceChar, hc]
      rw [hkeep, atNewlines_cons hc, atNewlines_cons hc, ih]
      obtain ⟨l, ls, hls⟩ := List.exists_cons_of_ne_nil (atNewlines_ne_nil s)
      rw [hls]
      cases ls with
      | nil => rfl
      | cons k ks =>
        rw [endWithReturns_cons _ (List.cons_ne_nil k ks), endWithReturns_cons _
          (List.cons_ne_nil k ks)]
        rfl

theorem dropReturn_of_no_return {l : Text} (h : '\r' ∉ l) : dropReturn l = l := by
  rcases return_cases l with ⟨body, rfl⟩ | ⟨hnone, -⟩
  · simp at h
  · exact dropReturn_of_none hnone

theorem map_dropReturn_endWithReturns {ls : List Text} (h : ∀ l ∈ ls, '\r' ∉ l) :
    (endWithReturns ls).map dropReturn = ls := by
  induction ls with
  | nil => rfl
  | cons l ls ih =>
    obtain ⟨hl, hls⟩ := List.forall_mem_cons.mp h
    cases ls with
    | nil => simp [endWithReturns, dropReturn_of_no_return hl]
    | cons k ks =>
      rw [endWithReturns_cons l (List.cons_ne_nil k ks), List.map_cons, dropReturn_append, ih hls]

theorem no_return_of_mem_atNewlines {s l : Text} (h : '\r' ∉ s) (hl : l ∈ atNewlines s) :
    '\r' ∉ l :=
  fun hc => h (subset_of_mem_atNewlines hl hc)

theorem editorLines_of_no_return {s : Text} (h : '\r' ∉ s) : editorLines s = atNewlines s :=
  (List.map_congr_left fun _ hl => dropReturn_of_no_return (no_return_of_mem_atNewlines h hl)).trans
    (List.map_id _)

theorem editorLines_withReturns {s : Text} (h : '\r' ∉ s) :
    editorLines (withReturns s) = editorLines s := by
  rw [editorLines_of_no_return h, editorLines, atNewlines_withReturns]
  exact map_dropReturn_endWithReturns fun _ hl => no_return_of_mem_atNewlines h hl

end Text

/-- A line that is not counted from the end. -/
theorem Document.line?_natCast (d : Document) (n : Nat) : d.line? n = d.lines[n]? := by
  have hnat : ¬(n : Int) < 0 := by omega
  unfold Document.line? Document.index?
  by_cases h : n < d.lines.length
  · simp [hnat, h]
  · simp [hnat, h]

namespace Marker

/-- The marker that the scan of a text reports for a line. -/
def onLine? (text : Text) (n : Nat) : Option Marker := (scanText text).find? fun m => m.line == n

theorem line_of_scan {number : Int} {line : Text} {m : Marker} (h : scan number line = some m) :
    m.line = number :=
  (scan_eq_some_iff.mp h).2.1

/-! ## Lines of a text and of a document -/

theorem mem_scanText {text : Text} {m : Marker} : m ∈ scanText text ↔
    ∃ (n : Nat) (line : Text), (Text.atNewlines text)[n]? = some line ∧ scan n line = some m := by
  rw [scanText_eq, List.mem_filterMap]
  simp only [scan_dropReturn, Prod.exists, List.mem_zipIdx_iff_getElem?]
  exact ⟨fun ⟨line, n, h⟩ => ⟨n, line, h⟩, fun ⟨n, line, h⟩ => ⟨line, n, h⟩⟩

theorem ascending_scanText (text : Text) : (scanText text).Pairwise fun a b => a.line < b.line := by
  have hnumbers : (Text.editorLines text).zipIdx.Pairwise fun a b => a.2 < b.2 := by
    rw [← List.pairwise_map, List.zipIdx_map_snd]
    exact List.pairwise_lt_range'
  refine List.Pairwise.filterMap _ ?_ hnumbers
  intro a b hlt m hm m' hm'
  rw [line_of_scan hm, line_of_scan hm']
  exact_mod_cast hlt

/-- Each line has one marker at most, the one that is scanned there. -/
theorem onLine?_eq (text : Text) (n : Nat) :
    onLine? text n = ((Text.atNewlines text)[n]?).bind (scan n) := by
  ext m
  rw [Option.bind_eq_some_iff]
  constructor
  · intro h
    obtain ⟨k, line, hline, hm⟩ := mem_scanText.mp (List.mem_of_find?_eq_some h)
    have hn : m.line = n := by simpa using List.find?_some h
    rw [line_of_scan hm] at hn
    obtain rfl : k = n := by exact_mod_cast hn
    exact ⟨line, hline, hm⟩
  · rintro ⟨line, hline, hm⟩
    have hmem : m ∈ scanText text := mem_scanText.mpr ⟨n, line, hline, hm⟩
    obtain ⟨m', hm'⟩ : ∃ m', onLine? text n = some m' := by
      refine Option.isSome_iff_exists.mp (List.find?_isSome.mpr ⟨m, hmem, ?_⟩)
      simpa using line_of_scan hm
    obtain ⟨k, line', hline', hscan⟩ := mem_scanText.mp (List.mem_of_find?_eq_some hm')
    have hk : m'.line = n := by simpa using List.find?_some hm'
    rw [line_of_scan hscan] at hk
    obtain rfl : k = n := by exact_mod_cast hk
    rw [hline] at hline'
    cases hline'
    rw [hm] at hscan
    cases hscan
    exact hm'

/-- What is reported for a line is on that line of the document. -/
theorem onLine?_eq_line (name text : Text) (n : Nat) :
    onLine? text n = ((Document.ofText name text).line? n).bind (scan n) := by
  rw [onLine?_eq, Document.line?_natCast]
  rfl

theorem mem_scanText_iff {text : Text} {m : Marker} :
    m ∈ scanText text ↔ ∃ n, onLine? text n = some m := by
  simp only [onLine?_eq, Option.bind_eq_some_iff]
  exact mem_scanText

/-! ## Migration -/

/-- A line with its bound legacy marker in the canonical form. -/
def rewrite (m? : Option Marker) (line : Text) : Text :=
  match m? with
  | none => line
  | some m =>
    match m.binding with
    | none => line
    | some b =>
      if m.isLegacy then line.take m.start ++ canonicalText m.token b.id ++ line.drop b.stop
      else line

/-- An id ends on its line. -/
theorem binding_stop_le {number : Int} {line : Text} {m : Marker} (h : scan number line = some m)
    {b : Binding} (hb : m.binding = some b) : b.stop ≤ line.length := by
  obtain ⟨id, form, stop, note⟩ := b
  cases form with
  | canonical =>
    obtain ⟨-, ⟨-, hle, -⟩, -⟩ := (binding_canonical_iff h).mp ⟨note, hb⟩
    exact hle
  | legacy =>
    obtain ⟨-, -, ⟨-, hle, -⟩, -⟩ := (binding_legacy_iff h).mp ⟨note, hb⟩
    exact hle

theorem rewrite_number (number : Int) (line line' : Text) :
    rewrite (scan number line) line' = rewrite (scan 0 line) line' := by
  rw [scan_number]
  cases scan 0 line <;> rfl

theorem migrateLine_eq_rewrite (number : Int) (line : Text) :
    migrateLine line = rewrite (scan number line) line := by
  rw [rewrite_number]
  rfl

/-- The marker is before the carriage return at the end of its line, which stays. -/
theorem rewrite_append_return (number : Int) (body : Text) :
    rewrite (scan number (body ++ ['\r'])) (body ++ ['\r']) =
      rewrite (scan number body) body ++ ['\r'] := by
  rw [scan_append_return]
  cases hm : scan number body with
  | none => rfl
  | some m =>
    cases hb : m.binding with
    | none => simp [rewrite, hb]
    | some b =>
      cases hl : m.isLegacy with
      | false => simp [rewrite, hb, hl]
      | true =>
        obtain ⟨-, hstart, -⟩ := scan_split hm
        have hstop := binding_stop_le hm hb
        simp [rewrite, hb, hl, List.take_append_of_le_length hstart,
          List.drop_append_of_le_length hstop]

theorem migrateEnded_eq_rewrite (number : Int) (line : Text) :
    migrateEnded line = rewrite (scan number line) line := by
  rcases Text.return_cases line with ⟨body, rfl⟩ | ⟨hnone, -⟩
  · rw [migrateEnded_append, rewrite_append_return, migrateLine_eq_rewrite number]
  · rw [migrateEnded_of_none hnone, migrateLine_eq_rewrite number]

/-- What migration makes of a line is decided by the marker that is reported for it. -/
theorem migrateText_line (text : Text) (n : Nat) :
    (Text.atNewlines (migrateText text).text)[n]? =
      ((Text.atNewlines text)[n]?).map (rewrite (onLine? text n)) := by
  rw [atNewlines_migrateText, List.getElem?_map, onLine?_eq]
  cases (Text.atNewlines text)[n]? with
  | none => rfl
  | some line => exact congrArg some (migrateEnded_eq_rewrite n line)

/-! ## Carriage returns before line feeds -/

theorem scanText_withReturns {text : Text} (h : '\r' ∉ text) :
    scanText (Text.withReturns text) = scanText text := by
  rw [scanText, Text.editorLines_withReturns h, scanText]

theorem map_migrateEnded_endWithReturns {ls : List Text} (h : ∀ l ∈ ls, '\r' ∉ l) :
    (Text.endWithReturns ls).map migrateEnded = Text.endWithReturns (ls.map migrateEnded) := by
  induction ls with
  | nil => rfl
  | cons l ls ih =>
    obtain ⟨hl, hls⟩ := List.forall_mem_cons.mp h
    cases ls with
    | nil => rfl
    | cons k ks =>
      have hnone : Text.dropEnding? ['\r'] l = none := by
        rcases Text.return_cases l with ⟨body, rfl⟩ | ⟨hnone, -⟩
        · simp at hl
        · exact hnone
      have hmore : (k :: ks).map migrateEnded ≠ [] := List.cons_ne_nil _ _
      rw [Text.endWithReturns_cons l (List.cons_ne_nil k ks), List.map_cons, ih hls,
        migrateEnded_append, ← migrateEnded_of_none hnone, ← Text.endWithReturns_cons _ hmore]
      rfl

/-- Migration leaves the carriage returns where they are and does what it does without them. -/
theorem migrateText_withReturns {text : Text} (h : '\r' ∉ text) :
    migrateText (Text.withReturns text) =
      { text := Text.withReturns (migrateText text).text, count := (migrateText text).count } := by
  have hlines : Text.atNewlines (migrateText (Text.withReturns text)).text =
      Text.atNewlines (Text.withReturns (migrateText text).text) := by
    rw [atNewlines_migrateText, Text.atNewlines_withReturns, Text.atNewlines_withReturns,
      atNewlines_migrateText]
    exact map_migrateEnded_endWithReturns fun l hl => Text.no_return_of_mem_atNewlines h hl
  have htext : (migrateText (Text.withReturns text)).text =
      Text.withReturns (migrateText text).text := by
    rw [← Text.joinLines_atNewlines (migrateText _).text, hlines, Text.joinLines_atNewlines]
  have hcount : (migrateText (Text.withReturns text)).count = (migrateText text).count := by
    rw [count_migrateText, ← countP_scanText, scanText_withReturns h, countP_scanText,
      ← count_migrateText]
  exact (Migrated.mk.injEq ..).mpr ⟨htext, hcount⟩

end Marker

end Marginalia
