import Marginalia.Fragment.Excerpt
import Marginalia.Proofs.Session.Decorations

/-!
# Excerpts and previews

An excerpt keeps the start of a text with line feeds for its line boundaries (`kept_isPrefix`), as
long a start as the limits allow but for blank characters at its end (`trimEnd_isPrefix_kept`). The
mark behind it is decided on the text as it was, which may have more characters than that text. So
nothing is left out without the mark (`kept_eq`), and of a trimmed text without carriage returns
the mark says exactly that something was (`Unended.counts`). The bodies that previews show are
such texts (`excerpt_honest`).
-/

namespace Marginalia

namespace Text

/-- At most so many lines and so many characters. -/
structure Within (maxLines maxChars : Nat) (s : Text) : Prop where
  lines : (lines s).length ≤ maxLines
  chars : s.length ≤ maxChars

/-- The blank line and the ellipsis that stand for what is left out. -/
def omission : Text := ['\n', '\n', ellipsis]

/-- A text is an excerpt of another: the start of it that the limits allow, but for blank characters
at its end, and behind it the mark or nothing. Without the mark nothing is left out. -/
def IsExcerpt (maxLines maxChars : Nat) (whole shown : Text) (marked : Bool) : Prop :=
  ∃ q, shown = q ++ (if marked then omission else []) ∧ q <+: whole ∧ Within maxLines maxChars q ∧
    (∀ p, p <+: whole → Within maxLines maxChars p → trimEnd p <+: q) ∧ (marked = false → q = whole)

/-! ## What is kept -/

variable {maxLines maxChars : Nat} {s p : Text}

/-- What an excerpt keeps of a text. -/
def kept (maxLines maxChars : Nat) (s : Text) : Text :=
  let first := joinLines ((lines s).take maxLines)
  if maxChars < first.length then trimEnd (first.take maxChars) else first

theorem excerpt_eq (maxLines maxChars : Nat) (s : Text) :
    excerpt maxLines maxChars s = kept maxLines maxChars s ++
      (if maxLines < (lines s).length ∨ maxChars < s.length then omission else []) := by
  have hlines : linesBefore (lines s) maxLines = (lines s).take maxLines := by
    rw [linesBefore, cut_natCast, ← List.take_eq_take_min]
  have hchars : ∀ r : Text, before r maxChars = r.take maxChars := fun r => by
    rw [before, cut_natCast, ← List.take_eq_take_min]
  simp only [excerpt, kept, hlines, hchars, Int.ofNat_lt, Bool.or_eq_true, decide_eq_true_eq]
  split
  · rfl
  · exact (List.append_nil _).symm

theorem first_isPrefix (maxLines : Nat) (s : Text) :
    joinLines ((lines s).take maxLines) <+: joinLines (lines s) := by
  have := joinLines_isPrefix ((lines s).take maxLines) ((lines s).drop maxLines)
  rwa [List.take_append_drop] at this

theorem oneLine_of_mem_take {l : Text} (h : l ∈ (lines s).take maxLines) : OneLine l :=
  oneLine_of_mem_lines (List.mem_of_mem_take h)

theorem kept_isPrefix_first (maxLines maxChars : Nat) (s : Text) :
    kept maxLines maxChars s <+: joinLines ((lines s).take maxLines) := by
  simp only [kept]
  split
  · exact (dropEndWhile_isPrefixOf ..).trans (List.take_prefix ..)
  · exact List.prefix_rfl

theorem kept_isPrefix (maxLines maxChars : Nat) (s : Text) :
    kept maxLines maxChars s <+: joinLines (lines s) :=
  (kept_isPrefix_first ..).trans (first_isPrefix ..)

theorem length_lines_le_of_isPrefix (h : p <+: s) : (lines p).length ≤ (lines s).length := by
  obtain ⟨t, rfl⟩ := h
  exact length_lines_le_append p t

theorem kept_within (maxLines maxChars : Nat) (s : Text) :
    Within maxLines maxChars (kept maxLines maxChars s) where
  lines := calc
    (lines (kept maxLines maxChars s)).length
      ≤ (lines (joinLines ((lines s).take maxLines))).length :=
        length_lines_le_of_isPrefix (kept_isPrefix_first ..)
    _ ≤ ((lines s).take maxLines).length :=
        length_lines_joinLines_le fun _ => oneLine_of_mem_take
    _ ≤ maxLines := List.length_take_le ..
  chars := by
    simp only [kept]
    split
    · exact (dropEndWhile_isPrefixOf ..).length_le.trans (List.length_take_le ..)
    · omega

/-- The lines that are kept, each with its line feed, are the furthest that a start of the whole
text with no more lines can reach. -/
theorem isPrefix_ended (hp : p <+: joinLines (lines s)) (hlines : (lines p).length ≤ maxLines)
    (hmore : maxLines < (lines s).length) :
    p <+: ((lines s).take maxLines).flatMap (· ++ ['\n']) := by
  have hrest : (lines s).drop maxLines ≠ [] := by simpa using hmore
  have hwhole := joinLines_append ((lines s).take maxLines) hrest
  rw [List.take_append_drop] at hwhole
  have hended : ((lines s).take maxLines).flatMap (· ++ ['\n']) <+: joinLines (lines s) := by
    rw [hwhole]
    exact List.prefix_append ..
  rcases List.prefix_or_prefix_of_prefix hp hended with h | ⟨t, rfl⟩
  · exact h
  · rw [lines_ended_append fun _ => oneLine_of_mem_take, List.length_append, List.length_take,
      Nat.min_eq_left (Nat.le_of_lt hmore)] at hlines
    obtain rfl : t = [] := lines_eq_nil_iff.mp (List.length_eq_zero_iff.mp (by omega))
    exact ⟨[], by rw [List.append_nil, List.append_nil]⟩

theorem trimEnd_ended (ls : List Text) :
    trimEnd (ls.flatMap (· ++ ['\n'])) = trimEnd (joinLines ls) := by
  cases ls using List.reverseRecOn with
  | nil => rfl
  | append_singleton ls l =>
    rw [joinLines_concat, List.flatMap_append, List.flatMap_singleton, ← List.append_assoc,
      trimEnd_concat_blank (by decide)]

/-- Any start of the whole text within the limits is kept, but for blank characters at its end. -/
theorem trimEnd_isPrefix_kept (hp : p <+: joinLines (lines s)) (hw : Within maxLines maxChars p) :
    trimEnd p <+: kept maxLines maxChars s := by
  have hself : trimEnd p <+: p := dropEndWhile_isPrefixOf ..
  simp only [kept]
  rcases List.prefix_or_prefix_of_prefix hp (first_isPrefix maxLines s) with h | h
  · split
    · exact trimEnd_isPrefix (List.prefix_take_iff.mpr ⟨h, hw.chars⟩)
    · exact hself.trans h
  · -- the start goes beyond the lines that are kept, by no more than a line feed
    have hchars := h.length_le.trans hw.chars
    rw [if_neg (by omega)]
    by_cases hmore : maxLines < (lines s).length
    · have := trimEnd_isPrefix (isPrefix_ended hp hw.lines hmore)
      rw [trimEnd_ended] at this
      exact this.trans (dropEndWhile_isPrefixOf ..)
    · rw [List.take_of_length_le (by omega)]
      exact hself.trans hp

/-- A text within the limits is kept as a whole. -/
theorem kept_eq (hlines : (lines s).length ≤ maxLines) (hchars : s.length ≤ maxChars) :
    kept maxLines maxChars s = joinLines (lines s) := by
  have hjoined := (length_joinLines_lines_le s).trans hchars
  simp only [kept, List.take_of_length_le hlines]
  exact if_neg (by omega)

theorem isExcerpt (maxLines maxChars : Nat) (s : Text) :
    IsExcerpt maxLines maxChars (joinLines (lines s)) (excerpt maxLines maxChars s)
      (decide (maxLines < (lines s).length ∨ maxChars < s.length)) := by
  refine ⟨kept maxLines maxChars s, ?_, kept_isPrefix .., kept_within ..,
    fun p => trimEnd_isPrefix_kept, fun h => ?_⟩
  · simp only [excerpt_eq, decide_eq_true_eq]
  · have hfits := of_decide_eq_false h
    exact kept_eq (by omega) (by omega)

/-- In a text without carriage returns that ends in no line boundary each boundary is one character,
so that joining its lines changes neither their number nor the number of characters. -/
theorem Unended.counts (h : Unended s) (hr : '\r' ∉ s) :
    lines (joinLines (lines s)) = lines s ∧ (joinLines (lines s)).length = s.length := by
  refine ⟨lines_joinLines (fun _ => oneLine_of_mem_lines) h.getLast?_lines, ?_⟩
  rw [h.joinLines_lines hr, List.length_map]

end Text

/-! ## Previews -/

namespace Session

variable {s : Session} {t : Tree} {id : Text} {shown : Preview} {r : Text}

theorem previewBody_preview {category body : Text}
    (h : (previewBody category body).preview = some r) :
    r = Text.excerpt mostPreviewLines mostPreviewChars (Text.trim body) := by
  simp only [previewBody] at h
  cases hlines : Text.lines (Text.trim body) with
  | nil => rw [hlines] at h; cases h
  | cons first more => rw [hlines] at h; exact (Option.some.inj h).symm

/-- The text of a preview is an excerpt of the trimmed body of the page that the id leads to. -/
theorem preview_eq_ok (h : s.preview t id = .ok shown) (hr : shown.preview = some r) :
    ∃ file page, s.locate t id = .ok (some file) ∧ readPage t file = .ok page ∧
      r = Text.excerpt mostPreviewLines mostPreviewChars (Text.trim page.body) := by
  obtain ⟨found, hfound⟩ : ∃ found, s.locate t id = .ok found := by
    cases hl : s.locate t id with
    | ok found => exact ⟨found, rfl⟩
    | error f => rw [preview, hl] at h; cases h
  rw [preview_eq hfound] at h
  obtain ⟨page, hpage, rfl⟩ := map_eq_ok_iff.mp h
  cases page with
  | none => cases hr
  | some page =>
    cases found with
    | none => cases hpage
    | some file =>
      exact ⟨file, page, hfound, tolerate_eq_ok_some hpage, previewBody_preview hr⟩

end Session

/-- An excerpt is the start of a text within the limits, with the mark behind it where something is
left out. Of a text without blank ends and without carriage returns, such as every body that a
preview shows, it has the mark exactly if the text is beyond a limit. -/
theorem excerpt_honest :
    (∀ (text : Text) (maxLines maxChars : Nat), ∃ marked : Bool,
      Text.IsExcerpt maxLines maxChars (Text.joinLines (Text.lines text))
        (Text.excerpt maxLines maxChars text) marked ∧
      (Text.trim text = text → '\r' ∉ text →
        (marked = true ↔ maxLines < (Text.lines (Text.joinLines (Text.lines text))).length ∨
          maxChars < (Text.joinLines (Text.lines text)).length))) ∧
    ∀ (s : Session) (t : Tree) (id : Text) (shown : Preview) (r : Text),
      s.preview t id = .ok shown → shown.preview = some r →
      ∃ file page, s.locate t id = .ok (some file) ∧ Session.readPage t file = .ok page ∧
        Text.trim (Text.trim page.body) = Text.trim page.body ∧ '\r' ∉ Text.trim page.body ∧
        r = Text.excerpt (12 : Nat) (600 : Nat) (Text.trim page.body) := by
  refine ⟨fun text maxLines maxChars => ⟨_, Text.isExcerpt maxLines maxChars text,
    fun htrim hreturn => ?_⟩, fun s t id shown r h hr => ?_⟩
  · obtain ⟨hlines, hchars⟩ := (Text.unended_of_trim htrim).counts hreturn
    rw [hlines, hchars, decide_eq_true_eq]
  · obtain ⟨file, page, hfile, hpage, hbody⟩ := Session.preview_eq_ok h hr
    exact ⟨file, page, hfile, hpage, Text.trim_trim _,
      fun hc => Session.no_return_of_readPage hpage (Text.trim_subset _ hc), hbody⟩

def thirteenLines : Text := Text.joinLines ((List.range 13).map Numeral.ofNat)

/-- A record with these lines, each ended by a carriage return and a line feed. -/
def thirteenLined : Tree :=
  ⟨[([".cms".toList], .folder), ([".cms".toList, "default".toList], .folder),
    ([".cms".toList, "default".toList, "5.md".toList],
      .file (.text ((List.range 13).flatMap fun k => Numeral.ofNat k ++ ['\r', '\n'])))]⟩

theorem excerpt_honest_thirteenLines :
    ∃ r, Session.preview { root := some { slashes := 1 } } thirteenLined ['5'] =
        .ok { category := "INFO".toList, preview := some r, inline := some ['0', Text.ellipsis] } ∧
      Text.IsExcerpt 12 600 thirteenLines r true := by
  have hpreview : Session.preview { root := some { slashes := 1 } } thirteenLined ['5'] =
      .ok { category := "INFO".toList
            preview := some ("0\n1\n2\n3\n4\n5\n6\n7\n8\n9\n10\n11\n\n…".toList)
            inline := some ['0', Text.ellipsis] } := by decide +kernel
  have hlocate : Session.locate { root := some { slashes := 1 } } thirteenLined ['5'] =
      .ok (some ⟨1, [".cms".toList, "default".toList, "5.md".toList]⟩) := by decide +kernel
  have hread : (Session.readPage thirteenLined
      ⟨1, [".cms".toList, "default".toList, "5.md".toList]⟩).map (fun page => Text.trim page.body) =
        .ok thirteenLines := by decide +kernel
  have hjoined : Text.joinLines (Text.lines thirteenLines) = thirteenLines := by decide +kernel
  obtain ⟨hall, hbodies⟩ := excerpt_honest
  obtain ⟨file, page, hfile, hpage, htrim, hreturn, hr⟩ := hbodies _ _ _ _ _ hpreview rfl
  cases hfile.symm.trans hlocate
  rw [hpage] at hread
  rw [show Text.trim page.body = thirteenLines from Except.ok.inj hread] at htrim hreturn hr
  obtain ⟨marked, hexcerpt, hmarked⟩ := hall thirteenLines 12 600
  rw [hjoined] at hexcerpt hmarked
  obtain rfl : marked = true := (hmarked htrim hreturn).mpr (by decide +kernel)
  exact ⟨_, hpreview, by rwa [hr]⟩

end Marginalia
