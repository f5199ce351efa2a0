import Marginalia.Proofs.Marker.Grammar

/-!
# What stands behind a bound token

A token stays a line's earliest one whatever is put behind its keyword, as long as that still ends
there (`scan_behind_keyword`). So a marker with a canonical id keeps its place, its token and its id
when the text behind the id is exchanged for any other (`scan_behind`): only the note is read anew.
An unbound marker stays as it is when its line ends behind the keyword or a space is put there
(`scan_take_stop`, `scan_spaced`).
Together with what is scanned where a token gets its canonical form (`scan_canonical`) this says
that a rewritten token scans back, whatever is typed after it (`scan_rewritten`).
-/

namespace Marginalia.Marker

variable {number : Int} {line : Text} {m : Marker}

/-! ## Text behind the keyword -/

/-- A token stays a line's earliest one when other text is put behind it that ends its keyword. -/
theorem scan_behind_keyword (h : scan number line = some m) {z : Text}
    (hz : endsKeyword z = true) :
    scan number (line.take m.stop ++ z) = some { m with binding := readBinding m.stop z } := by
  obtain ⟨hfind, hline, -⟩ := scan_eq_some_iff.mp h
  obtain ⟨ho, hspaced⟩ := opener_mem h
  obtain ⟨hsplit, hstart, hstop⟩ := scan_split h
  have hbefore : line.take m.stop = line.take m.start ++ m.token.text := by
    conv_lhs => rw [hsplit, ← List.append_assoc]
    exact List.take_left' (by simp [stop, Nat.min_eq_left hstart])
  have htext : line.take m.stop ++ z = line.take m.start ++
      (m.token.opener ++ (m.token.gap ++ m.token.keyword.text ++ z)) := by
    rw [hbefore, Token.text]
    simp
  have hread : Token.readBy? grammar
      (m.token.opener ++ (m.token.gap ++ m.token.keyword.text ++ z)) = some m.token :=
    Token.readBy?_eq_some_iff.mpr ⟨z, by simp [Token.text], hz, ho, hspaced⟩
  refine scan_eq_some_iff.mpr ⟨?_, hline, ?_⟩
  · rw [htext]
    exact Token.find?_replace hfind hread
  · have hdrop : (line.take m.stop ++ z).drop m.stop = z :=
      List.drop_left' (List.length_take_of_le hstop)
    show _ = readBinding m.stop ((line.take m.stop ++ z).drop m.stop)
    rw [hdrop]

/-- What follows a token ends its keyword. -/
theorem endsKeyword_drop_stop (h : scan number line = some m) :
    endsKeyword (line.drop m.stop) = true := by
  obtain ⟨hfind, -, -⟩ := scan_eq_some_iff.mp h
  obtain ⟨p, tail, rfl, hlen, -, hread, -⟩ := Token.findBy?_eq_some_iff.mp hfind
  obtain ⟨rest, rfl, hend, -, -⟩ := Token.readBy?_eq_some_iff.mp hread
  rwa [stop, ← hlen, ← List.append_assoc, List.drop_left' (by simp)]

/-! ## Unbound markers -/

/-- Digits of an id do not end a keyword that they touch. -/
theorem endsKeyword_id {id : Text} (hid : isId id = true) (rest : Text) :
    endsKeyword (id ++ rest) = false := by
  obtain ⟨hne, -, hdigits⟩ := isId_iff.mp hid
  obtain ⟨c, id, rfl⟩ := List.exists_cons_of_ne_nil hne
  have hc : isAsciiDigit c = true := hdigits c (List.mem_cons_self ..)
  simp [endsKeyword, isAsciiWord, hc]

/-- A space in front of a text that binds nothing does not make it bind. -/
theorem read?_behind_space {rest : Text} (hend : endsKeyword rest = true)
    (h : IdReading.read? rest = none) : IdReading.read? (' ' :: rest) = none := by
  obtain ⟨hcanonical, hlegacy⟩ := Option.or_eq_none_iff.mp h
  refine Option.or_eq_none_iff.mpr
    ⟨Option.eq_none_iff_forall_ne_some.mpr fun r hr => ?_,
      Option.eq_none_iff_forall_ne_some.mpr fun r hr => ?_⟩
  · obtain ⟨-, hid, space, tail, hsplit, hspace, -⟩ := IdReading.canonical?_eq_some_iff.mp hr
    cases space with
    | nil => cases hsplit
    | cons c space =>
      obtain ⟨-, hsplit⟩ := List.cons.inj hsplit
      have hread : IdReading.canonical? rest =
          some ⟨r.id, .canonical, space.length + r.id.length + 2⟩ :=
        IdReading.canonical?_eq_some_iff.mpr ⟨rfl, hid, space, tail, by simpa using hsplit,
          fun d hd => hspace d (List.mem_cons_of_mem c hd), rfl⟩
      cases hcanonical.symm.trans hread
  · obtain ⟨-, hid, space, tail, hsplit, hne, hspace, htail, -⟩ :=
      IdReading.legacy?_eq_some_iff.mp hr
    obtain ⟨c, space, rfl⟩ := List.exists_cons_of_ne_nil hne
    obtain ⟨-, hsplit⟩ := List.cons.inj hsplit
    have hafter : rest = space ++ r.id ++ tail := by simpa using hsplit
    by_cases hempty : space = []
    · -- Without more blank space the digits would touch the keyword.
      rw [hafter, hempty, List.nil_append, endsKeyword_id hid] at hend
      cases hend
    · have hread : IdReading.legacy? rest = some ⟨r.id, .legacy, space.length + r.id.length⟩ :=
        IdReading.legacy?_eq_some_iff.mpr ⟨rfl, hid, space, tail, hafter, hempty,
          fun d hd => hspace d (List.mem_cons_of_mem c hd), htail, rfl⟩
      cases hlegacy.symm.trans hread

/-- An unbound marker stays as it is when its line ends behind the keyword. -/
theorem scan_take_stop (h : scan number line = some m) (hb : m.binding = none) :
    scan number (line.take m.stop) = some m := by
  have hscan := scan_behind_keyword h (z := []) rfl
  have hread : readBinding m.stop [] = none := by simp [readBinding]; decide
  rw [List.append_nil, hread, ← hb] at hscan
  exact hscan

/-- An unbound marker stays as it is when a space is put behind the keyword. -/
theorem scan_spaced (h : scan number line = some m) (hb : m.binding = none) :
    scan number (line.take m.stop ++ ' ' :: line.drop m.stop) = some m := by
  obtain ⟨-, -, hread⟩ := scan_eq_some_iff.mp h
  have hnone : IdReading.read? (line.drop m.stop) = none :=
    Option.map_eq_none_iff.mp (hread.symm.trans hb)
  have hspaced := scan_behind_keyword h (z := ' ' :: line.drop m.stop) rfl
  rw [readBinding, read?_behind_space (endsKeyword_drop_stop h) hnone, Option.map_none, ← hb]
    at hspaced
  exact hspaced

/-! ## Canonical ids -/

/-- A canonical id and the text around it, on the line of its marker. -/
theorem canonical_split (h : scan number line = some m) {b : Binding} (hb : m.binding = some b)
    (hform : b.form = .canonical) : ∃ space rest, (∀ c ∈ space, isBlank c = true) ∧
      isId b.id = true ∧ line.drop m.stop = space ++ (['['] ++ (b.id ++ ']' :: rest)) ∧
      b.stop = m.stop + (space.length + b.id.length + 2) := by
  obtain ⟨-, -, hbind⟩ := scan_eq_some_iff.mp h
  rw [hb] at hbind
  obtain ⟨r, hread, rfl⟩ := Option.map_eq_some_iff.mp hbind.symm
  have hcanonical : IdReading.canonical? (line.drop m.stop) = some r := by
    rcases Option.or_eq_some_iff.mp hread with hc | ⟨-, hl⟩
    · exact hc
    · cases (IdReading.legacy?_eq_some_iff.mp hl).1.symm.trans hform
  obtain ⟨-, hid, space, rest, hrest, hspace, hlength⟩ :=
    IdReading.canonical?_eq_some_iff.mp hcanonical
  refine ⟨space, rest, hspace, hid, ?_, congrArg (m.stop + ·) hlength⟩
  simpa using hrest

theorem readBinding_canonical {id space : Text} (hid : isId id = true)
    (hspace : ∀ c ∈ space, isBlank c = true) (stop : Nat) (rest : Text) :
    readBinding stop (space ++ (['['] ++ (id ++ ']' :: rest))) =
      some ⟨id, .canonical, stop + (space.length + id.length + 2), readNote? rest⟩ := by
  have hread : IdReading.canonical? (space ++ (['['] ++ (id ++ ']' :: rest))) =
      some ⟨id, .canonical, space.length + id.length + 2⟩ :=
    IdReading.canonical?_eq_some_iff.mpr ⟨rfl, hid, space, rest, by simp, hspace, rfl⟩
  have hdrop : (space ++ (['['] ++ (id ++ ']' :: rest))).drop (space.length + id.length + 2) =
      rest := by
    have hsplit : space ++ (['['] ++ (id ++ ']' :: rest)) =
        (space ++ ['['] ++ id ++ [']']) ++ rest := by simp
    rw [hsplit, List.drop_left' (by simp; omega)]
  rw [readBinding, IdReading.read?, hread, Option.some_or, Option.map_some, hdrop]

/-- The marker with a text behind its canonical id. -/
theorem scan_behind (h : scan number line = some m) {b : Binding} (hb : m.binding = some b)
    (hform : b.form = .canonical) (s : Text) :
    scan number (line.take b.stop ++ s) =
      some { m with binding := some { b with note := readNote? s } } := by
  obtain ⟨space, rest, hspace, hid, hrest, hstop⟩ := canonical_split h hb hform
  have htake : line.take b.stop ++ s =
      line.take m.stop ++ (space ++ (['['] ++ (b.id ++ ']' :: s))) := by
    have hsplit : space ++ (['['] ++ (b.id ++ ']' :: rest)) =
        (space ++ ['['] ++ b.id ++ [']']) ++ rest := by simp
    rw [hstop, List.take_add, hrest, hsplit, List.take_left' (by simp; omega)]
    simp
  have hend : endsKeyword (space ++ (['['] ++ (b.id ++ ']' :: s))) = true := by
    rw [Token.endsKeyword_append space (by simp) _ (b.id ++ ']' :: rest), ← hrest]
    exact endsKeyword_drop_stop h
  rw [htake, scan_behind_keyword h hend, readBinding_canonical hid hspace, ← hstop, ← hform]

/-! ## Rewritten tokens -/

/-- A token that gets its canonical form with an id scans back to a marker at its place that is bound
to this id, whatever follows, and no token stands before it. Nor does text behind any canonical id
change more of its marker than the note. -/
theorem scan_rewritten (h : scan number line = some m) {id : Text} (hid : isId id = true)
    (s : Text) :
    (∃ m', scan number (line.take m.start ++ (canonicalText m.token id ++ s)) = some m' ∧
      m'.line = number ∧ m'.start = m.start ∧
      m'.token = ⟨m.token.opener, m.token.gap, .full⟩ ∧
      m'.binding =
        some ⟨id, .canonical, m.start + (canonicalText m.token id).length, readNote? s⟩ ∧
      m'.isLegacy = false) ∧
    (∀ p o g k, Stands (line.take m.start ++ (canonicalText m.token id ++ s)) p o g k →
      m.start ≤ p) ∧
    ∀ b, m.binding = some b → b.form = .canonical →
      scan number (line.take b.stop ++ s) =
        some { m with binding := some { b with note := readNote? s } } := by
  obtain ⟨-, hline, -⟩ := scan_eq_some_iff.mp h
  have hscan := scan_canonical h hid s
  obtain ⟨hfind, -, -⟩ := scan_eq_some_iff.mp hscan
  exact ⟨⟨m.bound id s, hscan, hline, rfl, rfl, rfl, rfl⟩, (find?_stands hfind).2,
    fun b hb hform => scan_behind h hb hform s⟩

/-- A line with a slash before its token and another keyword before that. -/
def behindSlash : Text := "<!/codemeta ///codemeta [5] a".toList

theorem scan_rewritten_behindSlash : ∃ m, scan 0 behindSlash = some m ∧ isId "12".toList = true ∧
    (∃ m', scan 0 (behindSlash.take m.start ++
        (canonicalText m.token "12".toList ++ "//codemeta[7] -->".toList)) = some m' ∧
      m'.start = 13 ∧
      m'.binding = some ⟨"12".toList, .canonical, 27, some "//codemeta[7]".toList⟩) ∧
    ∃ b, m.binding = some b ∧ b.form = .canonical ∧
      scan 0 (behindSlash.take b.stop ++ "#codemeta[7]".toList) =
        some { m with binding := some { b with note := some "#codemeta[7]".toList } } := by
  let m : Marker :=
    ⟨0, 13, ⟨['/', '/'], [], .full⟩, some ⟨['5'], .canonical, 27, some ['a']⟩⟩
  have hm : scan 0 behindSlash = some m := by decide +kernel
  have hid : isId "12".toList = true := by decide
  obtain ⟨⟨m', hscan, -, hstart, -, hbinding, -⟩, -, -⟩ :=
    scan_rewritten hm hid "//codemeta[7] -->".toList
  obtain ⟨-, -, hbehind⟩ := scan_rewritten hm hid "#codemeta[7]".toList
  exact ⟨m, hm, hid, ⟨m', hscan, hstart, hbinding.trans (by decide +kernel)⟩, _, rfl, rfl,
    (hbehind _ rfl rfl).trans (by decide +kernel)⟩

end Marginalia.Marker
