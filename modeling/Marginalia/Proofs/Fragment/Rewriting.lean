import Marginalia.Proofs.Fragment.RoundTrip

/-!
# Pages that were read and are written again

A text has a closed header when its first line and a later one are fences (`Closed`), which is when
it is split in two (`split?_isSome_iff`). What is read of it keeps the form of what is written,
however its lines were: it is written without fault, the text that is written has a closed header
and is read as the same page, and this page is written as the same text (`rewriting_settles`).
-/

namespace Marginalia

namespace Header

/-! ## Where the block of counts was -/

/-- A header in which no field follows the block of counts. -/
def CountsLast (h : Header) : Prop := ∀ i, h.refsPlace = some i → i = h.fields.length

theorem CountsLast.innerLines {h : Header} (hlast : h.CountsLast) :
    h.innerLines = h.fields.map fieldLine ++ refsLines h.refs := by
  unfold Header.innerLines
  cases hp : h.refsPlace with
  | none => rfl
  | some i =>
    obtain rfl := hlast i hp
    have hlen : (h.fields.map fieldLine).length = h.fields.length := List.length_map ..
    show (h.fields.map fieldLine).take _ ++ _ ++ (h.fields.map fieldLine).drop _ = _
    rw [← hlen, List.take_length, List.drop_length, List.append_nil]

theorem CountsLast.settled {h : Header} (hlast : h.CountsLast) : h.settled.CountsLast := by
  intro i hi
  show i = (h.fields.length : Int)
  unfold Header.settled at hi
  split at hi
  · cases hi
  · cases hp : h.refsPlace with
    | none =>
      rw [hp] at hi
      exact (Option.some.inj hi).symm
    | some k =>
      rw [hp] at hi
      rw [← Option.some.inj hi]
      exact hlast k hp

theorem innerLines_of_no_counts {h : Header} (hempty : h.refs.isEmpty = true) :
    h.innerLines = h.fields.map fieldLine := by
  have hlines : refsLines h.refs = [] := if_pos hempty
  unfold innerLines
  split
  · simp [hlines]
  · simp [hlines]
  · rfl

/-- The header as it is read again is written as before. -/
theorem innerLines_settled (h : Header) : h.settled.innerLines = h.innerLines := by
  by_cases hempty : h.refs.isEmpty = true
  · rw [innerLines_of_no_counts hempty, innerLines_of_no_counts (h := h.settled) hempty]
    rfl
  · cases hp : h.refsPlace with
    | none =>
      have hlast : h.CountsLast := fun i hi => by rw [hp] at hi; cases hi
      rw [hlast.innerLines, hlast.settled.innerLines]
      rfl
    | some i =>
      have hplace : h.settled.refsPlace = h.refsPlace := by
        rw [hp]
        exact (if_neg hempty).trans (by rw [hp]; rfl)
      have hsame : h.settled = h := (Header.mk.injEq ..).mpr ⟨rfl, rfl, hplace⟩
      rw [hsame]

end Header

namespace Page

/-! ## Fences -/

/-- A line of at least three hyphens and blank space after them. -/
def IsFence (l : Text) : Prop :=
  ∃ n space, 3 ≤ n ∧ (∀ c ∈ space, isBlank c = true) ∧ l = List.replicate n '-' ++ space

/-- A text whose first line is a fence, and another line too. -/
def Closed (s : Text) : Prop :=
  ∃ first more, Text.atNewlines s = first :: more ∧ IsFence first ∧ ∃ l ∈ more, IsFence l

variable {s t l r : Text}

/-- Whether a boundary is at the head of a text, by its hyphens and what follows them. -/
theorem boundary?_isSome_iff {hyphens : Text} (hhyphens : ∀ c ∈ hyphens, c = '-')
    (hstop : s.head? ≠ some '-') : (boundary? (hyphens ++ s)).isSome = true ↔
      3 ≤ hyphens.length ∧ (Text.allBlank s = true ∨ '\n' ∈ s.takeWhile isBlank) := by
  have hrun : (hyphens ++ s).takeWhile (· == '-') = hyphens :=
    Text.takeWhile_append_stop (fun c hc => by simp [hhyphens c hc]) fun c hc => by
      rw [hc] at hstop
      simpa using hstop
  simp only [boundary?, hrun, List.drop_left, Text.drop_takeWhile, isEmpty_dropWhile_isBlank]
  by_cases hlen : hyphens.length < 3
  · rw [if_pos hlen]
    simp
    omega
  · rw [if_neg hlen]
    cases Text.allBlank s with
    | true => simpa using Nat.le_of_not_lt hlen
    | false =>
      by_cases hfeed : '\n' ∈ s.takeWhile isBlank
      · simpa [hfeed] using Nat.le_of_not_lt hlen
      · simp [hfeed]

/-- A boundary is at the head of a text when its first line is a fence. -/
theorem boundary?_line (hl : '\n' ∉ l) (hr : r = [] ∨ r.head? = some '\n') :
    (boundary? (l ++ r)).isSome = true ↔ IsFence l := by
  have hopens : ∀ {space : Text}, space.head? ≠ some '-' → (space ++ r).head? ≠ some '-' :=
    fun {space} hspace => by
      cases space with
      | nil => rcases hr with rfl | hr <;> simp_all
      | cons c space => simpa using hspace
  constructor
  · intro h
    have hhyphens : ∀ c ∈ l.takeWhile (· == '-'), c = '-' := fun c hc => by
      have := List.mem_takeWhile_imp hc
      simpa using this
    have hstop : (l.dropWhile (· == '-')).head? ≠ some '-' := fun hc => by
      have := List.head?_dropWhile_not (· == '-') l
      rw [hc] at this
      simp at this
    rw [← List.takeWhile_append_dropWhile (p := (· == '-')) (l := l), List.append_assoc,
      boundary?_isSome_iff hhyphens (hopens hstop)] at h
    obtain ⟨hlen, hspace⟩ := h
    refine ⟨_, _, hlen, List.all_eq_true.mp ?_, (List.takeWhile_append_dropWhile
      (p := (· == '-')) (l := l)).symm.trans (congrArg (· ++ _)
        (List.eq_replicate_iff.mpr ⟨rfl, hhyphens⟩))⟩
    -- else the blank run ends within the line, which has no line feed
    by_contra hblank
    have hblank : Text.allBlank (l.dropWhile (· == '-')) = false := Bool.eq_false_iff.mpr hblank
    rw [allBlank_append hblank, takeWhile_isBlank_append hblank] at hspace
    rcases hspace with hspace | hspace
    · cases hspace
    · exact hl (List.dropWhile_subset _ (List.takeWhile_subset _ hspace))
  · rintro ⟨n, space, hn, hspace, rfl⟩
    have hstop : space.head? ≠ some '-' := fun hc =>
      absurd (hspace _ (List.mem_of_head? hc)) (by decide)
    rw [List.append_assoc, boundary?_isSome_iff (fun c hc => List.eq_of_mem_replicate hc)
      (hopens hstop)]
    refine ⟨by simpa using hn, ?_⟩
    rcases hr with rfl | hr
    · exact .inl (List.all_eq_true.mpr (by simpa using hspace))
    · obtain ⟨r, rfl⟩ : ∃ r', r = '\n' :: r' := List.head?_eq_some_iff.mp hr
      rw [List.takeWhile_append_of_pos hspace, List.takeWhile_cons_of_pos rfl]
      exact .inr (List.mem_append_right _ List.mem_cons_self)

theorem boundary?_atNewlines {first : Text} {more : List Text}
    (h : Text.atNewlines s = first :: more) : (boundary? s).isSome = true ↔ IsFence first := by
  have hs : s = first ++ more.flatMap ('\n' :: ·) := by
    rw [← Text.joinLines_cons, ← h, Text.joinLines_atNewlines]
  have hfirst : '\n' ∉ first :=
    Text.no_newline_of_mem_atNewlines (s := s) (by rw [h]; exact List.mem_cons_self)
  rw [hs]
  refine boundary?_line hfirst ?_
  cases more with
  | nil => exact .inl rfl
  | cons l more => exact .inr rfl

/-- A boundary follows a line feed when one of the lines after the first is a fence. -/
theorem nextBoundary?_isSome_iff (s : Text) :
    (nextBoundary? s).isSome = true ↔ ∃ l ∈ (Text.atNewlines s).tail, IsFence l := by
  induction s with
  | nil => simp [nextBoundary?, Text.atNewlines]
  | cons c s ih =>
    cases hs : Text.atNewlines s with
    | nil => exact absurd hs (Text.atNewlines_ne_nil s)
    | cons first more =>
      rw [hs, List.tail_cons] at ih
      by_cases hc : c = '\n'
      · have hlines : Text.atNewlines (c :: s) = [] :: first :: more := by
          rw [Text.atNewlines, if_pos hc, hs]
        rw [hlines, List.tail_cons, List.exists_mem_cons_iff, ← boundary?_atNewlines hs, ← ih,
          nextBoundary?, if_pos hc]
        cases boundary? s <;> simp
      · rw [Text.atNewlines_cons hc, hs, List.tail_cons, ← ih, nextBoundary?, if_neg hc]
        simp

/-! ## Texts with a closed header -/

theorem nextBoundary?_blank_append {space : Text} (hspace : ∀ c ∈ space, isBlank c = true)
    (ht : t.head? ≠ some '-') :
    (nextBoundary? (space ++ t)).isSome = (nextBoundary? t).isSome := by
  induction space with
  | nil => rfl
  | cons c space ih =>
    obtain ⟨-, hspace⟩ := List.forall_mem_cons.mp hspace
    have hhead : (space ++ t).head? ≠ some '-' := by
      cases space with
      | nil => exact ht
      | cons d space =>
        rintro ⟨⟩
        exact absurd (hspace '-' List.mem_cons_self) (by decide)
    rw [List.cons_append, nextBoundary?, boundary?_of_head hhead, ite_self]
    simpa using ih hspace

/-- What a boundary takes from the head of a text: a part of one line, and blank space. -/
theorem boundary?_eq_some {rest : Text} (h : boundary? s = some rest) :
    ∃ hyphens space, s = hyphens ++ (space ++ rest) ∧ '\n' ∉ hyphens ∧
      (∀ c ∈ space, isBlank c = true) ∧ rest.head? ≠ some '-' := by
  have hhyphens : '\n' ∉ s.takeWhile (· == '-') := fun hc => by
    have := List.mem_takeWhile_imp hc
    simp at this
  have hspace : ∀ c ∈ (s.dropWhile (· == '-')).takeWhile isBlank, isBlank c = true :=
    fun c hc => List.mem_takeWhile_imp hc
  have hs : s = s.takeWhile (· == '-') ++ ((s.dropWhile (· == '-')).takeWhile isBlank ++
      (s.dropWhile (· == '-')).dropWhile isBlank) := by
    rw [List.takeWhile_append_dropWhile, List.takeWhile_append_dropWhile]
  simp only [boundary?, Text.drop_takeWhile] at h
  split at h
  · cases h
  · split at h
    · next hbeyond =>
      cases h
      rw [List.isEmpty_iff.mp hbeyond] at hs
      exact ⟨_, _, hs, hhyphens, hspace, by simp⟩
    · split at h
      · next hfeed =>
        cases h
        obtain ⟨dropped, hrun, hend⟩ :=
          exists_append_afterFeeds ((s.dropWhile (· == '-')).takeWhile isBlank)
        rcases hend with rfl | hend
        · rw [List.nil_append] at hrun
          rw [hrun] at hfeed
          exact absurd (by simpa using hfeed) (no_newline_afterFeeds _)
        · have hdropped := (List.dropLast_append_getLast? _ hend).symm
          refine ⟨_, dropped.dropLast, ?_, hhyphens, fun c hc => hspace c ?_, by simp⟩
          · conv_lhs => rw [hs, hrun, hdropped]
            simp [afterFeeds]
          · rw [hrun]
            exact List.mem_append_left _ (List.dropLast_subset _ hc)
      · cases h

/-- The blank lines that the first boundary takes with it hold no second one. -/
theorem nextBoundary?_after {rest : Text} (h : boundary? s = some rest) :
    (nextBoundary? rest).isSome = (nextBoundary? s).isSome := by
  obtain ⟨hyphens, space, rfl, hhyphens, hspace, hrest⟩ := boundary?_eq_some h
  rw [nextBoundary?_append hhyphens, Option.isSome_map, nextBoundary?_blank_append hspace hrest]

theorem split?_isSome_iff (s : Text) : (split? s).isSome = true ↔ Closed s := by
  cases hs : Text.atNewlines s with
  | nil => exact absurd hs (Text.atNewlines_ne_nil s)
  | cons first more =>
    have hnext := nextBoundary?_isSome_iff s
    rw [hs, List.tail_cons] at hnext
    have hsplit : (split? s).isSome = true ↔
        (boundary? s).isSome = true ∧ (nextBoundary? s).isSome = true := by
      cases hb : boundary? s with
      | none => simp [split?, hb]
      | some rest => simp [split?, hb, nextBoundary?_after hb]
    rw [hsplit, boundary?_atNewlines hs, hnext]
    constructor
    · rintro ⟨hfirst, hlater⟩
      exact ⟨first, more, hs, hfirst, hlater⟩
    · rintro ⟨first', more', hs', hfirst, hlater⟩
      obtain ⟨rfl, rfl⟩ := List.cons.inj (hs.symm.trans hs')
      exact ⟨hfirst, hlater⟩

/-! ## Writing what was read -/

/-- A page that was read below a closed header can be written. The text then has a closed header
too, it is read as the same fields in their order, the same counts and the same body, and what was
read of it is written as the same text. -/
theorem rewriting_settles {p : Page} (hs : Closed s) (h : parse s = .ok p) :
    p.header.excess? = none ∧ Closed p.render ∧ ∃ q, parse p.render = .ok q ∧
      q.header.fields = p.header.fields ∧ q.header.refs = p.header.refs ∧ q.body = p.body ∧
      q.render = p.render := by
  have hread := readable_of_parse h
  obtain ⟨⟨block, body⟩, hsplit⟩ := Option.isSome_iff_exists.mp ((split?_isSome_iff s).mpr hs)
  have hbody : settle p.body = p.body := by
    rw [(parse_of_split? hsplit h).2]
    exact settle_of_split? hsplit
  refine ⟨Session.excess?_eq_none_iff.mpr hread.short, ?_, ⟨p.header.settled, p.body⟩, ?_, rfl, rfl,
    rfl, ?_⟩
  · rw [← split?_isSome_iff, split?_render hread]
    rfl
  · conv_rhs => rw [← hbody]
    exact parse_render hread p.body
  · show p.header.settled.render ++ _ = p.header.render ++ _
    rw [Header.render, Header.render, Header.innerLines_settled]

/-- A header with a line before all fields, two blocks of counts, one key twice, a boundary of
another form than is written and line boundaries of several kinds. -/
def untidy : Text :=
  "-----  \n \n\n\tstray: x\nrefs: |\n  2@b\n  junk\n  0@b\n".toList ++
    "  007@z  \x0b  10@ a b \u2028id : 3\n".toList ++
    " id2: 4\nid:9\nname-only\nrefs:\n  5@a b\n---x\n--\n ---\n----\t\n\n \n  body\n---\n".toList

/-- The page that is read of it. -/
def untidyPage : Page :=
  { header :=
      { fields := [(Header.idKey, "3\n id2: 4".toList), (Header.idKey, "9\n ---".toList)]
        refs := ⟨[("a b".toList, 5), (['z'], 7)]⟩
        refsPlace := some 0 }
    body := "  body\n---\n".toList }

theorem rewriting_settles_untidy : Closed untidy ∧ parse untidy = .ok untidyPage ∧
    ∃ q, parse untidyPage.render = .ok q ∧ q.header.fields = untidyPage.header.fields ∧
      q.header.refs = untidyPage.header.refs ∧ q.body = untidyPage.body ∧
      q.render = untidyPage.render := by
  have hclosed : Closed untidy := (split?_isSome_iff untidy).mp (by decide +kernel)
  have hparse : parse untidy = .ok untidyPage := by decide +kernel
  exact ⟨hclosed, hparse, (rewriting_settles hclosed hparse).2.2⟩

end Page

end Marginalia
