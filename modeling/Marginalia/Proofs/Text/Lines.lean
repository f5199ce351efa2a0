import Marginalia.Text.Blank
import Marginalia.Text.Lines
import Mathlib.Data.List.DropRight

/-!
# Lines and blank ends

A text without blank ends is one that neither starts nor ends with a blank character
(`trim_eq_self_iff`), and what trimming leaves is such a text. `OneLine` says that a text has no
line boundary. Lines that are each ended by a line feed are found again (`lines_ended`), and so are
lines that were joined (`atNewlines_joinLines`, `lines_joinLines`). A line of a text stands at its
start or behind a line boundary (`lines_places`). Joining the lines of a text with line feeds writes
these for its line boundaries (`Unended.joinLines_lines`).
-/

namespace Marginalia.Text

/-! ## Blank ends -/

theorem dropEndWhile_eq_rdropWhile (p : Char → Bool) (s : Text) :
    dropEndWhile p s = s.rdropWhile p := by
  induction s using List.reverseRecOn with
  | nil => rfl
  | append_singleton s c ih =>
    rw [List.rdropWhile_concat, ← ih]
    clear ih
    induction s with
    | nil => cases h : p c <;> simp [dropEndWhile, h]
    | cons d s ihs =>
      rw [List.cons_append, dropEndWhile, ihs]
      cases h : p c with
      | true => simp [dropEndWhile]
      | false => simp

theorem getLast_dropEndWhile {p : Char → Bool} {s : Text} {c : Char}
    (h : (dropEndWhile p s).getLast? = some c) : p c = false := by
  rw [dropEndWhile_eq_rdropWhile] at h
  have hne : s.rdropWhile p ≠ [] := fun e => by rw [e] at h; cases h
  rw [List.getLast?_eq_some_getLast hne] at h
  cases h
  simpa using List.rdropWhile_last_not p s hne

theorem dropEndWhile_eq_self_iff {p : Char → Bool} {s : Text} :
    dropEndWhile p s = s ↔ ∀ c, s.getLast? = some c → p c = false := by
  constructor
  · intro h c hc
    rw [← h] at hc
    exact getLast_dropEndWhile hc
  · intro h
    rw [dropEndWhile_eq_rdropWhile, List.rdropWhile_eq_self_iff]
    intro hne
    simpa using h _ (List.getLast?_eq_some_getLast hne)

theorem dropEndWhile_isPrefixOf (p : Char → Bool) (s : Text) : dropEndWhile p s <+: s := by
  rw [dropEndWhile_eq_rdropWhile]
  exact List.rdropWhile_prefix p s

theorem head?_dropEndWhile {p : Char → Bool} {s : Text} (h : dropEndWhile p s ≠ []) :
    (dropEndWhile p s).head? = s.head? := by
  obtain ⟨t, ht⟩ := dropEndWhile_isPrefixOf p s
  have : (dropEndWhile p s ++ t).head? = (dropEndWhile p s).head? :=
    List.head?_append_of_ne_nil _ h
  rw [ht] at this
  exact this.symm

theorem trimEnd_eq_self_iff {s : Text} :
    trimEnd s = s ↔ ∀ c, s.getLast? = some c → isBlank c = false :=
  dropEndWhile_eq_self_iff

theorem trimEnd_trimEnd (s : Text) : trimEnd (trimEnd s) = trimEnd s :=
  trimEnd_eq_self_iff.mpr fun _ h => getLast_dropEndWhile h

theorem trimEnd_concat_blank {c : Char} (h : isBlank c = true) (s : Text) :
    trimEnd (s ++ [c]) = trimEnd s := by
  rw [trimEnd, dropEndWhile_eq_rdropWhile, List.rdropWhile_concat_pos _ _ _ h,
    ← dropEndWhile_eq_rdropWhile, trimEnd]

/-- What a text starts with keeps no more than the text when their blank ends are dropped. -/
theorem trimEnd_isPrefix {p s : Text} (h : p <+: s) : trimEnd p <+: trimEnd s := by
  obtain ⟨t, rfl⟩ := h
  induction t using List.reverseRecOn with
  | nil => exact (List.append_nil p).symm ▸ List.prefix_rfl
  | append_singleton t c ih =>
    rw [← List.append_assoc]
    cases hc : isBlank c with
    | true => rwa [trimEnd_concat_blank hc]
    | false =>
      have hself : trimEnd (p ++ t ++ [c]) = p ++ t ++ [c] :=
        trimEnd_eq_self_iff.mpr fun d hd => by
          rw [List.getLast?_concat] at hd
          rw [← Option.some.inj hd, hc]
      rw [hself, List.append_assoc]
      exact (dropEndWhile_isPrefixOf isBlank p).trans (List.prefix_append ..)

theorem dropEndsWhile_eq_self_iff {p : Char → Bool} {s : Text} :
    dropEndsWhile p s = s ↔ (∀ c, s.head? = some c → p c = false) ∧
      ∀ c, s.getLast? = some c → p c = false := by
  constructor
  · intro h
    have hpre : dropEndsWhile p s <+: s.dropWhile p := dropEndWhile_isPrefixOf ..
    have hlen := hpre.length_le
    have hsuf := List.dropWhile_suffix (l := s) p
    rw [h] at hlen
    have hdrop : s.dropWhile p = s := hsuf.eq_of_length_le hlen
    constructor
    · intro c hc
      rw [← hdrop] at hc
      have := List.head?_dropWhile_not p s
      rw [hc] at this
      simpa using this
    · rw [dropEndsWhile, hdrop] at h
      exact dropEndWhile_eq_self_iff.mp h
  · rintro ⟨h1, h2⟩
    have hdrop : s.dropWhile p = s := by
      cases s with
      | nil => rfl
      | cons c s => rw [List.dropWhile_cons_of_neg (by simp [h1 c rfl])]
    rw [dropEndsWhile, hdrop]
    exact dropEndWhile_eq_self_iff.mpr h2

theorem isInfix_dropEndsWhile (p : Char → Bool) (s : Text) : dropEndsWhile p s <:+: s :=
  (dropEndWhile_isPrefixOf ..).isInfix.trans (List.dropWhile_suffix p).isInfix

theorem trim_eq_self_iff {s : Text} :
    trim s = s ↔ (∀ c, s.head? = some c → isBlank c = false) ∧
      ∀ c, s.getLast? = some c → isBlank c = false :=
  dropEndsWhile_eq_self_iff

theorem trim_trim (s : Text) : trim (trim s) = trim s := by
  rw [trim_eq_self_iff]
  constructor
  · intro c hc
    have hhead : (trim s).head? = (s.dropWhile isBlank).head? :=
      head?_dropEndWhile fun e => by rw [trim, dropEndsWhile, e] at hc; cases hc
    have := List.head?_dropWhile_not isBlank s
    rw [← hhead, hc] at this
    simpa using this
  · intro c hc
    exact getLast_dropEndWhile hc

theorem trim_cons_blank {c : Char} (h : isBlank c = true) (s : Text) : trim (c :: s) = trim s := by
  rw [trim, dropEndsWhile, List.dropWhile_cons_of_pos h]
  rfl

theorem trim_append_blank {c : Char} (h : isBlank c = true) (s : Text) :
    trim (s ++ [c]) = trim s := by
  unfold trim dropEndsWhile
  rw [List.dropWhile_append]
  split
  · next he =>
    rw [List.isEmpty_iff.mp he, List.dropWhile_cons_of_pos h]
    rfl
  · rw [dropEndWhile_eq_rdropWhile, List.rdropWhile_concat_pos _ _ _ h, dropEndWhile_eq_rdropWhile]

theorem trim_subset (s : Text) : trim s ⊆ s := (isInfix_dropEndsWhile isBlank s).subset

theorem trimEnd_subset (s : Text) : trimEnd s ⊆ s := (dropEndWhile_isPrefixOf ..).subset

theorem allBlank_eq_false_iff {s : Text} : allBlank s = false ↔ ∃ c ∈ s, isBlank c = false := by
  simp [allBlank]

theorem trimEnd_ne_nil {s : Text} (h : allBlank s = false) : trimEnd s ≠ [] := by
  intro e
  rw [trimEnd, dropEndWhile_eq_rdropWhile, List.rdropWhile_eq_nil_iff] at e
  obtain ⟨c, hc, hb⟩ := allBlank_eq_false_iff.mp h
  rw [e c hc] at hb
  cases hb

theorem trim_ne_nil {s : Text} (h : allBlank s = false) : trim s ≠ [] := by
  show trimEnd (s.dropWhile isBlank) ≠ []
  apply trimEnd_ne_nil
  obtain ⟨c, hc, hb⟩ := allBlank_eq_false_iff.mp h
  refine allBlank_eq_false_iff.mpr ⟨c, ?_, hb⟩
  rw [← s.takeWhile_append_dropWhile (p := isBlank)] at hc
  rcases List.mem_append.mp hc with hc | hc
  · rw [List.mem_takeWhile_imp hc] at hb
    cases hb
  · exact hc

/-! ## Texts of one line -/

def OneLine (l : Text) : Prop := ∀ c ∈ l, isLineEnd c = false

instance (l : Text) : Decidable (OneLine l) := List.decidableBAll _ l

theorem OneLine.of_subset {l m : Text} (h : OneLine m) (hs : l ⊆ m) : OneLine l :=
  fun c hc => h c (hs hc)

theorem OneLine.append {l m : Text} (h : OneLine l) (h' : OneLine m) : OneLine (l ++ m) := by
  intro c hc
  rcases List.mem_append.mp hc with hc | hc
  · exact h c hc
  · exact h' c hc

theorem OneLine.no_newline {l : Text} (h : OneLine l) : '\n' ∉ l :=
  fun hc => absurd (h _ hc) (by decide)

theorem OneLine.no_return {l : Text} (h : OneLine l) : '\r' ∉ l :=
  fun hc => absurd (h _ hc) (by decide)

/-! ## Unified line ends -/

theorem no_return_unifyNewlines (s : Text) : '\r' ∉ unifyNewlines s := by
  induction s using unifyNewlines.induct with
  | case1 => simp [unifyNewlines]
  | case2 r ih => simpa [unifyNewlines] using ih
  | case3 r h ih =>
    rw [unifyNewlines]
    · simpa using ih
    · exact h
  | case4 c r h1 h2 ih =>
    rw [unifyNewlines]
    · rw [List.mem_cons, not_or]
      exact ⟨fun e => h2 e.symm, ih⟩
    · exact h1
    · exact h2

theorem unifyNewlines_of_no_return {s : Text} (h : '\r' ∉ s) : unifyNewlines s = s := by
  induction s using unifyNewlines.induct with
  | case1 => rfl
  | case2 r => simp at h
  | case3 r => simp at h
  | case4 c r h1 h2 ih =>
    rw [unifyNewlines]
    · rw [ih fun hr => h (List.mem_cons_of_mem _ hr)]
    · exact h1
    · exact h2

/-! ## Cutting at line feeds -/

theorem atNewlines_cons {c : Char} (h : c ≠ '\n') (s : Text) :
    atNewlines (c :: s) = match atNewlines s with
      | [] => [[c]]
      | l :: ls => (c :: l) :: ls := by
  show (if c = '\n' then [] :: atNewlines s else _) = _
  exact if_neg h

/-- A text and lines put after it are cut apart again. -/
theorem atNewlines_flatMap {first : Text} {more : List Text} (hfirst : '\n' ∉ first)
    (hmore : ∀ l ∈ more, '\n' ∉ l) :
    atNewlines (first ++ more.flatMap ('\n' :: ·)) = first :: more := by
  induction more generalizing first with
  | nil =>
    induction first with
    | nil => rfl
    | cons c first ih =>
      rw [List.mem_cons, not_or] at hfirst
      rw [List.cons_append, atNewlines_cons (Ne.symm hfirst.1), ih hfirst.2]
  | cons l more ih =>
    obtain ⟨hl, hmore⟩ := List.forall_mem_cons.mp hmore
    induction first with
    | nil =>
      rw [List.nil_append, List.flatMap_cons, List.cons_append, atNewlines, if_pos rfl,
        ih hl hmore]
    | cons c first ihf =>
      rw [List.mem_cons, not_or] at hfirst
      rw [List.cons_append, atNewlines_cons (Ne.symm hfirst.1), ihf hfirst.2]

theorem atNewlines_oneLine {l : Text} (h : OneLine l) : atNewlines l = [l] := by
  have := atNewlines_flatMap h.no_newline (List.forall_mem_nil _)
  rwa [List.flatMap_nil, List.append_nil] at this

theorem atNewlines_ended (s : Text) :
    (atNewlines s).flatMap (· ++ ['\n']) = s ++ ['\n'] := by
  induction s with
  | nil => rfl
  | cons c s ih =>
    by_cases h : c = '\n'
    · subst h
      rw [atNewlines, if_pos rfl, List.flatMap_cons, ih]
      rfl
    · rw [atNewlines_cons h]
      cases hs : atNewlines s with
      | nil => rw [hs] at ih; simp at ih
      | cons l ls =>
        rw [hs, List.flatMap_cons] at ih
        simp only [List.flatMap_cons, List.cons_append, ih]

theorem atNewlines_ne_nil (s : Text) : atNewlines s ≠ [] := by
  intro h
  have := atNewlines_ended s
  rw [h] at this
  simp at this

theorem no_newline_of_mem_atNewlines {l s : Text} (h : l ∈ atNewlines s) : '\n' ∉ l := by
  induction s generalizing l with
  | nil => rw [List.mem_singleton.mp h]; simp
  | cons c s ih =>
    by_cases hc : c = '\n'
    · rw [atNewlines, if_pos hc] at h
      rcases List.mem_cons.mp h with rfl | h
      · simp
      · exact ih h
    · rw [atNewlines_cons hc] at h
      cases hs : atNewlines s with
      | nil => exact absurd hs (atNewlines_ne_nil s)
      | cons m ms =>
        rw [hs] at h ih
        rcases List.mem_cons.mp h with rfl | h
        · rw [List.mem_cons, not_or]
          exact ⟨Ne.symm hc, ih List.mem_cons_self⟩
        · exact ih (List.mem_cons_of_mem _ h)

theorem joinLines_cons (first : Text) (more : List Text) :
    joinLines (first :: more) = first ++ more.flatMap ('\n' :: ·) := by
  induction more generalizing first with
  | nil => simp [joinLines, join]
  | cons l more ih =>
    show first ++ ['\n'] ++ joinLines (l :: more) = _
    rw [ih]
    simp

/-- Lines that were joined are cut apart again. -/
theorem atNewlines_joinLines {ls : List Text} (h0 : ls ≠ []) (h : ∀ l ∈ ls, '\n' ∉ l) :
    atNewlines (joinLines ls) = ls := by
  cases ls with
  | nil => exact absurd rfl h0
  | cons first more =>
    obtain ⟨hfirst, hmore⟩ := List.forall_mem_cons.mp h
    rw [joinLines_cons, atNewlines_flatMap hfirst hmore]

theorem joinLines_atNewlines (s : Text) : joinLines (atNewlines s) = s := by
  induction s with
  | nil => rfl
  | cons c s ih =>
    cases hs : atNewlines s with
    | nil => exact absurd hs (atNewlines_ne_nil s)
    | cons l ls =>
      rw [hs, joinLines_cons] at ih
      by_cases h : c = '\n'
      · rw [atNewlines, if_pos h, hs, joinLines_cons, List.flatMap_cons, h]
        exact congrArg ('\n' :: ·) ih
      · rw [atNewlines_cons h, hs, joinLines_cons]
        exact congrArg (c :: ·) ih

theorem subset_of_mem_atNewlines {l s : Text} (h : l ∈ atNewlines s) : l ⊆ s := by
  intro c hc
  have hin : c ∈ (atNewlines s).flatMap (· ++ ['\n']) :=
    List.mem_flatMap.mpr ⟨l, h, List.mem_append_left _ hc⟩
  rw [atNewlines_ended, List.mem_append, List.mem_singleton] at hin
  refine hin.resolve_right ?_
  rintro rfl
  exact no_newline_of_mem_atNewlines h hc

theorem mem_joinLines {c : Char} {ls : List Text} (h : c ∈ joinLines ls) :
    c = '\n' ∨ ∃ l ∈ ls, c ∈ l := by
  cases ls with
  | nil => cases h
  | cons first more =>
    rw [joinLines_cons, List.mem_append, List.mem_flatMap] at h
    rcases h with h | ⟨l, hl, h⟩
    · exact .inr ⟨first, List.mem_cons_self, h⟩
    · exact (List.mem_cons.mp h).imp_right fun h => ⟨l, List.mem_cons_of_mem _ hl, h⟩

/-! ## Carriage returns at the ends of lines -/

theorem dropEnding?_append (e l : Text) : dropEnding? e (l ++ e) = some l := by
  have h : e.isSuffixOf (l ++ e) = true := List.isSuffixOf_iff_suffix.mpr (List.suffix_append l e)
  simp [dropEnding?, h]

/-- A line ends in a carriage return or it has none to drop. -/
theorem return_cases (l : Text) :
    (∃ body, l = body ++ ['\r']) ∨ (dropEnding? ['\r'] l = none ∧ l.getLast? ≠ some '\r') := by
  by_cases h : ['\r'].isSuffixOf l = true
  · obtain ⟨body, rfl⟩ := List.isSuffixOf_iff_suffix.mp h
    exact .inl ⟨body, rfl⟩
  · refine .inr ⟨if_neg h, fun hlast => h ?_⟩
    rw [← List.dropLast_append_getLast? _ hlast]
    exact List.isSuffixOf_iff_suffix.mpr (List.suffix_append _ _)

@[simp] theorem dropReturn_append (body : Text) : dropReturn (body ++ ['\r']) = body := by
  rw [dropReturn, dropEnding?_append, Option.getD_some]

theorem dropReturn_of_none {l : Text} (h : dropEnding? ['\r'] l = none) : dropReturn l = l := by
  rw [dropReturn, h, Option.getD_none]

/-! ## Cutting at all line boundaries -/

theorem lines_cons {c : Char} (h : isLineEnd c = false) (s : Text) :
    lines (c :: s) = match lines s with
      | [] => [[c]]
      | l :: ls => (c :: l) :: ls := by
  have hc : c ≠ '\r' := fun e => absurd h (by rw [e]; decide)
  rw [lines.eq_def]
  split
  · next e => cases e
  · next e => exact absurd (List.cons.inj e).1 hc
  · next e =>
    obtain ⟨rfl, rfl⟩ := List.cons.inj e
    exact if_neg (by simp [h])

theorem lines_append_newline {l : Text} (h : OneLine l) (s : Text) :
    lines (l ++ '\n' :: s) = l :: lines s := by
  induction l with
  | nil => rw [List.nil_append, lines.eq_def]; rfl
  | cons c l ih =>
    rw [List.cons_append, lines_cons (h c List.mem_cons_self),
      ih (h.of_subset (List.subset_cons_self ..))]

/-- Lines that a line feed ends are found again. -/
theorem lines_ended_append {ls : List Text} (h : ∀ l ∈ ls, OneLine l) (s : Text) :
    lines (ls.flatMap (· ++ ['\n']) ++ s) = ls ++ lines s := by
  induction ls with
  | nil => rfl
  | cons l ls ih =>
    rw [List.forall_mem_cons] at h
    rw [List.flatMap_cons, List.append_assoc, List.append_assoc, List.singleton_append,
      lines_append_newline h.1, ih h.2]
    rfl

theorem lines_ended {ls : List Text} (h : ∀ l ∈ ls, OneLine l) :
    lines (ls.flatMap (· ++ ['\n'])) = ls := by
  have := lines_ended_append h []
  rwa [List.append_nil, lines, List.append_nil] at this

theorem oneLine_of_mem_lines {l s : Text} (h : l ∈ lines s) : OneLine l := by
  have hnil : OneLine [] := fun _ hc => by cases hc
  induction s using lines.induct generalizing l with
  | case1 => cases h
  | case2 r ih =>
    rw [lines] at h
    rcases List.mem_cons.mp h with rfl | h
    · exact hnil
    · exact ih h
  | case3 c r hcr hend ih =>
    rw [lines, if_pos hend] at h
    · rcases List.mem_cons.mp h with rfl | h
      · exact hnil
      · exact ih h
    · exact hcr
  | case4 c r hcr hend hr ih =>
    have hend : isLineEnd c = false := by simpa using hend
    rw [lines_cons hend, hr] at h
    rw [List.mem_singleton.mp h]
    exact fun d hd => by rw [List.mem_singleton.mp hd, hend]
  | case5 c r hcr hend m ms hr ih =>
    have hend : isLineEnd c = false := by simpa using hend
    rw [lines_cons hend, hr] at h
    rw [hr] at ih
    rcases List.mem_cons.mp h with rfl | h
    · intro d hd
      rcases List.mem_cons.mp hd with rfl | hd
      · exact hend
      · exact ih List.mem_cons_self d hd
    · exact ih (List.mem_cons_of_mem _ h)

theorem lines_oneLine {l : Text} (h : OneLine l) (hne : l ≠ []) : lines l = [l] := by
  induction l with
  | nil => exact absurd rfl hne
  | cons c l ih =>
    rw [lines_cons (h c List.mem_cons_self)]
    cases l with
    | nil => rfl
    | cons d l => rw [ih (h.of_subset (List.subset_cons_self ..)) (by simp)]

/-- A line boundary that does not go on with the next character. -/
theorem lines_cons_end {c : Char} (h : isLineEnd c = true) {s : Text}
    (hs : ∀ r, c = '\r' → s = '\n' :: r → False) : lines (c :: s) = [] :: lines s := by
  rw [lines, if_pos h]
  exact hs

theorem length_lines_cons {c : Char} (h : isLineEnd c = false) (s : Text) :
    (lines (c :: s)).length = max 1 (lines s).length := by
  rw [lines_cons h]
  cases lines s with
  | nil => rfl
  | cons l ls => simp

/-- A text has no fewer lines than what it starts with. -/
theorem length_lines_le_append (s t : Text) : (lines s).length ≤ (lines (s ++ t)).length := by
  induction s using lines.induct with
  | case1 => exact Nat.zero_le _
  | case2 r ih => simpa [lines] using ih
  | case3 c r hcr hend ih =>
    rw [lines_cons_end hend hcr]
    cases r with
    | nil =>
      show 1 ≤ (lines (c :: t)).length
      rw [lines.eq_def]
      split
      · contradiction
      · simp
      · next e =>
        obtain ⟨rfl, rfl⟩ := List.cons.inj e
        simp [hend]
    | cons d r =>
      have hstop : ∀ r', c = '\r' → d :: r ++ t = '\n' :: r' → False := fun r' hc e =>
        hcr r hc (by rw [(List.cons.inj e).1])
      rw [List.cons_append, lines_cons_end hend hstop]
      simpa using ih
  | case4 c r hcr hend hr ih =>
    have hend : isLineEnd c = false := by simpa using hend
    rw [List.cons_append, length_lines_cons hend, length_lines_cons hend]
    omega
  | case5 c r hcr hend m ms hr ih =>
    have hend : isLineEnd c = false := by simpa using hend
    rw [List.cons_append, length_lines_cons hend, length_lines_cons hend]
    omega

theorem lines_eq_nil_iff {s : Text} : lines s = [] ↔ s = [] := by
  refine ⟨fun h => ?_, fun h => by rw [h, lines]⟩
  rw [lines.eq_def] at h
  split at h
  · rfl
  · cases h
  · split at h
    · cases h
    · split at h <;> cases h

/-- A line feed ends a line, whatever stands on both sides of it. -/
theorem lines_append_cons_newline (s t : Text) :
    lines (s ++ '\n' :: t) = lines (s ++ ['\n']) ++ lines t := by
  have hfeed : ∀ r : Text, lines ('\n' :: r) = [] :: lines r := fun r =>
    lines_cons_end (by decide) (by simp)
  have hplain : ∀ (c : Char) (r : Text), isLineEnd c = false →
      lines (r ++ '\n' :: t) = lines (r ++ ['\n']) ++ lines t →
      lines (c :: r ++ '\n' :: t) = lines (c :: r ++ ['\n']) ++ lines t := by
    intro c r hc hr
    rw [List.cons_append, List.cons_append, lines_cons hc, lines_cons hc, hr]
    cases hl : lines (r ++ ['\n']) with
    | nil => simp [lines_eq_nil_iff] at hl
    | cons l ls => rfl
  induction s using lines.induct with
  | case1 => rw [List.nil_append, List.nil_append, hfeed, hfeed]; rfl
  | case2 r ih => simpa [lines] using ih
  | case3 c r hcr hend ih =>
    cases r with
    | nil =>
      by_cases hc : c = '\r'
      · subst hc
        rfl
      · show lines (c :: '\n' :: t) = lines [c, '\n'] ++ lines t
        rw [lines_cons_end hend fun _ e => absurd e hc, lines_cons_end hend fun _ e => absurd e hc,
          hfeed, hfeed]
        rfl
    | cons d r =>
      have hstop : ∀ s' r', c = '\r' → d :: r ++ s' = '\n' :: r' → False := fun s' r' hc e =>
        hcr r hc (by rw [(List.cons.inj e).1])
      show lines (c :: (d :: r ++ '\n' :: t)) = lines (c :: (d :: r ++ ['\n'])) ++ lines t
      rw [lines_cons_end hend (hstop _), lines_cons_end hend (hstop _), ih]
      rfl
  | case4 c r hcr hend hr ih => exact hplain c r (by simpa using hend) ih
  | case5 c r hcr hend m ms hr ih => exact hplain c r (by simpa using hend) ih

/-- The first line starts a text, and every other one stands behind a line boundary. -/
theorem lines_places {s m : Text} {ms : List Text} (h : lines s = m :: ms) :
    m <+: s ∧ ∀ l ∈ ms, ∃ a c b, s = a ++ c :: l ++ b ∧ isLineEnd c = true := by
  -- a line of what follows a boundary starts there or stands behind a further one
  have hbehind : ∀ (a : Text) {c : Char} {r : Text}, isLineEnd c = true →
      (∀ {m ms}, lines r = m :: ms →
        m <+: r ∧ ∀ l ∈ ms, ∃ a c b, r = a ++ c :: l ++ b ∧ isLineEnd c = true) →
      ∀ l ∈ lines r, ∃ a' c' b, a ++ c :: r = a' ++ c' :: l ++ b ∧ isLineEnd c' = true := by
    intro a c r hc hr l hl
    cases hlines : lines r with
    | nil => rw [hlines] at hl; cases hl
    | cons m ms =>
      obtain ⟨⟨b, rfl⟩, hms⟩ := hr hlines
      rw [hlines] at hl
      rcases List.mem_cons.mp hl with rfl | hl
      · exact ⟨a, c, b, by simp, hc⟩
      · obtain ⟨a', c', b', e, hc'⟩ := hms l hl
        exact ⟨a ++ c :: a', c', b', by simp [e], hc'⟩
  induction s using lines.induct generalizing m ms with
  | case1 => cases h
  | case2 r ih =>
    rw [lines] at h
    obtain ⟨rfl, rfl⟩ := List.cons.inj h
    exact ⟨List.nil_prefix, hbehind ['\r'] (by decide) ih⟩
  | case3 c r hcr hend ih =>
    rw [lines_cons_end hend hcr] at h
    obtain ⟨rfl, rfl⟩ := List.cons.inj h
    exact ⟨List.nil_prefix, hbehind [] hend ih⟩
  | case4 c r hcr hend hr ih =>
    rw [lines_cons (by simpa using hend), hr] at h
    obtain ⟨rfl, rfl⟩ := List.cons.inj h
    exact ⟨List.prefix_append [c] r, List.forall_mem_nil _⟩
  | case5 c r hcr hend l ls hr ih =>
    rw [lines_cons (by simpa using hend), hr] at h
    obtain ⟨rfl, rfl⟩ := List.cons.inj h
    obtain ⟨hl, hls⟩ := ih hr
    refine ⟨List.cons_prefix_cons.mpr ⟨rfl, hl⟩, fun k hk => ?_⟩
    obtain ⟨a, d, b, e, hd⟩ := hls k hk
    exact ⟨c :: a, d, b, by simp [e], hd⟩

/-! ## Lines that are joined -/

theorem joinLines_concat (ls : List Text) (l : Text) :
    joinLines (ls ++ [l]) = ls.flatMap (· ++ ['\n']) ++ l := by
  induction ls with
  | nil => rfl
  | cons first ls ih =>
    rw [List.flatMap_cons, List.append_assoc, ← ih, List.cons_append, joinLines_cons]
    cases hls : ls ++ [l] with
    | nil => simp at hls
    | cons m ms => simp [joinLines_cons]

theorem joinLines_append (ls : List Text) {ms : List Text} (h : ms ≠ []) :
    joinLines (ls ++ ms) = ls.flatMap (· ++ ['\n']) ++ joinLines ms := by
  obtain ⟨ms, m, rfl⟩ : ∃ ms' m, ms = ms' ++ [m] :=
    ⟨ms.dropLast, ms.getLast h, (List.dropLast_append_getLast h).symm⟩
  rw [← List.append_assoc, joinLines_concat, joinLines_concat]
  simp

theorem joinLines_isPrefix (ls ms : List Text) : joinLines ls <+: joinLines (ls ++ ms) := by
  cases ls with
  | nil => exact List.nil_prefix
  | cons l ls =>
    rw [List.cons_append, joinLines_cons, joinLines_cons, List.flatMap_append, ← List.append_assoc]
    exact List.prefix_append ..

/-- Lines that were joined are no more lines than before. -/
theorem length_lines_joinLines_le {ls : List Text} (h : ∀ l ∈ ls, OneLine l) :
    (lines (joinLines ls)).length ≤ ls.length := by
  cases ls using List.reverseRecOn with
  | nil => exact Nat.zero_le _
  | append_singleton ls l =>
    have hl := h l (by simp)
    rw [joinLines_concat, lines_ended_append fun m hm => h m (List.mem_append_left _ hm),
      List.length_append, List.length_append]
    by_cases hne : l = []
    · subst hne
      exact Nat.add_le_add_left (Nat.zero_le _) _
    · rw [lines_oneLine hl hne]

/-- The lines of a text that ends in none of them are found again when they were joined. -/
theorem lines_joinLines {ls : List Text} (h : ∀ l ∈ ls, OneLine l) (hlast : ls.getLast? ≠ some []) :
    lines (joinLines ls) = ls := by
  cases ls using List.reverseRecOn with
  | nil => rfl
  | append_singleton ls l =>
    rw [List.getLast?_concat] at hlast
    rw [joinLines_concat, lines_ended_append fun m hm => h m (List.mem_append_left _ hm),
      lines_oneLine (h l (by simp)) fun e => hlast (by rw [e])]

theorem joinLines_cons_of_ne_nil (l : Text) {ls : List Text} (h : ls ≠ []) :
    joinLines (l :: ls) = l ++ '\n' :: joinLines ls := by
  have := joinLines_append [l] h
  simpa using this

/-- Joined with line feeds the lines of a text take no more room than the text. -/
theorem length_joinLines_lines_le (s : Text) : (joinLines (lines s)).length ≤ s.length := by
  have hnil : ∀ (r : Text) (k : Nat), (joinLines (lines r)).length ≤ r.length → 1 ≤ k →
      (joinLines ([] :: lines r)).length ≤ r.length + k := fun r k hr hk => by
    by_cases h : lines r = []
    · rw [h]
      exact Nat.zero_le _
    · rw [joinLines_cons_of_ne_nil [] h, List.nil_append, List.length_cons]
      omega
  induction s using lines.induct with
  | case1 => exact Nat.zero_le _
  | case2 r ih => exact hnil r 2 ih (by decide)
  | case3 c r hcr hend ih =>
    rw [lines_cons_end hend hcr]
    exact hnil r 1 ih (by decide)
  | case4 c r hcr hend hr ih =>
    rw [lines_cons (by simpa using hend), hr]
    exact Nat.le_add_left 1 _
  | case5 c r hcr hend l ls hr ih =>
    rw [lines_cons (by simpa using hend), hr]
    rw [hr, joinLines_cons] at ih
    rw [joinLines_cons, List.cons_append, List.length_cons, List.length_cons]
    exact Nat.succ_le_succ ih

/-! ## Texts that end in no line boundary -/

def Unended (s : Text) : Prop := ∀ c, s.getLast? = some c → isLineEnd c = false

theorem Unended.tail {c : Char} {s : Text} (h : Unended (c :: s)) : Unended s := fun d hd =>
  h d (by rw [List.getLast?_cons, hd, Option.getD_some])

theorem Unended.ne_nil {c : Char} {s : Text} (h : Unended (c :: s)) (hc : isLineEnd c = true) :
    s ≠ [] := by
  rintro rfl
  rw [h c rfl] at hc
  cases hc

theorem isBlank_of_isLineEnd {c : Char} (h : isLineEnd c = true) : isBlank c = true := by
  simp only [isLineEnd, Bool.or_eq_true, Bool.and_eq_true, decide_eq_true_eq, beq_iff_eq] at h
  simp only [isBlank, Bool.or_eq_true, Bool.and_eq_true, decide_eq_true_eq, beq_iff_eq]
  omega

theorem unended_of_trim {s : Text} (h : trim s = s) : Unended s := fun c hc => by
  by_contra hend
  have hblank := (trim_eq_self_iff.mp h).2 c hc
  rw [isBlank_of_isLineEnd (by simpa using hend)] at hblank
  cases hblank

theorem Unended.getLast?_lines {s : Text} (h : Unended s) : (lines s).getLast? ≠ some [] := by
  have hnil : ∀ {r : Text}, r ≠ [] → (lines r).getLast? ≠ some [] →
      ([] :: lines r).getLast? ≠ some [] := fun {r} hr hlast => by
    cases hl : lines r with
    | nil => exact absurd (lines_eq_nil_iff.mp hl) hr
    | cons l ls => rwa [List.getLast?_cons_cons, ← hl]
  induction s using lines.induct with
  | case1 => nofun
  | case2 r ih => exact hnil (h.tail.ne_nil (by decide)) (ih h.tail.tail)
  | case3 c r hcr hend ih =>
    rw [lines_cons_end hend hcr]
    exact hnil (h.ne_nil hend) (ih h.tail)
  | case4 c r hcr hend hr ih =>
    rw [lines_cons (by simpa using hend), hr]
    nofun
  | case5 c r hcr hend l ls hr ih =>
    rw [lines_cons (by simpa using hend), hr]
    have hlast := ih h.tail
    rw [hr] at hlast
    cases ls with
    | nil => simp
    | cons k ks => rwa [List.getLast?_cons_cons] at hlast ⊢

/-- Joined with line feeds the lines of a text are the text with line feeds for its line boundaries,
if none of these is of two characters or at the end. -/
theorem Unended.joinLines_lines {s : Text} (h : Unended s) (hr : '\r' ∉ s) :
    joinLines (lines s) = s.map fun c => if isLineEnd c then '\n' else c := by
  induction s using lines.induct with
  | case1 => rfl
  | case2 r => simp at hr
  | case3 c r hcr hend ih =>
    have hne : lines r ≠ [] := fun e => h.ne_nil hend (lines_eq_nil_iff.mp e)
    rw [lines_cons_end hend hcr, joinLines_cons_of_ne_nil [] hne, List.nil_append,
      ih h.tail fun hm => hr (List.mem_cons_of_mem _ hm), List.map_cons, if_pos hend]
  | case4 c r hcr hend hnil ih =>
    rw [lines_cons (by simpa using hend), hnil, lines_eq_nil_iff.mp hnil, List.map_cons,
      if_neg hend]
    rfl
  | case5 c r hcr hend l ls hlines ih =>
    have hrest := ih h.tail fun hm => hr (List.mem_cons_of_mem _ hm)
    rw [hlines, joinLines_cons] at hrest
    rw [lines_cons (by simpa using hend), hlines, joinLines_cons, List.cons_append, hrest,
      List.map_cons, if_neg hend]

end Marginalia.Text
