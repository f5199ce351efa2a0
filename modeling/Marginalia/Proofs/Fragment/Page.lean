import Marginalia.Fragment.Page
import Marginalia.Proofs.Fragment.Reading

/-!
# Reading pages

A page with a readable header that is written out is read again (`parse_render`). The body comes
back without the blank lines at its start (`settle`); a body that was read below a header has none.
-/

namespace Marginalia.Page

open Header (fence)

/-! ## Bodies -/

/-- What follows the last line feed. -/
def afterFeeds (s : Text) : Text := (s.reverse.takeWhile (· != '\n')).reverse

/-- A body without the blank lines at its start, and without anything when it is all blank. -/
def settle (body : Text) : Text :=
  if Text.allBlank body then []
  else (afterFeeds (body.takeWhile isBlank) ++ body.dropWhile isBlank).dropWhile isReturnOrFeed

theorem afterFeeds_of_no_newline {s : Text} (h : '\n' ∉ s) : afterFeeds s = s := by
  have : s.reverse.takeWhile (· != '\n') = s.reverse := by
    rw [List.takeWhile_eq_self_iff]
    intro c hc
    rw [List.mem_reverse] at hc
    simpa using fun e : c = '\n' => h (e ▸ hc)
  rw [afterFeeds, this, List.reverse_reverse]

@[simp] theorem afterFeeds_newline_cons (s : Text) : afterFeeds ('\n' :: s) = afterFeeds s := by
  unfold afterFeeds
  rw [List.reverse_cons, List.takeWhile_append]
  split
  · next h =>
    rw [(List.takeWhile_prefix _).eq_of_length h]
    simp
  · rfl

theorem no_newline_afterFeeds (s : Text) : '\n' ∉ afterFeeds s := by
  intro h
  have := List.mem_takeWhile_imp (List.mem_reverse.mp h)
  simp at this

theorem afterFeeds_suffix (s : Text) : afterFeeds s <:+ s := by
  have := List.takeWhile_prefix (l := s.reverse) (· != '\n')
  rwa [← List.reverse_suffix, List.reverse_reverse] at this

theorem head?_dropWhile_isBlank {s : Text} {c : Char} (h : (s.dropWhile isBlank).head? = some c) :
    isBlank c = false := by
  have := List.head?_dropWhile_not isBlank s
  rw [h] at this
  simpa using this

theorem settle_blank_append {u beyond : Text} {c : Char} (hu : ∀ d ∈ u, isBlank d = true)
    (hc : beyond.head? = some c) (hb : isBlank c = false) :
    settle (u ++ beyond) = (afterFeeds u).dropWhile isReturnOrFeed ++ beyond := by
  have hall : Text.allBlank (u ++ beyond) = false :=
    Text.allBlank_eq_false_iff.mpr
      ⟨c, List.mem_append_right _ (List.mem_of_head? hc), hb⟩
  have hstop : ∀ d, beyond.head? = some d → isBlank d = false := fun d hd => by
    rw [hc] at hd
    cases hd
    exact hb
  have hdrop : beyond.dropWhile isReturnOrFeed = beyond := by
    cases beyond with
    | nil => rfl
    | cons d s =>
      cases hc
      refine List.dropWhile_cons_of_neg fun h => ?_
      simp only [isReturnOrFeed, Bool.or_eq_true, beq_iff_eq] at h
      rcases h with rfl | rfl <;> exact absurd hb (by decide)
  have hspace : (u ++ beyond).takeWhile isBlank = u := Text.takeWhile_append_stop hu hstop
  have hrest : (u ++ beyond).dropWhile isBlank = beyond := by
    rw [← Text.drop_takeWhile, hspace, List.drop_left]
  rw [settle, if_neg (by simp [hall]), hspace, hrest, List.dropWhile_append]
  split
  · next he => rw [List.isEmpty_iff.mp he, hdrop, List.nil_append]
  · rfl

theorem settle_eq {s : Text} (h : Text.allBlank s = false) : ∃ c,
    (s.dropWhile isBlank).head? = some c ∧ isBlank c = false ∧
      settle s = (afterFeeds (s.takeWhile isBlank)).dropWhile isReturnOrFeed ++
        s.dropWhile isBlank := by
  cases hhead : (s.dropWhile isBlank).head? with
  | none =>
    obtain ⟨d, hd, hdb⟩ := Text.allBlank_eq_false_iff.mp h
    rw [List.head?_eq_none_iff, List.dropWhile_eq_nil_iff] at hhead
    rw [hhead d hd] at hdb
    cases hdb
  | some c =>
    have hb := head?_dropWhile_isBlank hhead
    refine ⟨c, rfl, hb, ?_⟩
    have := settle_blank_append (u := s.takeWhile isBlank) (fun d => List.mem_takeWhile_imp) hhead hb
    rwa [List.takeWhile_append_dropWhile] at this

@[simp] theorem settle_settle (s : Text) : settle (settle s) = settle s := by
  cases h : Text.allBlank s with
  | true =>
    have e : settle s = [] := by rw [settle, if_pos h]
    rw [e]
    rfl
  | false =>
    obtain ⟨c, hhead, hb, e⟩ := settle_eq h
    have hsub : (afterFeeds (s.takeWhile isBlank)).dropWhile isReturnOrFeed ⊆ s.takeWhile isBlank :=
      List.Subset.trans (List.dropWhile_subset _) (afterFeeds_suffix _).subset
    have hfeed : '\n' ∉ (afterFeeds (s.takeWhile isBlank)).dropWhile isReturnOrFeed :=
      fun hm => no_newline_afterFeeds _ (List.dropWhile_subset _ hm)
    rw [e, settle_blank_append (fun d hd => List.mem_takeWhile_imp (hsub hd)) hhead hb,
      afterFeeds_of_no_newline hfeed, List.dropWhile_idempotent]

theorem takeWhile_isBlank_append {l : Text} (hb : Text.allBlank l = false) (s : Text) :
    (l ++ s).takeWhile isBlank = l.takeWhile isBlank := by
  obtain ⟨c, hc, hcb⟩ := Text.allBlank_eq_false_iff.mp hb
  rw [List.takeWhile_append, if_neg]
  intro e
  have hall := List.takeWhile_eq_self_iff.mp ((List.takeWhile_prefix _).eq_of_length e) c hc
  rw [hcb] at hall
  cases hall

theorem allBlank_append {l : Text} (hb : Text.allBlank l = false) (s : Text) :
    Text.allBlank (l ++ s) = false := by
  obtain ⟨c, hc, hcb⟩ := Text.allBlank_eq_false_iff.mp hb
  exact Text.allBlank_eq_false_iff.mpr ⟨c, List.mem_append_left _ hc, hcb⟩

/-- A body that starts with a line that is not blank stays as it is. -/
theorem settle_of_line {l : Text} (hl : '\n' ∉ l) (hr : l.head? ≠ some '\r')
    (hb : Text.allBlank l = false) (s : Text) : settle (l ++ s) = l ++ s := by
  have hrun := takeWhile_isBlank_append hb s
  have hfeed : '\n' ∉ (l ++ s).takeWhile isBlank := by
    rw [hrun]
    exact fun h => hl (List.takeWhile_subset _ h)
  rw [settle, if_neg (by simp [allBlank_append hb s]), afterFeeds_of_no_newline hfeed,
    List.takeWhile_append_dropWhile]
  cases l with
  | nil => cases hb
  | cons c l =>
    refine List.dropWhile_cons_of_neg fun h => ?_
    simp only [isReturnOrFeed, Bool.or_eq_true, beq_iff_eq] at h
    rcases h with rfl | rfl
    · exact hr rfl
    · exact hl List.mem_cons_self

/-! ## Boundaries -/

theorem isEmpty_dropWhile_isBlank (s : Text) :
    (s.dropWhile isBlank).isEmpty = Text.allBlank s := by
  cases h : Text.allBlank s <;> simp_all [Text.allBlank]

/-- What is left after a line of three hyphens. -/
theorem boundary?_fence (s : Text) : boundary? (fence ++ '\n' :: s) =
    some (if Text.allBlank s then []
      else '\n' :: (afterFeeds (s.takeWhile isBlank) ++ s.dropWhile isBlank)) := by
  have hhyphens : (fence ++ '\n' :: s).takeWhile (· == '-') = fence :=
    Text.takeWhile_append_stop (List.all_eq_true.mp (by decide)) fun d hd => by cases hd; decide
  have hspace : ('\n' :: s).takeWhile isBlank = '\n' :: s.takeWhile isBlank :=
    List.takeWhile_cons_of_pos rfl
  have hbeyond : ('\n' :: s).drop ('\n' :: s.takeWhile isBlank).length = s.dropWhile isBlank := by
    rw [List.length_cons, List.drop_succ_cons, Text.drop_takeWhile]
  simp only [boundary?, hhyphens, List.drop_left, hspace, hbeyond]
  rw [isEmpty_dropWhile_isBlank, if_neg (by decide)]
  cases Text.allBlank s with
  | true => rfl
  | false =>
    rw [← afterFeeds_newline_cons]
    simp [afterFeeds]

theorem boundary?_fence_line {l : Text} (hl : '\n' ∉ l) (hb : Text.allBlank l = false)
    (s : Text) : boundary? (fence ++ '\n' :: (l ++ s)) = some ('\n' :: (l ++ s)) := by
  have hfeed : '\n' ∉ (l ++ s).takeWhile isBlank := by
    rw [takeWhile_isBlank_append hb]
    exact fun h => hl (List.takeWhile_subset _ h)
  rw [boundary?_fence, allBlank_append hb, if_neg (by simp), afterFeeds_of_no_newline hfeed,
    List.takeWhile_append_dropWhile]

/-- Between the boundary that ends a header and the body is an empty line. -/
theorem boundary?_body (body : Text) : ∃ rest,
    boundary? (fence ++ '\n' :: '\n' :: body) = some rest ∧
      rest.dropWhile isReturnOrFeed = settle body := by
  refine ⟨_, boundary?_fence _, ?_⟩
  have hall : Text.allBlank ('\n' :: body) = Text.allBlank body := rfl
  rw [hall, settle]
  split
  · rfl
  · rw [List.takeWhile_cons_of_pos rfl, List.dropWhile_cons_of_pos rfl, afterFeeds_newline_cons,
      List.dropWhile_cons_of_pos rfl]

theorem boundary?_of_head {s : Text} (h : s.head? ≠ some '-') : boundary? s = none := by
  have hrun : s.takeWhile (· == '-') = [] := by
    cases s with
    | nil => rfl
    | cons c s => exact List.takeWhile_cons_of_neg (by simpa using h)
  simp [boundary?, hrun]

theorem nextBoundary?_append {x : Text} (hx : '\n' ∉ x) (s : Text) :
    nextBoundary? (x ++ s) = (nextBoundary? s).map fun (block, rest) => (x ++ block, rest) := by
  induction x with
  | nil => simp
  | cons c x ih =>
    rw [List.mem_cons, not_or] at hx
    rw [List.cons_append, nextBoundary?, if_neg (Ne.symm hx.1), ih hx.2]
    simp [Option.map_map, Function.comp_def]

/-- The search for the second boundary passes over lines that do not start with a hyphen. -/
theorem nextBoundary?_lines {ls : List Text} (hls : ∀ l ∈ ls, '\n' ∉ l ∧ l.head? ≠ some '-')
    {s rest : Text} (h : boundary? s = some rest) :
    nextBoundary? ('\n' :: (ls.flatMap (· ++ ['\n']) ++ s)) =
      some ('\n' :: ls.flatMap (· ++ ['\n']), rest) := by
  induction ls with
  | nil => simp [nextBoundary?, h]
  | cons l ls ih =>
    obtain ⟨⟨hl, hhead⟩, hls⟩ := List.forall_mem_cons.mp hls
    have hno : boundary? (l ++ '\n' :: (ls.flatMap (· ++ ['\n']) ++ s)) = none := by
      apply boundary?_of_head
      cases l with
      | nil => simp
      | cons c l => exact hhead
    have htext : (l :: ls).flatMap (· ++ ['\n']) ++ s =
        l ++ '\n' :: (ls.flatMap (· ++ ['\n']) ++ s) := by simp
    rw [htext, nextBoundary?, if_pos rfl, hno]
    simp only
    rw [nextBoundary?_append hl, ih hls]
    simp

theorem settle_of_boundary? {s rest : Text} (h : boundary? s = some rest) :
    settle (rest.dropWhile isReturnOrFeed) = rest.dropWhile isReturnOrFeed := by
  simp only [boundary?, Text.drop_takeWhile, isEmpty_dropWhile_isBlank] at h
  split at h
  · cases h
  · split at h
    · cases h; rfl
    · next hb =>
      split at h
      · cases h
        rw [List.cons_append, List.dropWhile_cons_of_pos rfl]
        have e : settle (s.dropWhile (· == '-')) = _ := if_neg hb
        rw [afterFeeds] at e
        rw [← e, settle_settle]
      · cases h

theorem nextBoundary?_eq_some {s block rest : Text} (h : nextBoundary? s = some (block, rest)) :
    ∃ r, s = block ++ r ∧ boundary? r = some rest := by
  induction s generalizing block with
  | nil => cases h
  | cons c s ih =>
    unfold nextBoundary? at h
    split at h
    · next rest' hrest =>
      obtain ⟨rfl, rfl⟩ := Prod.mk.inj (Option.some.inj h)
      split at hrest
      · exact ⟨s, rfl, hrest⟩
      · cases hrest
    · cases hs : nextBoundary? s with
      | none => rw [hs] at h; cases h
      | some found =>
        rw [hs] at h
        cases h
        obtain ⟨r, e, hr⟩ := ih hs
        exact ⟨r, by rw [e]; rfl, hr⟩

theorem split?_eq_some {s block body : Text} (h : split? s = some (block, body)) :
    ∃ r content, boundary? s = some (block ++ r) ∧ boundary? r = some content ∧
      body = content.dropWhile isReturnOrFeed := by
  unfold split? at h
  cases hs : boundary? s with
  | none => rw [hs] at h; cases h
  | some rest =>
    rw [hs, Option.bind_some] at h
    cases hn : nextBoundary? rest with
    | none => rw [hn] at h; cases h
    | some found =>
      rw [hn] at h
      cases h
      obtain ⟨r, e, hr⟩ := nextBoundary?_eq_some hn
      exact ⟨r, found.2, by rw [e], hr, rfl⟩

/-- The body below a header has no blank line at its start. -/
theorem settle_of_split? {s block body : Text} (h : split? s = some (block, body)) :
    settle body = body := by
  obtain ⟨r, content, -, hr, rfl⟩ := split?_eq_some h
  exact settle_of_boundary? hr

/-! ## Pages -/

theorem render_eq (h : Header) (body : Text) : render ⟨h, body⟩ =
    fence ++ '\n' :: (h.plainLines.flatMap (· ++ ['\n']) ++ (fence ++ '\n' :: '\n' :: body)) := by
  have hlines : h.plainLines.flatMap (· ++ ['\n']) = h.innerLines.flatMap (· ++ ['\n']) := by
    rw [Header.plainLines, List.flatMap_assoc]
    exact List.flatMap_congr fun l _ => Text.atNewlines_ended l
  rw [hlines]
  simp [render, Header.render]

/-- The lines between two lines of three hyphens, and the body after them. -/
theorem split?_lines {ls : List Text}
    (hls : ∀ l ∈ ls, Text.OneLine l ∧ Text.allBlank l = false ∧ l.head? ≠ some '-') (body : Text) :
    split? (fence ++ '\n' :: (ls.flatMap (· ++ ['\n']) ++ (fence ++ '\n' :: '\n' :: body))) =
      some ('\n' :: ls.flatMap (· ++ ['\n']), settle body) := by
  obtain ⟨rest, hrest, hbody⟩ := boundary?_body body
  have hstart : boundary?
      (fence ++ '\n' :: (ls.flatMap (· ++ ['\n']) ++ (fence ++ '\n' :: '\n' :: body))) =
        some ('\n' :: (ls.flatMap (· ++ ['\n']) ++ (fence ++ '\n' :: '\n' :: body))) := by
    cases ls with
    | nil => exact boundary?_fence_line (l := fence) (by decide) (by decide) _
    | cons l ls =>
      obtain ⟨hl, hb, -⟩ := hls l List.mem_cons_self
      rw [List.flatMap_cons, List.append_assoc, List.append_assoc]
      exact boundary?_fence_line hl.no_newline hb _
  have hnext := nextBoundary?_lines (fun l hl => ⟨(hls l hl).1.no_newline, (hls l hl).2.2⟩) hrest
  rw [split?, hstart, Option.bind_some, hnext, Option.map_some, ← hbody]

theorem split?_render {h : Header} (hh : h.Readable) (body : Text) :
    split? (render ⟨h, body⟩) =
      some ('\n' :: h.plainLines.flatMap (· ++ ['\n']), settle body) := by
  rw [render_eq]
  exact split?_lines hh.plainLines_oneLine body

/-- A page that is written out is read again. -/
theorem parse_render {h : Header} (hh : h.Readable) (body : Text) :
    parse (render ⟨h, body⟩) = .ok ⟨h.settled, settle body⟩ := by
  rw [parse, split?_render hh]
  simp only
  rw [hh.read_lines]
  rfl

theorem parse_of_split? {s block body : Text} {p : Page} (hsplit : split? s = some (block, body))
    (h : parse s = .ok p) : Header.read block = .ok p.header ∧ p.body = body := by
  rw [parse, hsplit] at h
  cases hread : Header.read block with
  | error e => simp [hread, Except.map] at h
  | ok header =>
    simp only [hread, Except.map, Except.ok.injEq] at h
    rw [← h]
    exact ⟨rfl, rfl⟩

theorem parse_of_no_split? {s : Text} {p : Page} (hsplit : split? s = none)
    (h : parse s = .ok p) : p = { body := s } := by
  rw [parse, hsplit] at h
  cases h
  rfl

theorem readable_of_parse {s : Text} {p : Page} (h : parse s = .ok p) : p.header.Readable := by
  cases hsplit : split? s with
  | none =>
    rw [parse_of_no_split? hsplit h]
    exact Header.Readable.empty
  | some found => exact Header.readable_of_read (parse_of_split? hsplit h).1

/-! ## Lines and characters of what is written -/

theorem no_return_render {h : Header} (hh : h.Readable) {body : Text} (hbody : '\r' ∉ body) :
    '\r' ∉ render ⟨h, body⟩ := by
  have hlines : '\r' ∉ h.plainLines.flatMap (· ++ ['\n']) := by
    intro hm
    obtain ⟨l, hl, hm⟩ := List.mem_flatMap.mp hm
    rcases List.mem_append.mp hm with hm | hm
    · exact (hh.plainLines_oneLine l hl).1.no_return hm
    · exact absurd hm (by decide)
  have hfence : '\r' ∉ fence := by decide
  rw [render_eq]
  simp only [List.mem_append, List.mem_cons, not_or]
  exact ⟨hfence, by decide, hlines, hfence, by decide, by decide, hbody⟩

/-- All of a body but line feeds is in the text of its page. -/
theorem mem_of_mem_body {s : Text} {p : Page} (h : parse s = .ok p) {c : Char} (hc : c ∈ p.body)
    (hfeed : c ≠ '\n') : c ∈ s := by
  have hboundary : ∀ {u rest : Text}, boundary? u = some rest → c ∈ rest → c ∈ u := by
    intro u rest hu hm
    have hsub : u.dropWhile (· == '-') ⊆ u := List.dropWhile_subset _
    simp only [boundary?, Text.drop_takeWhile] at hu
    split at hu
    · cases hu
    · split at hu
      · cases hu; cases hm
      · split at hu
        · cases hu
          rw [List.cons_append, List.mem_cons, List.mem_append] at hm
          rcases hm with hm | hm | hm
          · exact absurd hm hfeed
          · exact hsub (List.takeWhile_subset _ ((afterFeeds_suffix _).subset hm))
          · exact hsub (List.dropWhile_subset _ hm)
        · cases hu
  cases hsplit : split? s with
  | none =>
    rw [parse_of_no_split? hsplit h] at hc
    exact hc
  | some found =>
    obtain ⟨r, content, hs, hr, hbody⟩ := split?_eq_some hsplit
    rw [(parse_of_split? hsplit h).2, hbody] at hc
    exact hboundary hs (List.mem_append_right _ (hboundary hr (List.dropWhile_subset _ hc)))

end Marginalia.Page
