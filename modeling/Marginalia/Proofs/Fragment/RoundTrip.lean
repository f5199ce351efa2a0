import Marginalia.Proofs.Fragment.Page
import Marginalia.Proofs.Session.Pages

/-!
# Pages that are written are read again

A header that is handed over to be written is `Writable`. Its block of counts may be meant for a place
beyond all fields; it is then written at their end, as that of a header with the place there
(`render_placed`), which is readable. So a page with a writable header is read again with the same
fields and counts, and its body without the blank lines at its start (`reads_back`).
-/

namespace Marginalia

open Header (IsKey IsValue IsPath isKeyStart isKeyChar refsKey)

/-! ## Characters of keys -/

/-- No line boundary is a letter or a number. -/
theorem isWord_of_isLineEnd {c : Char} (h : Text.isLineEnd c = true) : isWord c = false := by
  have hcases : c.toNat ∈ [0x0A, 0x0B, 0x0C, 0x0D, 0x1C, 0x1D, 0x1E, 0x85, 0x2028, 0x2029] := by
    simp [Text.isLineEnd] at h ⊢
    omega
  have hall : ∀ n ∈ [0x0A, 0x0B, 0x0C, 0x0D, 0x1C, 0x1D, 0x1E, 0x85, 0x2028, 0x2029],
      isWord (Char.ofNat n) = false := by decide +kernel
  have hc := hall _ hcases
  rwa [Char.ofNat_toNat] at hc

theorem isKeyChar_of_isKeyStart {c : Char} (h : isKeyStart c = true) : isKeyChar c = true := by
  simp only [isKeyStart, Bool.or_eq_true, beq_iff_eq] at h
  rcases h with h | rfl
  · simp [isKeyChar, isWord, isAsciiWord, h]
  · rfl

theorem Header.IsKey.of_chars {k r : Text} {c : Char} (hk : k = c :: r) (hc : isKeyStart c = true)
    (hr : ∀ d ∈ r, isKeyChar d = true) (hne : k ≠ refsKey) : IsKey k := by
  have hchars : ∀ d ∈ k, isKeyChar d = true := by
    rw [hk]
    exact List.forall_mem_cons.mpr ⟨isKeyChar_of_isKeyStart hc, hr⟩
  refine ⟨⟨c, r, hk, hc⟩, hchars, fun d hd => ?_, hne⟩
  cases hend : Text.isLineEnd d with
  | false => rfl
  | true =>
    have hdash : d ≠ '-' := fun e => by rw [e] at hend; exact absurd hend (by decide)
    have := hchars d hd
    simp [isKeyChar, isWord_of_isLineEnd hend, hdash] at this

/-! ## Headers to be written -/

namespace Header

/-- A header as it may be handed over to be written: any keys and values of the form that fields
have, counts of paths that have entries, and the block of counts at any place. -/
structure Writable (h : Header) : Prop where
  keys : ∀ f ∈ h.fields, f.1 ≠ refsKey ∧
    ∃ c r, f.1 = c :: r ∧ isKeyStart c = true ∧ ∀ d ∈ r, isKeyChar d = true
  values : ∀ f ∈ h.fields, IsValue f.2
  ascending : h.refs.Ascending
  paths : ∀ e ∈ h.refs.entries, IsPath e.1
  positive : ∀ e ∈ h.refs.entries, 0 < e.2
  short : ∀ e ∈ h.refs.entries, e.2.natAbs < 10 ^ Numeral.limit
  place : ∀ i, h.refsPlace = some i → 0 ≤ i

/-- The header with its block of counts at the end of the fields when it was beyond. -/
def placed (h : Header) : Header :=
  { h with refsPlace := h.refsPlace.map fun i => min i h.fields.length }

theorem Writable.readable {h : Header} (hh : h.Writable) : h.placed.Readable where
  fields f hf := by
    obtain ⟨hne, c, r, hk, hc, hr⟩ := hh.keys f hf
    exact ⟨.of_chars hk hc hr hne, hh.values f hf⟩
  ascending := hh.ascending
  paths := hh.paths
  positive := hh.positive
  short := hh.short
  place i hi := by
    obtain ⟨j, hj, rfl⟩ := Option.map_eq_some_iff.mp hi
    obtain ⟨k, rfl⟩ := Int.eq_ofNat_of_zero_le (hh.place j hj)
    exact ⟨min k h.fields.length, by omega, Nat.min_le_right ..⟩

theorem Writable.innerLines_placed {h : Header} (hh : h.Writable) :
    h.placed.innerLines = h.innerLines := by
  cases hp : h.refsPlace with
  | none => simp [innerLines, placed, hp]
  | some i =>
    obtain ⟨k, rfl⟩ := Int.eq_ofNat_of_zero_le (hh.place i hp)
    have hmin : min (k : Int) h.fields.length = Int.ofNat (min k h.fields.length) := by
      rw [Int.ofNat_eq_natCast]
      omega
    simp only [innerLines, placed, hp, Option.map_some, hmin]
    rcases Nat.le_total k h.fields.length with hk | hk
    · rw [Nat.min_eq_left hk]
    · -- both ways all fields stand before the block
      have hlen : (h.fields.map fieldLine).length ≤ h.fields.length := by simp
      have hbeyond := Nat.le_trans hlen hk
      show (h.fields.map fieldLine).take (min k _) ++ _ ++ (h.fields.map fieldLine).drop (min k _) =
        (h.fields.map fieldLine).take k ++ _ ++ (h.fields.map fieldLine).drop k
      rw [Nat.min_eq_right hk, List.take_of_length_le hlen, List.drop_of_length_le hlen,
        List.take_of_length_le hbeyond, List.drop_of_length_le hbeyond]

end Header

/-! ## Bodies -/

namespace Page

/-- How a body is read: one that is all blank as nothing, any other without what ends with the last
line feed of the blank run at its start. -/
inductive ReadsAs : Text → Text → Prop
  | blank {body : Text} (h : Text.allBlank body = true) : ReadsAs body []
  | text {dropped space rest : Text} {c : Char} (hd : Text.allBlank dropped = true)
      (hend : dropped = [] ∨ dropped.getLast? = some '\n') (hs : Text.allBlank space = true)
      (hfeed : '\n' ∉ space) (hc : isBlank c = false) :
      ReadsAs (dropped ++ (space ++ c :: rest)) (space ++ c :: rest)

theorem exists_append_afterFeeds (s : Text) :
    ∃ dropped, s = dropped ++ afterFeeds s ∧ (dropped = [] ∨ dropped.getLast? = some '\n') := by
  refine ⟨(s.reverse.dropWhile (· != '\n')).reverse, ?_, ?_⟩
  · rw [afterFeeds, ← List.reverse_append, List.takeWhile_append_dropWhile, List.reverse_reverse]
  · cases h : s.reverse.dropWhile (· != '\n') with
    | nil => exact .inl rfl
    | cons c r =>
      right
      have := List.head?_dropWhile_not (· != '\n') s.reverse
      rw [h] at this
      simpa using this

theorem readsAs_settle {body : Text} (hbody : '\r' ∉ body) : ReadsAs body (settle body) := by
  cases hall : Text.allBlank body with
  | true =>
    have hsettle : settle body = [] := if_pos hall
    rw [hsettle]
    exact .blank hall
  | false =>
    obtain ⟨c, hhead, hc, hsettle⟩ := settle_eq hall
    obtain ⟨dropped, hrun, hend⟩ := exists_append_afterFeeds (body.takeWhile isBlank)
    obtain ⟨rest, hrest⟩ : ∃ rest, body.dropWhile isBlank = c :: rest := by
      cases hd : body.dropWhile isBlank with
      | nil => rw [hd] at hhead; cases hhead
      | cons d rest =>
        rw [hd] at hhead
        cases hhead
        exact ⟨rest, rfl⟩
    have hkeep : (afterFeeds (body.takeWhile isBlank)).dropWhile isReturnOrFeed =
        afterFeeds (body.takeWhile isBlank) := by
      cases ha : afterFeeds (body.takeWhile isBlank) with
      | nil => rfl
      | cons d r =>
        have hmem : d ∈ afterFeeds (body.takeWhile isBlank) := by rw [ha]; exact List.mem_cons_self
        refine List.dropWhile_cons_of_neg fun h => ?_
        simp only [isReturnOrFeed, Bool.or_eq_true, beq_iff_eq] at h
        rcases h with rfl | rfl
        · exact hbody (List.takeWhile_subset _ ((afterFeeds_suffix _).subset hmem))
        · exact no_newline_afterFeeds _ hmem
    have hblank : ∀ part ⊆ body.takeWhile isBlank, Text.allBlank part = true := fun part hpart =>
      List.all_eq_true.mpr fun d hd => List.mem_takeWhile_imp (hpart hd)
    have hsplit : body = dropped ++ (afterFeeds (body.takeWhile isBlank) ++ c :: rest) := by
      rw [← List.append_assoc, ← hrun, ← hrest, List.takeWhile_append_dropWhile]
    have hdropped : dropped ⊆ body.takeWhile isBlank := by
      conv_rhs => rw [hrun]
      exact List.subset_append_left ..
    rw [hsettle, hkeep, hrest]
    conv_lhs => rw [hsplit]
    exact .text (hblank _ hdropped) hend (hblank _ (afterFeeds_suffix _).subset)
      (no_newline_afterFeeds _) hc

/-! ## Reading back -/

theorem render_placed {h : Header} (hh : h.Writable) (body : Text) :
    render ⟨h.placed, body⟩ = render ⟨h, body⟩ := by
  simp only [render, Header.render, hh.innerLines_placed]

/-- A page can be written and is read again: the fields in their order, the counts, and the body
without the blank lines at its start, which is the body itself when its first line is not blank. -/
theorem reads_back {h : Header} (hh : h.Writable) {body : Text} (hbody : '\r' ∉ body) :
    h.excess? = none ∧ ∃ q, parse (render ⟨h, body⟩) = .ok q ∧ q.header.fields = h.fields ∧
      q.header.refs = h.refs ∧ ReadsAs body q.body ∧
      ∀ line rest, body = line ++ rest → '\n' ∉ line → Text.allBlank line = false →
        q.body = body := by
  refine ⟨Session.excess?_eq_none_iff.mpr hh.short, ⟨h.placed.settled, settle body⟩, ?_, rfl, rfl,
    readsAs_settle hbody, fun line rest hsplit hfeed hline => ?_⟩
  · rw [← render_placed hh, parse_render hh.readable]
  · subst hsplit
    exact settle_of_line hfeed (fun e => hbody (List.mem_append_left _ (List.mem_of_head? e)))
      hline rest

/-- A header whose counts are meant for a place beyond its fields, with a value that goes on over
lines that look like a boundary and like a count. -/
def farPlaced : Header :=
  { fields := [("note".toList, "|\n ---\n\t1@b".toList), (Header.idKey, ['5'])]
    refs := ⟨[("---".toList, 3), ("a@b c".toList, 12)]⟩
    refsPlace := some 7 }

theorem farPlaced_reads_back : farPlaced.Writable ∧ '\r' ∉ "  \n\n --- \n---\nx".toList ∧
    ∃ q, parse (render ⟨farPlaced, "  \n\n --- \n---\nx".toList⟩) = .ok q ∧
      q.header.fields = farPlaced.fields ∧ q.header.refs = farPlaced.refs ∧
      q.body = " --- \n---\nx".toList := by
  have hcontinues : ∀ l ∈ [" ---".toList, "\t1@b".toList], Header.Continues l := by
    refine List.forall_mem_cons.mpr ⟨⟨by decide, by decide, by decide, by decide⟩,
      List.forall_mem_cons.mpr ⟨⟨by decide, by decide, by decide, by decide⟩, by simp⟩⟩
  have hh : farPlaced.Writable :=
    { keys := List.forall_mem_cons.mpr
        ⟨⟨by decide, 'n', "ote".toList, rfl, by decide, List.all_eq_true.mp (by decide)⟩,
          List.forall_mem_cons.mpr
            ⟨⟨by decide, 'i', ['d'], rfl, by decide, List.all_eq_true.mp (by decide)⟩, by simp⟩⟩
      values := List.forall_mem_cons.mpr
        ⟨⟨['|'], _, by decide, by decide, by decide, hcontinues⟩,
          List.forall_mem_cons.mpr
            ⟨isValue_of_digits (List.all_eq_true.mp (by decide)), by simp⟩⟩
      ascending := List.pairwise_pair.mpr (by decide)
      paths := List.forall_mem_cons.mpr ⟨⟨by decide, by decide, by decide⟩,
        List.forall_mem_cons.mpr ⟨⟨by decide, by decide, by decide⟩, by simp⟩⟩
      positive := by decide
      short := List.forall_mem_cons.mpr ⟨(Numeral.length_ofNat_le_iff (by decide)).mp (by decide),
        List.forall_mem_cons.mpr ⟨(Numeral.length_ofNat_le_iff (by decide)).mp (by decide), by simp⟩⟩
      place := by decide }
  have hbody : '\r' ∉ "  \n\n --- \n---\nx".toList := by decide
  obtain ⟨-, q, hq, hfields, hrefs, -⟩ := reads_back hh hbody
  have hparse : parse (render ⟨farPlaced, "  \n\n --- \n---\nx".toList⟩) =
      .ok ⟨{ farPlaced with refsPlace := some 2 }, " --- \n---\nx".toList⟩ := by decide +kernel
  refine ⟨hh, hbody, q, hq, hfields, hrefs, ?_⟩
  rw [hparse] at hq
  cases hq
  rfl

end Page

end Marginalia
