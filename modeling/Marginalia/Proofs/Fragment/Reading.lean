import Marginalia.Proofs.Fragment.Header

/-!
# What is read of a header

A header that was read is `Readable`: every line keeps that (`Reading.addLine_readable`), and so do
the changes made to headers. Of the lines of a block those of fields are kept (`keptLines`), in a form
that reads the same; all others are left out (`otherLines_read`).
-/

namespace Marginalia

open Text (OneLine)

namespace Header

/-! ## What was read is readable -/

theorem Readable.mergeRef {h : Header} (hh : h.Readable) {path : Text} {n : Int}
    (hp : 0 < n → IsPath path) (hn : 0 < n → n.natAbs < 10 ^ Numeral.limit) :
    (h.mergeRef path n).Readable where
  fields := hh.fields
  ascending := hh.ascending.merge path n
  paths e he := by
    rcases Refs.mem_merge he with ⟨rfl, h0⟩ | he
    · exact hp h0
    · exact hh.paths e he
  positive e he := by
    rcases Refs.mem_merge he with ⟨rfl, h0⟩ | he
    · exact h0
    · exact hh.positive e he
  short e he := by
    rcases Refs.mem_merge he with ⟨rfl, h0⟩ | he
    · exact hn h0
    · exact hh.short e he
  place := hh.place

theorem Readable.addField {h : Header} (hh : h.Readable) {f : Text × Text} (hk : IsKey f.1)
    (hv : IsValue f.2) : { h with fields := h.fields ++ [f] : Header }.Readable where
  fields g hg := by
    rcases List.mem_append.mp hg with hg | hg
    · exact hh.fields g hg
    · rw [List.mem_singleton.mp hg]; exact ⟨hk, hv⟩
  ascending := hh.ascending
  paths := hh.paths
  positive := hh.positive
  short := hh.short
  place i hi := by
    obtain ⟨k, rfl, hk⟩ := hh.place i hi
    exact ⟨k, rfl, by simp; omega⟩

theorem Readable.setLast {h : Header} (hh : h.Readable) {k v w : Text}
    (hlast : h.fields.getLast? = some (k, v)) (hw : IsValue v → IsValue w) :
    { h with fields := h.fields.dropLast ++ [(k, w)] : Header }.Readable where
  fields g hg := by
    rcases List.mem_append.mp hg with hg | hg
    · exact hh.fields g (List.dropLast_subset _ hg)
    · obtain ⟨hk, hv⟩ := hh.fields _ (List.mem_of_getLast? hlast)
      rw [List.mem_singleton.mp hg]
      exact ⟨hk, hw hv⟩
  ascending := hh.ascending
  paths := hh.paths
  positive := hh.positive
  short := hh.short
  place i hi := by
    obtain ⟨k, rfl, hk⟩ := hh.place i hi
    have hpos : 0 < h.fields.length :=
      List.length_pos_of_mem (List.mem_of_getLast? hlast)
    exact ⟨k, rfl, by simp; omega⟩

theorem Readable.setPlace {h : Header} (hh : h.Readable) :
    { h with refsPlace := some (h.refsPlace.getD h.fields.length) : Header }.Readable where
  fields := hh.fields
  ascending := hh.ascending
  paths := hh.paths
  positive := hh.positive
  short := hh.short
  place i hi := by
    obtain ⟨k, hk, hplace, -⟩ := hh.plainLines_eq
    cases hi
    exact ⟨k, hplace, hk⟩

theorem IsValue.of_line {first : Text} (htrim : Text.trim first = first) (h : OneLine first) :
    IsValue first :=
  ⟨first, [], by simp, htrim, h, by simp⟩

theorem IsValue.continue {v l : Text} (hv : IsValue v) (hl : Continues l) :
    IsValue (v ++ '\n' :: l) := by
  obtain ⟨first, more, rfl, htrim, hfirst, hmore⟩ := hv
  refine ⟨first, more ++ [l], by simp, htrim, hfirst, fun m hm => ?_⟩
  rcases List.mem_append.mp hm with hm | hm
  · exact hmore m hm
  · rw [List.mem_singleton.mp hm]; exact hl

theorem Continues.of_line {l : Text} (hl : OneLine l) (hblank : Text.allBlank l = false)
    (hindent : isIndented l = true) : Continues (Text.trimEnd l) := by
  have hne := Text.trimEnd_ne_nil hblank
  have hhead : (Text.trimEnd l).head? = l.head? := Text.head?_dropEndWhile hne
  refine ⟨?_, ?_, Text.trimEnd_trimEnd l, hl.of_subset (Text.trimEnd_subset l)⟩
  · cases l with
    | nil => exact absurd rfl hne
    | cons c r =>
      cases ht : Text.trimEnd (c :: r) with
      | nil => exact absurd ht hne
      | cons d u =>
        rw [ht] at hhead
        cases hhead
        exact hindent
  · have hlast := List.getLast?_eq_some_getLast hne
    exact Text.allBlank_eq_false_iff.mpr ⟨_, List.getLast_mem hne,
      Text.getLast_dropEndWhile hlast⟩

namespace Reading

/-- Every line keeps a header readable. -/
theorem addLine_readable {r r' : Reading} {l : Text} (hr : r.header.Readable) (hl : OneLine l)
    (h : r.addLine l = .ok r') : r'.header.Readable := by
  unfold addLine at h
  split at h
  · cases h; exact hr
  · next hblank =>
    have hblank : Text.allBlank l = false := by simpa using hblank
    split at h
    · -- an entry
      unfold addEntry at h
      split at h
      · cases h; exact hr
      · next digits path hentry =>
        split at h
        · cases h
        · next hlen =>
          cases h
          obtain ⟨hpath, hdigits⟩ := readEntry?_eq_some hentry hl
          refine hr.mergeRef (fun _ => hpath) fun _ => ?_
          rw [Int.natAbs_natCast]
          exact Nat.lt_of_lt_of_le (Numeral.value_lt hdigits)
            (Nat.pow_le_pow_right (by decide) (Nat.le_of_not_lt hlen))
    · simp only at h
      split at h
      · -- a line that goes on with a value
        next hcond =>
        rw [Bool.and_eq_true] at hcond
        cases h
        unfold continueField
        split
        · exact hr
        · next key value hlast =>
          exact hr.setLast hlast fun hv =>
            hv.continue (Continues.of_line hl hblank hcond.1)
      · split at h
        · cases h; exact hr
        · next key value hpair =>
          obtain ⟨hk, htrim, hone⟩ := readPair?_eq_some hpair hl
          cases h
          unfold addPair
          split
          · exact hr.setPlace
          · next hkey => exact hr.addField (hk hkey) (IsValue.of_line htrim hone)

end Reading

theorem readable_of_read {block : Text} {h : Header} (hread : read block = .ok h) :
    h.Readable := by
  unfold read at hread
  have hfold : ∀ (ls : List Text) (r r' : Reading), (∀ l ∈ ls, OneLine l) →
      r.header.Readable → ls.foldlM Reading.addLine r = .ok r' → r'.header.Readable := by
    intro ls
    induction ls with
    | nil => intro r r' _ hr hf; cases hf; exact hr
    | cons l ls ih =>
      intro r r' hls hr hf
      obtain ⟨hl, hls⟩ := List.forall_mem_cons.mp hls
      rw [List.foldlM_cons] at hf
      cases hadd : r.addLine l with
      | error e => rw [hadd] at hf; cases hf
      | ok r₁ =>
        rw [hadd] at hf
        exact ih r₁ r' hls (Reading.addLine_readable hr hl hadd) hf
  cases hf : (Text.lines block).foldlM Reading.addLine {} with
  | error e => rw [hf] at hread; cases hread
  | ok r =>
    rw [hf] at hread
    cases hread
    exact hfold _ _ _ (fun l => Text.oneLine_of_mem_lines) Readable.empty hf

theorem mem_setField {key value : Text} {fs : List (Text × Text)} {f : Text × Text}
    (h : f ∈ setField key value fs) : f = (key, value) ∨ f ∈ fs := by
  induction fs with
  | nil => exact .inl (List.mem_singleton.mp h)
  | cons g fs ih =>
    obtain ⟨k, v⟩ := g
    unfold setField at h
    split at h
    · rcases List.mem_cons.mp h with h | h
      · exact .inl h
      · exact .inr (List.mem_cons_of_mem _ h)
    · rcases List.mem_cons.mp h with rfl | h
      · exact .inr List.mem_cons_self
      · exact (ih h).imp_right (List.mem_cons_of_mem _)

theorem length_setField (key value : Text) (fs : List (Text × Text)) :
    fs.length ≤ (setField key value fs).length := by
  induction fs with
  | nil => simp
  | cons g fs ih =>
    obtain ⟨k, v⟩ := g
    unfold setField
    split <;> simp
    omega

theorem Readable.set {h : Header} (hh : h.Readable) {key value : Text} (hk : IsKey key)
    (hv : IsValue value) : (h.set key value).Readable where
  fields f hf := by
    rcases mem_setField hf with rfl | hf
    · exact ⟨hk, hv⟩
    · exact hh.fields f hf
  ascending := hh.ascending
  paths := hh.paths
  positive := hh.positive
  short := hh.short
  place i hi := by
    obtain ⟨k, rfl, hk⟩ := hh.place i hi
    exact ⟨k, rfl, Nat.le_trans hk (length_setField ..)⟩

theorem setField_setField (key v w : Text) (fs : List (Text × Text)) :
    setField key w (setField key v fs) = setField key w fs := by
  induction fs with
  | nil => simp [setField]
  | cons g fs ih =>
    obtain ⟨k, u⟩ := g
    by_cases h : k = key
    · simp [setField, h]
    · simp [setField, h, ih]

theorem lookup_setField_self (key v : Text) (fs : List (Text × Text)) :
    (setField key v fs).lookup key = some v := by
  induction fs with
  | nil => simp [setField]
  | cons g fs ih =>
    obtain ⟨k, u⟩ := g
    by_cases h : k = key
    · simp [setField, h]
    · have hne : (key == k) = false := by simpa using Ne.symm h
      rw [setField, if_neg h, List.lookup_cons, hne, ih]

/-- Setting a key that is there adds no field. -/
theorem length_setField_of_lookup {key v : Text} {fs : List (Text × Text)}
    (h : fs.lookup key ≠ none) : (setField key v fs).length = fs.length := by
  induction fs with
  | nil => exact absurd rfl h
  | cons g fs ih =>
    obtain ⟨k, u⟩ := g
    by_cases hk : k = key
    · simp [setField, hk]
    · have hne : (key == k) = false := by simpa using Ne.symm hk
      rw [List.lookup_cons, hne] at h
      rw [setField, if_neg hk, List.length_cons, ih h, List.length_cons]

theorem filter_setField (key v : Text) (fs : List (Text × Text)) :
    (setField key v fs).filter (fun f => f.1 != key) = fs.filter fun f => f.1 != key := by
  induction fs with
  | nil => simp [setField]
  | cons g fs ih =>
    obtain ⟨k, u⟩ := g
    by_cases h : k = key
    · simp [setField, h]
    · simp [setField, h, ih]

/-- The lines of all fields stand in their order among the lines written. -/
theorem Readable.ownLines_sublist {h : Header} (hh : h.Readable) :
    (h.fields.flatMap ownLines).Sublist h.plainLines := by
  obtain ⟨k, -, -, e⟩ := hh.plainLines_eq
  have hsplit : h.fields.flatMap ownLines =
      (h.fields.take k).flatMap ownLines ++ (h.fields.drop k).flatMap ownLines := by
    rw [← List.flatMap_append, List.take_append_drop]
  rw [hsplit, e]
  exact (List.sublist_append_left ..).append (.refl _)

/-! ## The lines that are kept -/

/-- The lines of all fields but the id. -/
def otherLines (fs : List (Text × Text)) : List Text :=
  (fs.filter fun f => f.1 != idKey).flatMap ownLines

/-- Of the lines of a block those that belong to fields other than the id, in the form in which
they are written. `counting` says whether the lines just read belong to the block of counts, and
`last` whether there was a field and whether its lines are kept. -/
def keptLines (counting : Bool) (last : Option Bool) : List Text → List Text
  | [] => []
  | l :: ls =>
    if Text.allBlank l then keptLines counting last ls
    else if counting && isIndented l then keptLines counting last ls
    else if isIndented l && last.isSome then
      (if last = some true then [Text.trimEnd l] else []) ++ keptLines false last ls
    else
      match readPair? l with
      | none => keptLines false last ls
      | some (key, value) =>
        if key = refsKey then keptLines true last ls
        else if key = idKey then keptLines false (some false) ls
        else pairLine key value :: keptLines false (some true) ls

theorem otherLines_append (fs gs : List (Text × Text)) :
    otherLines (fs ++ gs) = otherLines fs ++ otherLines gs := by
  simp [otherLines]

theorem otherLines_of_ne {f : Text × Text} (h : f.1 ≠ idKey) : otherLines [f] = ownLines f := by
  simp [otherLines, h]

theorem otherLines_of_eq {f : Text × Text} (h : f.1 = idKey) : otherLines [f] = [] := by
  simp [otherLines, h]

theorem ownLines_continue {k v l : Text} (hk : IsKey k) (hv : IsValue v) (hl : Continues l) :
    ownLines (k, v ++ '\n' :: l) = ownLines (k, v) ++ [l] := by
  obtain ⟨first, more, rfl, -, hfirst, hmore⟩ := hv
  have hall : ∀ m ∈ more ++ [l], Continues m := fun m hm => by
    rcases List.mem_append.mp hm with hm | hm
    · exact hmore m hm
    · rw [List.mem_singleton.mp hm]; exact hl
  have happ : first ++ more.flatMap ('\n' :: ·) ++ '\n' :: l =
      first ++ (more ++ [l]).flatMap ('\n' :: ·) := by simp
  rw [happ, ownLines_eq hk hfirst hmore, ownLines_eq hk hfirst hall]
  rfl

/-- Whether there is a field and whether the lines of the last one are kept. -/
def lastKept (fs : List (Text × Text)) : Option Bool := fs.getLast?.map fun f => f.1 != idKey

theorem Reading.addEntry_fields {r r' : Reading} {l : Text} (h : r.addEntry l = .ok r') :
    r'.header.fields = r.header.fields ∧ r'.inRefs = r.inRefs := by
  unfold addEntry at h
  split at h
  · cases h; exact ⟨rfl, rfl⟩
  · split at h
    · cases h
    · cases h; exact ⟨rfl, rfl⟩

/-- What one line adds to the lines that are kept. -/
theorem Reading.otherLines_addLine {r r' : Reading} {l : Text} (hr : r.header.Readable)
    (hl : OneLine l) (h : r.addLine l = .ok r') (ls : List Text) :
    otherLines r'.header.fields ++ keptLines r'.inRefs (lastKept r'.header.fields) ls =
      otherLines r.header.fields ++ keptLines r.inRefs (lastKept r.header.fields) (l :: ls) := by
  unfold addLine at h
  rw [keptLines]
  by_cases hblank : Text.allBlank l = true
  · rw [if_pos hblank] at h ⊢
    cases h
    rfl
  rw [if_neg hblank] at h ⊢
  by_cases hentry : (r.inRefs && isIndented l) = true
  · rw [if_pos hentry] at h ⊢
    obtain ⟨hfields, hrefs⟩ := addEntry_fields h
    rw [hfields, hrefs]
  rw [if_neg hentry] at h ⊢
  simp only at h
  have hsome : (!r.header.fields.isEmpty) = (lastKept r.header.fields).isSome := by
    cases hf : r.header.fields <;> simp [lastKept, List.getLast?_cons]
  rw [hsome] at h
  by_cases hcont : (isIndented l && (lastKept r.header.fields).isSome) = true
  · -- a line that goes on with the last field
    rw [if_pos hcont] at h ⊢
    cases h
    rw [Bool.and_eq_true] at hcont
    unfold continueField
    simp only
    cases hlast : r.header.fields.getLast? with
    | none => simp [lastKept, hlast] at hcont
    | some f =>
      obtain ⟨k, v⟩ := f
      obtain ⟨hk, hv⟩ := hr.fields _ (List.mem_of_getLast? hlast)
      have hl' := Continues.of_line hl (by simpa using hblank) hcont.1
      have hfields : r.header.fields = r.header.fields.dropLast ++ [(k, v)] :=
        (List.dropLast_append_getLast? _ hlast).symm
      have hkept : lastKept r.header.fields = some (k != idKey) := by simp [lastKept, hlast]
      have hkept' : ∀ fs w, lastKept (fs ++ [(k, w)]) = some (k != idKey) := fun fs w => by
        simp [lastKept]
      simp only [hkept, hkept', otherLines_append]
      conv_rhs => rw [hfields, otherLines_append]
      by_cases hid : k = idKey
      · simp [otherLines_of_eq, hid]
      · simp [otherLines_of_ne, hid, ownLines_continue hk hv hl']
  rw [if_neg hcont] at h ⊢
  cases hpair : readPair? l with
  | none => rw [hpair] at h; cases h; rfl
  | some f =>
    obtain ⟨k, v⟩ := f
    obtain ⟨hk, -, hone⟩ := readPair?_eq_some hpair hl
    rw [hpair] at h
    cases h
    simp only [addPair]
    by_cases href : k = refsKey
    · rw [if_pos href, if_pos href]
    rw [if_neg href, if_neg href]
    by_cases hid : k = idKey
    · simp [otherLines_append, otherLines_of_eq, hid, lastKept]
    · have hlines : ownLines (k, v) = [pairLine k v] := by
        have := ownLines_eq (hk href) hone (List.forall_mem_nil _)
        rwa [List.flatMap_nil, List.append_nil] at this
      have hne : (k != idKey) = true := by simpa using hid
      simp [otherLines_append, otherLines_of_ne, hid, lastKept, hlines, hne]

theorem Reading.otherLines_foldlM {ls : List Text} {r r' : Reading} (hr : r.header.Readable)
    (hls : ∀ l ∈ ls, OneLine l) (h : ls.foldlM Reading.addLine r = .ok r') :
    otherLines r'.header.fields =
      otherLines r.header.fields ++ keptLines r.inRefs (lastKept r.header.fields) ls := by
  induction ls generalizing r with
  | nil => cases h; simp [keptLines]
  | cons l ls ih =>
    obtain ⟨hl, hls⟩ := List.forall_mem_cons.mp hls
    rw [List.foldlM_cons] at h
    cases hadd : r.addLine l with
    | error e => rw [hadd] at h; cases h
    | ok r₁ =>
      rw [hadd] at h
      rw [ih (addLine_readable hr hl hadd) hls h, otherLines_addLine hr hl hadd]

theorem otherLines_read {block : Text} {h : Header} (hread : read block = .ok h) :
    otherLines h.fields = keptLines false none (Text.lines block) := by
  unfold read at hread
  cases hf : (Text.lines block).foldlM Reading.addLine {} with
  | error e => rw [hf] at hread; cases hread
  | ok r =>
    rw [hf] at hread
    cases hread
    exact Reading.otherLines_foldlM Readable.empty (fun l => Text.oneLine_of_mem_lines) hf

end Header

end Marginalia
