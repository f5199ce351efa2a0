import Marginalia.Fragment.Header
import Marginalia.Proofs.Fragment.Refs
import Marginalia.Proofs.Numerals
import Marginalia.Proofs.Text.Lines
import Marginalia.Proofs.Text.Runs

/-!
# Headers that read back

A header is `Readable` when its keys, values and paths are of a form in which they are written out
and found again: the lines written for such a header are read as that header (`read_lines`). What is
lost in between is only where an empty block of counts was.
-/

namespace Marginalia

open Text (OneLine)

namespace Header

/-! ## Readable headers -/

/-- A line that goes on with the value of a field. -/
structure Continues (l : Text) : Prop where
  indented : isIndented l = true
  not_blank : Text.allBlank l = false
  trimmed : Text.trimEnd l = l
  oneLine : OneLine l

/-- A trimmed line, and lines that go on with it. -/
def IsValue (v : Text) : Prop :=
  ∃ (first : Text) (more : List Text), v = first ++ more.flatMap ('\n' :: ·) ∧ Text.trim first = first ∧
    OneLine first ∧ ∀ l ∈ more, Continues l

structure IsKey (k : Text) : Prop where
  start : ∃ c r, k = c :: r ∧ isKeyStart c = true
  chars : ∀ c ∈ k, isKeyChar c = true
  oneLine : OneLine k
  not_refs : k ≠ refsKey

/-- A path that an entry of the block of counts can have. -/
structure IsPath (p : Text) : Prop where
  not_empty : p ≠ []
  trimmed : Text.trim p = p
  oneLine : OneLine p

structure Readable (h : Header) : Prop where
  fields : ∀ f ∈ h.fields, IsKey f.1 ∧ IsValue f.2
  ascending : h.refs.Ascending
  paths : ∀ e ∈ h.refs.entries, IsPath e.1
  positive : ∀ e ∈ h.refs.entries, 0 < e.2
  short : ∀ e ∈ h.refs.entries, e.2.natAbs < 10 ^ Numeral.limit
  place : ∀ i, h.refsPlace = some i → ∃ k : Nat, i = k ∧ k ≤ h.fields.length

theorem Readable.empty : ({} : Header).Readable where
  fields _ h := by cases h
  ascending := List.Pairwise.nil
  paths _ h := by cases h
  positive _ h := by cases h
  short _ h := by cases h
  place _ h := by cases h

/-! ## Lines of fields -/

theorem isKeyStart_iff {c : Char} : isKeyStart c = true ↔
    (97 ≤ c.toNat ∧ c.toNat ≤ 122) ∨ (65 ≤ c.toNat ∧ c.toNat ≤ 90) ∨ c = '_' := by
  simp only [isKeyStart, isAsciiLetter, Bool.or_eq_true, Bool.and_eq_true, decide_eq_true_eq,
    beq_iff_eq, Char.le_def, UInt32.le_iff_toNat_le, or_assoc]
  rfl

theorem isKeyStart_not_blank {c : Char} (h : isKeyStart c = true) : isBlank c = false := by
  rcases isKeyStart_iff.mp h with h | h | rfl
  · simp [isBlank]; omega
  · simp [isBlank]; omega
  · rfl

theorem isBlank_of_isIndented {l : Text} (h : isIndented l = true) :
    ∃ c r, l = c :: r ∧ isBlank c = true := by
  cases l with
  | nil => cases h
  | cons c r =>
    simp only [isIndented, Bool.or_eq_true, beq_iff_eq] at h
    rcases h with rfl | rfl
    · exact ⟨_, r, rfl, rfl⟩
    · exact ⟨_, r, rfl, rfl⟩

/-- The first line of a field. -/
def pairLine (key first : Text) : Text := key ++ ':' :: ' ' :: first

theorem readPair?_pairLine {k first : Text} (hk : IsKey k) (hfirst : Text.trim first = first) :
    readPair? (pairLine k first) = some (k, first) := by
  obtain ⟨c, r, rfl, hc⟩ := hk.start
  have hrun : (pairLine (c :: r) first).takeWhile isKeyChar = c :: r :=
    Text.takeWhile_append_stop hk.chars fun d hd => by cases hd; decide
  have hdrop : (pairLine (c :: r) first).drop (c :: r).length = ':' :: ' ' :: first :=
    List.drop_left
  have hcons : pairLine (c :: r) first = c :: (r ++ ':' :: ' ' :: first) := rfl
  have htrim : Text.trimStart (':' :: ' ' :: first) = ':' :: ' ' :: first := rfl
  rw [hcons] at hrun hdrop ⊢
  simp only [readPair?, hrun, hdrop, htrim, hc, if_true,
    Text.trim_cons_blank (show isBlank ' ' = true from rfl), hfirst]

theorem readPair?_eq_some {l k v : Text} (h : readPair? l = some (k, v)) (hl : OneLine l) :
    (k ≠ refsKey → IsKey k) ∧ Text.trim v = v ∧ OneLine v := by
  cases l with
  | nil => cases h
  | cons c s =>
    simp only [readPair?] at h
    split at h
    · next value hvalue =>
      split at h
      · next hc =>
        obtain ⟨rfl, rfl⟩ := Prod.mk.inj (Option.some.inj h)
        have hchar : isKeyChar c = true := by
          simp only [isKeyStart, Bool.or_eq_true, beq_iff_eq] at hc
          rcases hc with hc | rfl
          · simp [isKeyChar, isWord, isAsciiWord, hc]
          · rfl
        have hsub : value ⊆ c :: s := by
          have htrim : Text.trimStart ((c :: s).drop ((c :: s).takeWhile isKeyChar).length) ⊆ _ :=
            List.dropWhile_subset isBlank
          rw [hvalue] at htrim
          exact List.Subset.trans (List.subset_cons_self ..)
            (List.Subset.trans htrim (List.drop_subset ..))
        refine ⟨fun hne => ⟨⟨c, _, List.takeWhile_cons_of_pos hchar, hc⟩, ?_, ?_, hne⟩,
          Text.trim_trim _, hl.of_subset (List.Subset.trans (Text.trim_subset _) hsub)⟩
        · exact fun d hd => (List.mem_takeWhile_imp hd)
        · exact hl.of_subset (List.takeWhile_subset ..)
      · cases h
    · cases h

/-! ## Lines of entries -/

theorem readEntry?_refLine {p : Text} (hp : IsPath p) (n : Nat) :
    readEntry? (refLine (p, n)) = some (Numeral.ofNat n, p) := by
  have hdigits : ∀ c ∈ Numeral.ofNat n, isAsciiDigit c = true :=
    fun _ => Numeral.isAsciiDigit_of_mem_ofNat
  have htrim : Text.trim (Numeral.ofNat n ++ '@' :: p) = Numeral.ofNat n ++ '@' :: p := by
    rw [Text.trim_eq_self_iff]
    constructor
    · intro c hc
      rw [List.head?_append_of_ne_nil _ (Numeral.ofNat_ne_nil n)] at hc
      have := isAsciiDigit_iff.mp (hdigits c (List.mem_of_head? hc))
      simp [isBlank]
      omega
    · intro c hc
      have hlast : (Numeral.ofNat n ++ '@' :: p).getLast? = p.getLast? := by
        rw [List.getLast?_append_of_ne_nil _ (by simp), List.getLast?_cons_of_ne_nil hp.not_empty]
      rw [hlast] at hc
      exact (Text.trim_eq_self_iff.mp hp.trimmed).2 c hc
  have hbody : Text.trim (refLine (p, n)) = Numeral.ofNat n ++ '@' :: p := by
    show Text.trim (' ' :: ' ' :: (Numeral.ofNat n ++ '@' :: p)) = _
    rw [Text.trim_cons_blank rfl, Text.trim_cons_blank rfl, htrim]
  have hrun : (Numeral.ofNat n ++ '@' :: p).takeWhile isAsciiDigit = Numeral.ofNat n :=
    Text.takeWhile_append_stop hdigits fun d hd => by cases hd; decide
  have hempty : (Numeral.ofNat n).isEmpty = false := by
    simpa using Numeral.ofNat_ne_nil n
  have hpath : p.isEmpty = false := by simpa using hp.not_empty
  simp only [ readEntry?, hbody, hrun, List.drop_left, hempty, hpath, Bool.or_self,
    Bool.false_eq_true, if_false, hp.trimmed]

theorem readEntry?_eq_some {l digits p : Text} (h : readEntry? l = some (digits, p))
    (hl : OneLine l) : IsPath p ∧ ∀ c ∈ digits, isAsciiDigit c = true := by
  simp only [ readEntry?] at h
  split at h
  · next path hpath =>
    split at h
    · cases h
    · next hne =>
      obtain ⟨rfl, rfl⟩ := Prod.mk.inj (Option.some.inj h)
      simp only [Bool.or_eq_true, List.isEmpty_iff, not_or] at hne
      have hsuf : '@' :: path <:+ Text.trim l := hpath ▸ List.drop_suffix ..
      have hsub : path ⊆ Text.trim l :=
        List.Subset.trans (List.subset_cons_self ..) hsuf.subset
      refine ⟨⟨fun e => ?_, Text.trim_trim _,
        hl.of_subset (List.Subset.trans (Text.trim_subset _)
          (List.Subset.trans hsub (Text.trim_subset _)))⟩, fun c => List.mem_takeWhile_imp⟩
      -- the path ends as the trimmed line does, with a character that is not blank
      obtain ⟨q, hq⟩ := hsuf
      have hlast : (Text.trim l).getLast? = path.getLast? := by
        rw [← hq, List.getLast?_append_of_ne_nil _ (by simp),
          List.getLast?_cons_of_ne_nil hne.2]
      have hlast' := List.getLast?_eq_some_getLast hne.2
      rw [hlast'] at hlast
      have hnb := (Text.trim_eq_self_iff.mp (Text.trim_trim l)).2 _ hlast
      exact Text.trim_ne_nil (Text.allBlank_eq_false_iff.mpr ⟨_, List.getLast_mem hne.2, hnb⟩) e
  · cases h

/-! ## Reading what was written -/

/-- The lines of a field. -/
def ownLines (f : Text × Text) : List Text := Text.atNewlines (fieldLine f)

theorem ownLines_eq {k first : Text} {more : List Text} (hk : IsKey k) (hfirst : OneLine first)
    (hmore : ∀ l ∈ more, Continues l) :
    ownLines (k, first ++ more.flatMap ('\n' :: ·)) = pairLine k first :: more := by
  have hpair : OneLine (pairLine k first) :=
    hk.oneLine.append (OneLine.append (l := [':', ' ']) (by decide) hfirst)
  rw [← Text.atNewlines_flatMap hpair.no_newline fun l hl => (hmore l hl).oneLine.no_newline]
  simp [ownLines, fieldLine, pairLine]

namespace Reading

variable {r : Reading}

theorem addLine_pairLine {k first : Text} (hk : IsKey k) (hfirst : Text.trim first = first) :
    r.addLine (pairLine k first) = .ok
      { header := { r.header with fields := r.header.fields ++ [(k, first)] }
        inRefs := false } := by
  obtain ⟨c, s, rfl, hc⟩ := hk.start
  have hblank : Text.allBlank (pairLine (c :: s) first) = false :=
    Text.allBlank_eq_false_iff.mpr ⟨c, by simp [pairLine], isKeyStart_not_blank hc⟩
  have hindent : isIndented (pairLine (c :: s) first) = false := by
    cases h : isIndented (pairLine (c :: s) first) with
    | false => rfl
    | true =>
      obtain ⟨d, _, hd, hb⟩ := isBlank_of_isIndented h
      obtain rfl : c = d := (List.cons.inj hd).1
      rw [isKeyStart_not_blank hc] at hb
      cases hb
  simp only [addLine, hblank, hindent, readPair?_pairLine hk hfirst, addPair, hk.not_refs,
    Bool.and_false, Bool.false_and, Bool.false_eq_true, if_false]

theorem addLine_continues {k v l : Text} {fs : List (Text × Text)} (hl : Continues l)
    (hr : r.inRefs = false) (hfs : r.header.fields = fs ++ [(k, v)]) :
    r.addLine l = .ok
      { header := { r.header with fields := fs ++ [(k, v ++ '\n' :: l)] }, inRefs := false } := by
  have hsome : (fs ++ [(k, v)]).isEmpty = false := by simp
  simp only [addLine, hl.not_blank, hr, hl.indented, hsome, continueField, hfs, hl.trimmed,
    Bool.false_and, Bool.false_eq_true, if_false, Bool.not_false, Bool.and_self, if_true,
    List.getLast?_concat, List.dropLast_concat]

theorem foldlM_continues {k v : Text} {more : List Text} {fs : List (Text × Text)}
    (hmore : ∀ l ∈ more, Continues l) (hr : r.inRefs = false)
    (hfs : r.header.fields = fs ++ [(k, v)]) :
    more.foldlM addLine r = .ok
      { header := { r.header with fields := fs ++ [(k, v ++ more.flatMap ('\n' :: ·))] }
        inRefs := false } := by
  induction more generalizing r v with
  | nil =>
    rw [List.foldlM_nil, List.flatMap_nil, List.append_nil, ← hfs, ← hr]
    rfl
  | cons l more ih =>
    obtain ⟨hl, hmore⟩ := List.forall_mem_cons.mp hmore
    rw [List.foldlM_cons, addLine_continues hl hr hfs]
    refine (ih hmore rfl rfl).trans ?_
    simp

theorem foldlM_ownLines {f : Text × Text} (hk : IsKey f.1) (hv : IsValue f.2) :
    (ownLines f).foldlM addLine r = .ok
      { header := { r.header with fields := r.header.fields ++ [f] }, inRefs := false } := by
  obtain ⟨k, v⟩ := f
  obtain ⟨first, more, rfl, htrim, hfirst, hmore⟩ := hv
  rw [ownLines_eq hk hfirst hmore, List.foldlM_cons, addLine_pairLine hk htrim]
  exact foldlM_continues hmore rfl rfl

theorem foldlM_fields (fs : List (Text × Text)) (h : ∀ f ∈ fs, IsKey f.1 ∧ IsValue f.2) :
    ∃ b, (fs.flatMap ownLines).foldlM addLine r = .ok
      { header := { r.header with fields := r.header.fields ++ fs }, inRefs := b } := by
  induction fs generalizing r with
  | nil => exact ⟨r.inRefs, by simp; rfl⟩
  | cons f fs ih =>
    obtain ⟨hf, hfs⟩ := List.forall_mem_cons.mp h
    rw [List.flatMap_cons, List.foldlM_append, foldlM_ownLines hf.1 hf.2]
    obtain ⟨b, hb⟩ := ih (r := ⟨{ r.header with fields := r.header.fields ++ [f] }, false⟩) hfs
    exact ⟨b, hb.trans (by simp)⟩

theorem addLine_refLine {p : Text} {n : Int} (hr : r.inRefs = true) (hp : IsPath p) (h0 : 0 < n)
    (hn : n.natAbs < 10 ^ Numeral.limit) :
    r.addLine (refLine (p, n)) = .ok { r with header := r.header.mergeRef p n } := by
  obtain ⟨m, rfl⟩ := Int.eq_ofNat_of_zero_le (Int.le_of_lt h0)
  have hblank : Text.allBlank (refLine (p, (m : Int))) = false :=
    Text.allBlank_eq_false_iff.mpr ⟨'@', by simp [refLine], rfl⟩
  have hlen : (Numeral.ofNat m).length ≤ Numeral.limit :=
    (Numeral.length_ofNat_le_iff (by decide)).mpr hn
  have hindent : isIndented (refLine (p, (m : Int))) = true := rfl
  simp only [addLine, hblank, hr, hindent, addEntry, readEntry?_refLine hp m,
    Nat.not_lt.mpr hlen, Numeral.value_ofNat, Bool.false_eq_true, if_false, Bool.and_self, if_true]

theorem addLine_refsKey (r : Reading) :
    r.addLine (refsKey ++ [':', ' ', '|']) = .ok (r.addPair refsKey ['|']) := by
  obtain ⟨h, inRefs⟩ := r
  cases inRefs <;> rfl

theorem foldlM_refLines {es : List (Text × Int)} (hr : r.inRefs = true)
    (hpaths : ∀ e ∈ es, IsPath e.1) (hpos : ∀ e ∈ es, 0 < e.2)
    (hshort : ∀ e ∈ es, e.2.natAbs < 10 ^ Numeral.limit) :
    (es.map refLine).foldlM addLine r = .ok
      { r with header.refs := es.foldl (fun r e => r.merge e.1 e.2) r.header.refs } := by
  induction es generalizing r with
  | nil => rfl
  | cons e es ih =>
    rw [List.forall_mem_cons] at hpaths hpos hshort
    rw [List.map_cons, List.foldlM_cons, addLine_refLine hr hpaths.1 hpos.1 hshort.1]
    show (es.map refLine).foldlM addLine _ = _
    exact ih hr hpaths.2 hpos.2 hshort.2

end Reading

/-- The header as it is read again: without counts it does not show where they were. -/
def settled (h : Header) : Header :=
  { h with refsPlace := if h.refs.isEmpty then none else some (h.refsPlace.getD h.fields.length) }

/-- The lines between the boundaries. -/
def plainLines (h : Header) : List Text := h.innerLines.flatMap Text.atNewlines

theorem refLine_oneLine {p : Text} (hp : IsPath p) (n : Nat) :
    OneLine (refLine (p, n)) ∧ Text.allBlank (refLine (p, n)) = false ∧
      (refLine (p, n)).head? ≠ some '-' := by
  have hline : refLine (p, n) = [' ', ' '] ++ (Numeral.ofNat n ++ (['@'] ++ p)) := rfl
  have hdigits : OneLine (Numeral.ofNat n) := fun _ hc =>
    isAsciiDigit_not_lineEnd (Numeral.isAsciiDigit_of_mem_ofNat hc)
  rw [hline]
  exact ⟨OneLine.append (by decide) (hdigits.append (OneLine.append (by decide) hp.oneLine)),
    Text.allBlank_eq_false_iff.mpr ⟨'@', by simp, rfl⟩, by simp⟩

theorem Readable.refsLines_oneLine {h : Header} (hh : h.Readable) :
    ∀ l ∈ refsLines h.refs, OneLine l ∧ Text.allBlank l = false ∧ l.head? ≠ some '-' := by
  intro l hl
  unfold refsLines at hl
  split at hl
  · cases hl
  · rcases List.mem_cons.mp hl with rfl | hl
    · decide
    · obtain ⟨⟨p, n⟩, he, rfl⟩ := List.mem_map.mp hl
      obtain ⟨m, rfl⟩ := Int.eq_ofNat_of_zero_le (Int.le_of_lt (hh.positive _ he))
      exact refLine_oneLine (hh.paths _ he) m

theorem ownLines_oneLine {f : Text × Text} (hk : IsKey f.1) (hv : IsValue f.2) :
    ∀ l ∈ ownLines f, OneLine l ∧ Text.allBlank l = false ∧ l.head? ≠ some '-' := by
  obtain ⟨k, v⟩ := f
  obtain ⟨first, more, rfl, -, hfirst, hmore⟩ := hv
  rw [ownLines_eq hk hfirst hmore]
  intro l hl
  rcases List.mem_cons.mp hl with rfl | hl
  · obtain ⟨c, r, e, hc⟩ := hk.start
    refine ⟨hk.oneLine.append (OneLine.append (l := [':', ' ']) (by decide) hfirst), ?_, ?_⟩
    · exact Text.allBlank_eq_false_iff.mpr
        ⟨c, List.mem_append_left _ (by rw [e]; simp), isKeyStart_not_blank hc⟩
    · rw [pairLine, e]
      rintro ⟨⟩
      exact absurd hc (by decide)
  · have hl := hmore l hl
    refine ⟨hl.oneLine, hl.not_blank, fun e => ?_⟩
    obtain ⟨c, r, rfl, hc⟩ := isBlank_of_isIndented hl.indented
    cases e
    exact absurd hc (by decide)

/-- Where the block of counts is written. -/
theorem Readable.plainLines_eq {h : Header} (hh : h.Readable) :
    ∃ k ≤ h.fields.length, h.refsPlace.getD h.fields.length = (k : Int) ∧
      h.plainLines = (h.fields.take k).flatMap ownLines ++ refsLines h.refs ++
        (h.fields.drop k).flatMap ownLines := by
  have hrefs : (refsLines h.refs).flatMap Text.atNewlines = refsLines h.refs := by
    rw [List.flatMap_congr fun l hl => Text.atNewlines_oneLine (hh.refsLines_oneLine l hl).1]
    simp
  have hfields : ∀ fs : List (Text × Text),
      (fs.map fieldLine).flatMap Text.atNewlines = fs.flatMap ownLines := fun fs => by
    rw [List.flatMap_map]
    rfl
  cases hp : h.refsPlace with
  | none =>
    refine ⟨_, Nat.le_refl _, rfl, ?_⟩
    simp [plainLines, innerLines, hp, hrefs, hfields]
  | some i =>
    obtain ⟨k, rfl, hk⟩ := hh.place i hp
    refine ⟨k, hk, rfl, ?_⟩
    show (innerLines h).flatMap _ = _
    unfold innerLines
    rw [hp]
    show (((h.fields.map fieldLine).take k ++ refsLines h.refs ++
      (h.fields.map fieldLine).drop k)).flatMap Text.atNewlines = _
    rw [← List.map_take, ← List.map_drop, List.flatMap_append, List.flatMap_append, hrefs,
      hfields, hfields]

theorem Readable.plainLines_oneLine {h : Header} (hh : h.Readable) :
    ∀ l ∈ h.plainLines, OneLine l ∧ Text.allBlank l = false ∧ l.head? ≠ some '-' := by
  obtain ⟨k, -, -, e⟩ := hh.plainLines_eq
  have hown : ∀ fs ⊆ h.fields, ∀ l ∈ fs.flatMap ownLines,
      OneLine l ∧ Text.allBlank l = false ∧ l.head? ≠ some '-' := fun fs hfs l hl => by
    obtain ⟨f, hf, hl⟩ := List.mem_flatMap.mp hl
    exact ownLines_oneLine (hh.fields f (hfs hf)).1 (hh.fields f (hfs hf)).2 l hl
  rw [e]
  intro l hl
  rcases List.mem_append.mp hl with hl | hl
  · rcases List.mem_append.mp hl with hl | hl
    · exact hown _ (List.take_subset ..) l hl
    · exact hh.refsLines_oneLine l hl
  · exact hown _ (List.drop_subset ..) l hl

theorem foldlM_refsLines {h : Header} (hh : h.Readable) (fs : List (Text × Text)) (b : Bool) :
    ∃ b', (refsLines h.refs).foldlM Reading.addLine
        { header := { fields := fs }, inRefs := b } = .ok
      { header := { fields := fs, refs := h.refs
                    refsPlace := if h.refs.isEmpty then none else some fs.length }
        inRefs := b' } := by
  unfold refsLines
  by_cases he : h.refs.isEmpty = true
  · have hempty : h.refs = {} := by
      cases hr : h.refs with
      | mk es => rw [hr] at he; simp only [Refs.isEmpty, List.isEmpty_iff] at he; rw [he]
    rw [if_pos he, if_pos he, hempty]
    exact ⟨b, rfl⟩
  · rw [if_neg he, if_neg he, List.foldlM_cons, Reading.addLine_refsKey]
    refine ⟨true, (Reading.foldlM_refLines rfl hh.paths hh.positive hh.short).trans ?_⟩
    show Except.ok (Reading.mk ⟨fs, h.refs.entries.foldl (fun r e => r.merge e.1 e.2) {}, _⟩ _) = _
    rw [Refs.foldl_merge hh.ascending hh.positive]
    rfl

/-- The lines of a block are read one after the other. -/
theorem read_lines {ls : List Text} (h : ∀ l ∈ ls, OneLine l) :
    read ('\n' :: ls.flatMap (· ++ ['\n'])) = (ls.foldlM Reading.addLine {}).map (·.header) := by
  have hlines : Text.lines ('\n' :: ls.flatMap (· ++ ['\n'])) = [] :: ls := by
    have := Text.lines_append_newline (l := []) (by decide) (ls.flatMap (· ++ ['\n']))
    rw [List.nil_append] at this
    rw [this, Text.lines_ended h]
  rw [read, hlines, List.foldlM_cons]
  rfl

/-- The lines written for a header are read as that header. -/
theorem Readable.read_lines {h : Header} (hh : h.Readable) :
    read ('\n' :: h.plainLines.flatMap (· ++ ['\n'])) = .ok h.settled := by
  obtain ⟨k, hk, hplace, e⟩ := hh.plainLines_eq
  obtain ⟨b₁, h₁⟩ := Reading.foldlM_fields (r := {}) (h.fields.take k)
    fun f hf => hh.fields f (List.take_subset _ _ hf)
  obtain ⟨b₂, h₂⟩ := foldlM_refsLines hh (h.fields.take k) b₁
  obtain ⟨b₃, h₃⟩ := Reading.foldlM_fields
    (r := ⟨⟨h.fields.take k, h.refs,
      if h.refs.isEmpty then none else some (h.fields.take k).length⟩, b₂⟩)
    (h.fields.drop k) fun f hf => hh.fields f (List.drop_subset _ _ hf)
  have hall : h.plainLines.foldlM Reading.addLine {} = .ok ⟨h.settled, b₃⟩ := by
    rw [e, List.foldlM_append, List.foldlM_append, h₁]
    show (((refsLines h.refs).foldlM Reading.addLine ⟨⟨h.fields.take k, {}, none⟩, b₁⟩) >>= _) = _
    rw [h₂]
    refine h₃.trans ?_
    simp only [settled, List.take_append_drop, List.length_take, Nat.min_eq_left hk, hplace]
  rw [Header.read_lines fun l hl => (hh.plainLines_oneLine l hl).1, hall]
  rfl

end Header

end Marginalia
