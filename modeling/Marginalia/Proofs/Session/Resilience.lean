import Marginalia.Proofs.Session.Decorations
import Marginalia.Proofs.Session.Observations
import Marginalia.Proofs.Session.Reads
import Marginalia.Proofs.Session.Recounts

/-!
# Records that cannot be read

A record that is no text is passed over, and a header is read whatever the shapes of its lines, so
neither keeps other records from being brought up to date nor lines from being decorated
(`Recounts.cachedRefs`, `Legible.decorations`). A count with too many digits does: it ends an
observation that comes to its record (`observe_fails`), and the records behind it keep the counts
that they have (`stale_behind_overlong`). A text that is seen under a path without a text costs one
record its text (`Legible.observePassed`).
-/

namespace Marginalia.Session

open Header (IsPath Overlong Reading)
open Marker (pins)

variable {s : Session} {t u : Tree} {f : Location → Refs → Refs} {id path : Text} {k : Location}

theorem nodup_idCounts (ids : List Text) : ((idCounts ids).map Prod.fst).Nodup := by
  rw [idCounts, List.map_map]
  simpa [Function.comp_def] using nodup_eraseDups ids

theorem mem_idCounts {ids : List Text} {n : Nat} :
    (id, n) ∈ idCounts ids ↔ 0 < n ∧ n = ids.count id := by
  simp only [idCounts, List.mem_map, List.mem_eraseDups, Prod.mk.injEq]
  constructor
  · rintro ⟨id', hid, rfl, rfl⟩
    exact ⟨List.count_pos_iff.mpr hid, rfl⟩
  · rintro ⟨hn, rfl⟩
    exact ⟨id, List.count_pos_iff.mp hn, rfl, rfl⟩

/-! ## Workspaces in which every record that is text is a page -/

theorem tolerated_at {file : Path} {c : Content} (hr : t.resolve file = .ok k)
    (hc : t.node? k = some (.file c)) (hparse : Parses t k) :
    ∃ found, tolerate (readPage t file) = .ok found := by
  rcases read_at hr hc hparse with ⟨-, hread⟩ | ⟨page, hpage, -, -⟩
  · rw [readHeader, tolerate_map] at hread
    cases hpage : tolerate (readPage t file) with
    | error e =>
      rw [hpage] at hread
      cases hread
    | ok found => exact ⟨found, rfl⟩
  · exact ⟨some page, by rw [hpage]; rfl⟩

theorem Legible.tolerated (h : s.Legible t) (hid : isId id = true) {file : Path}
    (hfile : s.locate t id = .ok (some file)) : ∃ found, tolerate (readPage t file) = .ok found := by
  obtain ⟨k, c, hr, hc, -, hk⟩ := h.file_of_locate hid hfile
  exact tolerated_at hr hc (h.parses k hk)

/-- All lines are decorated, those whose records cannot be read as well. -/
theorem Legible.decorations (h : s.Legible t) (lines : List Text) :
    ∃ ds, s.decorations t lines = .ok ds := by
  refine decorations_succeed_iff.mpr fun p hp => ?_
  have hid := Marker.isId_of_mem_pins hp
  obtain ⟨found, hfound⟩ := h.located hid
  rw [preview_eq hfound]
  cases found with
  | none => exact ⟨_, rfl⟩
  | some file =>
    obtain ⟨page, hpage⟩ := h.tolerated hid hfound
    exact ⟨s.previewOf page, by rw [Option.elim_some, hpage]; rfl⟩

/-- The cached counts of a record that can be read become what a change of counts says. -/
theorem Recounts.cachedRefs (h : s.Recounts f t u) (ht : s.Legible t) (hid : isId id = true)
    {file : Path} (hfile : s.locate t id = .ok (some file)) {page : Page}
    (hpage : readPage t file = .ok page) :
    ∃ k, s.place? t id = some k ∧ s.cachedRefs u id = .ok (f k page.header.refs) := by
  obtain ⟨k, c, hr, hn, hplace, hk⟩ := ht.file_of_locate hid hfile
  refine ⟨k, hplace, ?_⟩
  have hbefore : refsAt t k = some page.header.refs := by
    rcases read_at hr hn (ht.parses k hk) with ⟨-, hread⟩ | ⟨page', hpage', hrefs, -⟩
    · rw [readHeader, hpage] at hread
      cases hread
    · cases hpage.symm.trans hpage'
      exact hrefs
  have hlocate : s.locate u id = .ok (some file) := by
    rw [locate_eq h.kinds ht.wellFormed h.wellFormed, hfile]
  have hr' : u.resolve file = .ok k := by rw [h.kinds.resolve_eq, hr]
  obtain ⟨c', hn'⟩ := h.kinds.file_of_file hn
  exact cachedRefs_at hlocate hr' hn' (h.parses k hk) (by rw [h.refs k hk, hbefore, Option.map_some])

/-! ## Paths without a text -/

/-- Whether there is a record of an id that can be read. -/
def HasPage (s : Session) (t : Tree) (id : Text) : Prop :=
  ∃ file page, s.locate t id = .ok (some file) ∧ readPage t file = .ok page

/-- Where the record of an id was lost. -/
def LostAt (s : Session) (id : Text) (t u : Tree) : Prop :=
  s.HasPage t id ∧ ∃ k, s.place? t id = some k ∧ u = t.insert k (.file (.text []))

theorem Legible.spoilCount (h : s.Legible t) (hid : isId id = true) {n : Nat} (hpos : 0 < n)
    (hn : n < 10 ^ Numeral.limit) :
    (¬ s.HasPage t id ∧ (s.spoilCount id n).run t = (.ok none, t)) ∨
      ∃ u, s.LostAt id t u ∧ (s.spoilCount id n).run t = (.error .unencodable, u) := by
  obtain ⟨found, hfound⟩ := h.located hid
  cases found with
  | none =>
    refine .inl ⟨?_, ?_⟩
    · rintro ⟨file, page, hfile, -⟩
      cases hfound.symm.trans hfile
    unfold Session.spoilCount
    rw [Work.run_bind_of_ok (by rw [Work.run_inspect, hfound])]
    rfl
  | some file =>
    obtain ⟨k, c, hr, hc, hplace, hk⟩ := h.file_of_locate hid hfound
    rcases read_at hr hc (h.parses k hk) with ⟨-, hread⟩ | ⟨page, hpage, -, -⟩
    · refine .inl ⟨fun ⟨file', page, hfile, hpage⟩ => ?_, ?_⟩
      · cases hfound.symm.trans hfile
        rw [readHeader, hpage] at hread
        cases hread
      · unfold Session.spoilCount
        rw [Work.run_bind_of_ok (by rw [Work.run_inspect, hfound])]
        rw [Work.run_bind_of_ok (by rw [Work.run_inspect, hread])]
        rfl
    · have hrecord : s.RecordAt t id file k page := ⟨h.wellFormed, hfound, hr, ⟨c, hc⟩, hpage⟩
      refine .inr ⟨_, ⟨⟨file, page, hfound, hpage⟩, k, hplace, rfl⟩, ?_⟩
      rw [hrecord.spoilCount (n := n) (by simpa using hn), if_pos (by exact_mod_cast hpos)]

/-- The first of some records that can be read is lost, and nothing is done when there is none. -/
theorem Legible.spoilAll (h : s.Legible t) {counts : List (Text × Nat)}
    (hcounts : ∀ c ∈ counts, isId c.1 = true ∧ 0 < c.2 ∧ c.2 < 10 ^ Numeral.limit) :
    ((∀ c ∈ counts, ¬ s.HasPage t c.1) ∧ (s.spoilAll counts).run t = (.ok (), t)) ∨
      ∃ c ∈ counts, ∃ u, s.LostAt c.1 t u ∧ (s.spoilAll counts).run t = (.error .unencodable, u) := by
  induction counts with
  | nil => exact .inl ⟨fun _ hc => absurd hc List.not_mem_nil, rfl⟩
  | cons c counts ih =>
    obtain ⟨hfirst, hrest⟩ := List.forall_mem_cons.mp hcounts
    rw [Session.spoilAll]
    rcases h.spoilCount hfirst.1 hfirst.2.1 hfirst.2.2 with ⟨hnone, hrun⟩ | ⟨u, hlost, hrun⟩
    · rw [Work.run_bind_of_ok hrun]
      rcases ih hrest with ⟨hall, hrun'⟩ | ⟨c', hc', hlost⟩
      · exact .inl ⟨List.forall_mem_cons.mpr ⟨hnone, hall⟩, hrun'⟩
      · exact .inr ⟨c', List.mem_cons_of_mem _ hc', hlost⟩
    · exact .inr ⟨c, List.mem_cons_self, u, hlost, by rw [Work.run_bind_of_error hrun]⟩

theorem Legible.seek (h : s.Legible t) {files : List Path} (hall : s.fragmentPaths t = .ok files)
    (kept : List Text) {rest : List Path} (hrest : ∀ p ∈ rest, p ∈ files) :
    (seek kept rest).run t = (.ok (), t) := by
  have hread : ∀ p ∈ files, ∃ found, tolerate (readHeader t p) = .ok found := by
    intro p hp
    obtain ⟨hnul, -, hfile⟩ := fragment_path h.wellFormed hall hp
    cases hr : t.resolve p with
    | error f => exact ⟨none, tolerate_of_resolve_error hnul hr⟩
    | ok k =>
      obtain ⟨-, c, hc⟩ := hfile k hr
      rcases read_at hr hc (h.parses k ⟨files, hall, p, hp, hr⟩) with ⟨-, hread⟩ | ⟨_, -, -, hread⟩
      · exact ⟨_, hread⟩
      · exact ⟨_, hread⟩
  induction rest with
  | nil => rfl
  | cons p rest ih =>
    obtain ⟨hp, hrest⟩ := List.forall_mem_cons.mp hrest
    obtain ⟨found, hfound⟩ := hread p hp
    rw [Session.seek]
    split
    · rw [Work.run_bind_of_ok (by rw [Work.run_inspect, hfound]), ih hrest]
    · exact ih hrest

/-- A text seen under a path without a text costs the record of one of its ids, when one of them has
a record that can be read. -/
theorem Legible.observePassed (h : s.Legible t) {path : Passed} (hpath : path.text? = none)
    {text : Text} (hcount : (boundIds text).length < 10 ^ Numeral.limit) :
    ((∀ id ∈ boundIds text, ¬ s.HasPage t id) ∧
      (s.observePassed path text).run t = (.ok (idCounts (boundIds text)), t)) ∨
    ∃ id ∈ boundIds text, ∃ u, s.LostAt id t u ∧
      (s.observePassed path text).run t = (.error .unencodable, u) := by
  have hcounts : ∀ c ∈ idCounts (boundIds text),
      c.1 ∈ boundIds text ∧ 0 < c.2 ∧ c.2 < 10 ^ Numeral.limit := by
    rintro ⟨id, n⟩ hc
    obtain ⟨hpos, rfl⟩ := mem_idCounts.mp hc
    exact ⟨List.count_pos_iff.mp hpos, hpos, lt_of_le_of_lt List.count_le_length hcount⟩
  unfold Session.observePassed
  simp only [hpath]
  rcases h.spoilAll fun c hc => ⟨isId_of_mem_boundIds (hcounts c hc).1, (hcounts c hc).2⟩ with
    ⟨hnone, hrun⟩ | ⟨c, hc, u, hlost, hrun⟩
  · obtain ⟨files, hall⟩ := h.listed
    refine .inl ⟨fun id hid => ?_, ?_⟩
    · exact hnone (id, (boundIds text).count id) (mem_idCounts.mpr ⟨List.count_pos_iff.mpr hid, rfl⟩)
    · rw [Work.run_bind_of_ok hrun, Work.run_bind_of_ok (by rw [Work.run_inspect, hall]),
        Work.run_bind_of_ok (h.seek hall _ fun p hp => hp)]
      rfl
  · exact .inr ⟨c.1, (hcounts c hc).1, u, hlost, by rw [Work.run_bind_of_error hrun]⟩

/-! ## Counts with too many digits -/

/-- A record whose text is no page has an entry with too many digits in its header. -/
theorem overlong_of_not_parses (h : ¬ Parses t k) : ∃ text block body line,
    t.textAt? k = some text ∧ Page.split? text = some (block, body) ∧
      line ∈ Text.lines block ∧ Overlong line := by
  simp only [Parses, not_forall] at h
  obtain ⟨text, htext, hparse⟩ := h
  cases hp : Page.parse text with
  | ok page => exact absurd ⟨page, hp⟩ hparse
  | error e =>
    obtain ⟨block, body, hsplit, line, hline, hlong⟩ := Page.parse_eq_error hp
    exact ⟨text, block, body, line, htext, hsplit, hline, hlong⟩

/-- With no markers in a text there is only something to take out. -/
theorem observe_nil {files : List Path} (hfiles : s.fragmentPaths t = .ok files) :
    (s.observe path []).run t = (forget path [] files >>= fun _ => pure []).run t := by
  show (Work.inspect s.fragmentPaths >>= _).run t = _
  rw [Work.run_bind_of_ok (by rw [Work.run_inspect, hfiles])]
  rfl

/-- What can be read or passed over after a record was written could be before. -/
theorem tolerated_of_writeHeader {p q : Path} {header : Header}
    (h : (writeHeader p header).run t = (.ok (), u))
    (hread : ∃ found, tolerate (readHeader u q) = .ok found) :
    ∃ found, tolerate (readHeader t q) = .ok found := by
  unfold writeHeader at h
  cases hpage : readPage t p with
  | error e =>
    rw [Work.run_bind_of_error (by rw [Work.run_inspect, hpage])] at h
    cases h
  | ok page =>
    rw [Work.run_bind_of_ok (by rw [Work.run_inspect, hpage])] at h
    rcases writePage_cases h with ⟨e, he, -⟩ | ⟨-, -, l, hl, hfold, rfl⟩
    · cases he
    obtain ⟨text, htext, -⟩ := readPage_eq_ok_iff.mp hpage
    obtain ⟨l', c, hl', hc⟩ := Tree.node_of_readText htext
    cases hl.symm.trans hl'
    have hne : l ≠ [] := fun e => hfold (by rw [e]; rfl)
    -- a path to the record that was written reads its page, any other reads what it read before
    by_cases hq : t.resolve q = .ok l
    · have hsame : readPage t q = .ok page := by
        rw [← hpage, readPage, readPage, Tree.readText, Tree.readText, hq, hl]
      exact ⟨some (identify q page.header), by rw [readHeader, hsame]; rfl⟩
    · rwa [readHeader, readPage, Tree.readText_insert_of_ne hne hc _ hq, ← readPage,
        ← readHeader] at hread

/-- What `forget` came through could be read or passed over. -/
theorem tolerated_of_forget {kept : List Text} {files : List Path}
    (h : (forget path kept files).run t = (.ok (), u)) {q : Path} (hq : q ∈ files)
    (hdrop : drops kept q = true) : ∃ found, tolerate (readHeader t q) = .ok found := by
  induction files generalizing t with
  | nil => cases hq
  | cons p files ih =>
    rw [forget] at h
    have hdrops : ((fileId? p.name).any fun id => !kept.contains id) = drops kept p := rfl
    rw [hdrops] at h
    cases hp : drops kept p with
    | false =>
      rw [hp, if_neg Bool.false_ne_true] at h
      rcases List.mem_cons.mp hq with rfl | hq
      · rw [hp] at hdrop
        cases hdrop
      · exact ih h hq
    | true =>
      rw [hp, if_pos rfl] at h
      cases hread : tolerate (readHeader t p) with
      | error e =>
        rw [Work.run_bind_of_error (by rw [Work.run_inspect, hread])] at h
        cases h
      | ok found =>
        rw [Work.run_bind_of_ok (by rw [Work.run_inspect, hread])] at h
        rcases List.mem_cons.mp hq with rfl | hq
        · exact ⟨found, hread⟩
        cases found with
        | none => exact ih h hq
        | some header =>
          simp only at h
          split at h
          · rcases hwrite : (writeHeader p (header.mergeRef path 0)).run t with ⟨_ | _, t₁⟩
            · rw [Work.run_bind_of_error hwrite] at h
              cases h
            · rw [Work.run_bind_of_ok hwrite] at h
              exact tolerated_of_writeHeader hwrite (ih h hq)
          · exact ih h hq

/-- A record that is text but no page is not passed over. -/
theorem not_tolerated {q : Path} {c : Content} (hr : t.resolve q = .ok k)
    (hc : t.node? k = some (.file c)) (hparse : ¬ Parses t k) :
    ∃ e, tolerate (readHeader t q) = .error e := by
  simp only [Parses, not_forall] at hparse
  obtain ⟨text, htext, hparse⟩ := hparse
  have hread : t.readText q = .ok text := by
    rw [Tree.readText_of_resolve hr hc]
    cases hu : c.unified with
    | error e => simp [Tree.textAt?, hc, hu, Except.toOption] at htext
    | ok text' =>
      simp only [Tree.textAt?, hc, hu, Except.toOption, Option.some.injEq] at htext
      rw [htext]
      rfl
  cases hp : Page.parse text with
  | ok page => exact absurd ⟨page, hp⟩ hparse
  | error e =>
    refine ⟨.excess e, ?_⟩
    simp [readHeader, readPage, hread, ask, Except.mapError, bind, Except.bind, hp, Except.map,
      tolerate, Fault.isUnreadable]

/-- An observation of no markers ends at a record that is text but no page. -/
theorem observe_fails (hw : t.WellFormed) (hk : s.FragmentAt t k) (hparse : ¬ Parses t k)
    (path : Text) : ∃ e u, (s.observe path []).run t = (.error e, u) := by
  obtain ⟨files, hfiles, q, hq, hr⟩ := hk
  obtain ⟨-, hid, hfile⟩ := fragment_path hw hfiles hq
  obtain ⟨-, c, hc⟩ := hfile k hr
  obtain ⟨e, hread⟩ := not_tolerated hr hc hparse
  have hdrop : drops [] q = true := by
    obtain ⟨id, hid⟩ := Option.ne_none_iff_exists'.mp hid
    simp [drops, hid]
  rw [observe_nil hfiles]
  rcases hforget : (forget path [] files).run t with ⟨e | _, u⟩
  · exact ⟨e, u, by rw [Work.run_bind_of_error hforget]⟩
  · obtain ⟨found, hfound⟩ := tolerated_of_forget hforget hq hdrop
    cases hread.symm.trans hfound

/-! ## Damage -/

/-- What an observation returns and leaves: the number of markers bound to each id, and the records
that can be read brought up to date. -/
structure Observed (s : Session) (t : Tree) (path text : Text) (counts : List (Text × Nat))
    (u : Tree) : Prop where
  once : (counts.map Prod.fst).Nodup
  counted : ∀ id n, (id, n) ∈ counts ↔ 0 < n ∧ n = (boundIds text).count id
  cached : ∀ id file page, isId id = true → s.locate t id = .ok (some file) →
    readPage t file = .ok page → ∃ refs, s.cachedRefs u id = .ok refs ∧
      refs.get? path = (if id ∈ boundIds text then some ((boundIds text).count id : Int) else none) ∧
      ∀ other, other ≠ path → refs.get? other = page.header.refs.get? other

/-- What damage in records costs. -/
structure StaysLocal (s : Session) (t : Tree) : Prop where
  /-- A line of no shape costs a header itself and the end of the block of counts. -/
  recovered : ∀ block before line after r, Text.lines block = before ++ line :: after →
    before.foldlM Reading.addLine {} = .ok r → r.Malformed line →
    Header.read block = (after.foldlM Reading.addLine
      { r with inRefs := r.inRefs && Header.isIndented line }).map (·.header)
  observed : (∀ k, s.FragmentAt t k → Parses t k) → ∀ path text, IsPath path →
    (boundIds text).length < 10 ^ Numeral.limit →
    ∃ counts u, (s.observe path text).run t = (.ok counts, u) ∧ s.Observed t path text counts u
  decorated : (∀ k, s.FragmentAt t k → Parses t k) →
    ∀ lines, ∃ ds, s.decorations t lines = .ok ds ∧ ds.map Decoration.pin = pins lines
  /-- A path with a surrogate costs a record that can be read. -/
  spoiled : (∀ k, s.FragmentAt t k → Parses t k) → ∀ (path : Passed) u text, .inr u ∈ path →
    (boundIds text).length < 10 ^ Numeral.limit →
    ((∀ id ∈ boundIds text, ¬ s.HasPage t id) ∧
      (s.observePassed path text).run t = (.ok (idCounts (boundIds text)), t)) ∨
    ∃ id ∈ boundIds text, ∃ u, s.LostAt id t u ∧
      (s.observePassed path text).run t = (.error .unencodable, u)
  /-- A count with too many digits ends the observation of a text without markers. -/
  overlong : ∀ k, s.FragmentAt t k → ¬ Parses t k →
    (∃ text block body line, t.textAt? k = some text ∧ Page.split? text = some (block, body) ∧
      line ∈ Text.lines block ∧ Overlong line) ∧
    ∀ path, ∃ e u, (s.observe path []).run t = (.error e, u)

theorem Legible.observed (h : s.Legible t) (hpath : IsPath path) {text : Text}
    (hcount : (boundIds text).length < 10 ^ Numeral.limit) :
    ∃ counts u, (s.observe path text).run t = (.ok counts, u) ∧
      s.Observed t path text counts u := by
  obtain ⟨counts, f, u, hrun, hu, hf⟩ := observe_recounts h hpath text hcount
  have hcounts := counts_of_observe hrun
  refine ⟨counts, u, hrun, ?_, fun id n => ?_, fun id file page hid hfile hpage => ?_⟩
  · rw [hcounts]
    exact nodup_idCounts (boundIds text)
  · rw [hcounts, mem_idCounts]
  · obtain ⟨k, hplace, hcached⟩ := hu.cachedRefs h hid hfile hpage
    rw [hf id k hid hplace] at hcached
    refine ⟨_, hcached, ?_, fun other hother => by rw [Refs.get?_merge, if_neg hother]⟩
    rw [Refs.get?_merge, if_pos rfl]
    by_cases hm : id ∈ boundIds text
    · rw [if_pos (by exact_mod_cast List.count_pos_iff.mpr hm), if_pos hm]
    · rw [if_neg (by simp [List.count_eq_zero_of_not_mem hm]), if_neg hm]

theorem damage_stays_local (hw : t.WellFormed) {home : Path} (hs : s.folder? = some home)
    (hfits : Tree.Fits home 512) : s.StaysLocal t where
  recovered block before line after r hlines hbefore hline := by
    rw [Header.read, hlines, Reading.foldlM_malformed hbefore hline]
  observed hparses path text hpath hcount :=
    Legible.observed ⟨hw, ⟨home, hs, hfits⟩, hparses⟩ hpath hcount
  decorated hparses lines := by
    obtain ⟨ds, hds⟩ := Legible.decorations ⟨hw, ⟨home, hs, hfits⟩, hparses⟩ lines
    exact ⟨ds, hds, decorations_eq_ok hds⟩
  spoiled hparses path u text hpath hcount :=
    Legible.observePassed ⟨hw, ⟨home, hs, hfits⟩, hparses⟩ (Passed.text?_eq_none_iff.mpr ⟨u, hpath⟩)
      hcount
  overlong k hk hparse := ⟨overlong_of_not_parses hparse, observe_fails hw hk hparse⟩

/-- Two records, of which one is no text and the other one has a line of no shape. -/
def twoDamaged : Tree :=
  ⟨[([".cms".toList], .folder), ([".cms".toList, "default".toList], .folder),
    ([".cms".toList, "default".toList, "5.md".toList], .file (.raw [0xff])),
    ([".cms".toList, "default".toList, "6.md".toList],
      .file (.text "---\nid: 6\nrefs: |\n  x@b\n---\n\n".toList))]⟩

def twoBound : Text := "#codemeta[5]\n#codemeta[6]".toList

theorem damage_stays_local_twoDamaged :
    ∃ counts u, (observe { root := some { slashes := 1 } } ['a'] twoBound).run twoDamaged =
        (.ok counts, u) ∧ (['5'], 1) ∈ counts ∧
      (∃ refs, cachedRefs { root := some { slashes := 1 } } u ['6'] = .ok refs ∧
        refs.get? ['a'] = some 1) ∧
      ∃ ds, decorations { root := some { slashes := 1 } } twoDamaged (Text.atNewlines twoBound) =
        .ok ds ∧ ds.map Decoration.pin = [⟨0, 0, 9, ['5']⟩, ⟨1, 0, 9, ['6']⟩] := by
  have hparses : ∀ k, FragmentAt { root := some { slashes := 1 } } twoDamaged k →
      Parses twoDamaged k := by
    intro k hk text htext
    obtain ⟨c, hentry⟩ := hk.entry (by decide)
    simp only [twoDamaged, List.mem_cons, Prod.mk.injEq, reduceCtorEq, and_false,
      List.not_mem_nil, or_false, false_or] at hentry
    rcases hentry with ⟨rfl, -⟩ | ⟨rfl, -⟩
    · cases htext
    · cases htext
      exact ⟨_, rfl⟩
  have hs : folder? { root := some { slashes := 1 } } =
      some { slashes := 1, parts := [".cms".toList] } := by decide
  have hlocal := damage_stays_local (t := twoDamaged) (by decide) hs
    ⟨by decide, by decide, by decide⟩
  have hids : boundIds twoBound = [['5'], ['6']] := by decide +kernel
  obtain ⟨counts, u, hrun, hobserved⟩ := hlocal.observed hparses ['a'] twoBound
    ⟨by decide, by decide, by decide⟩ (by rw [hids]; decide +kernel)
  have hlocate : locate { root := some { slashes := 1 } } twoDamaged ['6'] =
      .ok (some { slashes := 1, parts := [".cms".toList, "default".toList, "6.md".toList] }) := by
    decide +kernel
  have hpage : readPage twoDamaged
      { slashes := 1, parts := [".cms".toList, "default".toList, "6.md".toList] } =
        .ok ⟨⟨[(Header.idKey, ['6'])], {}, some 1⟩, []⟩ := by decide +kernel
  obtain ⟨refs, hrefs, hget, -⟩ := hobserved.cached _ _ _ (by decide) hlocate hpage
  obtain ⟨ds, hds, hpins⟩ := hlocal.decorated hparses (Text.atNewlines twoBound)
  refine ⟨counts, u, hrun, (hobserved.counted _ _).mpr (by rw [hids]; decide), ⟨refs, hrefs, ?_⟩,
    ds, hds, ?_⟩
  · rw [hget, hids]
    decide
  · rw [hpins]
    decide +kernel

/-- A record with a count that has one digit too many, before another one. -/
def overlongFirst : Tree :=
  ⟨[([".cms".toList], .folder), ([".cms".toList, "default".toList], .folder),
    ([".cms".toList, "default".toList, "5.md".toList],
      .file (.text (Page.counting ['a'] (10 ^ Numeral.limit)))),
    ([".cms".toList, "default".toList, "6.md".toList],
      .file (.text "---\nid: 6\nrefs: |\n  1@a\n---\n\n".toList))]⟩

/-- The record behind keeps the count of a file in which there are no markers. -/
theorem stale_behind_overlong :
    ∃ e, (observe { root := some { slashes := 1 } } ['a'] []).run overlongFirst =
        (.error e, overlongFirst) ∧
      cachedRefs { root := some { slashes := 1 } } overlongFirst ['6'] = .ok ⟨[(['a'], 1)]⟩ := by
  have hchildren : overlongFirst.children [".cms".toList, "default".toList] =
      [("5.md".toList, .file (.text (Page.counting ['a'] (10 ^ Numeral.limit)))),
        ("6.md".toList, .file (.text "---\nid: 6\nrefs: |\n  1@a\n---\n\n".toList))] :=
    List.mergeSort_of_pairwise (by decide +kernel)
  have hfiles : fragmentPaths { root := some { slashes := 1 } } overlongFirst =
      .ok [{ slashes := 1, parts := [".cms".toList, "default".toList, "5.md".toList] },
        { slashes := 1, parts := [".cms".toList, "default".toList, "6.md".toList] }] := by
    have hfolders : fragmentFolders { root := some { slashes := 1 } } overlongFirst =
        .ok [{ slashes := 1, parts := [".cms".toList] },
          { slashes := 1, parts := [".cms".toList, "default".toList] }] := by decide +kernel
    have hflat : fragmentsIn overlongFirst { slashes := 1, parts := [".cms".toList] } = .ok [] := by
      decide +kernel
    have hset : fragmentsIn overlongFirst
        { slashes := 1, parts := [".cms".toList, "default".toList] } =
          .ok [{ slashes := 1, parts := [".cms".toList, "default".toList, "5.md".toList] },
            { slashes := 1, parts := [".cms".toList, "default".toList, "6.md".toList] }] := by
      have hr : overlongFirst.resolve { slashes := 1, parts := [".cms".toList, "default".toList] } =
          .ok [".cms".toList, "default".toList] := by decide +kernel
      have hfound : overlongFirst.filesIn
          { slashes := 1, parts := [".cms".toList, "default".toList] } =
            .ok ["5.md".toList, "6.md".toList] := by
        rw [Tree.filesIn, Tree.listing_of_resolve hr rfl, hchildren]
        decide +kernel
      rw [fragmentsIn, hfound]
      rfl
    rw [fragmentPaths_eq_mapM, hfolders, Except.bind, List.mapM_cons, hflat, List.mapM_cons, hset]
    rfl
  have hpath : IsPath ['a'] := ⟨by decide, by decide, by decide⟩
  have hfile : overlongFirst.resolve
      { slashes := 1, parts := [".cms".toList, "default".toList, "5.md".toList] } =
        .ok [".cms".toList, "default".toList, "5.md".toList] := by decide +kernel
  have hpage := readPage_counting hpath (Nat.le_refl _) hfile rfl
  refine ⟨.excess (.digits (Numeral.ofNat (10 ^ Numeral.limit)).length), ?_, by decide +kernel⟩
  rw [observe_nil hfiles, Work.run_bind_of_error]
  show (Work.inspect (fun t => tolerate (readHeader t _)) >>= _).run overlongFirst = _
  rw [Work.run_bind_of_error]
  rw [Work.run_inspect, readHeader, hpage]
  rfl

end Marginalia.Session
