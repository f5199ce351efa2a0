import Marginalia.Proofs.Session.Occurrences
import Marginalia.Proofs.Session.Places

/-!
# Counts noted in any workspace

A workspace is `Legible` when its paths are not too long and every fragment file that is text can be
parsed. In it all that is noted from documents comes to new counts in the fragment files and to
nothing else: `Recounts` says what the counts at each place become. One written header is such a
change (`mergeHeader_recounts`), changes follow each other (`Recounts.trans`), and observing a text
sets its file's count in the record of every id to the number of the id's markers
(`observe_recounts`).
-/

namespace Marginalia

open Header (IsPath)
open Marginalia.Tree (SameKinds)

/-- The text of the file at a location, when there is one that can be read. -/
def Tree.textAt? (t : Tree) (k : Location) : Option Text :=
  match t.node? k with
  | some (.file c) => c.unified.toOption
  | _ => none

namespace Session

/-- The counts in the header of the page at a location. -/
def refsAt (t : Tree) (k : Location) : Option Refs :=
  (t.textAt? k).bind fun text => (Page.parse text).toOption.map (·.header.refs)

/-- Whether the text at a location, if there is one, is that of a page. -/
def Parses (t : Tree) (k : Location) : Prop :=
  ∀ text, t.textAt? k = some text → ∃ p, Page.parse text = .ok p

/-- A workspace in which fragments can be looked up, and read unless they are no text. -/
structure Legible (s : Session) (t : Tree) : Prop where
  wellFormed : t.WellFormed
  room : ∃ home, s.folder? = some home ∧ Tree.Fits home 512
  parses : ∀ k, s.FragmentAt t k → Parses t k

/-- The counts of fragments become what a function of their places says, and nothing else changes
but the form of fragment files. -/
structure Recounts (s : Session) (f : Location → Refs → Refs) (t u : Tree) : Prop where
  wellFormed : u.WellFormed
  kinds : SameKinds t u
  others : ∀ k, ¬s.FragmentAt t k → u.node? k = t.node? k
  parses : ∀ k, s.FragmentAt t k → Parses u k
  refs : ∀ k, s.FragmentAt t k → refsAt u k = (refsAt t k).map (f k)

variable {s : Session} {t u v : Tree} {f g : Location → Refs → Refs} {id path : Text} {k : Location}

/-! ## Pages at places -/

/-- A file is either no text, and passed over, or a page with the counts at its place. -/
theorem read_at {p : Path} {c : Content} (hr : t.resolve p = .ok k)
    (hn : t.node? k = some (.file c)) (hparse : Parses t k) :
    (refsAt t k = none ∧ tolerate (readHeader t p) = .ok none) ∨
      ∃ page, readPage t p = .ok page ∧ refsAt t k = some page.header.refs ∧
        tolerate (readHeader t p) = .ok (some (identify p page.header)) := by
  have hread := Tree.readText_of_resolve hr hn
  cases hu : c.unified with
  | error e =>
    rw [hu] at hread
    have hheader : readHeader t p = .error (.disk (.undecodable e)) := by
      simp [readHeader, readPage, hread, Except.mapError, ask, bind, Except.bind, Except.map]
    refine .inl ⟨by simp [refsAt, Tree.textAt?, hn, hu, Except.toOption], ?_⟩
    rw [hheader]
    rfl
  | ok text =>
    rw [hu] at hread
    have htext : t.textAt? k = some text := by simp [Tree.textAt?, hn, hu, Except.toOption]
    obtain ⟨page, hp⟩ := hparse text htext
    have hpage : readPage t p = .ok page := readPage_eq_ok_iff.mpr ⟨text, hread, hp⟩
    refine .inr ⟨page, hpage, by simp [refsAt, htext, hp, Except.toOption], ?_⟩
    rw [readHeader_eq_ok_iff.mpr ⟨page, hpage, rfl⟩]
    rfl

/-- The cached counts are those in the header of the file that is located. -/
theorem cachedRefs_at {p : Path} {c : Content} {r : Refs} (hlocate : s.locate t id = .ok (some p))
    (hr : t.resolve p = .ok k) (hn : t.node? k = some (.file c)) (hparse : Parses t k)
    (hrefs : refsAt t k = some r) : s.cachedRefs t id = .ok r := by
  rcases read_at hr hn hparse with ⟨hnone, -⟩ | ⟨page, -, hpage, hread⟩
  · rw [hrefs] at hnone
    cases hnone
  · cases hrefs.symm.trans hpage
    simp only [cachedRefs, hlocate, hread, bind, Except.bind, pure, Except.pure, Option.map_some,
      identify_refs, Option.getD_some]

theorem ascending_refsAt {r : Refs} (h : refsAt t k = some r) : r.Ascending := by
  obtain ⟨text, -, hr⟩ := Option.bind_eq_some_iff.mp h
  cases hp : Page.parse text with
  | error e => simp [hp, Except.toOption] at hr
  | ok page =>
    simp only [hp, Except.toOption, Option.map_some, Option.some.injEq] at hr
    exact hr ▸ (Page.readable_of_parse hp).ascending

theorem FragmentAt.file (h : s.FragmentAt t k) (hw : t.WellFormed) :
    ∃ c, t.node? k = some (.file c) := by
  obtain ⟨files, hfiles, p, hp, hr⟩ := h
  exact ((fragment_path hw hfiles hp).2.2 k hr).2

theorem FragmentAt.entry (h : s.FragmentAt t k) (hw : t.WellFormed) :
    ∃ c, (k, Node.file c) ∈ t.entries := by
  obtain ⟨c, hc⟩ := h.file hw
  have hne : k ≠ [] := fun e => by rw [e] at hc; cases hc
  exact ⟨c, Tree.mem_entries hne hc⟩

/-! ## Legible workspaces -/

namespace Legible

theorem located (h : s.Legible t) (hid : isId id = true) : ∃ found, s.locate t id = .ok found := by
  obtain ⟨home, hs, hfits⟩ := h.room
  obtain ⟨b, hb⟩ := hasFragment_total h.wellFormed hs (hfits.mono (by decide)) hid
  obtain ⟨found, hfound, -⟩ := hasFragment_eq_ok_iff.mp hb
  exact ⟨found, hfound⟩

theorem listed (h : s.Legible t) : ∃ files, s.fragmentPaths t = .ok files := by
  obtain ⟨home, hs, hfits⟩ := h.room
  obtain ⟨b, hb⟩ := hfits.holds t (· == .folder)
  have hfolder : t.isFolder home = .ok b := hb
  cases b with
  | false =>
    exact ⟨[], by simp [fragmentPaths, fragmentFolders, hs, hfolder, ask, bind, Except.bind, pure,
      Except.pure, Except.mapError]⟩
  | true =>
    obtain ⟨l, hr, hl⟩ := Tree.isFolder_eq_true_iff.mp hfolder
    obtain ⟨files, hfiles, -⟩ := mem_fragmentPaths h.wellFormed hs hfits hr hl
    exact ⟨files, hfiles⟩

/-- The file of a located id is at a place of a fragment. -/
theorem file_of_locate (h : s.Legible t) (hid : isId id = true) {p : Path}
    (hp : s.locate t id = .ok (some p)) : ∃ k c, t.resolve p = .ok k ∧
      t.node? k = some (.file c) ∧ s.place? t id = some k ∧ s.FragmentAt t k := by
  obtain ⟨folders, -, hfirst⟩ := locate_eq_ok hp
  obtain ⟨folder, -, rfl, hfile⟩ := firstWith_some hfirst
  obtain ⟨k, c, hr, hn⟩ := Tree.isFile_eq_true_iff.mp hfile
  have hplace : s.place? t id = some k := place?_eq_some_iff.mpr ⟨_, hp, hr⟩
  obtain ⟨files, hfiles⟩ := h.listed
  exact ⟨k, c, hr, hn, hplace, (place?_spec h.wellFormed hfiles hid hplace).1⟩

end Legible

/-! ## Changes of counts -/

namespace Recounts

theorem fragmentAt_iff (h : s.Recounts f t u) (ht : t.WellFormed) :
    s.FragmentAt u k ↔ s.FragmentAt t k :=
  Session.fragmentAt_iff h.kinds ht h.wellFormed

theorem place?_eq (h : s.Recounts f t u) (ht : t.WellFormed) (id : Text) :
    s.place? u id = s.place? t id :=
  Session.place?_eq h.kinds ht h.wellFormed id

theorem legible (h : s.Recounts f t u) (ht : s.Legible t) : s.Legible u where
  wellFormed := h.wellFormed
  room := ht.room
  parses k hk := h.parses k ((h.fragmentAt_iff ht.wellFormed).mp hk)

theorem refl (h : s.Legible t)
    (hf : ∀ k r, s.FragmentAt t k → refsAt t k = some r → f k r = r) : s.Recounts f t t where
  wellFormed := h.wellFormed
  kinds := SameKinds.refl t
  others _ _ := rfl
  parses := h.parses
  refs k hk := by
    cases hr : refsAt t k with
    | none => rfl
    | some r => rw [Option.map_some, hf k r hk hr]

theorem trans (h : s.Recounts f t u) (h' : s.Recounts g u v) (ht : t.WellFormed) :
    s.Recounts (fun k r => g k (f k r)) t v where
  wellFormed := h'.wellFormed
  kinds := h.kinds.trans h'.kinds
  others k hk := by
    rw [h'.others k fun hk' => hk ((h.fragmentAt_iff ht).mp hk'), h.others k hk]
  parses k hk := h'.parses k ((h.fragmentAt_iff ht).mpr hk)
  refs k hk := by
    rw [h'.refs k ((h.fragmentAt_iff ht).mpr hk), h.refs k hk, Option.map_map]
    rfl

theorem congr (h : s.Recounts f t u)
    (hfg : ∀ k r, s.FragmentAt t k → refsAt t k = some r → f k r = g k r) : s.Recounts g t u where
  wellFormed := h.wellFormed
  kinds := h.kinds
  others := h.others
  parses := h.parses
  refs k hk := by
    rw [h.refs k hk]
    exact Option.map_congr fun r hr => hfg k r hk hr

end Recounts

/-! ## Noting counts -/

/-- A page put in the place of another one. -/
theorem insert_recounts (h : s.Legible t) {p : Path} (hk : s.FragmentAt t k)
    (hr : t.resolve p = .ok k) {r : Refs} (hold : refsAt t k = some r) (page : Page)
    (hh : page.header.Readable) (hbody : '\r' ∉ page.body) :
    s.Recounts (fun k' r => if k' = k then page.header.refs else r) t
      (t.insert k (.file (.text page.render))) := by
  obtain ⟨c, hc⟩ := hk.file h.wellFormed
  have hfold : t.node? k ≠ some .folder := by simp [hc]
  have hne : k ≠ [] := fun e => hfold (by rw [e]; rfl)
  have htext : (t.insert k (.file (.text page.render))).textAt? k = some page.render := by
    have hplain := Text.unifyNewlines_of_no_return (Page.no_return_render hh hbody)
    simp only [Tree.textAt?, Tree.node?_insert_self t hne]
    show some (Text.unifyNewlines page.render) = _
    rw [hplain]
  have hparse := Page.parse_render hh page.body
  have hother : ∀ k', k' ≠ k → (t.insert k (.file (.text page.render))).textAt? k' = t.textAt? k' :=
    fun k' hk' => by rw [Tree.textAt?, Tree.node?_insert_of_ne t hk', Tree.textAt?]
  refine ⟨h.wellFormed.insert_file hr hfold _, SameKinds.insert_file hne hc _,
    fun k' hk' => Tree.node?_insert_of_ne t (fun e => hk' (by rwa [e])) _, ?_, ?_⟩
  · intro k' hk' text ht
    by_cases e : k' = k
    · subst e
      cases htext.symm.trans ht
      exact ⟨_, hparse⟩
    · rw [hother k' e] at ht
      exact h.parses k' hk' text ht
  · intro k' hk'
    by_cases e : k' = k
    · subst e
      rw [hold, refsAt, htext, Option.bind_some, hparse, Option.map_some, if_pos rfl]
      rfl
    · rw [refsAt, hother k' e, ← refsAt]
      simp [e]

/-- A count noted in the header of one fragment file. -/
theorem mergeHeader_recounts (h : s.Legible t) {p : Path} {page : Page} (hk : s.FragmentAt t k)
    (hr : t.resolve p = .ok k) (hpage : readPage t p = .ok page)
    (hrefs : refsAt t k = some page.header.refs) (path : Text) (n : Int)
    (hpath : 0 < n → IsPath path) (hn : 0 < n → n.natAbs < 10 ^ Numeral.limit) :
    ∃ u, (writeHeader p ((identify p page.header).mergeRef path n)).run t = (.ok (), u) ∧
      s.Recounts (fun k' r => if k' = k then r.merge path n else r) t u := by
  obtain ⟨c, hc⟩ := hk.file h.wellFormed
  have hfold : t.node? k ≠ some .folder := by simp [hc]
  have hh := (readable_identify p (readable_of_readPage hpage)).mergeRef hpath hn
  let new : Page := ⟨(identify p page.header).mergeRef path n, page.body⟩
  have hnew : s.Recounts (fun k' r => if k' = k then new.header.refs else r) t
      (t.insert k (.file (.text new.render))) :=
    insert_recounts h hk hr hrefs new hh (no_return_of_readPage hpage : '\r' ∉ page.body)
  refine ⟨t.insert k (.file (.text new.render)), ?_, hnew.congr fun k' r _ hr' => ?_⟩
  · have hinspect : (Work.inspect fun t => readPage t p).run t = (.ok page, t) := by
      rw [Work.run_inspect, hpage]
    unfold writeHeader
    rw [Work.run_bind_of_ok hinspect]
    simp only [identify_mergeRef, identify_identify]
    unfold writePage
    rw [excess?_eq_none_iff.mpr hh.short]
    show (Work.change _).run t = _
    rw [Work.run_change, Tree.write_of_resolve _ hr hfold]
  · by_cases e : k' = k
    · subst e
      cases hrefs.symm.trans hr'
      rw [if_pos rfl, if_pos rfl]
      show (identify p page.header).refs.merge path n = _
      rw [identify_refs]
    · rw [if_neg e, if_neg e]

/-- How a count gets into one fragment file: a file that is no text is passed over, one whose counts
stay as they are may be left alone, and any other is written. -/
theorem note_cases (h : s.Legible t) {p : Path} (hk : s.FragmentAt t k) (hr : t.resolve p = .ok k)
    (path : Text) (n : Int) (hpath : 0 < n → IsPath path)
    (hn : 0 < n → n.natAbs < 10 ^ Numeral.limit) :
    (tolerate (readHeader t p) = .ok none ∧
      s.Recounts (fun k' r => if k' = k then r.merge path n else r) t t) ∨
    ∃ header, tolerate (readHeader t p) = .ok (some header) ∧
      (header.refs.merge path n = header.refs →
        s.Recounts (fun k' r => if k' = k then r.merge path n else r) t t) ∧
      ∃ u, (writeHeader p (header.mergeRef path n)).run t = (.ok (), u) ∧
        s.Recounts (fun k' r => if k' = k then r.merge path n else r) t u := by
  obtain ⟨c, hc⟩ := hk.file h.wellFormed
  -- nothing has to change when the counts at the place are none or stay
  have hstay : (∀ r, refsAt t k = some r → r.merge path n = r) →
      s.Recounts (fun k' r => if k' = k then r.merge path n else r) t t := fun hsame =>
    .refl h fun k' r _ hr' => by
      split
      · next e => exact hsame r (e ▸ hr')
      · rfl
  rcases read_at hr hc (h.parses k hk) with ⟨hnone, hread⟩ | ⟨page, hpage, hrefs, hread⟩
  · exact .inl ⟨hread, hstay fun r hr' => by rw [hnone] at hr'; cases hr'⟩
  · refine .inr ⟨_, hread, fun hsame => hstay fun r hr' => ?_,
      mergeHeader_recounts h hk hr hpage hrefs path n hpath hn⟩
    cases hrefs.symm.trans hr'
    rwa [identify_refs] at hsame

theorem record_recounts (h : s.Legible t) (hid : isId id = true) {n : Int}
    (hpath : 0 < n → IsPath path) (hn : 0 < n → n.natAbs < 10 ^ Numeral.limit) :
    ∃ r u, (s.record id path n).run t = (.ok r, u) ∧
      s.Recounts (fun k r => if s.place? t id = some k then r.merge path n else r) t u := by
  obtain ⟨found, hloc⟩ := h.located hid
  unfold record
  rw [Work.run_bind_of_ok (by rw [Work.run_inspect, hloc])]
  cases found with
  | none => exact ⟨none, t, rfl, .refl h fun k r _ _ => by simp [place?, hloc]⟩
  | some p =>
    obtain ⟨k, c, hr, -, hplace, hk⟩ := h.file_of_locate hid hloc
    have hat : ∀ k', s.place? t id = some k' ↔ k' = k := fun k' => by
      rw [hplace, Option.some.injEq, eq_comm]
    simp only [hat]
    rcases note_cases h hk hr path n hpath hn with ⟨hread, hu⟩ | ⟨header, hread, hstay, u, hrun, hu⟩
    · rw [Work.run_bind_of_ok (by rw [Work.run_inspect, hread])]
      exact ⟨none, t, rfl, hu⟩
    · rw [Work.run_bind_of_ok (by rw [Work.run_inspect, hread])]
      by_cases hsame : header.refs.merge path n = header.refs
      · exact ⟨some header.refs, t, by simp [Header.mergeRef, hsame], hstay hsame⟩
      · have hdiff : ((header.mergeRef path n).refs != header.refs) = true := by
          simpa [Header.mergeRef] using hsame
        refine ⟨some (header.mergeRef path n).refs, u, ?_, hu⟩
        simp only [hdiff, if_true]
        rw [Work.run_bind_of_ok hrun]
        rfl

theorem recordAll_recounts (h : s.Legible t) (hpath : IsPath path) (count : Text → Nat)
    (ids : List Text) (hids : ∀ id ∈ ids, isId id = true ∧ count id < 10 ^ Numeral.limit) :
    ∃ u, (s.recordAll path (ids.map fun id => (id, count id))).run t = (.ok (), u) ∧
      s.Recounts (fun k r => ids.foldl (fun r id =>
        if s.place? t id = some k then r.merge path (count id) else r) r) t u := by
  induction ids generalizing t with
  | nil => exact ⟨t, rfl, .refl h fun _ _ _ _ => rfl⟩
  | cons id ids ih =>
    obtain ⟨hid, hcount⟩ := hids id List.mem_cons_self
    obtain ⟨r, u, hrun, hu⟩ := record_recounts h hid (n := count id) (fun _ => hpath)
      fun _ => by rwa [Int.natAbs_natCast]
    obtain ⟨v, hrun', hv⟩ := ih (hu.legible h) fun id hm => hids id (List.mem_cons_of_mem _ hm)
    simp only [hu.place?_eq h.wellFormed] at hv
    refine ⟨v, ?_, hu.trans hv h.wellFormed⟩
    rw [List.map_cons, recordAll, Work.run_bind_of_ok hrun, hrun']

/-- At the place of an id the counts noted for a list of ids come to that of this id. -/
theorem foldl_at_place (h : s.Legible t) (count : Text → Nat) {ids : List Text}
    (hids : ∀ id ∈ ids, isId id = true) (hid : isId id = true) (hk : s.place? t id = some k)
    (r : Refs) :
    ids.foldl (fun r id => if s.place? t id = some k then r.merge path (count id) else r) r =
      if id ∈ ids then r.merge path (count id) else r := by
  obtain ⟨files, hfiles⟩ := h.listed
  induction ids generalizing r with
  | nil => rfl
  | cons id' ids ih =>
    rw [List.foldl_cons, ih fun i hi => hids i (List.mem_cons_of_mem _ hi)]
    by_cases e : id = id'
    · subst e
      rw [if_pos hk, if_pos List.mem_cons_self, Refs.merge_merge, ite_self]
    · have hne : s.place? t id' ≠ some k := fun hk' =>
        e (place?_inj h.wellFormed hfiles hid (hids id' List.mem_cons_self) hk hk')
      rw [if_neg hne]
      simp [e]

/-! ## Taking counts out -/

/-- Whether the id that a fragment file's name gives is not among those kept. -/
def drops (kept : List Text) (file : Path) : Bool :=
  (fileId? file.name).any fun id => !kept.contains id

/-- Where `forget` takes counts out. -/
def droppedAt (t : Tree) (kept : List Text) (files : List Path) : List Location :=
  (files.filter (drops kept)).filterMap fun file => (t.resolve file).toOption

/-- A path that leads nowhere is passed over. -/
theorem tolerate_of_resolve_error {p : Path} (hnul : p.hasNul = false) {f : Disk.Fault}
    (hr : t.resolve p = .error f) : tolerate (readHeader t p) = .ok none := by
  have hread : t.readText p = .error f := by
    rw [Tree.readText, hr]
    rfl
  obtain ⟨hne, hne'⟩ := Tree.readText_error hnul hread
  simp [readHeader, readPage, hread, ask, Except.mapError, bind, Except.bind, Except.map,
    tolerate, Fault.isUnreadable, hne, hne']

/-- What `forget` does at one file. -/
theorem forget_step (h : s.Legible t) {files : List Path} (hall : s.fragmentPaths t = .ok files)
    (path : Text) (kept : List Text) {p : Path} (hp : p ∈ files) (rest : List Path) :
    ∃ u, (forget path kept (p :: rest)).run t = (forget path kept rest).run u ∧
      s.Recounts (fun k r => if k ∈ droppedAt t kept [p] then r.merge path 0 else r) t u := by
  have hnul := (fragment_path h.wellFormed hall hp).1
  have hdrops : ((fileId? p.name).any fun id => !kept.contains id) = drops kept p := rfl
  rw [forget, hdrops]
  cases hdrop : drops kept p with
  | false => exact ⟨t, rfl, .refl h fun k r _ _ => by simp [droppedAt, hdrop]⟩
  | true =>
    rw [if_pos rfl]
    cases hr : t.resolve p with
    | error f =>
      have hnone := tolerate_of_resolve_error hnul hr
      rw [Work.run_bind_of_ok (by rw [Work.run_inspect, hnone])]
      exact ⟨t, rfl, .refl h fun k r _ _ => by simp [droppedAt, hdrop, hr, Except.toOption]⟩
    | ok k =>
      have hk : s.FragmentAt t k := ⟨files, hall, p, hp, hr⟩
      have hat : ∀ k', k' ∈ droppedAt t kept [p] ↔ k' = k := fun k' => by
        simp [droppedAt, hdrop, hr, Except.toOption]
      simp only [hat]
      rcases note_cases h hk hr path 0 (fun h0 => absurd h0 (by omega))
        fun h0 => absurd h0 (by omega) with ⟨hread, hu⟩ | ⟨header, hread, hstay, u, hrun, hu⟩
      · rw [Work.run_bind_of_ok (by rw [Work.run_inspect, hread])]
        exact ⟨t, rfl, hu⟩
      · rw [Work.run_bind_of_ok (by rw [Work.run_inspect, hread])]
        cases hget : header.refs.get? path with
        | none =>
          refine ⟨t, ?_, hstay (Refs.merge_of_get? (by omega) hget)⟩
          simp only [hget, Option.isSome_none, Bool.false_eq_true, if_false]
        | some m =>
          refine ⟨u, ?_, hu⟩
          simp only [hget, Option.isSome_some, if_true]
          rw [Work.run_bind_of_ok hrun]

theorem forget_recounts (h : s.Legible t) {files : List Path} (hall : s.fragmentPaths t = .ok files)
    (path : Text) (kept : List Text) {rest : List Path} (hrest : ∀ p ∈ rest, p ∈ files) :
    ∃ u, (forget path kept rest).run t = (.ok (), u) ∧
      s.Recounts (fun k r => if k ∈ droppedAt t kept rest then r.merge path 0 else r) t u := by
  induction rest generalizing t with
  | nil => exact ⟨t, rfl, .refl h fun _ _ _ _ => by simp [droppedAt]⟩
  | cons p rest ih =>
    obtain ⟨hp, hrest'⟩ := List.forall_mem_cons.mp hrest
    obtain ⟨u, hrun, hu⟩ := forget_step h hall path kept hp rest
    have hall' : s.fragmentPaths u = .ok files := by
      rw [fragmentPaths_eq hu.kinds h.wellFormed hu.wellFormed, hall]
    obtain ⟨v, hrun', hv⟩ := ih (hu.legible h) hall' hrest'
    refine ⟨v, hrun.trans hrun', (hu.trans hv h.wellFormed).congr fun k r _ _ => ?_⟩
    have hsame : droppedAt u kept rest = droppedAt t kept rest := by
      simp only [droppedAt, hu.kinds.resolve_eq]
    have hcons : droppedAt t kept (p :: rest) = droppedAt t kept [p] ++ droppedAt t kept rest := by
      rw [droppedAt, ← List.singleton_append, List.filter_append, List.filterMap_append]
      rfl
    rw [hsame, hcons]
    by_cases hfirst : k ∈ droppedAt t kept [p]
    · simp [hfirst, Refs.merge_merge]
    · simp [hfirst]

/-- At the place of an id its file's count is taken out unless the id is kept. -/
theorem mem_droppedAt (h : s.Legible t) {files : List Path} (hall : s.fragmentPaths t = .ok files)
    (kept : List Text) (hid : isId id = true) (hk : s.place? t id = some k) :
    k ∈ droppedAt t kept files ↔ id ∉ kept := by
  obtain ⟨⟨files', hall', p, hp, hr⟩, hlast⟩ := place?_spec h.wellFormed hall hid hk
  cases hall.symm.trans hall'
  -- every fragment file that is at this place has the name of the id
  have hdrops : ∀ q ∈ files, t.resolve q = .ok k → (drops kept q = true ↔ id ∉ kept) := by
    intro q hq hrq
    obtain ⟨hname, -⟩ := (fragment_path h.wellFormed hall hq).2.2 k hrq
    rw [hlast, Option.some.injEq] at hname
    simp [drops, ← hname, fileId?_ending hid]
  unfold droppedAt
  rw [List.mem_filterMap]
  constructor
  · rintro ⟨q, hq, hrq⟩
    obtain ⟨hq, hdrop⟩ := List.mem_filter.mp hq
    cases hrq' : t.resolve q with
    | error f => simp [hrq', Except.toOption] at hrq
    | ok k' =>
      obtain rfl : k' = k := by simpa [hrq', Except.toOption] using hrq
      exact (hdrops q hq hrq').mp hdrop
  · intro hkept
    exact ⟨p, List.mem_filter.mpr ⟨hp, (hdrops p hp hr).mpr hkept⟩, by simp [hr, Except.toOption]⟩

/-! ## Observing -/

/-- Observing a text sets its file's count in the record of every id to the number of the markers
bound to the id, and takes the count out of the others. -/
theorem observe_recounts (h : s.Legible t) (hpath : IsPath path) (text : Text)
    (hcount : (boundIds text).length < 10 ^ Numeral.limit) :
    ∃ counts f u, (s.observe path text).run t = (.ok counts, u) ∧ s.Recounts f t u ∧
      ∀ id k, isId id = true → s.place? t id = some k →
        ∀ r, f k r = r.merge path ((boundIds text).count id) := by
  have hids : ∀ id ∈ (boundIds text).eraseDups, isId id = true := fun id hid =>
    isId_of_mem_boundIds (List.mem_eraseDups.mp hid)
  obtain ⟨u, hrun, hu⟩ := recordAll_recounts h hpath (boundIds text).count
    (boundIds text).eraseDups fun id hid =>
      ⟨hids id hid, lt_of_le_of_lt List.count_le_length hcount⟩
  obtain ⟨files, hall⟩ := (hu.legible h).listed
  obtain ⟨v, hrun', hv⟩ := forget_recounts (hu.legible h) hall path
    (boundIds text).eraseDups fun p hp => hp
  have hkept : (idCounts (boundIds text)).map Prod.fst = (boundIds text).eraseDups := by
    simp [idCounts, Function.comp_def]
  refine ⟨idCounts (boundIds text), _, v, ?_, hu.trans hv h.wellFormed, fun id k hid hk r => ?_⟩
  · have hrun₁ : (s.recordAll path (idCounts (boundIds text))).run t = (.ok (), u) := hrun
    unfold observe
    simp only []
    rw [Work.run_bind_of_ok hrun₁, Work.run_bind_of_ok (by rw [Work.run_inspect, hall]), hkept,
      Work.run_bind_of_ok hrun']
    rfl
  · have hk' : s.place? u id = some k := by rw [hu.place?_eq h.wellFormed, hk]
    simp only [foldl_at_place h (boundIds text).count hids hid hk,
      mem_droppedAt (hu.legible h) hall _ hid hk', List.mem_eraseDups]
    by_cases hm : id ∈ boundIds text
    · simp [hm]
    · simp [hm, List.count_eq_zero_of_not_mem hm]

end Session

end Marginalia
