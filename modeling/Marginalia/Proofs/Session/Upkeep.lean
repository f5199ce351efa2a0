import Marginalia.Proofs.Session.Ledger
import Marginalia.Proofs.Session.Occurrences

/-!
# The upkeep of records

What is written into a record in its place is what its entry becomes: `record` and `forget` merge
one count, `observe` the counts of a whole text, `refresh` puts those of a scan in place of all,
`writeBody` changes the body. None of these fails on records that the ledger knows.
-/

namespace Marginalia

open Header (IsPath)
open Session (recordPlace)

namespace Record

/-- The entry with one count noted. -/
def note (path : Text) (n : Int) (e : Record) : Record := { e with refs := e.refs.merge path n }

theorem note_note (path : Text) (n : Int) (e : Record) :
    (e.note path n).note path n = e.note path n := by
  unfold note
  rw [Refs.merge_merge]

end Record

namespace Ledger

/-- The ledger with a count of a file noted in every entry. -/
def noteAll (L : Ledger) (path : Text) (count : Text → Int) : Ledger :=
  fun k => (L k).map (Record.note path (count k))

/-- A noted count leaves every record in its place. -/
theorem update_note_path {L : Ledger} (id path : Text) (n : Int) {k : Text} {e : Record}
    (he : L k = some e) :
    ∃ e', L.update id (Record.note path n) k = some e' ∧ e'.path = e.path := by
  by_cases hk : k = id
  · exact ⟨e.note path n, by rw [hk, update_self, ← hk, he]; rfl, rfl⟩
  · exact ⟨e, by rw [update_of_ne L _ hk, he], rfl⟩

/-- Noting counts one by one. -/
theorem foldl_update_note (path : Text) (count : Text → Int) (ids : List Text) (L : Ledger)
    (k : Text) : ids.foldl (fun L id => L.update id (Record.note path (count id))) L k =
      if k ∈ ids then (L k).map (Record.note path (count k)) else L k := by
  induction ids generalizing L with
  | nil => rfl
  | cons id ids ih =>
    rw [List.foldl_cons, ih]
    by_cases hk : k = id
    · subst hk
      rw [update_self, Option.map_map, if_pos List.mem_cons_self]
      split
      · congr 1
        funext e
        exact Record.note_note ..
      · rfl
    · rw [update_of_ne L _ hk]
      simp [hk]

end Ledger

namespace Ledger.Matches

variable {label : Text} {root : Path} {t : Tree} {L : Ledger} {s : Session} {id : Text} {e : Record}

/-! ## Writing one record -/

theorem readHeader (h : L.Matches label root t) (hfits : Tree.Fits root.home 512)
    (he : L id = some e) : ∃ place,
      Session.readHeader t e.path = .ok ⟨recordFields label id e.created, e.refs, place⟩ ∧
        Header.Readable ⟨recordFields label id e.created, e.refs, place⟩ := by
  obtain ⟨hid, set, text, hpath, -, -⟩ := h.records id e he
  obtain ⟨place, hpage⟩ := h.readPage hfits he
  refine ⟨place, Session.readHeader_eq_ok_iff.mpr ⟨_, hpage, ?_⟩, Session.readable_of_readPage hpage⟩
  rw [hpath, identify_recordFields hid]

theorem writePage (h : L.Matches label root t) (hfits : Tree.Fits root.home 512)
    (he : L id = some e) {p : Page} (hp : p.header.Readable)
    (hfields : p.header.fields = recordFields label id e.created) (hbody : '\r' ∉ p.body) :
    ∃ t', (Session.writePage e.path p).run t = (.ok (), t') ∧
      (L.put id { e with refs := p.header.refs, body := Page.settle p.body }).Matches
        label root t' := by
  obtain ⟨hid, set, text, hpath, hn, -⟩ := h.records id e he
  obtain ⟨-, -, -, hr⟩ := h.resolve_record hfits hid hn
  have hfree : t.node? (recordPlace root.home set id) ≠ some .folder := by
    rw [hn]
    simp
  have hsame : ∀ e₀, L id = some e₀ → e₀.path = e.path := fun e₀ he₀ => by
    rw [he] at he₀
    cases he₀
    rfl
  refine ⟨_, ?_, h.put hid (h.wellFormed.canHold hn) hfree hpath hsame
    (Shows.of_render hp hfields hbody)⟩
  have hexcess : p.header.excess? = none := Session.excess?_eq_none_iff.mpr hp.short
  unfold Session.writePage
  rw [hexcess]
  show (Work.change _).run t = _
  rw [Work.run_change, hpath, Tree.write_of_resolve _ hr hfree]

theorem writeHeader (h : L.Matches label root t) (hfits : Tree.Fits root.home 512)
    (he : L id = some e) {refs : Refs} {place : Option Int}
    (hh : Header.Readable ⟨recordFields label id e.created, refs, place⟩) :
    ∃ t', (Session.writeHeader e.path ⟨recordFields label id e.created, refs, place⟩).run t =
        (.ok (), t') ∧ (L.put id { e with refs }).Matches label root t' := by
  obtain ⟨hid, set, text, hpath, -, hshow⟩ := h.records id e he
  obtain ⟨_, hpage⟩ := h.readPage hfits he
  have hid' : Session.identify e.path ⟨recordFields label id e.created, refs, place⟩ =
      ⟨recordFields label id e.created, refs, place⟩ := by rw [hpath, identify_recordFields hid]
  have hbody : '\r' ∉ e.body := Session.no_return_of_readPage hpage
  obtain ⟨t', hrun, hmatch⟩ := h.writePage hfits he (p := ⟨_, e.body⟩) hh rfl hbody
  refine ⟨t', ?_, ?_⟩
  · unfold Session.writeHeader
    rw [Work.run_bind_of_ok (by rw [Work.run_inspect, hpage]), hid', hrun]
  · simpa only [hshow.settled] using hmatch

/-- A body is read as it was written but for the blank lines at its start. -/
theorem writeBody (h : L.Matches label root t) (hfits : Tree.Fits root.home 512)
    (he : L id = some e) {body : Text} (hbody : '\r' ∉ body) :
    ∃ t', (Session.writeBody e.path body).run t = (.ok (), t') ∧
      (L.update id fun e => { e with body := Page.settle body }).Matches label root t' := by
  obtain ⟨place, hheader, hread⟩ := h.readHeader hfits he
  obtain ⟨t', hrun, hmatch⟩ := h.writePage hfits he (p := ⟨_, body⟩) hread rfl hbody
  refine ⟨t', ?_, ?_⟩
  · unfold Session.writeBody
    rw [Work.run_bind_of_ok (by rw [Work.run_inspect, hheader]), hrun]
  · rwa [← put_eq_update _ he]

/-! ## Noting counts -/

/-- One count noted in the header of a record. -/
theorem mergeHeader (h : L.Matches label root t) (hfits : Tree.Fits root.home 512)
    (he : L id = some e) {place : Option Int}
    (hh : Header.Readable ⟨recordFields label id e.created, e.refs, place⟩) (path : Text) (n : Int)
    (hpath : 0 < n → IsPath path) (hn : 0 < n → n.natAbs < 10 ^ Numeral.limit) :
    ∃ t', (Session.writeHeader e.path
        (Header.mergeRef ⟨recordFields label id e.created, e.refs, place⟩ path n)).run t =
        (.ok (), t') ∧ (L.update id (Record.note path n)).Matches label root t' := by
  obtain ⟨t', hrun, hmatch⟩ := h.writeHeader hfits he (hh.mergeRef hpath hn)
  exact ⟨t', hrun, put_eq_update (Record.note path n) he ▸ hmatch⟩

theorem record (h : L.Matches label root t) (hfits : Tree.Fits root.home 512)
    (hs : s.folder? = some root.home) (hid : isId id = true) {path : Text} {n : Int}
    (hpath : 0 < n → IsPath path) (hn : 0 < n → n.natAbs < 10 ^ Numeral.limit) :
    ∃ r t', (s.record id path n).run t = (.ok r, t') ∧
      (L.update id (Record.note path n)).Matches label root t' := by
  have hlocate := h.locate hfits hs hid
  unfold Session.record
  cases he : L id with
  | none =>
    rw [he] at hlocate
    refine ⟨none, t, ?_, by rwa [update_eq_self (by rw [he]; rfl)]⟩
    rw [Work.run_bind_of_ok (by rw [Work.run_inspect, hlocate])]
    rfl
  | some e =>
    rw [he] at hlocate
    obtain ⟨place, hheader, hread⟩ := h.readHeader hfits he
    have htolerate : tolerate (Session.readHeader t e.path) =
        .ok (some ⟨recordFields label id e.created, e.refs, place⟩) := by
      rw [hheader]
      rfl
    rw [Work.run_bind_of_ok (by rw [Work.run_inspect, hlocate])]
    simp only [Option.map_some]
    rw [Work.run_bind_of_ok (by rw [Work.run_inspect, htolerate])]
    by_cases hsame : e.refs.merge path n = e.refs
    · refine ⟨some e.refs, t, ?_, ?_⟩
      · simp [Header.mergeRef, hsame]
      · rwa [update_eq_self (by rw [he, Option.map_some, Record.note, hsame])]
    · obtain ⟨t', hrun, hmatch⟩ := h.mergeHeader hfits he hread path n hpath hn
      refine ⟨some (e.refs.merge path n), t', ?_, hmatch⟩
      have hdiff : ((Header.mergeRef ⟨recordFields label id e.created, e.refs, place⟩ path n).refs
          != e.refs) = true := by simpa [Header.mergeRef] using hsame
      simp only [hdiff, if_true]
      rw [Work.run_bind_of_ok hrun]
      rfl

theorem recordAll (h : L.Matches label root t) (hfits : Tree.Fits root.home 512)
    (hs : s.folder? = some root.home) {path : Text} (hpath : IsPath path) (count : Text → Nat)
    (ids : List Text) (hids : ∀ id ∈ ids, isId id = true ∧ count id < 10 ^ Numeral.limit) :
    ∃ t', (s.recordAll path (ids.map fun id => (id, count id))).run t = (.ok (), t') ∧
      (ids.foldl (fun L id => L.update id (Record.note path (count id))) L).Matches
        label root t' := by
  induction ids generalizing t L with
  | nil => exact ⟨t, rfl, h⟩
  | cons id ids ih =>
    obtain ⟨hid, hcount⟩ := hids id List.mem_cons_self
    obtain ⟨r, t₁, hrun, hmatch⟩ := h.record hfits hs hid (n := count id) (fun _ => hpath)
      fun _ => by rwa [Int.natAbs_natCast]
    obtain ⟨t₂, hrun₂, hmatch₂⟩ := ih hmatch fun k hk => hids k (List.mem_cons_of_mem _ hk)
    refine ⟨t₂, ?_, hmatch₂⟩
    rw [List.map_cons, Session.recordAll, Work.run_bind_of_ok hrun, hrun₂]

/-- The fragment files are those of the ledger. -/
theorem fragmentPaths (h : L.Matches label root t) (hfits : Tree.Fits root.home 512)
    (hs : s.folder? = some root.home) : ∃ files, s.fragmentPaths t = .ok files ∧
      ∀ p, p ∈ files ↔ ∃ id e, L id = some e ∧ e.path = p := by
  by_cases hhome : t.node? (lead [] root.home.parts) = some .folder
  · have hr := h.resolve_home hfits hhome
    obtain ⟨files, hfiles, hmem⟩ := Session.mem_fragmentPaths h.wellFormed hs hfits hr hhome
    refine ⟨files, hfiles, fun p => (hmem p).trans ⟨?_, ?_⟩⟩
    · rintro (⟨name, c, hid, hc, -⟩ | ⟨set, name, c, hid, hc, rfl⟩)
      · rcases h.only _ c hc with (hk | ⟨_, f, hk⟩) | ⟨_, _, _, hk, -⟩
        · rw [List.singleton_inj.mp hk, fileId?_cursorName] at hid
          exact absurd rfl hid
        · cases hk
        · cases hk
      · rcases h.only _ c hc with (hk | ⟨_, f, hk⟩) | ⟨set', id', e', hk, he', hpath'⟩
        · cases hk
        · cases hk
          rw [fileId?_summary] at hid
          exact absurd rfl hid
        · cases hk
          exact ⟨id', e', he', hpath'⟩
    · rintro ⟨id, e, he, rfl⟩
      obtain ⟨hid, set, text, hpath, hn, -⟩ := h.records id e he
      exact .inr ⟨set, id ++ ending, _, by simp [fileId?_ending hid], hn, hpath⟩
  · obtain ⟨b, hb⟩ := hfits.holds t (· == .folder)
    have hfalse : t.isFolder root.home = .ok false := by
      cases b with
      | false => exact hb
      | true => exact absurd (home_of_isFolder hb).2 hhome
    refine ⟨[], ?_, fun p => ?_⟩
    · simp [Session.fragmentPaths, Session.fragmentFolders, hs, hfalse, ask, bind, Except.bind, pure,
        Except.pure, Except.mapError]
    · simp only [List.not_mem_nil, false_iff]
      rintro ⟨id, e, he, -⟩
      obtain ⟨hid, set, text, hpath, hn, -⟩ := h.records id e he
      exact hhome (h.resolve_record hfits hid hn).1

/-- Which ids `forget` takes a count out of. -/
def dropped (kept : List Text) (files : List Path) : List Text :=
  files.filterMap fun file => (fileId? file.name).filter fun id => !kept.contains id

theorem mem_dropped {kept : List Text} {files : List Path} :
    id ∈ dropped kept files ↔ id ∉ kept ∧ ∃ file ∈ files, fileId? file.name = some id := by
  unfold dropped
  simp only [List.mem_filterMap, Option.filter_eq_some_iff, List.contains_eq_mem, Bool.not_eq_true',
    decide_eq_false_iff_not]
  exact ⟨fun ⟨file, hf, hn, hk⟩ => ⟨hk, file, hf, hn⟩, fun ⟨hk, file, hf, hn⟩ => ⟨file, hf, hn, hk⟩⟩

theorem dropped_cons {file : Path} {files : List Path} (hname : fileId? file.name = some id)
    (kept : List Text) : dropped kept (file :: files) =
      if id ∈ kept then dropped kept files else id :: dropped kept files := by
  unfold dropped
  rw [List.filterMap_cons, hname, Option.filter_some]
  by_cases hkept : id ∈ kept
  · simp [hkept]
  · simp [hkept]

theorem forget (h : L.Matches label root t) (hfits : Tree.Fits root.home 512) (path : Text)
    (kept : List Text) (files : List Path)
    (hfiles : ∀ p ∈ files, ∃ id e, L id = some e ∧ e.path = p) :
    ∃ t', (Session.forget path kept files).run t = (.ok (), t') ∧
      ((dropped kept files).foldl (fun L id => L.update id (Record.note path 0)) L).Matches
        label root t' := by
  induction files generalizing t L with
  | nil => exact ⟨t, rfl, h⟩
  | cons file files ih =>
    obtain ⟨id, e, he, rfl⟩ := hfiles _ List.mem_cons_self
    have hname := h.fileId?_path he
    have hrest : ∀ p ∈ files, ∃ id e, L id = some e ∧ e.path = p :=
      fun p hp => hfiles p (List.mem_cons_of_mem _ hp)
    rw [dropped_cons hname]
    unfold Session.forget
    simp only [hname, Option.any_some, List.contains_eq_mem]
    by_cases hkept : id ∈ kept
    · simp only [hkept, decide_true, Bool.not_true, Bool.false_eq_true, if_false, if_true]
      exact ih h hrest
    · simp only [hkept, decide_false, Bool.not_false, if_false, if_true, List.foldl_cons]
      obtain ⟨place, hheader, hread⟩ := h.readHeader hfits he
      have htolerate : tolerate (Session.readHeader t e.path) =
          .ok (some ⟨recordFields label id e.created, e.refs, place⟩) := by
        rw [hheader]
        rfl
      rw [Work.run_bind_of_ok (by rw [Work.run_inspect, htolerate])]
      cases hget : e.refs.get? path with
      | none =>
        -- Nothing is written, and the entry stays when the count is taken out.
        have hsame : L.update id (Record.note path 0) = L :=
          update_eq_self (by rw [he, Option.map_some, Record.note, Refs.merge_of_get? (by omega) hget])
        rw [hsame]
        simp only [hget, Option.isSome_none, Bool.false_eq_true, if_false]
        exact ih h hrest
      | some m =>
        obtain ⟨t₁, hrun, hmatch⟩ := h.mergeHeader hfits he hread path 0
          (fun hpos => absurd hpos (by omega)) fun hpos => absurd hpos (by omega)
        obtain ⟨t₂, hrun₂, hmatch₂⟩ := ih hmatch fun p hp => by
          obtain ⟨k, e', he', rfl⟩ := hrest p hp
          obtain ⟨e'', he'', hpath⟩ := update_note_path id path 0 he'
          exact ⟨k, e'', he'', hpath⟩
        refine ⟨t₂, ?_, hmatch₂⟩
        simp only [hget, Option.isSome_some, if_true]
        rw [Work.run_bind_of_ok hrun, hrun₂]

/-- What observing a text does to the ledger: in every entry the file's count is that of the id's
markers in the text. -/
theorem observe (h : L.Matches label root t) (hfits : Tree.Fits root.home 512)
    (hs : s.folder? = some root.home) {path text : Text} (hpath : IsPath path)
    (hcount : (Session.boundIds text).length < 10 ^ Numeral.limit) :
    ∃ counts t', (s.observe path text).run t = (.ok counts, t') ∧
      (L.noteAll path fun id => (Session.boundIds text).count id).Matches label root t' := by
  obtain ⟨t₁, hrun, hmatch⟩ := h.recordAll hfits hs hpath (Session.boundIds text).count
    (Session.boundIds text).eraseDups fun id hid =>
      ⟨Session.isId_of_mem_boundIds (List.mem_eraseDups.mp hid),
        lt_of_le_of_lt List.count_le_length hcount⟩
  obtain ⟨files, hfiles, hmem⟩ := hmatch.fragmentPaths hfits hs
  obtain ⟨t₂, hrun₂, hmatch₂⟩ := hmatch.forget hfits path (Session.boundIds text).eraseDups
    files fun p hp => (hmem p).mp hp
  have hkept : (Session.idCounts (Session.boundIds text)).map Prod.fst =
      (Session.boundIds text).eraseDups := by simp [Session.idCounts, Function.comp_def]
  refine ⟨Session.idCounts (Session.boundIds text), t₂, ?_, ?_⟩
  · unfold Session.observe
    have hrun' : (s.recordAll path (Session.idCounts (Session.boundIds text))).run t =
        (.ok (), t₁) := hrun
    simp only []
    rw [Work.run_bind_of_ok hrun', Work.run_bind_of_ok (by rw [Work.run_inspect, hfiles]), hkept,
      Work.run_bind_of_ok hrun₂]
    rfl
  · convert hmatch₂ using 1
    funext k
    have hnoted := foldl_update_note path (fun id => ((Session.boundIds text).count id : Int))
      (Session.boundIds text).eraseDups L k
    rw [foldl_update_note path (fun _ => 0)]
    by_cases hk : k ∈ Session.boundIds text
    · have hkept : k ∈ (Session.boundIds text).eraseDups := List.mem_eraseDups.mpr hk
      rw [if_neg (fun hd => (mem_dropped.mp hd).1 hkept), hnoted, if_pos hkept]
      rfl
    · have hkept : k ∉ (Session.boundIds text).eraseDups := fun hm => hk (List.mem_eraseDups.mp hm)
      rw [if_neg hkept] at hnoted
      rw [hnoted]
      cases he : L k with
      | none => simp [noteAll, he]
      | some e =>
        have hfile : ∃ file ∈ files, fileId? file.name = some k := by
          rw [he] at hnoted
          exact ⟨e.path, (hmem _).mpr ⟨k, e, hnoted, rfl⟩, hmatch.fileId?_path hnoted⟩
        rw [if_pos (mem_dropped.mpr ⟨hkept, hfile⟩), noteAll, he, List.count_eq_zero_of_not_mem hk]
        rfl

/-! ## Counts of a scan -/

/-- How often each file refers to a fragment, by a scan of all files. -/
def scanned (s : Session) (root : Path) (t : Tree) (id : Text) : List Text :=
  ((s.occurrences t root).filter (·.id == id)).map (·.file)

theorem readable_tally {place : Option Int} {refs : Refs} {paths : List Text}
    (hh : Header.Readable ⟨recordFields label id e.created, refs, place⟩)
    (hpaths : ∀ p ∈ paths, IsPath p) (hcount : paths.length < 10 ^ Numeral.limit) :
    Header.Readable ⟨recordFields label id e.created, Refs.tally paths, place⟩ where
  fields := hh.fields
  ascending := Refs.ascending_tally paths
  paths := fun r hr => hpaths _ (Refs.mem_tally hr).1
  positive := fun r hr => (Refs.mem_tally hr).2.1
  short := fun r hr => by
    obtain ⟨-, hpos, hle⟩ := Refs.mem_tally hr
    have : r.2.natAbs ≤ paths.length := by omega
    exact lt_of_le_of_lt this hcount
  place := hh.place

theorem refresh (h : L.Matches label root t) (hfits : Tree.Fits root.home 512)
    (hs : s.folder? = some root.home) (hroot : s.root = some root) (hid : isId id = true)
    (hwalk : s.Walkable t root) (hpaths : ∀ p ∈ scanned s root t id, IsPath p)
    (hcount : (scanned s root t id).length < 10 ^ Numeral.limit) :
    ∃ r t', (s.refresh id).run t = (.ok r, t') ∧
      (L.update id fun e => { e with refs := Refs.tally (scanned s root t id) }).Matches
        label root t' := by
  have hlocate := h.locate hfits hs hid
  unfold Session.refresh
  cases he : L id with
  | none =>
    rw [he] at hlocate
    refine ⟨none, t, ?_, by rwa [update_eq_self (by rw [he]; rfl)]⟩
    rw [Work.run_bind_of_ok (by rw [Work.run_inspect, hlocate])]
    rfl
  | some e =>
    rw [he] at hlocate
    obtain ⟨place, hheader, hread⟩ := h.readHeader hfits he
    rw [Work.run_bind_of_ok (by rw [Work.run_inspect, hlocate])]
    simp only [Option.map_some]
    have hfound := Session.findReferences_eq h.wellFormed hroot hwalk
    rw [Work.run_bind_of_ok (by rw [Work.run_inspect, hfound]),
      Work.run_bind_of_ok (by rw [Work.run_inspect, hheader])]
    by_cases hsame : e.refs = Refs.tally (scanned s root t id)
    · refine ⟨some (Refs.tally (scanned s root t id)), t, ?_, ?_⟩
      · have hb : (e.refs != Refs.tally (scanned s root t id)) = false := by simpa using hsame
        unfold scanned at hb
        simp only [hb, Bool.false_eq_true, if_false]
        rfl
      · rwa [update_eq_self (by rw [he, Option.map_some, ← hsame])]
    · obtain ⟨t', hrun, hmatch⟩ := h.writeHeader hfits he (readable_tally hread hpaths hcount)
      refine ⟨some (Refs.tally (scanned s root t id)), t', ?_, ?_⟩
      · have hb : (e.refs != Refs.tally (scanned s root t id)) = true := by simpa using hsame
        unfold scanned at hb hrun
        simp only [hb, if_true]
        rw [Work.run_bind_of_ok hrun]
        rfl
      · rwa [← put_eq_update (fun e => { e with refs := Refs.tally (scanned s root t id) }) he]

/-- A refresh whose scan does not come to its end does nothing. -/
theorem refresh_unwalked (h : L.Matches label root t) (hroot : s.root = some root)
    (hwalk : ¬s.Walkable t root) (id : Text) : ((s.refresh id).run t).2 = t := by
  obtain ⟨e, he⟩ := Session.findReferences_error h.wellFormed hroot hwalk id
  unfold Session.refresh
  cases hl : s.locate t id with
  | error e => rw [Work.run_bind_of_error (by rw [Work.run_inspect, hl])]
  | ok p =>
    rw [Work.run_bind_of_ok (by rw [Work.run_inspect, hl])]
    cases p with
    | none => rfl
    | some file => exact congrArg Prod.snd (Work.run_bind_of_error (by rw [Work.run_inspect, he]) _)

end Ledger.Matches

end Marginalia
