import Marginalia.Proofs.Session.Recounts
import Marginalia.Proofs.Session.Upkeep

/-!
# Reconciling cached counts

There are two ways to bring the counts in a fragment's header up to date: to save every document, or
to scan all files. The count that a scan gives a file is the number of markers in its text
(`count_scanned`), which is also what saving it notes, so both come to the same
(`reconciles`), provided that the records themselves are not among the files that are scanned. They
are not when the folder of sets has a name below the root (`apart_of_plain`); else a record can be
scanned after the counts noted in it have made it longer (`refresh_counts_headers`).
-/

namespace Marginalia

open Header (IsPath)
open Ledger.Matches (scanned)

namespace Session

variable {s : Session} {t u : Tree} {root : Path} {f : Location → Refs → Refs} {id text : Text}
variable {l : Location}

/-- Saves files as they are, one after the other. -/
def saveFiles (s : Session) (root : Path) : List Location → Work Unit
  | [] => pure ()
  | l :: ls => do
    let text ← Work.inspect fun t => ask (t.verbatimAt (lead [] root.parts ++ l))
    let _ ← s.onSave (Path.relativeText l) text
    saveFiles s root ls

/-- A workspace whose files can be saved and scanned, in which the scan comes to its end and no
record is scanned. -/
structure Reconcilable (s : Session) (root : Path) (t : Tree) : Prop extends s.Legible t where
  noSlash : t.NoSlash
  rooted : s.root = some root
  walk : s.Walkable t root
  paths : ∀ l text, s.Scannable t root l text → IsPath (Path.relativeText l)
  counts : ∀ l text, s.Scannable t root l text → (boundIds text).length < 10 ^ Numeral.limit
  apart : ∀ k, s.FragmentAt t k → Tree.isWalked (lead [] root.parts) s.unscanned k = false

/-! ## Records that are not scanned -/

/-- Records are not scanned when the folder of sets is given by names from the root down. -/
theorem apart_of_plain (hw : t.WellFormed) (hroot : s.root = some root)
    (hrelative : (Path.ofText s.config.folder).isAbsolute = false)
    (hne : (Path.ofText s.config.folder).parts ≠ [])
    (hplain : Path.above ∉ (Path.ofText s.config.folder).parts) {k : Location}
    (hk : s.FragmentAt t k) : Tree.isWalked (lead [] root.parts) s.unscanned k = false := by
  obtain ⟨files, hfiles, p, hp, hr⟩ := hk
  cases hfolders : s.fragmentFolders t with
  | error e => simp [fragmentPaths, hfolders, bind, Except.bind] at hfiles
  | ok folders =>
    obtain ⟨folder, hf, k', name, c, -, -, -, hc, rfl⟩ :=
      ((mem_paths_iff hw hfiles hfolders).2 p).mp hp
    have hname : Tree.IsName name := (hw.canHold hc).isName
    have hs : s.folder? = some
        { root with parts := root.parts ++ (Path.ofText s.config.folder).parts } := by
      simp [folder?, hroot, Path.join, hrelative]
    -- below the names of the folder of sets there are at most that of a set and that of the file
    obtain ⟨sets, hsets, hparts⟩ : ∃ sets : List Name, Path.above ∉ sets ∧ (folder.child name).parts =
        root.parts ++ ((Path.ofText s.config.folder).parts ++ sets ++ [name]) := by
      rcases mem_fragmentFolders hw hs hfolders hf with rfl | ⟨set, hset, rfl⟩
      · exact ⟨[], by simp, by simp⟩
      · exact ⟨[set], by simpa using hset.not_above.symm, by simp⟩
    have hbelow : Path.above ∉ (Path.ofText s.config.folder).parts ++ sets ++ [name] := by
      simp only [List.mem_append, List.mem_singleton, not_or]
      exact ⟨⟨hplain, hsets⟩, hname.not_above.symm⟩
    rw [Tree.resolve_eq_lead hr, hparts, lead_append, lead_of_plain hbelow, List.append_assoc]
    exact isWalked_folder hne (by simp)

/-! ## Counts of a scan -/

theorem mem_scanned (hw : t.WellFormed) {path : Text} (h : path ∈ scanned s root t id) :
    ∃ l text, s.Scannable t root l text ∧ path = Path.relativeText l := by
  obtain ⟨o, ho, rfl⟩ := List.mem_map.mp h
  obtain ⟨l, text, k, line, hl, -, -, e⟩ := (mem_occurrences hw).mp (List.mem_filter.mp ho).1
  exact ⟨l, text, hl, by rw [e]⟩

/-- The occurrences of one file among those of all files. -/
theorem filter_file (hw : t.WellFormed) (hs : t.NoSlash) {f : Tree.Found}
    (hf : f ∈ t.reached root s.unscanned) :
    ((t.reached root s.unscanned).flatMap (Occurrence.ofFound root)).filter
      (·.file == f.path) = Occurrence.ofFound root f := by
  obtain ⟨before, after, hsplit⟩ := List.append_of_mem hf
  have hnodup : (t.reached root s.unscanned).Nodup := hw.nodup_reached
  rw [hsplit, List.nodup_middle, List.nodup_cons] at hnodup
  have hothers : ∀ fs : List Tree.Found, (∀ g ∈ fs, g ∈ before ++ after) →
      (fs.flatMap (Occurrence.ofFound root)).filter (·.file == f.path) = [] := by
    intro fs hfs
    rw [List.filter_eq_nil_iff]
    intro o ho hfile
    obtain ⟨g, hg, ho⟩ := List.mem_flatMap.mp ho
    have hpath : g.path = f.path := by
      rw [← file_of_mem_ofFound ho]
      simpa using hfile
    have hg' : g ∈ t.reached root s.unscanned := by
      rw [hsplit]
      exact List.mem_append.mpr ((List.mem_append.mp (hfs g hg)).imp_right (List.mem_cons_of_mem _))
    exact hnodup.1 (hw.found_eq_of_path (hs.plainWalk hw) hg' hf hpath ▸ hfs g hg)
  have hown : (Occurrence.ofFound root f).filter (·.file == f.path) = Occurrence.ofFound root f :=
    List.filter_eq_self.mpr fun o ho => by simp [file_of_mem_ofFound ho]
  rw [hsplit, List.flatMap_append, List.flatMap_cons, List.filter_append, List.filter_append, hown,
    hothers before fun g hg => List.mem_append_left _ hg,
    hothers after fun g hg => List.mem_append_right _ hg, List.nil_append, List.append_nil]

/-- A scan counts the markers in a file's text. -/
theorem count_scanned (hw : t.WellFormed) (hs : t.NoSlash) (hl : s.Scannable t root l text)
    (id : Text) :
    (scanned s root t id).count (Path.relativeText l) = (boundIds text).count id := by
  obtain ⟨f, hf, rfl, htext⟩ := (scannable_iff hw).mp hl
  calc (scanned s root t id).count f.path
      = (s.occurrences t root).countP fun o => o.file == f.path && o.id == id := by
        rw [scanned, List.count, List.countP_map, List.countP_filter]
        rfl
    _ = (Occurrence.ofFound root f).countP (·.id == id) := by
        rw [← filter_file hw hs hf, List.countP_filter, occurrences, Occurrence.ofFiles,
          (List.mergeSort_perm _ Occurrence.before).countP_eq]
        simp only [Bool.and_comm]
    _ = (boundIds text).count id := by
        rw [Occurrence.ofFound, htext]
        simp only
        rw [← Occurrence.map_id_ofText f.path, List.count, List.countP_map]
        rfl

/-! ## Saving every file -/

namespace Recounts

/-- Files that are scanned are not changed. -/
theorem scannable_iff (h : s.Recounts f t u) (hr : s.Reconcilable root t) :
    s.Scannable u root l text ↔ s.Scannable t root l text := by
  have hsame : l ≠ [] → (∀ n ∈ l.dropLast, n ∉ s.config.excluded ∧
      n ≠ (Path.ofText s.config.folder).name) →
      u.node? (lead [] root.parts ++ l) = t.node? (lead [] root.parts ++ l) := by
    intro hne hallowed
    refine h.others _ fun hk => ?_
    have hwalked : Tree.isWalked (lead [] root.parts) s.unscanned (lead [] root.parts ++ l) = true :=
      Tree.isWalked_eq_true_iff.mpr
        ⟨l, rfl, hne, fun n hn => mem_unscanned.mpr (hallowed n hn)⟩
    rw [hr.apart _ hk] at hwalked
    cases hwalked
  constructor
  · rintro ⟨hne, hallowed, hentered, hthere, hfile⟩
    rw [hsame hne hallowed] at hfile
    exact ⟨hne, hallowed, hentered, h.kinds.resolve_eq root ▸ hthere, hfile⟩
  · rintro ⟨hne, hallowed, hentered, hthere, hfile⟩
    rw [← hsame hne hallowed] at hfile
    exact ⟨hne, hallowed, hentered, (h.kinds.resolve_eq root).trans hthere, hfile⟩

theorem reconcilable (h : s.Recounts f t u) (hr : s.Reconcilable root t) :
    s.Reconcilable root u where
  toLegible := h.legible hr.toLegible
  noSlash := h.kinds.noSlash h.wellFormed hr.noSlash
  rooted := hr.rooted
  walk := h.kinds.walkable hr.walk
  paths l text hl := hr.paths l text ((h.scannable_iff hr).mp hl)
  counts l text hl := hr.counts l text ((h.scannable_iff hr).mp hl)
  apart k hk := hr.apart k ((h.fragmentAt_iff hr.wellFormed).mp hk)

end Recounts

theorem Scannable.verbatimAt (h : s.Scannable t root l text) :
    t.verbatimAt (lead [] root.parts ++ l) = .ok text := by
  obtain ⟨c, hc, -, hbytes⟩ := h.file
  simp [Tree.verbatimAt, Tree.contentAt, hc, bind, Except.bind, Except.mapError,
    Content.verbatim_eq_ok_iff.mpr hbytes]

/-- Saving files one after the other merges their counts in that order. -/
theorem saveFiles_recounts (h : s.Reconcilable root t) (text : Location → Text) {ls : List Location}
    (hls : ∀ l ∈ ls, s.Scannable t root l (text l)) :
    ∃ f u, (s.saveFiles root ls).run t = (.ok (), u) ∧ s.Recounts f t u ∧
      ∀ id k, isId id = true → s.place? t id = some k → ∀ r, f k r =
        ls.foldl (fun r l => r.merge (Path.relativeText l) ((boundIds (text l)).count id)) r := by
  induction ls generalizing t with
  | nil => exact ⟨fun _ r => r, t, rfl, .refl h.toLegible fun _ _ _ _ => rfl, fun _ _ _ _ _ => rfl⟩
  | cons l ls ih =>
    obtain ⟨hl, hls⟩ := List.forall_mem_cons.mp hls
    obtain ⟨counts, f, u, hrun, hu, hf⟩ :=
      observe_recounts h.toLegible (h.paths l _ hl) (text l) (h.counts l _ hl)
    obtain ⟨g, v, hrun', hv, hg⟩ := ih (hu.reconcilable h) fun l hm =>
      (hu.scannable_iff h).mpr (hls l hm)
    have hsave : (s.onSave (Path.relativeText l) (text l)).run t = (.ok counts, u) := by
      rw [onSave, h.rooted]
      exact hrun
    refine ⟨_, v, ?_, hu.trans hv h.wellFormed, fun id k hid hk r => ?_⟩
    · rw [saveFiles, Work.run_bind_of_ok (by rw [Work.run_inspect, hl.verbatimAt]; rfl),
        Work.run_bind_of_ok hsave, hrun']
    · rw [List.foldl_cons, hg id k hid (by rw [hu.place?_eq h.wellFormed, hk]), hf id k hid hk]

/-! ## Both ways come to the same -/

/-- The counts of an id after all files are saved are those of a scan. -/
theorem merged_eq_tally (h : s.Reconcilable root t) (text : Location → Text) {ls : List Location}
    (hls : ∀ l ∈ ls, s.Scannable t root l (text l))
    (hall : ∀ l text, s.Scannable t root l text → l ∈ ls) {r : Refs}
    (hpaths : ∀ path n, r.get? path = some n →
      ∃ l text, s.Scannable t root l text ∧ path = Path.relativeText l) (id : Text)
    (hmerged : (ls.foldl (fun r l =>
      r.merge (Path.relativeText l) ((boundIds (text l)).count id)) r).Ascending) :
    ls.foldl (fun r l => r.merge (Path.relativeText l) ((boundIds (text l)).count id)) r =
      Refs.tally (scanned s root t id) := by
  have hinj : ∀ l ∈ ls, ∀ k ∈ ls, Path.relativeText l = Path.relativeText k → l = k := by
    intro l hl k hk e
    obtain ⟨c, hc, -⟩ := (hls l hl).file
    obtain ⟨c', hc', -⟩ := (hls k hk).file
    exact Path.relativeText_inj (hls l hl).below (hls k hk).below
      (fun n hn => h.noSlash.of_node hc n (List.mem_append_right _ hn))
      (fun n hn => h.noSlash.of_node hc' n (List.mem_append_right _ hn)) e
  refine hmerged.ext (Refs.ascending_tally _) fun path => ?_
  rw [Refs.get?_tally]
  by_cases hscanned : ∃ l ∈ ls, path = Path.relativeText l
  · obtain ⟨l, hl, rfl⟩ := hscanned
    rw [Refs.get?_foldl_merge (fun l => Path.relativeText l)
      (fun l => ((boundIds (text l)).count id : Int)) hl fun k hk e => by rw [hinj k hk l hl e]]
    have hcount := count_scanned h.wellFormed h.noSlash (hls l hl) id
    by_cases hmem : Path.relativeText l ∈ scanned s root t id
    · have hpos := List.count_pos_iff.mpr hmem
      rw [hcount] at hpos
      rw [if_pos hmem, if_pos (by omega), hcount]
    · have hzero := List.count_eq_zero_of_not_mem hmem
      rw [hcount] at hzero
      rw [if_neg hmem, if_neg (by omega)]
  · have hnone : r.get? path = none := by
      cases hget : r.get? path with
      | none => rfl
      | some n =>
        obtain ⟨l, text, hl, e⟩ := hpaths path n hget
        exact absurd ⟨l, hall l text hl, e⟩ hscanned
    rw [Refs.get?_foldl_merge_of_ne _ _ (fun l hl e => hscanned ⟨l, hl, e.symm⟩), hnone, if_neg]
    intro hmem
    obtain ⟨l, text, hl, e⟩ := mem_scanned h.wellFormed hmem
    exact hscanned ⟨l, hall l text hl, e⟩

/-- A record that has the counts of a scan is not written again. -/
theorem refresh_settled (hw : t.WellFormed) (hroot : s.root = some root) (hwalk : s.Walkable t root)
    {file : Path} {c : Content} {k : Location}
    (hlocate : s.locate t id = .ok (some file)) (hr : t.resolve file = .ok k)
    (hc : t.node? k = some (.file c)) (hparse : Parses t k)
    (hrefs : refsAt t k = some (Refs.tally (scanned s root t id))) :
    s.cachedRefs t id = .ok (Refs.tally (scanned s root t id)) ∧
      (s.refresh id).run t = (.ok (some (Refs.tally (scanned s root t id))), t) := by
  refine ⟨cachedRefs_at hlocate hr hc hparse hrefs, ?_⟩
  rcases read_at hr hc hparse with ⟨hnone, -⟩ | ⟨page, hpage, hpageRefs, -⟩
  · rw [hrefs] at hnone
    cases hnone
  · have hcounts : page.header.refs = Refs.tally (scanned s root t id) :=
      Option.some.inj (hpageRefs.symm.trans hrefs)
    have hheader : readHeader t file = .ok (identify file page.header) :=
      readHeader_eq_ok_iff.mpr ⟨page, hpage, rfl⟩
    rw [scanned] at hcounts ⊢
    unfold refresh
    rw [Work.run_bind_of_ok (by rw [Work.run_inspect, hlocate])]
    simp only
    rw [Work.run_bind_of_ok (by rw [Work.run_inspect, findReferences_eq hw hroot hwalk]),
      Work.run_bind_of_ok (by rw [Work.run_inspect, hheader])]
    simp only [identify_refs, hcounts, bne_self_eq_false, Bool.false_eq_true, if_false]
    rfl

/-- After every file that can be scanned has been saved, in any order and any number of times, the
cached counts of a record are those that a refresh computes from a full scan, and the refresh leaves
the workspace as it is. -/
theorem reconciles (h : s.Reconcilable root t) {ls : List Location}
    (hls : ∀ l ∈ ls, ∃ text, s.Scannable t root l text)
    (hall : ∀ l text, s.Scannable t root l text → l ∈ ls) :
    ∃ u, (s.saveFiles root ls).run t = (.ok (), u) ∧
      ∀ id file header, isId id = true → s.locate t id = .ok (some file) →
        readHeader t file = .ok header →
        (∀ path n, header.refs.get? path = some n →
          ∃ l text, s.Scannable t root l text ∧ path = Path.relativeText l) →
        ∃ refs, s.cachedRefs u id = .ok refs ∧ (s.refresh id).run u = (.ok (some refs), u) := by
  choose! text htext using hls
  obtain ⟨f, u, hrun, hu, hf⟩ := saveFiles_recounts h text htext
  refine ⟨u, hrun, fun id file header hid hlocate hheader hpaths => ?_⟩
  obtain ⟨k, c, hr, hc, hplace, hk⟩ := h.file_of_locate hid hlocate
  have hold : refsAt t k = some header.refs := by
    rcases read_at hr hc (h.parses k hk) with ⟨-, hnone⟩ | ⟨page, -, hrefs, hread⟩
    · rw [hheader] at hnone
      cases hnone
    · rw [hheader] at hread
      cases hread
      rw [hrefs, identify_refs]
  have hnew := hu.refs k hk
  rw [hold, Option.map_some, hf id k hid hplace] at hnew
  have hu' := hu.reconcilable h
  have hsame : ∀ l text, s.Scannable u root l text ↔ s.Scannable t root l text :=
    fun l text => hu.scannable_iff h
  have htally := merged_eq_tally hu' text (fun l hl => (hsame l _).mpr (htext l hl))
    (fun l text hl => hall l text ((hsame l text).mp hl))
    (fun path n hn => by
      obtain ⟨l, text, hl, e⟩ := hpaths path n hn
      exact ⟨l, text, (hsame l text).mpr hl, e⟩)
    id (ascending_refsAt hnew)
  rw [htally] at hnew
  have hlocate' : s.locate u id = .ok (some file) := by
    rw [locate_eq hu.kinds h.wellFormed hu.wellFormed, hlocate]
  obtain ⟨c', hc'⟩ := hu.kinds.file_of_file hc
  have hr' : u.resolve file = .ok k := by rw [hu.kinds.resolve_eq, hr]
  exact ⟨_, refresh_settled hu.wellFormed h.rooted hu'.walk hlocate' hr' hc' (hu.parses k hk) hnew⟩

/-! ## Workspaces with one file to scan -/

theorem scannable_of_one (hw : t.WellFormed) {f : Tree.Found}
    (hfiles : t.reached root s.unscanned = [f]) (htext : f.content.scannable? = some text)
    {l : Location} {text' : Text} :
    s.Scannable t root l text' ↔ l = f.location ∧ text' = text := by
  rw [scannable_iff hw, hfiles]
  simp only [List.mem_singleton, exists_eq_left, htext, Option.some.injEq]
  rw [eq_comm, eq_comm (a := text)]

/-- A text with one marker. -/
def bare : Text := "//codemeta[5]".toList

theorem length_boundIds_bare : (boundIds bare).length < 10 ^ Numeral.limit := by
  have hone : (boundIds bare).length = 1 := by decide +kernel
  rw [hone]
  exact Nat.one_lt_pow (by decide) (by decide)

/-- A file with that text, and a record with another count for it. -/
def miscounted : Tree :=
  ⟨[([['a']], .file (.text bare)), ([".cms".toList], .folder),
    ([".cms".toList, "default".toList], .folder),
    ([".cms".toList, "default".toList, "5.md".toList],
      .file (.text "---\nid: 5\nrefs: |\n  3@a\n---\n\nb".toList))]⟩

theorem scannable_miscounted {l : Location} {text : Text} :
    Scannable { root := some { slashes := 1 } } miscounted { slashes := 1 } l text ↔
      l = [['a']] ∧ text = bare :=
  scannable_of_one (f := ⟨[['a']], .text bare⟩) (by decide) (by decide +kernel) (by decide +kernel)

theorem reconcilable_miscounted :
    Reconcilable { root := some { slashes := 1 } } { slashes := 1 } miscounted where
  wellFormed := by decide
  room := ⟨{ slashes := 1, parts := [".cms".toList] }, by decide, by decide, by decide, by decide⟩
  parses k hk text htext := by
    have hfiles : fragmentPaths { root := some { slashes := 1 } } miscounted =
        .ok [{ slashes := 1, parts := [".cms".toList, "default".toList, "5.md".toList] }] := by
      decide +kernel
    obtain ⟨files, hfiles', p, hp, hr⟩ := hk
    cases hfiles.symm.trans hfiles'
    obtain rfl := List.mem_singleton.mp hp
    obtain rfl := Tree.resolve_eq_lead hr
    cases htext
    exact ⟨_, rfl⟩
  noSlash := by decide
  rooted := rfl
  walk := Tree.Walkable.of_entries [] (by decide) (by decide)
  paths l text hl := by
    obtain ⟨rfl, -⟩ := scannable_miscounted.mp hl
    exact ⟨by decide, by decide, by decide⟩
  counts l text hl := by
    obtain ⟨-, rfl⟩ := scannable_miscounted.mp hl
    exact length_boundIds_bare
  apart k hk := apart_of_plain (by decide) rfl (by decide) (by decide) (by decide) hk

theorem reconciles_miscounted :
    ∃ u, (saveFiles { root := some { slashes := 1 } } { slashes := 1 } [[['a']]]).run miscounted =
        (.ok (), u) ∧ cachedRefs { root := some { slashes := 1 } } u ['5'] = .ok ⟨[(['a'], 1)]⟩ ∧
      (refresh { root := some { slashes := 1 } } ['5']).run u = (.ok (some ⟨[(['a'], 1)]⟩), u) := by
  have hls : ∀ l ∈ [[['a']]], ∃ text,
      Scannable { root := some { slashes := 1 } } miscounted { slashes := 1 } l text := fun l hl =>
    ⟨_, scannable_miscounted.mpr ⟨List.mem_singleton.mp hl, rfl⟩⟩
  obtain ⟨u, hrun, hagree⟩ := reconciles reconcilable_miscounted hls fun l text hl =>
    List.mem_singleton.mpr (scannable_miscounted.mp hl).1
  have hlocate : locate { root := some { slashes := 1 } } miscounted ['5'] =
      .ok (some { slashes := 1, parts := [".cms".toList, "default".toList, "5.md".toList] }) := by
    decide +kernel
  have hheader : readHeader miscounted
      { slashes := 1, parts := [".cms".toList, "default".toList, "5.md".toList] } =
        .ok ⟨[(Header.idKey, ['5'])], ⟨[(['a'], 3)]⟩, some 1⟩ := by decide +kernel
  have hcached : cachedRefs { root := some { slashes := 1 } }
      ((saveFiles { root := some { slashes := 1 } } { slashes := 1 } [[['a']]]).run miscounted).2
      ['5'] = .ok ⟨[(['a'], 1)]⟩ := by decide +kernel
  obtain ⟨refs, hrefs, hrefresh⟩ := hagree _ _ _ (by decide) hlocate hheader fun path n hn => by
    cases List.mem_singleton.mp (Refs.mem_entries_of_get? hn)
    exact ⟨[['a']], _, scannable_miscounted.mpr ⟨rfl, rfl⟩, by decide⟩
  rw [hrun] at hcached
  cases hcached.symm.trans hrefs
  exact ⟨u, hrun, hrefs, hrefresh⟩

/-! ## A record that is scanned -/

/-- A session whose folder of sets is the root itself, so that it has no name to be left out by. -/
def inRoot : Session := { root := some { slashes := 1 }, config := { folder := ['.'] } }

/-- A record in a set with the name of a marker, so that a count of the record's own file is one. -/
def recordLocation : Location := ["#codemeta[5]".toList, "5.md".toList]

/-- A workspace with that record and nothing else. -/
def lone (text : Text) : Tree :=
  ⟨[(recordLocation, .file (.text text)), (["#codemeta[5]".toList], .folder)]⟩

/-- The text of the record with a count of its own file. -/
def counting (digit : Char) : Text :=
  "---\nid: 5\nrefs: |\n  ".toList ++ digit :: "@#codemeta[5]/5.md\n---\n\n".toList ++ bare

/-- The markers in the header and in the body. -/
def bothMarkers : List Occurrence :=
  [⟨Path.relativeText recordLocation, 4, ['5'], ⟨1, recordLocation⟩⟩,
    ⟨Path.relativeText recordLocation, 7, ['5'], ⟨1, recordLocation⟩⟩]

theorem occurrences_counting :
    occurrences inRoot (lone (counting '1')) { slashes := 1 } = bothMarkers := by
  have hfound : ((lone (counting '1')).reached { slashes := 1 } (unscanned inRoot)).flatMap
      (Occurrence.ofFound { slashes := 1 }) = bothMarkers := by decide +kernel
  rw [occurrences, Occurrence.ofFiles, hfound]
  exact List.mergeSort_of_pairwise (by decide)

/-- Saving the record notes the one marker in it, which puts a second one into its header, and a
refresh then counts both and writes the record again. -/
theorem refresh_counts_headers :
    (∀ l text, Scannable inRoot (lone bare) { slashes := 1 } l text ↔
      l = recordLocation ∧ text = bare) ∧
    IsPath (Path.relativeText recordLocation) ∧
    (∃ file, locate inRoot (lone bare) ['5'] = .ok (some file) ∧
      readHeader (lone bare) file = .ok ⟨[(Header.idKey, ['5'])], {}, none⟩) ∧
    ∃ u v, (saveFiles inRoot { slashes := 1 } [recordLocation]).run (lone bare) = (.ok (), u) ∧
      cachedRefs inRoot u ['5'] = .ok ⟨[(Path.relativeText recordLocation, 1)]⟩ ∧
      (refresh inRoot ['5']).run u =
        (.ok (some ⟨[(Path.relativeText recordLocation, 2)]⟩), v) ∧ v ≠ u := by
  refine ⟨fun l text => ?_, ⟨by decide, by decide, by decide⟩,
    ⟨{ slashes := 1, parts := recordLocation }, by decide +kernel, by decide +kernel⟩,
    lone (counting '1'), lone (counting '2'), Prod.ext (by decide +kernel) (by decide +kernel),
    by decide +kernel, ?_, by decide⟩
  · exact scannable_of_one (f := ⟨recordLocation, .text bare⟩) (by decide) (by decide +kernel)
      (by decide +kernel)
  · have hlocate : locate inRoot (lone (counting '1')) ['5'] =
        .ok (some { slashes := 1, parts := recordLocation }) := by decide +kernel
    unfold refresh
    rw [Work.run_bind_of_ok (by rw [Work.run_inspect, hlocate])]
    simp only
    have hwalk : Walkable inRoot (lone (counting '1')) { slashes := 1 } :=
      Tree.Walkable.of_entries [] (by decide) (by decide)
    rw [Work.run_bind_of_ok (by rw [Work.run_inspect, findReferences_eq (by decide) rfl hwalk,
      occurrences_counting])]
    exact Prod.ext (by decide +kernel) (by decide +kernel)

end Session

end Marginalia
