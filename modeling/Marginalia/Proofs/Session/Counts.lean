import Marginalia.Proofs.Session.Occurrences
import Marginalia.Proofs.Session.Places
import Marginalia.Session.Counts
import Mathlib.Data.List.Flatten

/-!
# Updating cached counts

What noting a count does to the text of a record is `Surgical`: the fields stay but for the id, their
lines and the counts of other paths stay, and so does the body. An update does that to some files
of records (`Session.IsRecordFile`) and nothing to the rest of the tree, `CountsOnly`. One rewritten
page is such an update (`countsOnly_of_write`), and updates follow each other (`CountsOnly.trans`),
so all that is noted from a document is one (`updates_keep`).
-/

namespace Marginalia

open Header (IsPath keptLines otherLines)

/-- A text whose first line is not blank. -/
def StartsPlain (s : Text) : Prop :=
  ∃ line rest, s = line ++ rest ∧ '\n' ∉ line ∧ Text.allBlank line = false

/-- How the text of a record before an update of the counts of a path and the text after it go
together. -/
structure Surgical (path : Text) (file : Path) (old new : Text) (p q : Page) : Prop where
  read : Page.parse old = .ok p
  reread : Page.parse new = .ok q
  fields : q.header.fields = (Session.identify file p.header).fields
  counts : ∀ other, other ≠ path → q.header.refs.get? other = p.header.refs.get? other
  body : (Page.split? old).isSome ∨ StartsPlain old → q.body = p.body
  lines : ∃ block, Page.split? new = some (block, q.body) ∧
    ∀ block' body, Page.split? old = some (block', body) →
      (keptLines false none (Text.lines block')).Sublist (Text.lines block)

/-- Where the file of a record may be: its name gives an id, and it is in the folder of sets or in a
folder there. -/
def Session.IsRecordFile (s : Session) (l : Location) : Prop :=
  ∃ home sets name, s.folder? = some home ∧ sets.length ≤ 1 ∧ fileId? name ≠ none ∧
    l = lead [] home.parts ++ sets ++ [name]

/-- Some files of records have other counts for a path, and everything else is as it was. -/
structure CountsOnly (s : Session) (path : Text) (t t' : Tree) : Prop where
  wellFormed : t'.WellFormed
  nodes : ∀ l, t'.node? l = t.node? l ∨
    s.IsRecordFile l ∧ ∃ c old new p q, t.node? l = some (.file c) ∧ c.unified = .ok old ∧
      t'.node? l = some (.file (.text new)) ∧ Text.unifyNewlines new = new ∧
      Surgical path { parts := l } old new p q

/-! ## One page -/

theorem Surgical.of_render {path : Text} {file : Path} {old : Text} {p : Page} {n : Int}
    (hread : Page.parse old = .ok p) (hret : '\r' ∉ old)
    (hh : ((Session.identify file p.header).mergeRef path n).Readable) :
    Surgical path file old
      (Page.render ⟨(Session.identify file p.header).mergeRef path n, p.body⟩) p
      ⟨((Session.identify file p.header).mergeRef path n).settled, Page.settle p.body⟩ where
  read := hread
  reread := Page.parse_render hh p.body
  fields := rfl
  counts other hne := by
    show ((Session.identify file p.header).refs.merge path n).get? other = _
    rw [Refs.get?_merge, if_neg hne, Session.identify_refs]
  body := by
    rintro (hsome | ⟨line, rest, rfl, hfeed, hblank⟩)
    · obtain ⟨found, hsplit⟩ := Option.isSome_iff_exists.mp hsome
      rw [(Page.parse_of_split? hsplit hread).2]
      exact Page.settle_of_split? hsplit
    · cases hsplit : Page.split? (line ++ rest) with
      | some found =>
        rw [(Page.parse_of_split? hsplit hread).2]
        exact Page.settle_of_split? hsplit
      | none =>
        rw [Page.parse_of_no_split? hsplit hread]
        refine Page.settle_of_line hfeed (fun e => hret ?_) hblank rest
        exact List.mem_append_left _ (List.mem_of_head? e)
  lines := by
    refine ⟨_, Page.split?_render hh p.body, fun block' body hsplit => ?_⟩
    have hown : otherLines p.header.fields = otherLines (Session.identify file p.header).fields := by
      rw [otherLines, otherLines, Session.filter_identify]
    have hlines := Text.lines_append_newline (l := []) (by decide)
      (((Session.identify file p.header).mergeRef path n).plainLines.flatMap (· ++ ['\n']))
    rw [List.nil_append, Text.lines_ended fun l hl => (hh.plainLines_oneLine l hl).1] at hlines
    rw [← Header.otherLines_read (Page.parse_of_split? hsplit hread).1, hown, hlines]
    refine .cons _ (.trans ?_ hh.ownLines_sublist)
    exact List.filter_sublist.flatMap _

theorem Surgical.trans {path : Text} {file : Path} {old mid new : Text} {p q q' r : Page}
    (h : Surgical path file old mid p q) (h' : Surgical path file mid new q' r) :
    Surgical path file old new p r := by
  obtain rfl : q = q' := Except.ok.inj (h.reread.symm.trans h'.read)
  obtain ⟨block, hmid, hlines⟩ := h.lines
  obtain ⟨block', hnew, hlines'⟩ := h'.lines
  have hcut : (Page.split? mid).isSome := by rw [hmid]; rfl
  refine ⟨h.read, h'.reread, ?_, fun other hne => ?_, fun hb => ?_, block', hnew,
    fun b body hold => ?_⟩
  · rw [h'.fields, Session.identify_fields h.fields, Session.identify_identify]
  · rw [h'.counts other hne, h.counts other hne]
  · rw [h'.body (.inl hcut), h.body hb]
  · -- the lines kept of the text in the middle are those kept of the first
    have hsame : keptLines false none (Text.lines b) = keptLines false none (Text.lines block) := by
      rw [← Header.otherLines_read (Page.parse_of_split? hold h.read).1,
        ← Header.otherLines_read (Page.parse_of_split? hmid h.reread).1, otherLines, otherLines,
        h.fields, Session.filter_identify]
    rw [hsame]
    exact hlines' block _ hmid

/-! ## Trees -/

namespace CountsOnly

variable {s : Session} {path : Text} {t t' t'' : Tree}

theorem refl (s : Session) (path : Text) (hw : t.WellFormed) : CountsOnly s path t t :=
  ⟨hw, fun _ => .inl rfl⟩

theorem trans (h : CountsOnly s path t t') (h' : CountsOnly s path t' t'') :
    CountsOnly s path t t'' := by
  refine ⟨h'.wellFormed, fun l => ?_⟩
  rcases h'.nodes l with h2 | ⟨hl, c, old, new, p, q, hn, hc, hn', hu, hk⟩
  · rcases h.nodes l with h1 | ⟨hl, c, old, new, p, q, hn, hc, hn', hu, hk⟩
    · exact .inl (h2.trans h1)
    · exact .inr ⟨hl, c, old, new, p, q, hn, hc, h2.trans hn', hu, hk⟩
  · rcases h.nodes l with h1 | ⟨-, c₁, old₁, new₁, p₁, q₁, hn₁, hc₁, hn₁', hu₁, hk₁⟩
    · exact .inr ⟨hl, c, old, new, p, q, h1.symm.trans hn, hc, hn', hu, hk⟩
    · rw [hn] at hn₁'
      cases hn₁'
      cases hc
      rw [hu₁] at hk
      exact .inr ⟨hl, c₁, old₁, new, p₁, q, hn₁, hc₁, hn', hu, hk₁.trans hk⟩

end CountsOnly

namespace Session

variable {s : Session} {path : Text} {t t' : Tree}

/-! ## Files of records -/

theorem name_of_fileId? {file : Path} (h : fileId? file.name ≠ none) :
    file.name ≠ [] ∧ file.name ≠ Path.above :=
  ⟨fun e => h (by rw [e]; rfl), fun e => h (by rw [e]; rfl)⟩

/-- A path to the file of a record: a file that may be one is there if anything is. -/
structure IsRecordPath (s : Session) (file : Path) : Prop where
  name : fileId? file.name ≠ none
  place : ∀ {t : Tree} {l : Location}, t.resolve file = .ok l → s.IsRecordFile l

theorem isRecordPath_child (hw : t.WellFormed) {folders : List Path} {folder : Path} {name : Name}
    (hfolders : s.fragmentFolders t = .ok folders) (hf : folder ∈ folders)
    (hid : fileId? name ≠ none) : s.IsRecordPath (folder.child name) := by
  have habove : name ≠ Path.above := fun e => hid (by rw [e]; rfl)
  refine ⟨by rwa [Path.name_child], fun {u l} hl => ?_⟩
  have hlead := Tree.resolve_eq_lead hl
  rw [lead_child _ habove] at hlead
  cases hs : s.folder? with
  | none =>
    simp only [fragmentFolders, hs, Except.ok.injEq] at hfolders
    subst hfolders
    cases hf
  | some home =>
    rcases mem_fragmentFolders hw hs hfolders hf with rfl | ⟨set, hset, rfl⟩
    · exact ⟨folder, [], name, hs, by simp, hid, by rw [hlead]; simp⟩
    · rw [lead_child _ hset.not_above] at hlead
      exact ⟨home, [set], name, hs, by simp, hid, hlead⟩

theorem isRecordPath_of_locate (hw : t.WellFormed) {id : Text} (hid : isId id = true) {file : Path}
    (h : s.locate t id = .ok (some file)) : s.IsRecordPath file := by
  obtain ⟨folders, hfolders, hfirst⟩ := locate_eq_ok h
  obtain ⟨folder, hf, rfl, -⟩ := firstWith_some hfirst
  rw [folder.fragment_eq_child (digits_of_isId hid)]
  exact isRecordPath_child hw hfolders hf (by simp [fileId?_ending hid])

theorem isRecordPath_of_mem (hw : t.WellFormed) {files : List Path}
    (h : s.fragmentPaths t = .ok files) {file : Path} (hf : file ∈ files) : s.IsRecordPath file := by
  cases hfolders : s.fragmentFolders t with
  | error e => simp [fragmentPaths, hfolders, bind, Except.bind] at h
  | ok folders =>
    obtain ⟨folder, hmem, -, name, -, -, -, hid, -, rfl⟩ :=
      ((mem_paths_iff hw h hfolders).2 file).mp hf
    exact isRecordPath_child hw hfolders hmem hid

/-! ## One written page -/

theorem name_of_resolve {file : Path} {l : Location} (hl : t.resolve file = .ok l)
    (h0 : file.name ≠ []) (habove : file.name ≠ Path.above) :
    Path.name { parts := l } = file.name := by
  have hlead := Tree.resolve_eq_lead hl
  unfold Path.name at h0 habove ⊢
  cases hlast : file.parts.getLast? with
  | none => rw [hlast] at h0; exact absurd rfl h0
  | some n =>
    rw [hlast] at habove
    have hplain : Path.above ∉ [n] := fun e => habove (List.mem_singleton.mp e).symm
    rw [← List.dropLast_append_getLast? n hlast, lead_append, lead_of_plain hplain] at hlead
    rw [hlead]
    simp

/-- Writing a page with another count is an update of counts. -/
theorem countsOnly_of_write (hw : t.WellFormed) {file : Path} {header : Header} {count : Int}
    (hfile : s.IsRecordPath file) (hpath : 0 < count → IsPath path)
    (hheader : readHeader t file = .ok header) :
    CountsOnly s path t ((writeHeader file (header.mergeRef path count)).run t).2 := by
  have hname := name_of_fileId? hfile.name
  obtain ⟨p, hp, rfl⟩ := readHeader_eq_ok_iff.mp hheader
  rcases hrun : (writeHeader file ((identify file p.header).mergeRef path count)).run t with ⟨r, t'⟩
  have hpage : (Work.inspect fun t => readPage t file).run t = (.ok p, t) := by
    rw [Work.run_inspect, hp]
  unfold writeHeader at hrun
  rw [Work.run_bind_of_ok hpage] at hrun
  simp only [identify_mergeRef, identify_identify] at hrun
  rcases writePage_cases hrun with ⟨e, -, rfl⟩ | ⟨-, hex, l, hl, hfold, rfl⟩
  · exact .refl s path hw
  · obtain ⟨text, hread, hparse⟩ := readPage_eq_ok_iff.mp hp
    obtain ⟨l', c, hl', hn⟩ := Tree.node_of_readText hread
    obtain rfl : l = l' := Except.ok.inj (hl.symm.trans hl')
    have hunified : c.unified = .ok text := by
      rw [Tree.readText_of_resolve hl hn] at hread
      cases hu : c.unified with
      | error e => rw [hu] at hread; cases hread
      | ok u => rw [hu] at hread; cases hread; rfl
    have hshort : 0 < count → count.natAbs < 10 ^ Numeral.limit := fun h0 => by
      have hget := Refs.get?_merge (identify file p.header).refs path count path
      rw [if_pos rfl, if_pos h0] at hget
      exact excess?_eq_none_iff.mp hex _ (Refs.mem_entries_of_get? hget)
    have hh := (readable_identify file (readable_of_readPage hp)).mergeRef hpath hshort
    have hne : l ≠ [] := fun e => hfold (by rw [e]; rfl)
    refine ⟨hw.insert_file hl hfold _, fun k => ?_⟩
    by_cases hk : k = l
    · subst hk
      rw [identify_congr (name_of_resolve hl hname.1 hname.2).symm p.header] at hh ⊢
      have hkeep := Surgical.of_render hparse (no_return_of_readText hread) hh
      exact .inr ⟨hfile.place hl, c, text, _, p, _, hn, hunified, Tree.node?_insert_self t hne _,
        Text.unifyNewlines_of_no_return (Page.no_return_render hh (no_return_of_readPage hp)), hkeep⟩
    · exact .inl (Tree.node?_insert_of_ne t hk _)

/-! ## Operations -/

theorem ending_of_locate {id : Text} {file : Path} (h : s.locate t id = .ok (some file)) :
    ∃ u, file.name = u ++ ending := by
  obtain ⟨folders, -, hfirst⟩ := locate_eq_ok h
  obtain ⟨folder, -, rfl, -⟩ := firstWith_some hfirst
  exact folder.name_fragment id

theorem name_of_locate {id : Text} {file : Path} (h : s.locate t id = .ok (some file)) :
    file.name ≠ [] ∧ file.name ≠ Path.above := by
  obtain ⟨u, hu⟩ := ending_of_locate h
  rw [hu]
  exact ⟨by simp [ending], ending_ne_above u⟩

theorem tolerate_eq_ok_some {α : Type} {x : Except Fault α} {a : α}
    (h : tolerate x = .ok (some a)) : x = .ok a := by
  unfold tolerate at h
  split at h
  · cases h; rfl
  · split at h <;> cases h

theorem record_countsOnly (hw : t.WellFormed) {id : Text} (hid : isId id = true) {count : Int}
    (hpath : 0 < count → IsPath path) :
    CountsOnly s path t ((s.record id path count).run t).2 := by
  unfold record
  rw [Work.run_bind, Work.run_inspect]
  cases hloc : s.locate t id with
  | error e => exact .refl s path hw
  | ok found =>
    cases found with
    | none => exact .refl s path hw
    | some file =>
      show CountsOnly s path t (ExceptT.run (Work.inspect _ >>= _) t).2
      rw [Work.run_bind, Work.run_inspect]
      cases hread : tolerate (readHeader t file) with
      | error f => exact .refl s path hw
      | ok header =>
        cases header with
        | none => exact .refl s path hw
        | some header =>
          simp only
          split
          · rw [Work.run_bind_pure_snd]
            exact countsOnly_of_write hw (isRecordPath_of_locate hw hid hloc) hpath
              (tolerate_eq_ok_some hread)
          · exact .refl s path hw

theorem recordAll_countsOnly (hw : t.WellFormed) {counts : List (Text × Nat)}
    (hids : ∀ e ∈ counts, isId e.1 = true) (hpath : counts ≠ [] → IsPath path) :
    CountsOnly s path t ((s.recordAll path counts).run t).2 := by
  induction counts generalizing t with
  | nil => exact .refl s path hw
  | cons e counts ih =>
    obtain ⟨hid, hids⟩ := List.forall_mem_cons.mp hids
    have hp := hpath (by simp)
    have hfirst := record_countsOnly (s := s) hw hid fun _ : (0 : Int) < e.2 => hp
    unfold recordAll
    rw [Work.run_bind]
    rcases hrun : (s.record e.1 path e.2).run t with ⟨r, t₁⟩
    rw [hrun] at hfirst
    cases r with
    | error f => exact hfirst
    | ok refs => exact hfirst.trans (ih hfirst.wellFormed hids fun _ => hp)

theorem forget_countsOnly (hw : t.WellFormed) (path : Text) (kept : List Text) {files : List Path}
    (hfiles : ∀ file ∈ files, s.IsRecordPath file) :
    CountsOnly s path t ((forget path kept files).run t).2 := by
  induction files generalizing t with
  | nil => exact .refl s path hw
  | cons file files ih =>
    obtain ⟨hfile, hfiles⟩ := List.forall_mem_cons.mp hfiles
    unfold forget
    simp only
    split
    · show CountsOnly s path t (ExceptT.run (Work.inspect _ >>= _) t).2
      rw [Work.run_bind, Work.run_inspect]
      cases hread : tolerate (readHeader t file) with
      | error f => exact .refl s path hw
      | ok header =>
        cases header with
        | none => exact ih hw hfiles
        | some header =>
          simp only
          split
          · have hfirst : CountsOnly s path t
                ((writeHeader file (header.mergeRef path 0)).run t).2 :=
              countsOnly_of_write hw hfile (by simp) (tolerate_eq_ok_some hread)
            rw [Work.run_bind]
            rcases hrun : (writeHeader file (header.mergeRef path 0)).run t with ⟨r, t₁⟩
            rw [hrun] at hfirst
            cases r with
            | error f => exact hfirst
            | ok u => exact hfirst.trans (ih hfirst.wellFormed hfiles)
          · exact ih hw hfiles
    · exact ih hw hfiles

theorem observe_countsOnly (hw : t.WellFormed) {text : Text}
    (hpath : boundIds text ≠ [] → IsPath path) :
    CountsOnly s path t ((s.observe path text).run t).2 := by
  have hcounts : idCounts (boundIds text) ≠ [] → IsPath path := fun h =>
    hpath fun e => h (by rw [e]; rfl)
  have hids : ∀ e ∈ idCounts (boundIds text), isId e.1 = true := by
    intro e he
    obtain ⟨id, hid, rfl⟩ := List.mem_map.mp he
    exact isId_of_mem_boundIds (List.mem_eraseDups.mp hid)
  have hfirst := recordAll_countsOnly (s := s) hw hids hcounts
  unfold observe
  simp only
  rw [Work.run_bind]
  rcases hrun : (s.recordAll path (idCounts (boundIds text))).run t with ⟨r, t₁⟩
  rw [hrun] at hfirst
  cases r with
  | error f => exact hfirst
  | ok u =>
    refine hfirst.trans ?_
    show CountsOnly s path t₁ (ExceptT.run (Work.inspect _ >>= _) t₁).2
    rw [Work.run_bind, Work.run_inspect]
    cases hall : s.fragmentPaths t₁ with
    | error f => exact .refl s path hfirst.wellFormed
    | ok files =>
      show CountsOnly s path t₁ (ExceptT.run (forget _ _ _ >>= _) t₁).2
      rw [Work.run_bind_pure_snd]
      exact forget_countsOnly hfirst.wellFormed path _ fun file hf =>
        isRecordPath_of_mem hfirst.wellFormed hall hf

/-- Noting the count of one record for a path, and noting all counts of a document, change nothing but
files of records, and these in nothing but the id, the counts of the path and the form of the lines. -/
theorem updates_keep (s : Session) (hw : t.WellFormed) (path : Text) :
    (∀ id count, isId id = true → (0 < count → IsPath path) →
      CountsOnly s path t ((s.record id path count).run t).2) ∧
    ∀ text, (boundIds text ≠ [] → IsPath path) →
      CountsOnly s path t ((s.observe path text).run t).2 :=
  ⟨fun _ _ hid hpath => record_countsOnly hw hid hpath, fun _ hpath => observe_countsOnly hw hpath⟩

/-- A workspace with one record. -/
def oneRecord (text : Text) : Tree :=
  ⟨[([".cms".toList], .folder), ([".cms".toList, "default".toList], .folder),
    ([".cms".toList, "default".toList, "5.md".toList], .file (.text text))]⟩

/-- What noting one count for a path makes of the text of that record. -/
def noted (text path : Text) : Except Disk.Fault Text :=
  ((record { root := some { slashes := 1 } } ['5'] path 1).run (oneRecord text)).2.readText
    { slashes := 1, parts := [".cms".toList, "default".toList, "5.md".toList] }

theorem updates_keep_beside :
    IsPath ['a'] ∧
      noted "---\nid: 5\nrefs: |\n  2@b\n---\n\nc".toList ['a'] =
        .ok "---\nid: 5\nrefs: |\n  1@a\n  2@b\n---\n\nc".toList ∧
      CountsOnly { root := some { slashes := 1 } } ['a']
        (oneRecord "---\nid: 5\nrefs: |\n  2@b\n---\n\nc".toList)
        ((record { root := some { slashes := 1 } } ['5'] ['a'] 1).run
          (oneRecord "---\nid: 5\nrefs: |\n  2@b\n---\n\nc".toList)).2 := by
  have hpath : IsPath ['a'] := ⟨by decide, by decide, by decide⟩
  exact ⟨hpath, by decide +kernel,
    (updates_keep _ (by decide +kernel) _).1 _ _ (by decide) fun _ => hpath⟩

/-- A line that is no field is dropped and the others are written in one form, those that go on
with a field without the blanks at their ends. A path of several lines takes the place of the body,
one with a blank at its end that of another path, and a body without a header loses empty lines at
its start. -/
theorem update_drops :
    (∃ new, noted "---\nid: 5\n# note\nkind:x\n---\n\n".toList ['a'] = .ok new ∧
      "# note".toList ∉ Text.lines new ∧ "kind:x".toList ∉ Text.lines new) ∧
    (∃ new, noted "---\nnote: |\n  keep  \n---\n\n".toList ['a'] = .ok new ∧
      "  keep  ".toList ∉ Text.lines new) ∧
    (∃ new p, noted "---\nid: 5\n---\n\nbody".toList "a\n---\nb".toList = .ok new ∧
      Page.parse new = .ok p ∧ p.body ≠ "body".toList) ∧
    (∃ new p, noted "---\nrefs: |\n  2@a\n---\n\n".toList "a ".toList = .ok new ∧
      Page.parse new = .ok p ∧ p.header.refs.get? ['a'] = some 1) ∧
    ∃ new p, noted "\nbody".toList ['a'] = .ok new ∧
      Page.parse new = .ok p ∧ p.body = "body".toList := by
  refine ⟨⟨"---\nid: 5\nkind: x\nrefs: |\n  1@a\n---\n\n".toList, ?_, ?_, ?_⟩,
    ⟨"---\nnote: |\n  keep\nid: 5\nrefs: |\n  1@a\n---\n\n".toList, ?_, ?_⟩,
    ⟨"---\nid: 5\nrefs: |\n  1@a\n---\nb\n---\n\nbody".toList,
      ⟨⟨[(Header.idKey, ['5'])], ⟨[(['a'], 1)]⟩, some 1⟩, "b\n---\n\nbody".toList⟩, ?_, ?_, ?_⟩,
    ⟨"---\nrefs: |\n  2@a\n  1@a \nid: 5\n---\n\n".toList,
      ⟨⟨[(Header.idKey, ['5'])], ⟨[(['a'], 1)]⟩, some 0⟩, []⟩, ?_, ?_, ?_⟩,
    ⟨"---\nid: 5\nrefs: |\n  1@a\n---\n\n\nbody".toList,
      ⟨⟨[(Header.idKey, ['5'])], ⟨[(['a'], 1)]⟩, some 1⟩, "body".toList⟩, ?_, ?_, ?_⟩⟩
  all_goals decide +kernel

end Session

end Marginalia
