import Marginalia.Proofs.Fragment.Rewriting
import Marginalia.Proofs.Session.Counts
import Marginalia.Proofs.Session.Places
import Marginalia.Session.Unencodable

/-!
# Observations one after the other

Each count that is noted for a fragment reads the fragment's file, and writes it again when the
counts change. What that makes of the tree and of the page in the file is a function of the two
(`noteAt`), which `record` computes (`RecordAt.note`), so a row of observations is a fold of it
(`RecordAt.noteAll`) and the counts are a fold of `Refs.merge`. The file that is written has one
form for all counts when its block of counts is the last thing in the header; then observations of
two paths can change places (`noteAt_comm`), and those of many paths have any order
(`foldl_noteAt_perm`). Together: a row of observations is a faithful map (`Faithful`,
`observations_map`). That is so for paths that have a text: a count for any other empties the file
(`RecordAt.spoilCount`, `unencodable_path_loses_record`).
-/

namespace Marginalia

open Header (IsKey IsValue IsPath fence ownLines refsLines)
open Marginalia.Tree (SameKinds)

/-- A path and a count that can be written for it. -/
structure Notable (o : Text × Int) : Prop where
  path : IsPath o.1
  short : o.2.natAbs < 10 ^ Numeral.limit

/-! ## Counts -/

namespace Refs

variable {r : Refs}

/-- The counts after a row of observations, each a path with its count. -/
def mergeAll (r : Refs) (obs : List (Text × Int)) : Refs :=
  obs.foldl (fun r o => r.merge o.1 o.2) r

theorem Ascending.mergeAll (h : r.Ascending) (obs : List (Text × Int)) :
    (r.mergeAll obs).Ascending := by
  induction obs generalizing r with
  | nil => exact h
  | cons o obs ih => exact ih (h.merge o.1 o.2)

/-- The last observation of a path decides. -/
theorem get?_mergeAll (r : Refs) (obs : List (Text × Int)) (path : Text) :
    (r.mergeAll obs).get? path = match obs.reverse.lookup path with
      | some n => if 0 < n then some n else none
      | none => r.get? path := by
  induction obs using List.reverseRecOn with
  | nil => rfl
  | append_singleton obs o ih =>
    have hlast : r.mergeAll (obs ++ [o]) = (r.mergeAll obs).merge o.1 o.2 := List.foldl_concat ..
    have hrev : (obs ++ [o]).reverse = (o.1, o.2) :: obs.reverse := List.reverse_concat ..
    rw [hlast, get?_merge, hrev, lookup_cons_ite]
    by_cases h : path = o.1
    · rw [if_pos h, if_pos h]
    · rw [if_neg h, if_neg h, ih]

/-- After a count of another path a count changes as much as before it: something or nothing. -/
theorem Ascending.merge_eq_self_iff (h : r.Ascending) {a b : Text × Int} (hne : a.1 ≠ b.1) :
    (r.merge a.1 a.2).merge b.1 b.2 = r.merge a.1 a.2 ↔ r.merge b.1 b.2 = r := by
  constructor
  · intro e
    refine (h.merge ..).ext h fun q => ?_
    by_cases hq : q = b.1
    · have hlookup := congrArg (·.get? q) e
      have hqa : q ≠ a.1 := fun e' => hne (e'.symm.trans hq)
      simpa only [get?_merge, if_pos hq, if_neg hqa] using hlookup
    · rw [get?_merge, if_neg hq]
  · intro e
    rw [h.merge_comm hne, e]

end Refs

namespace Header

/-- Headers whose counts come last are told by their fields and counts, when they are written and
when they are read again. -/
theorem CountsLast.render_congr {h h' : Header} (hl : h.CountsLast) (hl' : h'.CountsLast)
    (hfields : h.fields = h'.fields) (hrefs : h.refs = h'.refs) : h.render = h'.render := by
  rw [Header.render, Header.render, hl.innerLines, hl'.innerLines, hfields, hrefs]

theorem CountsLast.settled_congr {h h' : Header} (hl : h.CountsLast) (hl' : h'.CountsLast)
    (hfields : h.fields = h'.fields) (hrefs : h.refs = h'.refs) : h.settled = h'.settled := by
  have hplace : ∀ {k : Header}, k.CountsLast → k.refsPlace.getD k.fields.length = k.fields.length :=
    fun {k} hk => by
      cases hp : k.refsPlace with
      | none => rfl
      | some i => exact hk i hp
  rw [Header.settled, Header.settled, hplace hl, hplace hl', hfields, hrefs]

end Header

/-- A page as it is read again after it was written. -/
def Page.settled (p : Page) : Page := ⟨p.header.settled, Page.settle p.body⟩

namespace Session

variable {s : Session} {t : Tree} {id : Text} {file : Path} {l : Location} {p : Page}
  {o a b : Text × Int}

/-! ## Ids -/

/-- A header with the fields of one that has the id has it too. -/
theorem identify_eq_self {h k : Header} (e : h.fields = (identify file k).fields) :
    identify file h = h := by
  have hfields : (identify file h).fields = h.fields := by
    rw [identify_fields e, identify_identify, e]
  have hrest : (identify file h).refs = h.refs ∧ (identify file h).refsPlace = h.refsPlace := by
    unfold identify
    split <;> exact ⟨rfl, rfl⟩
  exact (Header.mk.injEq ..).mpr ⟨hfields, hrest.1, hrest.2⟩

theorem identify_id (hid : fileId? file.name = some id) (h : Header) :
    (identify file h).get? Header.idKey = some id := by
  unfold identify
  rw [hid]
  exact Header.lookup_setField_self ..

/-- Without a block of counts, or with an id and no field after the block, the counts come last. -/
theorem identify_countsLast {h : Header} (hplace : h.refsPlace = none ∨
    (h.get? Header.idKey ≠ none ∧ h.refsPlace = some h.fields.length)) :
    (identify file h).CountsLast := by
  have hkeep : (identify file h).refsPlace = h.refsPlace := by
    unfold identify
    split <;> rfl
  intro i hi
  rw [hkeep] at hi
  rcases hplace with hnone | ⟨hhas, hsome⟩
  · rw [hnone] at hi
    cases hi
  · rw [hsome] at hi
    rw [← Option.some.inj hi]
    unfold identify
    split
    · rw [Header.set, Header.length_setField_of_lookup hhas]
    · rfl

/-! ## One observation -/

/-- The page that is written when a count is noted. -/
def withCount (file : Path) (p : Page) (o : Text × Int) : Page :=
  ⟨(identify file p.header).mergeRef o.1 o.2, p.body⟩

/-- What noting a count makes of the tree and of the page in the file of a record. -/
def noteAt (file : Path) (l : Location) (x : Tree × Page) (o : Text × Int) : Tree × Page :=
  if x.2.header.refs.merge o.1 o.2 = x.2.header.refs then x
  else (x.1.insert l (.file (.text (withCount file x.2 o).render)), (withCount file x.2 o).settled)

variable {x : Tree × Page}

theorem noteAt_of_eq (h : x.2.header.refs.merge o.1 o.2 = x.2.header.refs) :
    noteAt file l x o = x := if_pos h

theorem noteAt_of_ne (h : x.2.header.refs.merge o.1 o.2 ≠ x.2.header.refs) :
    noteAt file l x o =
      (x.1.insert l (.file (.text (withCount file x.2 o).render)), (withCount file x.2 o).settled) :=
  if_neg h

theorem withCount_refs (file : Path) (p : Page) (o : Text × Int) :
    (withCount file p o).header.refs = p.header.refs.merge o.1 o.2 := by
  show (identify file p.header).refs.merge o.1 o.2 = _
  rw [identify_refs]

theorem noteAt_refs (x : Tree × Page) : (noteAt file l x o).2.header.refs =
    x.2.header.refs.merge o.1 o.2 := by
  unfold noteAt
  split
  · next h => exact h.symm
  · exact withCount_refs ..

/-- The file of an id's record, where it is and the page in it. -/
structure RecordAt (s : Session) (t : Tree) (id : Text) (file : Path) (l : Location) (p : Page) :
    Prop where
  wellFormed : t.WellFormed
  located : s.locate t id = .ok (some file)
  resolves : t.resolve file = .ok l
  isFile : ∃ c, t.node? l = some (.file c)
  page : readPage t file = .ok p

theorem recordAt_of_locate (hw : t.WellFormed) (hloc : s.locate t id = .ok (some file))
    (hpage : readPage t file = .ok p) : ∃ l, s.RecordAt t id file l p := by
  obtain ⟨folders, -, hfirst⟩ := locate_eq_ok hloc
  obtain ⟨folder, -, -, hfile⟩ := firstWith_some hfirst
  obtain ⟨l, c, hr, hn⟩ := Tree.isFile_eq_true_iff.mp hfile
  exact ⟨l, hw, hloc, hr, ⟨c, hn⟩, hpage⟩

namespace RecordAt

theorem readable_withCount (h : s.RecordAt t id file l p) (ho : Notable o) :
    (withCount file p o).header.Readable :=
  (readable_identify file (readable_of_readPage h.page)).mergeRef (fun _ => ho.path)
    fun _ => ho.short

/-- A record is where it was when its file has another text. -/
theorem replace (h : s.RecordAt t id file l p) {text : Text} {q : Page}
    (hpage : readPage (t.insert l (.file (.text text))) file = .ok q) :
    s.RecordAt (t.insert l (.file (.text text))) id file l q := by
  obtain ⟨c, hc⟩ := h.isFile
  have hfold : t.node? l ≠ some .folder := by simp [hc]
  have hne : l ≠ [] := fun e => hfold (by rw [e]; rfl)
  have hsame := SameKinds.insert_file hne hc (.text text)
  have hw := h.wellFormed.insert_file h.resolves hfold (.text text)
  exact {
    wellFormed := hw
    located := by rw [locate_eq hsame h.wellFormed hw, h.located]
    resolves := by rw [hsame.resolve_eq, h.resolves]
    isFile := ⟨_, Tree.node?_insert_self t hne _⟩
    page := hpage }

/-- The page that is written for an observation is the one that is read afterwards. -/
theorem insert (h : s.RecordAt t id file l p) (ho : Notable o) :
    s.RecordAt (t.insert l (.file (.text (withCount file p o).render))) id file l
      (withCount file p o).settled := by
  obtain ⟨c, hc⟩ := h.isFile
  exact h.replace (readPage_written h.resolves (by simp [hc]) (h.readable_withCount ho)
    (no_return_of_readPage h.page : '\r' ∉ p.body))

theorem readText_insert (h : s.RecordAt t id file l p) (ho : Notable o) :
    (t.insert l (.file (.text (withCount file p o).render))).readText file =
      .ok (withCount file p o).render := by
  obtain ⟨c, hc⟩ := h.isFile
  have hplain : '\r' ∉ (withCount file p o).render :=
    Page.no_return_render (h.readable_withCount ho) (no_return_of_readPage h.page)
  rw [Tree.readText_insert h.resolves (by simp [hc]), Text.unifyNewlines_of_no_return hplain]

theorem writeHeader_run (h : s.RecordAt t id file l p) (ho : Notable o) :
    (writeHeader file ((identify file p.header).mergeRef o.1 o.2)).run t =
      (.ok (), t.insert l (.file (.text (withCount file p o).render))) := by
  obtain ⟨c, hc⟩ := h.isFile
  have hfold : t.node? l ≠ some .folder := by simp [hc]
  have hinspect : (Work.inspect fun t => readPage t file).run t = (.ok p, t) := by
    rw [Work.run_inspect, h.page]
  unfold writeHeader
  rw [Work.run_bind_of_ok hinspect]
  simp only [identify_mergeRef, identify_identify]
  have hshort : ((identify file p.header).mergeRef o.1 o.2).excess? = none :=
    excess?_eq_none_iff.mpr (h.readable_withCount ho).short
  unfold writePage
  rw [hshort]
  show (Work.change _).run t = _
  rw [Work.run_change, Tree.write_of_resolve _ h.resolves hfold]
  rfl

/-- Noting a count gives the merged counts. The file is written when they differ from those
before. -/
theorem note (h : s.RecordAt t id file l p) (ho : Notable o) :
    (s.record id o.1 o.2).run t =
        (.ok (some (p.header.refs.merge o.1 o.2)), (noteAt file l (t, p) o).1) ∧
      s.RecordAt (noteAt file l (t, p) o).1 id file l (noteAt file l (t, p) o).2 := by
  have hread : tolerate (readHeader t file) = .ok (some (identify file p.header)) := by
    rw [readHeader_eq_ok_iff.mpr ⟨p, h.page, rfl⟩]
    rfl
  have hmerged : ((identify file p.header).mergeRef o.1 o.2).refs =
      p.header.refs.merge o.1 o.2 := by
    rw [Header.mergeRef, identify_refs]
  unfold record noteAt
  rw [Work.run_bind_of_ok (by rw [Work.run_inspect, h.located])]
  rw [Work.run_bind_of_ok (by rw [Work.run_inspect, hread])]
  by_cases hsame : p.header.refs.merge o.1 o.2 = p.header.refs
  · have hdiff : (p.header.refs.merge o.1 o.2 != p.header.refs) = false := by simpa using hsame
    simp only [hmerged, identify_refs, hdiff, Bool.false_eq_true, if_false]
    rw [if_pos hsame]
    exact ⟨rfl, h⟩
  · have hdiff : (p.header.refs.merge o.1 o.2 != p.header.refs) = true := by simpa using hsame
    simp only [hmerged, identify_refs, hdiff, if_true]
    rw [if_neg hsame, Work.run_bind_of_ok (h.writeHeader_run ho)]
    exact ⟨rfl, h.insert ho⟩

/-- A count for a path without a text leaves the file empty, unless there is nothing to set. -/
theorem spoilCount (h : s.RecordAt t id file l p) {n : Int} (hn : n.natAbs < 10 ^ Numeral.limit) :
    (s.spoilCount id n).run t =
      if 0 < n then (.error .unencodable, t.insert l (.file (.text [])))
      else (.ok (some p.header.refs), t) := by
  obtain ⟨c, hc⟩ := h.isFile
  have hread : tolerate (readHeader t file) = .ok (some (identify file p.header)) := by
    rw [readHeader_eq_ok_iff.mpr ⟨p, h.page, rfl⟩]
    rfl
  have hshort : (Numeral.ofInt? n).isNone = false := by
    rw [← Option.not_isSome, Numeral.ofInt?_isSome_iff.mpr hn]
    rfl
  have hwrite : (Work.change fun t => t.write file []).run t =
      (.ok (), t.insert l (.file (.text []))) := by
    rw [Work.run_change, Tree.write_of_resolve _ h.resolves (by simp [hc])]
  unfold Session.spoilCount
  rw [Work.run_bind_of_ok (by rw [Work.run_inspect, h.located])]
  rw [Work.run_bind_of_ok (by rw [Work.run_inspect, hread])]
  by_cases hpos : 0 < n
  · simp only [hpos, if_true, hshort, Bool.false_eq_true, if_false]
    rw [Work.run_bind_of_ok hwrite]
    rfl
  · simp only [hpos, if_false, identify_refs]
    rfl

/-- The cached counts are those of the page. -/
theorem cachedRefs (h : s.RecordAt t id file l p) : s.cachedRefs t id = .ok p.header.refs := by
  have hread : tolerate (readHeader t file) = .ok (some (identify file p.header)) := by
    rw [readHeader_eq_ok_iff.mpr ⟨p, h.page, rfl⟩]
    rfl
  simp [Session.cachedRefs, h.located, hread, bind, Except.bind, pure, Except.pure]

/-- The record of an emptied file has no counts. -/
theorem emptied (h : s.RecordAt t id file l p) :
    (t.insert l (.file (.text []))).readText file = .ok [] ∧
      s.cachedRefs (t.insert l (.file (.text []))) id = .ok {} := by
  obtain ⟨c, hc⟩ := h.isFile
  have htext : (t.insert l (.file (.text []))).readText file = .ok [] :=
    Tree.readText_insert h.resolves (by simp [hc]) []
  exact ⟨htext, (h.replace (readPage_eq_ok_iff.mpr ⟨[], htext, rfl⟩)).cachedRefs⟩

end RecordAt

/-! ## Many observations -/

/-- Counts noted for one fragment, one after the other. -/
def noteAll (s : Session) (id : Text) : List (Text × Int) → Work Unit
  | [] => pure ()
  | o :: obs => do
    let _ ← s.record id o.1 o.2
    noteAll s id obs

theorem RecordAt.noteAll (h : s.RecordAt t id file l p) {obs : List (Text × Int)}
    (hobs : ∀ o ∈ obs, Notable o) :
    (s.noteAll id obs).run t = (.ok (), (obs.foldl (noteAt file l) (t, p)).1) ∧
      s.RecordAt (obs.foldl (noteAt file l) (t, p)).1 id file l
        (obs.foldl (noteAt file l) (t, p)).2 ∧
      (obs.foldl (noteAt file l) (t, p)).2.header.refs = p.header.refs.mergeAll obs := by
  induction obs generalizing t p with
  | nil => exact ⟨rfl, h, rfl⟩
  | cons o obs ih =>
    obtain ⟨ho, hobs⟩ := List.forall_mem_cons.mp hobs
    obtain ⟨hrun, hnext⟩ := h.note ho
    obtain ⟨hrest, hlast, hrefs⟩ := ih hnext hobs
    refine ⟨?_, hlast, ?_⟩
    · rw [Session.noteAll, Work.run_bind_of_ok hrun, hrest]
      rfl
    · rw [List.foldl_cons, hrefs, noteAt_refs]
      rfl

/-! ## The order of observations -/

/-- A page in whose file the counts come last. -/
structure Ordered (file : Path) (p : Page) : Prop where
  ascending : p.header.refs.Ascending
  last : (identify file p.header).CountsLast

theorem identify_withCount (file : Path) (p : Page) (o : Text × Int) :
    identify file (withCount file p o).settled.header = (withCount file p o).settled.header :=
  identify_eq_self (k := p.header) rfl

theorem Ordered.withCount (h : Ordered file p) (o : Text × Int) :
    Ordered file (withCount file p o).settled where
  ascending := by
    show (Session.withCount file p o).header.refs.Ascending
    rw [withCount_refs]
    exact h.ascending.merge ..
  last := by
    have hlast : (Session.withCount file p o).header.CountsLast := h.last
    rw [identify_withCount]
    exact hlast.settled

theorem Ordered.noteAt (h : Ordered file x.2) (o : Text × Int) :
    Ordered file (noteAt file l x o).2 := by
  unfold Session.noteAt
  split
  · exact h
  · exact h.withCount o

/-- Two counts are written in one form, whichever was written first. -/
theorem withCount_comm (h : Ordered file p) (hne : a.1 ≠ b.1) :
    (withCount file (withCount file p a).settled b).render =
        (withCount file (withCount file p b).settled a).render ∧
      (withCount file (withCount file p a).settled b).settled =
        (withCount file (withCount file p b).settled a).settled := by
  have hrefs : (withCount file (withCount file p a).settled b).header.refs =
      (withCount file (withCount file p b).settled a).header.refs := by
    rw [withCount_refs, withCount_refs]
    show (withCount file p a).header.refs.merge .. = (withCount file p b).header.refs.merge ..
    rw [withCount_refs, withCount_refs, h.ascending.merge_comm hne]
  have hfields : (withCount file (withCount file p a).settled b).header.fields =
      (withCount file (withCount file p b).settled a).header.fields := by
    show (identify file (withCount file p a).settled.header).fields =
      (identify file (withCount file p b).settled.header).fields
    rw [identify_withCount, identify_withCount]
    rfl
  have hlast : ∀ c d, (withCount file (withCount file p c).settled d).header.CountsLast :=
    fun c _ => (h.withCount c).last
  constructor
  · exact congrArg (· ++ '\n' :: Page.settle p.body)
      ((hlast a b).render_congr (hlast b a) hfields hrefs)
  · exact congrArg (Page.mk · (Page.settle (Page.settle p.body)))
      ((hlast a b).settled_congr (hlast b a) hfields hrefs)

theorem noteAt_comm (h : Ordered file x.2) (hne : a.1 ≠ b.1) :
    noteAt file l (noteAt file l x a) b = noteAt file l (noteAt file l x b) a := by
  have hasc := h.ascending
  have hafter : ∀ {c d : Text × Int}, c.1 ≠ d.1 → ((noteAt file l x c).2.header.refs.merge d.1 d.2 =
      (noteAt file l x c).2.header.refs ↔ x.2.header.refs.merge d.1 d.2 = x.2.header.refs) :=
    fun {c d} hcd => by
      rw [noteAt_refs]
      exact hasc.merge_eq_self_iff hcd
  by_cases ha : x.2.header.refs.merge a.1 a.2 = x.2.header.refs
  · rw [noteAt_of_eq ha, noteAt_of_eq ((hafter hne.symm).mpr ha)]
  by_cases hb : x.2.header.refs.merge b.1 b.2 = x.2.header.refs
  · rw [noteAt_of_eq hb, noteAt_of_eq ((hafter hne).mpr hb)]
  -- both are written: the second text takes the place of the first
  obtain ⟨hrender, hsettled⟩ := withCount_comm h hne
  rw [noteAt_of_ne (mt (hafter hne).mp hb), noteAt_of_ne (mt (hafter hne.symm).mp ha),
    noteAt_of_ne ha, noteAt_of_ne hb]
  simp only [Tree.insert_insert, hrender, hsettled]

theorem foldl_noteAt_perm {obs obs' : List (Text × Int)} (hperm : obs.Perm obs')
    (h : Ordered file x.2) (hpaths : (obs.map Prod.fst).Nodup) :
    obs.foldl (noteAt file l) x = obs'.foldl (noteAt file l) x := by
  induction hperm generalizing x with
  | nil => rfl
  | cons o _ ih => exact ih (h.noteAt o) (List.nodup_cons.mp hpaths).2
  | swap a b obs =>
    have hne : b.1 ≠ a.1 := fun e =>
      (List.nodup_cons.mp hpaths).1 (by rw [List.map_cons, e]; exact List.mem_cons_self)
    simp only [List.foldl_cons, noteAt_comm h hne]
  | trans hfirst _ ih ih' =>
    exact (ih h hpaths).trans (ih' h ((hfirst.map Prod.fst).nodup_iff.mp hpaths))

/-! ## What is written -/

/-- The text of an id's record when it is written with some counts: it is read as these counts and
with the id, and it has them as a block of lines in the order of their paths, none without counts,
among lines that are those of fields. -/
structure Updated (id : Text) (r : Refs) (text : Text) : Prop where
  ascending : r.Ascending
  reads : ∃ q, Page.parse text = .ok q ∧ q.header.get? Header.idKey = some id ∧
    q.header.refs = r ∧ (q.header.refsPlace = none ↔ r.entries = [])
  lines : ∃ (before after : List (Text × Text)) (body : Text),
    text = (fence :: (before.flatMap ownLines ++ refsLines r ++ after.flatMap ownLines) ++
      [fence, []]).flatMap (· ++ ['\n']) ++ body ∧
    ∀ f ∈ before ++ after, IsKey f.1 ∧ IsValue f.2

theorem updated_withCount (hid : fileId? file.name = some id)
    (hh : (withCount file p o).header.Readable) :
    Updated id (withCount file p o).header.refs (withCount file p o).render where
  ascending := hh.ascending
  reads := by
    refine ⟨(withCount file p o).settled, Page.parse_render hh _, identify_id hid p.header, rfl, ?_⟩
    show (if (withCount file p o).header.refs.isEmpty then none else _) = none ↔ _
    unfold Refs.isEmpty
    cases (withCount file p o).header.refs.entries <;> simp
  lines := by
    obtain ⟨k, -, -, hlines⟩ := hh.plainLines_eq
    refine ⟨(withCount file p o).header.fields.take k, (withCount file p o).header.fields.drop k,
      p.body, ?_, fun f hf => hh.fields f ?_⟩
    · show Page.render ⟨(withCount file p o).header, p.body⟩ = _
      rw [← hlines, Page.render_eq]
      simp
    · rwa [List.take_append_drop] at hf

/-- What a row of observations has made of the counts of a fragment, and what the next ones make of
them. -/
structure Faithful (s : Session) (t : Tree) (id : Text) (file : Path) (p : Page)
    (obs : List (Text × Int)) (u : Tree) : Prop where
  /-- The counts are the fold over those before. -/
  counts : s.cachedRefs u id = .ok (p.header.refs.mergeAll obs)
  /-- The last observation of a path decides. -/
  decided : ∀ path, (p.header.refs.mergeAll obs).get? path = match obs.reverse.lookup path with
    | some n => if 0 < n then some n else none
    | none => p.header.refs.get? path
  lastOnly : ∀ obs', (∀ path, obs'.reverse.lookup path = obs.reverse.lookup path) →
    p.header.refs.mergeAll obs' = p.header.refs.mergeAll obs
  /-- Another observation returns and leaves the next counts. The file stays as it is when they are
  the same, and is `Updated` when they are not. -/
  next : ∀ o r, Notable o → (p.header.refs.mergeAll obs).merge o.1 o.2 = r →
    ∃ v, (s.record id o.1 o.2).run u = (.ok (some r), v) ∧
      (r = p.header.refs.mergeAll obs → v = u) ∧
      (r ≠ p.header.refs.mergeAll obs → ∃ text, v.readText file = .ok text ∧ Updated id r text)
  /-- Observations of distinct paths leave the same tree in any order, when there was no block of
  counts or no field after it and an id. -/
  anyOrder : p.header.refsPlace = none ∨ (p.header.get? Header.idKey ≠ none ∧
      p.header.refsPlace = some p.header.fields.length) →
    (obs.map Prod.fst).Nodup → ∀ obs', obs'.Perm obs → (s.noteAll id obs').run t = (.ok (), u)
  /-- A path with a surrogate is no path of the map: its count empties the record. -/
  spoiled : ∀ (path : Passed) x (n : Int), .inr x ∈ path → n.natAbs < 10 ^ Numeral.limit →
    ∃ v, (s.recordPassed id path n).run u =
        (if 0 < n then .error .unencodable else .ok (some (p.header.refs.mergeAll obs)), v) ∧
      (0 < n → v.readText file = .ok [] ∧ s.cachedRefs v id = .ok {}) ∧ (n ≤ 0 → v = u)

/-- Observations of one fragment, of paths that have a text, make its counts those of a map. -/
theorem observations_map (hw : t.WellFormed) (hid : isId id = true)
    (hloc : s.locate t id = .ok (some file)) (hpage : readPage t file = .ok p)
    {obs : List (Text × Int)} (hobs : ∀ o ∈ obs, Notable o) :
    ∃ u, (s.noteAll id obs).run t = (.ok (), u) ∧ Faithful s t id file p obs u := by
  obtain ⟨l, h⟩ := recordAt_of_locate hw hloc hpage
  have hfile : fileId? file.name = some id := by
    obtain ⟨folders, -, hfirst⟩ := locate_eq_ok hloc
    obtain ⟨folder, -, rfl, -⟩ := firstWith_some hfirst
    rw [folder.fragment_eq_child (digits_of_isId hid), Path.name_child, fileId?_ending hid]
  have hasc := (readable_of_readPage hpage).ascending
  obtain ⟨hrun, hlast, hrefs⟩ := h.noteAll hobs
  refine ⟨_, hrun, {
    counts := by rw [hlast.cachedRefs, hrefs]
    decided := Refs.get?_mergeAll _ obs
    lastOnly := fun obs' hsame => ?_
    next := fun o r ho hr => ?_
    anyOrder := fun hplace hnodup obs' hperm => ?_
    spoiled := fun path x n hpath hn => ?_ }⟩
  · refine (hasc.mergeAll obs').ext (hasc.mergeAll obs) fun path => ?_
    rw [Refs.get?_mergeAll, Refs.get?_mergeAll, hsame]
  · obtain ⟨hrun', -⟩ := hlast.note ho
    rw [hrefs, hr] at hrun'
    refine ⟨_, hrun', fun hsame => ?_, fun hdiff => ?_⟩
    · rw [noteAt_of_eq (by rw [hrefs, hr, hsame])]
    · rw [noteAt_of_ne (by rw [hrefs, hr]; exact hdiff)]
      have hupdated := updated_withCount hfile (hlast.readable_withCount ho)
      rw [withCount_refs, hrefs, hr] at hupdated
      exact ⟨_, hlast.readText_insert ho, hupdated⟩
  · have hordered : Ordered file p := ⟨hasc, identify_countsLast hplace⟩
    rw [(h.noteAll fun o ho => hobs o (hperm.subset ho)).1,
      foldl_noteAt_perm hperm hordered ((hperm.map Prod.fst).nodup_iff.mpr hnodup)]
  · have hpassed : s.recordPassed id path n = s.spoilCount id n := by
      rw [recordPassed, Passed.text?_eq_none_iff.mpr ⟨x, hpath⟩]
    have hrun' := hlast.spoilCount hn
    rw [hrefs, ← hpassed] at hrun'
    by_cases hpos : 0 < n
    · rw [if_pos hpos] at hrun'
      exact ⟨_, by rw [hrun', if_pos hpos], fun _ => hlast.emptied, fun hneg => by omega⟩
    · rw [if_neg hpos] at hrun'
      exact ⟨_, by rw [hrun', if_neg hpos], fun hpos' => absurd hpos' hpos, fun _ => rfl⟩

/-- Observations that set a count, take one out and find none to take out. -/
def threePaths : List (Text × Int) := [(['a'], 7), (['b'], 0), ("c d".toList, -4)]

/-- A record with its id below another field, and its counts last. -/
def countsLast : Text := "---\nkind:x\nid: 6\nrefs: |\n  2@b\n  1@a\n---\n\n\nbody".toList

/-- The page that is read of it. -/
def countsLastPage : Page :=
  { header :=
      { fields := [("kind".toList, ['x']), (Header.idKey, ['6'])]
        refs := ⟨[(['a'], 1), (['b'], 2)]⟩
        refsPlace := some 2 }
    body := "body".toList }

theorem observations_map_threePaths :
    ∃ u, (noteAll { root := some { slashes := 1 } } ['5'] threePaths).run (oneRecord countsLast) =
        (.ok (), u) ∧
      (noteAll { root := some { slashes := 1 } } ['5'] threePaths.reverse).run
        (oneRecord countsLast) = (.ok (), u) ∧
      cachedRefs { root := some { slashes := 1 } } u ['5'] = .ok ⟨[(['a'], 7)]⟩ ∧
      (record { root := some { slashes := 1 } } ['5'] ['a'] 7).run u =
        (.ok (some ⟨[(['a'], 7)]⟩), u) ∧
      ∃ v text, (record { root := some { slashes := 1 } } ['5'] ['a'] 0).run u =
          (.ok (some {}), v) ∧
        v.readText { slashes := 1, parts := [".cms".toList, "default".toList, "5.md".toList] } =
          .ok text ∧
        Updated ['5'] {} text := by
  have hpaths : ∀ o ∈ threePaths, Notable o := by
    refine List.forall_mem_cons.mpr ⟨⟨⟨by decide, by decide, by decide⟩, ?_⟩,
      List.forall_mem_cons.mpr ⟨⟨⟨by decide, by decide, by decide⟩, ?_⟩,
        List.forall_mem_cons.mpr ⟨⟨⟨by decide, by decide, by decide⟩, ?_⟩, by simp⟩⟩⟩
    all_goals exact (Numeral.length_ofNat_le_iff (by decide)).mp (by decide)
  have hpage : readPage (oneRecord countsLast)
      { slashes := 1, parts := [".cms".toList, "default".toList, "5.md".toList] } =
        .ok countsLastPage := by decide +kernel
  obtain ⟨u, hrun, hfaithful⟩ := observations_map
    (s := { root := some { slashes := 1 } }) (by decide +kernel : (oneRecord countsLast).WellFormed)
    (by decide : isId ['5'] = true) (by decide +kernel) hpage hpaths
  have hmerged : countsLastPage.header.refs.mergeAll threePaths = ⟨[(['a'], 7)]⟩ := by decide
  have hrefs := hfaithful.counts
  have hnext := hfaithful.next
  rw [hmerged] at hrefs hnext
  have hseven : Notable (['a'], 7) := hpaths _ List.mem_cons_self
  have hnone : Notable (['a'], 0) :=
    ⟨hseven.path, (Numeral.length_ofNat_le_iff (by decide)).mp (by decide)⟩
  obtain ⟨v, hsame, hstay, -⟩ := hnext _ ⟨[(['a'], 7)]⟩ hseven (by decide)
  obtain ⟨w, hgone, -, htext⟩ := hnext _ {} hnone (by decide)
  obtain ⟨text, hread, hupdated⟩ := htext (by decide)
  have hreverse := hfaithful.anyOrder (.inr ⟨by decide, rfl⟩) (by decide) _ (List.reverse_perm _)
  refine ⟨u, hrun, hreverse, hrefs, ?_, w, text, hgone, hread, hupdated⟩
  rw [hstay rfl] at hsame
  exact hsame

/-- A count for a path without a text loses the record. -/
theorem unencodable_path_loses_record :
    cachedRefs { root := some { slashes := 1 } } (oneRecord countsLast) ['5'] =
        .ok ⟨[(['a'], 1), (['b'], 2)]⟩ ∧
      ∃ v, (recordPassed { root := some { slashes := 1 } } ['5']
          (.inr 1279 :: Passed.ofText ".py".toList) 1).run (oneRecord countsLast) =
            (.error .unencodable, v) ∧
        cachedRefs { root := some { slashes := 1 } } v ['5'] = .ok {} ∧
        v.readText { slashes := 1, parts := [".cms".toList, "default".toList, "5.md".toList] } =
          .ok [] :=
  ⟨by decide +kernel, _, Work.run_eq_of_fst (by decide +kernel), by decide +kernel,
    by decide +kernel⟩

end Session

end Marginalia
