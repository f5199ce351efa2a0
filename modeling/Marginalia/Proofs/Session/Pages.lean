import Marginalia.Proofs.Disk.Resolve
import Marginalia.Proofs.Fragment.Page
import Marginalia.Proofs.Session.Lookup
import Marginalia.Proofs.Work

/-!
# Reading and writing the pages of records

The header that a record gets when it is written has the id of its file's name and is readable if
the one before was (`readable_identify`). Writing a page either fails and changes nothing or puts
the page's text in the place of the file (`writePage_cases`), and then the page is read there
(`readPage_written`).
-/

namespace Marginalia

open Header (IsKey IsValue IsPath)

/-! ## Ids of file names -/

theorem isId_of_fileId? {name : Name} {id : Text} (h : fileId? name = some id) :
    isId id = true := by
  unfold fileId? at h
  simp only at h
  split at h
  · split at h
    · next hc =>
      cases h
      simp only [Bool.and_eq_true] at hc
      exact hc.1.1.1
    · cases h
  · cases h

theorem fileId?_ending {id : Text} (h : isId id = true) : fileId? (id ++ ending) = some id := by
  have hrun : (id ++ ending).takeWhile isAsciiDigit = id :=
    Text.takeWhile_append_stop (digits_of_isId h) fun d hd => by cases hd; decide
  unfold fileId?
  simp only [hrun, List.drop_left]
  simp [ending, h]

theorem isKey_idKey : IsKey Header.idKey where
  start := ⟨'i', ['d'], rfl, by decide⟩
  chars := List.all_eq_true.mp (by decide)
  oneLine := by decide
  not_refs := by decide

theorem isValue_of_plain {v : Text} (h : ∀ c ∈ v, isBlank c = false ∧ Text.isLineEnd c = false) :
    IsValue v :=
  IsValue.of_line
    (Text.trim_eq_self_iff.mpr
      ⟨fun c hc => (h c (List.mem_of_head? hc)).1, fun c hc => (h c (List.mem_of_getLast? hc)).1⟩)
    fun c hc => (h c hc).2

theorem isValue_of_digits {id : Text} (h : ∀ c ∈ id, isAsciiDigit c = true) : IsValue id :=
  isValue_of_plain fun c hc =>
    ⟨isAsciiDigit_not_blank (h c hc), isAsciiDigit_not_lineEnd (h c hc)⟩

namespace Session

variable {s : Session} {t t' : Tree} {path : Path} {h : Header} {p : Page}

@[simp] theorem identify_refs (path : Path) (h : Header) : (identify path h).refs = h.refs := by
  unfold identify
  split <;> rfl

theorem identify_mergeRef (path : Path) (h : Header) (q : Text) (n : Int) :
    identify path (h.mergeRef q n) = (identify path h).mergeRef q n := by
  unfold identify
  split <;> rfl

theorem identify_fields {path : Path} {h h' : Header} (e : h.fields = h'.fields) :
    (identify path h).fields = (identify path h').fields := by
  unfold identify
  split
  · simp [Header.set, e]
  · exact e

theorem identify_congr {path path' : Path} (hname : path.name = path'.name) (h : Header) :
    identify path h = identify path' h := by
  unfold identify
  rw [hname]

theorem identify_identify (path : Path) (h : Header) :
    identify path (identify path h) = identify path h := by
  unfold identify
  split
  · simp [Header.set, Header.setField_setField]
  · rfl

theorem filter_identify (path : Path) (h : Header) :
    (identify path h).fields.filter (fun f => f.1 != Header.idKey) =
      h.fields.filter fun f => f.1 != Header.idKey := by
  unfold identify
  split
  · exact Header.filter_setField ..
  · rfl

theorem readable_identify (path : Path) (hh : h.Readable) : (identify path h).Readable := by
  unfold identify
  split
  · next id hid =>
    exact hh.set isKey_idKey (isValue_of_digits (digits_of_isId (isId_of_fileId? hid)))
  · exact hh

/-! ## Reading -/

theorem readPage_eq_ok_iff : readPage t path = .ok p ↔
    ∃ text, t.readText path = .ok text ∧ Page.parse text = .ok p := by
  unfold readPage
  cases t.readText path with
  | error f => simp [ask, Except.mapError, bind, Except.bind]
  | ok text =>
    cases hp : Page.parse text with
    | error e => simp [ask, Except.mapError, bind, Except.bind, hp]
    | ok q => simp [ask, Except.mapError, bind, Except.bind, hp]

theorem readHeader_eq_ok_iff : readHeader t path = .ok h ↔
    ∃ p, readPage t path = .ok p ∧ h = identify path p.header := by
  unfold readHeader
  cases readPage t path with
  | error f => simp [Except.map]
  | ok p => simp [Except.map, eq_comm]

theorem readable_of_readPage (hp : readPage t path = .ok p) : p.header.Readable := by
  obtain ⟨text, -, hparse⟩ := readPage_eq_ok_iff.mp hp
  exact Page.readable_of_parse hparse

/-- A text that was read has no carriage return. -/
theorem no_return_of_readText {text : Text} (hr : t.readText path = .ok text) : '\r' ∉ text := by
  obtain ⟨l, c, hl, hn⟩ := Tree.node_of_readText hr
  rw [Tree.readText_of_resolve hl hn] at hr
  unfold Content.unified at hr
  cases hv : c.verbatim with
  | error e => rw [hv] at hr; cases hr
  | ok u =>
    rw [hv] at hr
    cases hr
    exact Text.no_return_unifyNewlines u

theorem no_return_of_readPage (hp : readPage t path = .ok p) : '\r' ∉ p.body := by
  obtain ⟨text, hr, hparse⟩ := readPage_eq_ok_iff.mp hp
  exact fun hc => no_return_of_readText hr (Page.mem_of_mem_body hparse hc (by decide))

/-! ## Writing -/

theorem excess?_eq_none_iff : h.excess? = none ↔
    ∀ e ∈ h.refs.entries, e.2.natAbs < 10 ^ Numeral.limit := by
  unfold Header.excess?
  rw [Option.map_eq_none_iff, List.find?_eq_none]
  simp [Numeral.ofInt?_eq]

theorem writePage_cases {r : Except Fault Unit} (hw : (writePage path p).run t = (r, t')) :
    (∃ e, r = .error e ∧ t' = t) ∨
      (r = .ok () ∧ p.header.excess? = none ∧ ∃ l, t.resolve path = .ok l ∧
        t.node? l ≠ some .folder ∧ t' = t.insert l (.file (.text p.render))) := by
  unfold writePage at hw
  split at hw
  · rw [Work.run_throw] at hw
    obtain ⟨rfl, rfl⟩ := Prod.mk.inj hw
    exact .inl ⟨_, rfl, rfl⟩
  · next hex =>
    rw [Work.run_change] at hw
    cases hwrite : t.write path p.render with
    | error f =>
      rw [hwrite] at hw
      obtain ⟨rfl, rfl⟩ := Prod.mk.inj hw
      exact .inl ⟨_, rfl, rfl⟩
    | ok t₁ =>
      rw [hwrite] at hw
      obtain ⟨rfl, rfl⟩ := Prod.mk.inj hw
      obtain ⟨l, hl, -, hfold, e⟩ := Tree.write_eq_ok hwrite
      exact .inr ⟨rfl, hex, l, hl, hfold, e⟩

/-- A page that was written is read, without blank lines at the start of its body. -/
theorem readPage_written {l : Location} (hl : t.resolve path = .ok l)
    (hfold : t.node? l ≠ some .folder) (hh : p.header.Readable) (hbody : '\r' ∉ p.body) :
    readPage (t.insert l (.file (.text p.render))) path =
      .ok ⟨p.header.settled, Page.settle p.body⟩ := by
  refine readPage_eq_ok_iff.mpr ⟨p.render, ?_, Page.parse_render hh p.body⟩
  rw [Tree.readText_insert hl hfold,
    Text.unifyNewlines_of_no_return (Page.no_return_render hh hbody)]

end Session

end Marginalia
