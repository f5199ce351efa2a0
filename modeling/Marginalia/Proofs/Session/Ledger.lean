import Marginalia.Proofs.Session.Layout
import Marginalia.Proofs.Session.Pages
import Marginalia.Summary.File

/-!
# A ledger of fragments

A ledger says of each id which file its fragment has, when it was made, its counts and its body.
`Ledger.Matches` ties it to a tree: every entry is shown by the record in its place, and no other
files are in the folder of sets but the cursor file and summaries. Then an id is located where the
ledger says (`Matches.locate`) and its record is read as its entry (`Matches.read`).
-/

namespace Marginalia

open Header (IsKey IsValue IsPath)
open Session (recordPlace)

/-! ## Ledgers -/

/-- What is known of a fragment. -/
structure Record where
  path : Path
  created : Text
  refs : Refs := {}
  body : Text := []
  deriving DecidableEq

def Ledger := Text → Option Record

namespace Ledger

def empty : Ledger := fun _ => none

def put (L : Ledger) (id : Text) (e : Record) : Ledger := fun k => if k = id then some e else L k

/-- The ledger with the entry of an id, if there is one, changed. -/
def update (L : Ledger) (id : Text) (f : Record → Record) : Ledger :=
  fun k => if k = id then (L k).map f else L k

@[simp] theorem update_self (L : Ledger) (id : Text) (f : Record → Record) :
    L.update id f id = (L id).map f := if_pos rfl

theorem update_of_ne (L : Ledger) {id k : Text} (f : Record → Record) (h : k ≠ id) :
    L.update id f k = L k := if_neg h

/-- Changing an entry is putting the changed one. -/
theorem put_eq_update {L : Ledger} {id : Text} {e : Record} (f : Record → Record)
    (he : L id = some e) : L.put id (f e) = L.update id f := by
  funext k
  unfold put update
  by_cases hk : k = id
  · rw [if_pos hk, if_pos hk, hk, he, Option.map_some]
  · rw [if_neg hk, if_neg hk]

theorem update_eq_self {L : Ledger} {id : Text} {f : Record → Record}
    (h : (L id).map f = L id) : L.update id f = L := by
  funext k
  by_cases hk : k = id
  · rw [hk, update_self, h]
  · rw [update_of_ne L f hk]

end Ledger

/-! ## Records that show an entry -/

/-- A label that is read as it was written. -/
structure IsLabel (label : Text) : Prop where
  not_empty : label ≠ []
  trimmed : Text.trim label = label
  oneLine : Text.OneLine label
  unquoted : ∀ c, label.head? = some c ∨ label.getLast? = some c → Header.isQuotationMark c = false

/-- The fields of a record. -/
def recordFields (label id created : Text) : List (Text × Text) :=
  [(Header.idKey, id), (Header.createdKey, created), (Header.categoryKey, label)]

/-- Whether the text of a record shows an entry. -/
structure Shows (label id : Text) (e : Record) (text : Text) : Prop where
  no_return : '\r' ∉ text
  settled : Page.settle e.body = e.body
  parse : ∃ place, Page.parse text =
    .ok ⟨⟨recordFields label id e.created, e.refs, place⟩, e.body⟩

/-- The text that is written for an entry shows it, with the body as it is read. -/
theorem Shows.of_render {label id : Text} {e : Record} {h : Header} (hh : h.Readable)
    (hfields : h.fields = recordFields label id e.created) {body : Text} (hbody : '\r' ∉ body) :
    Shows label id { e with refs := h.refs, body := Page.settle body } (Page.render ⟨h, body⟩) where
  no_return := Page.no_return_render hh hbody
  settled := Page.settle_settle body
  parse := by
    refine ⟨h.settled.refsPlace, ?_⟩
    rw [Page.parse_render hh, ← hfields]
    rfl

/-- The folder of sets that the settings name unless they are changed. -/
def Path.home (root : Path) : Path := root.child ".cms".toList

/-- Where the record of an id is in a set. -/
def Path.record (root : Path) (set : Name) (id : Text) : Path :=
  (root.home.child set).child (id ++ ending)

/-- Whether a location below the folder of sets is that of the cursor file or of a summary. -/
def IsSpare (rest : List Name) : Prop :=
  rest = [Session.cursorName] ∨ ∃ set, ∃ f : SummaryFormat, rest = [set, f.fileName]

/-- Whether a location below the folder of sets may be a file. -/
def IsKept (L : Ledger) (root : Path) (rest : List Name) : Prop :=
  IsSpare rest ∨
    ∃ set id e, rest = [set, id ++ ending] ∧ L id = some e ∧ e.path = root.record set id

structure Ledger.Matches (label : Text) (root : Path) (t : Tree) (L : Ledger) : Prop where
  wellFormed : t.WellFormed
  reach : t.resolve root = .ok (lead [] root.parts)
  records : ∀ id e, L id = some e → isId id = true ∧ ∃ set text, e.path = root.record set id ∧
    t.node? (recordPlace root.home set id) = some (.file (.text text)) ∧
      Shows label id e text
  only : ∀ rest c, t.node? (lead [] root.home.parts ++ rest) = some (.file c) → IsKept L root rest

/-- A session on a workspace with the folder of sets that the settings name unless they are
changed, and an active set that is one. -/
structure Session.Serves (s : Session) (root : Path) (config : Config) : Prop where
  folder : config.folder = ".cms".toList
  set : IsSetName s.activeSet
  config : s.config = config
  root : s.root = some root

/-! ## Names of files -/

theorem fileId?_cursorName : fileId? Session.cursorName = none := by decide

theorem fileId?_summary (f : SummaryFormat) : fileId? f.fileName = none := by cases f <;> decide

theorem not_isSpare {set : Name} {id : Text} (hid : isId id = true) :
    ¬IsSpare [set, id ++ ending] := by
  rintro (h | ⟨set', f, h⟩)
  · cases h
  · have hname : id ++ ending = f.fileName := (List.cons.inj (List.cons.inj h).2).1
    have := fileId?_ending hid
    rw [hname, fileId?_summary] at this
    cases this

theorem IsKept.record {L : Ledger} {root : Path} {set : Name} {id : Text} (hid : isId id = true)
    (h : IsKept L root [set, id ++ ending]) : ∃ e, L id = some e ∧ e.path = root.record set id := by
  rcases h with h | ⟨set', id', e, h, he, hpath⟩
  · exact absurd h (not_isSpare hid)
  · obtain ⟨rfl, hname⟩ := List.cons.inj h
    obtain rfl : id = id' := List.append_cancel_right (List.singleton_inj.mp hname)
    exact ⟨e, he, hpath⟩

theorem not_isKept_flat {L : Ledger} {root : Path} {id : Text} (hid : isId id = true) :
    ¬IsKept L root [id ++ ending] := by
  rintro ((h | ⟨set, f, h⟩) | ⟨set, id', e, h, -, -⟩)
  · have := fileId?_ending hid
    rw [List.singleton_inj.mp h, fileId?_cursorName] at this
    cases this
  · cases h
  · cases h

/-! ## Fields of records -/

theorem identify_recordFields {label id created : Text} {root : Path} {set : Name}
    (hid : isId id = true) (refs : Refs) (place : Option Int) :
    Session.identify (root.record set id) ⟨recordFields label id created, refs, place⟩ =
      ⟨recordFields label id created, refs, place⟩ := by
  have hname : fileId? (root.record set id).name = some id := by
    rw [Path.record, Path.name, Path.child_parts, List.getLast?_concat]
    exact fileId?_ending hid
  rw [Session.identify, hname]
  rfl

theorem category_recordFields {label : Text} (hlabel : IsLabel label) (id created fallback : Text)
    (refs : Refs) (place : Option Int) :
    Header.category ⟨recordFields label id created, refs, place⟩ fallback = label := by
  have hget : Header.get? ⟨recordFields label id created, refs, place⟩ Header.categoryKey =
      some label := rfl
  have hquotes : Text.dropEndsWhile Header.isQuotationMark label = label :=
    Text.dropEndsWhile_eq_self_iff.mpr
      ⟨fun c hc => hlabel.unquoted c (.inl hc), fun c hc => hlabel.unquoted c (.inr hc)⟩
  have hfeed : label.contains '\n' = false := by simpa using hlabel.oneLine.no_newline
  have hempty : label.isEmpty = false := by simpa using hlabel.not_empty
  simp only [Header.category, hget, Option.getD_some, hlabel.trimmed, hquotes, hfeed, hempty,
    Bool.or_self, Bool.false_eq_true, if_false]

/-! ## Where the ledger says -/

section Located

variable {label : Text} {root : Path} {t : Tree} {L : Ledger} {s : Session} {config : Config}

theorem lead_home (root : Path) : lead [] root.home.parts = lead [] root.parts ++ [".cms".toList] :=
  lead_child root (by decide)

theorem recordPlace_eq {root : Path} {set : Name} (hset : set ≠ Path.above) (id : Text) :
    recordPlace root.home set id = lead [] (root.record set id).parts := by
  rw [Path.record, lead_child _ (ending_ne_above id), lead_child _ hset]
  simp [recordPlace]

namespace Session.Serves

theorem folder? (hs : s.Serves root config) : s.folder? = some root.home := by
  have hjoin : root.join (Path.ofText config.folder) = root.home := by
    rw [hs.folder]
    exact root.join_name (by decide) (by decide) (by decide)
  simp [Session.folder?, hs.root, hs.config, hjoin]

end Session.Serves

namespace Ledger.Matches

/-- The folder of sets is reached when it is there. -/
theorem resolve_home (h : L.Matches label root t) (hfits : Tree.Fits root.home 512)
    (hn : t.node? (lead [] root.home.parts) = some .folder) :
    t.resolve root.home = .ok (lead [] root.home.parts) := by
  obtain ⟨-, -, hfollow⟩ := Tree.resolve_eq_ok_iff.mp h.reach
  have hfold : t.node? (lead [] root.parts) = some .folder := by
    rw [lead_home] at hn
    simpa using h.wellFormed.folder_above hn
  refine Tree.resolve_eq_ok_iff.mpr ⟨hfits.no_nul, ?_, ?_⟩
  · have := hfits.short
    omega
  · rw [lead_home, Path.home, Path.child_parts, Tree.follow_append, hfollow]
    exact Tree.follow_single hfold (by decide)

/-- The folders above a record, and how it is reached. -/
theorem resolve_record (h : L.Matches label root t) (hfits : Tree.Fits root.home 512)
    {set : Name} {id : Text} {n : Node} (hid : isId id = true)
    (hn : t.node? (recordPlace root.home set id) = some n) :
    t.node? (lead [] root.home.parts) = some .folder ∧
      t.node? (lead [] root.home.parts ++ [set]) = some .folder ∧ Tree.IsName set ∧
      t.resolve (root.record set id) = .ok (recordPlace root.home set id) := by
  have hassoc : recordPlace root.home set id =
      lead [] root.home.parts ++ [set] ++ [id ++ ending] := by simp [recordPlace]
  rw [hassoc] at hn ⊢
  have hset : t.node? (lead [] root.home.parts ++ [set]) = some .folder := by
    simpa using h.wellFormed.folder_above hn
  have hhome : t.node? (lead [] root.home.parts) = some .folder := by
    simpa using h.wellFormed.folder_above hset
  have hname := (h.wellFormed.canHold hset).isName
  refine ⟨hhome, hset, hname, ?_⟩
  have hr := hfits.resolve_inside hname (h.resolve_home hfits hhome) hhome
  exact (hfits.inside hname).resolve_record hid hr hset

/-- The folder of sets is reached when a session finds it. -/
theorem home_of_isFolder (h : t.isFolder root.home = .ok true) :
    t.resolve root.home = .ok (lead [] root.home.parts) ∧
      t.node? (lead [] root.home.parts) = some .folder := by
  obtain ⟨l, hr, hl⟩ := Tree.isFolder_eq_true_iff.mp h
  obtain rfl := Tree.resolve_eq_lead hr
  exact ⟨hr, hl⟩

theorem locate (h : L.Matches label root t) (hfits : Tree.Fits root.home 512)
    (hs : s.folder? = some root.home) {id : Text} (hid : isId id = true) :
    s.locate t id = .ok ((L id).map Record.path) := by
  obtain ⟨b, hb⟩ := Session.hasFragment_total h.wellFormed hs (hfits.mono (by decide)) hid
  obtain ⟨p, hp, hsome⟩ := Session.hasFragment_eq_ok_iff.mp hb
  cases p with
  | none =>
    cases hL : L id with
    | none => exact hp
    | some e =>
      obtain ⟨-, set, text, -, hn, -⟩ := h.records id e hL
      obtain ⟨hhome, -⟩ := h.resolve_record hfits hid hn
      subst hsome
      exact absurd hn ((Session.no_file_of_hasFragment h.wellFormed hs (h.resolve_home hfits hhome)
        hhome (digits_of_isId hid) hb _).2 set)
  | some q =>
    subst hsome
    obtain ⟨hr, hl⟩ := home_of_isFolder (Session.folder_of_hasFragment hs hb)
    obtain ⟨folders, hfolders, hfirst⟩ := Session.locate_eq_ok hp
    obtain rfl := Session.fragmentFolders_eq_ok h.wellFormed hs hr hl hfolders
    obtain ⟨f, hf, rfl, hfile⟩ := Session.firstWith_some hfirst
    obtain ⟨k, c, hk, hn⟩ := Tree.isFile_eq_true_iff.mp hfile
    have hlead := Tree.resolve_eq_lead hk
    rw [f.fragment_eq_child (digits_of_isId hid), lead_child _ (ending_ne_above id)] at hlead
    rcases List.mem_cons.mp hf with rfl | hf
    · rw [hlead] at hn
      exact absurd (h.only _ c hn) (not_isKept_flat hid)
    · obtain ⟨set, hset, rfl⟩ := List.mem_map.mp hf
      have hname := (h.wellFormed.canHold (h.wellFormed.mem_folderNames.mp hset)).isName
      rw [lead_child _ hname.not_above, List.append_assoc] at hlead
      rw [hlead] at hn
      obtain ⟨e, he, hpath⟩ := (h.only _ c hn).record hid
      rw [hp, he, Path.fragment_eq_child _ (digits_of_isId hid), Option.map_some, hpath]
      rfl

theorem readPage (h : L.Matches label root t) (hfits : Tree.Fits root.home 512) {id : Text}
    {e : Record} (he : L id = some e) : ∃ place, Session.readPage t e.path =
      .ok ⟨⟨recordFields label id e.created, e.refs, place⟩, e.body⟩ := by
  obtain ⟨hid, set, text, hpath, hn, hshow⟩ := h.records id e he
  obtain ⟨-, -, -, hr⟩ := h.resolve_record hfits hid hn
  obtain ⟨place, hparse⟩ := hshow.parse
  refine ⟨place, Session.readPage_eq_ok_iff.mpr ⟨text, ?_, hparse⟩⟩
  have hunified : (Content.text text).unified = .ok text := by
    rw [Content.unified]
    show Except.ok (Text.unifyNewlines text) = _
    rw [Text.unifyNewlines_of_no_return hshow.no_return]
  rw [hpath, Tree.readText_of_resolve hr hn, hunified]
  rfl

theorem fileId?_path (h : L.Matches label root t) {id : Text} {e : Record} (he : L id = some e) :
    fileId? e.path.name = some id := by
  obtain ⟨hid, set, text, hpath, -, -⟩ := h.records id e he
  rw [hpath, Path.record, Path.name, Path.child_parts, List.getLast?_concat]
  exact fileId?_ending hid

/-- A record is read as its entry in the ledger. -/
theorem read (h : L.Matches label root t) (hfits : Tree.Fits root.home 512)
    (hlabel : IsLabel label) {id : Text} {e : Record} (he : L id = some e) :
    ∃ f, s.read t e.path = .ok f ∧ f.id = id ∧ f.path = e.path ∧ f.created = some e.created ∧
      f.category = label ∧ f.refs = e.refs ∧ f.body = e.body := by
  obtain ⟨place, hpage⟩ := h.readPage hfits he
  refine ⟨_, by rw [Session.read, hpage]; rfl, ?_, rfl, rfl, ?_, rfl, rfl⟩
  · simp [Session.recordId, h.fileId?_path he]
  · exact category_recordFields hlabel ..

/-! ## What keeps a ledger -/

/-- Whatever happens besides to the cursor file, to summaries and by making folders keeps the
ledger. -/
theorem frame (h : L.Matches label root t) {t' : Tree} (hw : t'.WellFormed)
    (hreach : t'.resolve root = .ok (lead [] root.parts))
    (hsame : ∀ rest, t'.node? (lead [] root.home.parts ++ rest) =
        t.node? (lead [] root.home.parts ++ rest) ∨ IsSpare rest ∨
      (t.node? (lead [] root.home.parts ++ rest) = none ∧
        t'.node? (lead [] root.home.parts ++ rest) = some .folder)) :
    L.Matches label root t' where
  wellFormed := hw
  reach := hreach
  records id e he := by
    obtain ⟨hid, set, text, hpath, hn, hshow⟩ := h.records id e he
    refine ⟨hid, set, text, hpath, ?_, hshow⟩
    rcases hsame [set, id ++ ending] with hs | hs | ⟨hs, -⟩
    · exact hs.trans hn
    · exact absurd hs (not_isSpare hid)
    · rw [recordPlace, hs] at hn
      cases hn
  only rest c hc := by
    rcases hsame rest with hs | hs | ⟨-, hs⟩
    · exact h.only rest c (hs.symm.trans hc)
    · exact .inl hs
    · rw [hs] at hc
      cases hc

theorem more (h : L.Matches label root t) {t' : Tree} (hw : t'.WellFormed)
    (hmore : Tree.MoreFolders t t') : L.Matches label root t' :=
  h.frame hw (hmore.extends.foldersStay.resolve h.reach) fun _ =>
    (hmore _).imp_right .inr

/-- A record put in its place enters the ledger. -/
theorem put (h : L.Matches label root t) {id : Text} {set : Name} {e : Record} {text : Text}
    (hid : isId id = true) (hold : t.CanHold (recordPlace root.home set id))
    (hfree : t.node? (recordPlace root.home set id) ≠ some .folder)
    (hpath : e.path = root.record set id) (hsame : ∀ e₀, L id = some e₀ → e₀.path = e.path)
    (hshow : Shows label id e text) :
    (L.put id e).Matches label root
      (t.insert (recordPlace root.home set id) (.file (.text text))) where
  wellFormed :=
    h.wellFormed.insert (by simp [recordPlace]) hold fun hf => absurd hf hfree
  reach := (Tree.foldersStay_insert t _ hfree).resolve h.reach
  records id' e' he' := by
    by_cases hi : id' = id
    · subst hi
      rw [Ledger.put, if_pos rfl] at he'
      cases he'
      exact ⟨hid, set, text, hpath, Tree.node?_insert_self t (by simp [recordPlace]) _, hshow⟩
    · rw [Ledger.put, if_neg hi] at he'
      obtain ⟨hid', set', text', hpath', hn, hshow'⟩ := h.records id' e' he'
      refine ⟨hid', set', text', hpath', ?_, hshow'⟩
      rw [Tree.node?_insert_of_ne, hn]
      intro e
      have := (List.cons.inj (List.cons.inj (List.append_cancel_left e)).2).1
      exact hi (List.append_cancel_right this)
  only rest c hc := by
    by_cases hr : rest = [set, id ++ ending]
    · exact .inr ⟨set, id, e, hr, by rw [Ledger.put, if_pos rfl], hpath⟩
    · have hne : lead [] root.home.parts ++ rest ≠ recordPlace root.home set id :=
        fun e => hr (List.append_cancel_left e)
      rw [Tree.node?_insert_of_ne t hne] at hc
      rcases h.only rest c hc with hs | ⟨set', id', e', hr', he', hpath'⟩
      · exact .inl hs
      · right
        by_cases hi : id' = id
        · subst hi
          refine ⟨set', id', e, hr', by rw [Ledger.put, if_pos rfl], ?_⟩
          rw [← hsame e' he', hpath']
        · exact ⟨set', id', e', hr', by rw [Ledger.put, if_neg hi, he'], hpath'⟩

end Ledger.Matches

end Located

end Marginalia
