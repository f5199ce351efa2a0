import Marginalia.Session.Counts
import Marginalia.Proofs.Disk.Content
import Marginalia.Proofs.Disk.Path
import Marginalia.Proofs.Disk.Resolve
import Marginalia.Proofs.Marker.Return
import Mathlib.Data.Char
import Mathlib.Data.List.Lex

/-!
# What the full scan finds

The occurrences below a root are the lines with a bound marker of the files that can be scanned
(`mem_occurrences`), each of them once and in ascending order (`ascending_occurrences`). Whether a
file can be scanned is said by the names of the folders above it and by its bytes (`Scannable`). The
scan gives them when its walk comes to an end and fails otherwise (`scan_eq`, `scan_error`).
-/

namespace Marginalia

namespace Occurrence

/-- The order of occurrences: by file, and in a file by line. -/
def Before (a b : Occurrence) : Prop := a.file < b.file ∨ a.file = b.file ∧ a.line < b.line

instance (a b : Occurrence) : Decidable (a.Before b) :=
  inferInstanceAs (Decidable (a.file < b.file ∨ a.file = b.file ∧ a.line < b.line))

/-- Whether two occurrences are at one place. -/
def SamePlace (a b : Occurrence) : Prop := a.file = b.file ∧ a.line = b.line

theorem before_eq_true_iff {a b : Occurrence} :
    before a b = true ↔ a.file < b.file ∨ a.file = b.file ∧ a.line ≤ b.line := by
  simp [before]

theorem before_trans (a b c : Occurrence) (hab : before a b = true) (hbc : before b c = true) :
    before a c = true := by
  rw [before_eq_true_iff] at hab hbc ⊢
  rcases hab with hab | ⟨hab, hl⟩
  · rcases hbc with hbc | ⟨hbc, -⟩
    · exact .inl (lt_trans hab hbc)
    · exact .inl (hbc ▸ hab)
  · rcases hbc with hbc | ⟨hbc, hl'⟩
    · exact .inl (hab ▸ hbc)
    · exact .inr ⟨hab.trans hbc, le_trans hl hl'⟩

theorem before_total (a b : Occurrence) : (before a b || before b a) = true := by
  rw [Bool.or_eq_true, before_eq_true_iff, before_eq_true_iff]
  rcases lt_trichotomy a.file b.file with h | h | h
  · exact .inl (.inl h)
  · rcases le_total a.line b.line with hl | hl
    · exact .inl (.inr ⟨h, hl⟩)
    · exact .inr (.inr ⟨h.symm, hl⟩)
  · exact .inr (.inl h)

theorem before_of_ne {a b : Occurrence} (h : before a b = true) (hne : ¬SamePlace a b) :
    Before a b := by
  rcases before_eq_true_iff.mp h with h | ⟨h, hl⟩
  · exact .inl h
  · exact .inr ⟨h, lt_of_le_of_ne hl fun e => hne ⟨h, e⟩⟩

theorem Before.asymm {a b : Occurrence} (h : Before a b) : ¬Before b a := by
  intro h'
  rcases h with h | ⟨e, h⟩
  · rcases h' with h' | ⟨e', -⟩
    · exact absurd h' (lt_asymm h)
    · exact absurd h (by rw [e']; exact lt_irrefl _)
  · rcases h' with h' | ⟨-, h'⟩
    · exact absurd h' (by rw [e]; exact lt_irrefl _)
    · exact absurd h' (lt_asymm h)

theorem SamePlace.symm {a b : Occurrence} (h : SamePlace a b) : SamePlace b a :=
  ⟨h.1.symm, h.2.symm⟩

/-- Whether occurrences are at different places does not depend on their order. -/
theorem differ_perm {os os' : List Occurrence} (h : os.Perm os') :
    (os.Pairwise fun a b => ¬SamePlace a b) ↔ os'.Pairwise fun a b => ¬SamePlace a b :=
  h.pairwise_iff fun hab hba => hab hba.symm

/-- Sorted occurrences at different places ascend. -/
theorem ascending_of_sorted {os : List Occurrence}
    (h : os.Pairwise fun a b => before a b = true) (hne : os.Pairwise fun a b => ¬SamePlace a b) :
    os.Pairwise Before :=
  h.imp₂ (fun _ _ => before_of_ne) hne

theorem nodup_of_ascending {os : List Occurrence} (h : os.Pairwise Before) : os.Nodup :=
  h.imp fun hab e => (e ▸ hab).asymm (e ▸ hab)

/-- An ascending list is told by its members. -/
theorem eq_of_ascending {os os' : List Occurrence} (h : os.Pairwise Before)
    (h' : os'.Pairwise Before) (hmem : ∀ o, o ∈ os ↔ o ∈ os') : os = os' := by
  have hperm := (List.perm_ext_iff_of_nodup (nodup_of_ascending h) (nodup_of_ascending h')).mpr hmem
  refine hperm.eq_of_pairwise ?_ h h'
  exact fun a b _ _ hab hba => absurd hba hab.asymm

/-! ## One text -/

/-- The occurrences in a text are its lines with a bound marker, by their numbers. -/
theorem mem_ofText {file : Text} {path : Path} {s : Text} {o : Occurrence} :
    o ∈ ofText file path s ↔ ∃ (k : Nat) (line : Text), (Text.atNewlines s)[k]? = some line ∧
      (Marker.scan 0 line).bind Marker.id? = some o.id ∧
      o = { file, line := (k : Int) + 1, id := o.id, path } := by
  have hscan : ∀ line (k : Nat), (Marker.scan k (Text.dropReturn line)).bind Marker.id? =
      (Marker.scan 0 line).bind Marker.id? := by
    intro line k
    rw [Marker.scan_dropReturn, Marker.scan_number k line]
    cases Marker.scan 0 line <;> rfl
  unfold ofText Text.editorLines
  rw [List.zipIdx_map, List.filterMap_map, List.mem_filterMap]
  simp only [Function.comp_apply, Prod.map, id_eq, hscan, Option.map_eq_some_iff]
  constructor
  · rintro ⟨⟨line, k⟩, hk, id, hid, rfl⟩
    exact ⟨k, line, List.mem_zipIdx_iff_getElem?.mp hk, hid, rfl⟩
  · rintro ⟨k, line, hk, hid, ho⟩
    exact ⟨(line, k), List.mem_zipIdx_iff_getElem?.mpr hk, o.id, hid, ho.symm⟩

theorem map_id_ofText (file : Text) (path : Path) (s : Text) :
    (ofText file path s).map (·.id) = Session.boundIds s := by
  unfold ofText Session.boundIds Marker.scanText
  rw [List.map_filterMap, List.filterMap_filterMap]
  refine List.filterMap_congr fun ⟨line, number⟩ _ => ?_
  show Option.map _ (Option.map _ ((Marker.scan number line).bind Marker.id?)) = _
  rw [Option.map_map]
  exact Option.map_id' ..

theorem file_of_mem_ofText {file : Text} {path : Path} {s : Text} {o : Occurrence}
    (h : o ∈ ofText file path s) : o.file = file := by
  obtain ⟨k, line, -, -, ho⟩ := mem_ofText.mp h
  rw [ho]

theorem ascending_ofText (file : Text) (path : Path) (s : Text) :
    (ofText file path s).Pairwise Before := by
  have hnumbers : (Text.editorLines s).zipIdx.Pairwise fun a b => a.2 < b.2 := by
    rw [← List.pairwise_map, List.zipIdx_map_snd]
    exact List.pairwise_lt_range'
  refine List.Pairwise.filterMap _ ?_ hnumbers
  rintro ⟨l, k⟩ ⟨l', k'⟩ hlt o ho o' ho'
  obtain ⟨id, -, rfl⟩ := Option.map_eq_some_iff.mp ho
  obtain ⟨id', -, rfl⟩ := Option.map_eq_some_iff.mp ho'
  refine .inr ⟨rfl, ?_⟩
  have : k < k' := hlt
  show (k : Int) + 1 < (k' : Int) + 1
  omega

end Occurrence

namespace Session

variable {s : Session} {t : Tree} {root : Path}

/-- A file that the full scan reads, at a location below the root, and its text: no folder above it
is excluded or has the name of the folder of sets, the path of the folder it is in is not too long,
no NUL is among its first bytes, and its bytes are those of the text. -/
structure Scannable (s : Session) (t : Tree) (root : Path) (l : Location) (text : Text) : Prop where
  below : l ≠ []
  allowed : ∀ n ∈ l.dropLast, n ∉ s.config.excluded ∧ n ≠ (Path.ofText s.config.folder).name
  entered : Tree.isEntered root l = true
  there : t.resolve root = .ok (lead [] root.parts)
  file : ∃ c, t.node? (lead [] root.parts ++ l) = some (.file c) ∧
    0 ∉ c.bytes.take Content.sniffed ∧ c.bytes = Utf8.encode text

theorem Scannable.text_unique {l : Location} {text text' : Text} (h : s.Scannable t root l text)
    (h' : s.Scannable t root l text') : text = text' := by
  obtain ⟨c, hc, -, hbytes⟩ := h.file
  obtain ⟨c', hc', -, hbytes'⟩ := h'.file
  rw [hc] at hc'
  cases hc'
  exact Utf8.encode_injective (hbytes.symm.trans hbytes')

/-- A line of a scanned file whose marker is bound to an id. Lines are cut at line feeds and count
from one. -/
def Finds (s : Session) (t : Tree) (root : Path) (id : Text) (o : Occurrence) : Prop :=
  ∃ (l : Location) (text : Text) (k : Nat) (line : Text), s.Scannable t root l text ∧
    (Text.atNewlines text)[k]? = some line ∧ (Marker.scan 0 line).bind Marker.id? = some id ∧
    o = { file := Path.relativeText l, line := (k : Int) + 1, id, path := root.under l }

theorem mem_unscanned {n : Name} : n ∉ s.unscanned ↔
    n ∉ s.config.excluded ∧ n ≠ (Path.ofText s.config.folder).name := by
  simp [unscanned]

theorem Scannable.walked {l : Location} {text : Text} (h : s.Scannable t root l text)
    (base : Location) : Tree.isWalked base s.unscanned (base ++ l) = true :=
  Tree.isWalked_eq_true_iff.mpr ⟨l, rfl, h.below, fun n hn => mem_unscanned.mpr (h.allowed n hn)⟩

/-- What lies below the names of the folder of sets is left out. -/
theorem isWalked_folder (hne : (Path.ofText s.config.folder).parts ≠ []) {base rest : Location}
    (hrest : rest ≠ []) : Tree.isWalked base s.unscanned
      (base ++ ((Path.ofText s.config.folder).parts ++ rest)) = false := by
  rw [Bool.eq_false_iff]
  intro hwalked
  obtain ⟨l, hl, -, hentered⟩ := Tree.isWalked_eq_true_iff.mp hwalked
  rw [← List.append_cancel_left hl, List.dropLast_append_of_ne_nil hrest] at hentered
  refine (mem_unscanned.mp (hentered _ (List.mem_append_left _ (List.getLast_mem hne)))).2 ?_
  rw [Path.name, List.getLast?_eq_some_getLast hne, Option.getD_some]

/-- Whether the scan leaves out all that is in the folder of sets. -/
def Hidden (s : Session) (root home : Path) : Prop :=
  ∀ rest, rest ≠ [] →
    Tree.isWalked (lead [] root.parts) s.unscanned (lead [] home.parts ++ rest) = false

/-- It does when the folder of sets is given by names from the root down. -/
theorem hidden_of_plain (hrelative : (Path.ofText s.config.folder).isAbsolute = false)
    (hne : (Path.ofText s.config.folder).parts ≠ [])
    (hplain : Path.above ∉ (Path.ofText s.config.folder).parts) :
    s.Hidden root (root.join (Path.ofText s.config.folder)) := by
  intro rest hrest
  rw [Path.join, hrelative, if_neg Bool.false_ne_true, lead_append, lead_of_plain hplain,
    List.append_assoc]
  exact isWalked_folder hne hrest

theorem scannable_iff (hw : t.WellFormed) {l : Location} {text : Text} :
    s.Scannable t root l text ↔
      ∃ f ∈ t.reached root s.unscanned, f.location = l ∧ f.content.scannable? = some text := by
  constructor
  · rintro ⟨hne, hfree, hentered, hthere, c, hc, hbinary, hbytes⟩
    refine ⟨⟨l, c⟩, hw.mem_reached.mpr
      ⟨_, hthere, hc, hne, fun n hn => mem_unscanned.mpr (hfree n hn), hentered⟩, rfl, ?_⟩
    exact Content.scannable?_eq_some_iff.mpr ⟨hbinary, hbytes⟩
  · rintro ⟨⟨_, c⟩, hf, rfl, hc⟩
    obtain ⟨base, hbase, hnode, hne, hfree, hentered⟩ := hw.mem_reached.mp hf
    obtain rfl := Tree.resolve_eq_lead hbase
    exact ⟨hne, fun n hn => mem_unscanned.mp (hfree n hn), hentered, hbase, c, hnode,
      Content.scannable?_eq_some_iff.mp hc⟩

theorem mem_ofFound {f : Tree.Found} {o : Occurrence} : o ∈ Occurrence.ofFound root f ↔
    ∃ text, f.content.scannable? = some text ∧
      o ∈ Occurrence.ofText f.path (root.under f.location) text := by
  unfold Occurrence.ofFound
  cases f.content.scannable? <;> simp

theorem file_of_mem_ofFound {f : Tree.Found} {o : Occurrence} (h : o ∈ Occurrence.ofFound root f) :
    o.file = f.path := by
  obtain ⟨text, -, ho⟩ := mem_ofFound.mp h
  exact Occurrence.file_of_mem_ofText ho

/-- The occurrences in files, as they come from the walk, are at different places. -/
theorem places_differ (hw : t.WellFormed) (hs : t.PlainWalk root s.unscanned) :
    ((t.reached root s.unscanned).flatMap (Occurrence.ofFound root)).Pairwise
      fun a b => ¬Occurrence.SamePlace a b := by
  rw [List.pairwise_flatMap]
  constructor
  · intro f hf
    unfold Occurrence.ofFound
    split
    · exact List.Pairwise.nil
    · refine (Occurrence.ascending_ofText _ _ _).imp fun {a b} h => ?_
      rintro ⟨hfile, hline⟩
      rcases h with h | ⟨-, h⟩
      · exact absurd hfile (ne_of_lt h)
      · exact absurd hline (ne_of_lt h)
  · refine List.Pairwise.imp_of_mem ?_ hw.nodup_reached
    rintro f f' hf hf' hne a ha b hb ⟨hfile, -⟩
    rw [file_of_mem_ofFound ha, file_of_mem_ofFound hb] at hfile
    exact hne (hw.found_eq_of_path hs hf hf' hfile)

/-- The occurrences in the files that the full scan comes to. -/
def occurrences (s : Session) (t : Tree) (root : Path) : List Occurrence :=
  Occurrence.ofFiles root (t.reached root s.unscanned)

theorem mem_occurrences (hw : t.WellFormed) {o : Occurrence} :
    o ∈ s.occurrences t root ↔ s.Finds t root o.id o := by
  unfold occurrences Occurrence.ofFiles
  rw [List.mem_mergeSort, List.mem_flatMap]
  simp only [mem_ofFound, Occurrence.mem_ofText]
  constructor
  · rintro ⟨f, hf, text, htext, k, line, hk, hid, ho⟩
    exact ⟨f.location, text, k, line, (scannable_iff hw).mpr ⟨f, hf, rfl, htext⟩, hk, hid, ho⟩
  · rintro ⟨l, text, k, line, hl, hk, hid, ho⟩
    obtain ⟨f, hf, rfl, htext⟩ := (scannable_iff hw).mp hl
    exact ⟨f, hf, text, htext, k, line, hk, hid, ho⟩

theorem sorted_occurrences (s : Session) (t : Tree) (root : Path) :
    (s.occurrences t root).Pairwise fun a b => Occurrence.before a b = true :=
  List.pairwise_mergeSort Occurrence.before_trans Occurrence.before_total _

theorem ascending_of_plainWalk (hw : t.WellFormed) (hs : t.PlainWalk root s.unscanned) :
    (s.occurrences t root).Pairwise Occurrence.Before := by
  refine Occurrence.ascending_of_sorted (s.sorted_occurrences t root) ?_
  exact (Occurrence.differ_perm (List.mergeSort_perm _ _)).mpr (places_differ hw hs)

theorem ascending_occurrences (hw : t.WellFormed) (hs : t.NoSlash) :
    (s.occurrences t root).Pairwise Occurrence.Before :=
  ascending_of_plainWalk hw (hs.plainWalk hw)

/-- Whether the walk of a full scan comes to its end. -/
def Walkable (s : Session) (t : Tree) (root : Path) : Prop :=
  t.Walkable scanLevels root s.unscanned

theorem scan_eq (hw : t.WellFormed) (hroot : s.root = some root) (hp : s.Walkable t root)
    (ids : List Text) : s.scan t ids =
      .ok (ids.eraseDups.map fun id => (id, (s.occurrences t root).filter (·.id == id))) := by
  cases ids with
  | nil => rfl
  | cons id ids =>
    simp only [scan, requireRoot, hroot, ask, bind, Except.bind, hw.files_walk hp]
    rfl

/-- Without ids the scan does not walk. -/
theorem scan_error (hw : t.WellFormed) (hroot : s.root = some root) (hp : ¬s.Walkable t root)
    {ids : List Text} (hids : ids ≠ []) : ∃ e, s.scan t ids = .error (.disk e) := by
  obtain ⟨e, he⟩ := hw.files_walk_of_not hp
  cases ids with
  | nil => exact absurd rfl hids
  | cons id ids =>
    refine ⟨e, ?_⟩
    simp only [scan, requireRoot, hroot, ask, bind, Except.bind, he]
    rfl

theorem findReferences_eq (hw : t.WellFormed) (hroot : s.root = some root)
    (hp : s.Walkable t root) (id : Text) :
    s.findReferences t id = .ok ((s.occurrences t root).filter (·.id == id)) := by
  simp [findReferences, scan_eq hw hroot hp, Except.map, List.eraseDups_cons]

theorem findReferences_error (hw : t.WellFormed) (hroot : s.root = some root)
    (hp : ¬s.Walkable t root) (id : Text) : ∃ e, s.findReferences t id = .error (.disk e) := by
  obtain ⟨e, he⟩ := scan_error hw hroot hp (List.cons_ne_nil id [])
  exact ⟨e, by rw [findReferences, he]; rfl⟩

theorem isId_of_mem_boundIds {id text : Text} (h : id ∈ boundIds text) : isId id = true := by
  obtain ⟨m, hm, hid⟩ := List.mem_filterMap.mp h
  obtain ⟨⟨line, number⟩, -, hscan⟩ := List.mem_filterMap.mp hm
  obtain ⟨b, hb, rfl⟩ := Option.map_eq_some_iff.mp hid
  exact Marker.isId_of_scan hscan hb

end Session

end Marginalia
