import Marginalia.Proofs.Disk.Kinds
import Marginalia.Proofs.Session.Pages

/-!
# Places of fragments

Where fragments are found does not depend on what files hold: trees with the same folders and files
give the same fragment files (`fragmentPaths_eq`) and locate every id alike (`locate_eq`). The file
of a located id has the id's name and is one of the fragment files (`place?_spec`), so different ids
are at different places (`place?_inj`).
-/

namespace Marginalia.Session

open Marginalia.Tree (SameKinds)

variable {s : Session} {t u : Tree}

/-! ## Trees of the same kinds -/

theorem setNames_eq (h : SameKinds t u) (ht : t.WellFormed) (hu : u.WellFormed) :
    s.setNames u = s.setNames t := by
  unfold setNames
  simp only [h.isFolder_eq, h.foldersIn_eq ht hu]

theorem fragmentFolders_eq (h : SameKinds t u) (ht : t.WellFormed) (hu : u.WellFormed) :
    s.fragmentFolders u = s.fragmentFolders t := by
  unfold fragmentFolders
  simp only [setNames_eq h ht hu, h.isFolder_eq]

theorem firstWith_eq (h : SameKinds t u) (id : Text) (folders : List Path) :
    firstWith u id folders = firstWith t id folders := by
  induction folders with
  | nil => rfl
  | cons folder folders ih => simp only [firstWith, h.isFile_eq, ih]

theorem locate_eq (h : SameKinds t u) (ht : t.WellFormed) (hu : u.WellFormed) (id : Text) :
    s.locate u id = s.locate t id := by
  unfold locate
  simp only [fragmentFolders_eq h ht hu, firstWith_eq h]

theorem fragmentsIn_eq (h : SameKinds t u) (ht : t.WellFormed) (hu : u.WellFormed) (folder : Path) :
    fragmentsIn u folder = fragmentsIn t folder := by
  rw [fragmentsIn, fragmentsIn, h.filesIn_eq ht hu]

theorem fragmentPaths_eq (h : SameKinds t u) (ht : t.WellFormed) (hu : u.WellFormed) :
    s.fragmentPaths u = s.fragmentPaths t := by
  have hsame : fragmentsIn u = fragmentsIn t := funext (fragmentsIn_eq h ht hu)
  rw [fragmentPaths_eq_mapM, fragmentPaths_eq_mapM, fragmentFolders_eq h ht hu, hsame]

/-! ## Fragment files -/

/-- The folders that are searched are there when the fragment files can be listed. -/
theorem mem_paths_iff (hw : t.WellFormed) {files folders : List Path}
    (h : s.fragmentPaths t = .ok files) (hfolders : s.fragmentFolders t = .ok folders) :
    (∀ folder ∈ folders, ∃ k, t.resolve folder = .ok k ∧ t.node? k = some .folder) ∧
      ∀ p, p ∈ files ↔ ∃ folder ∈ folders, ∃ k name c, t.resolve folder = .ok k ∧
        t.node? k = some .folder ∧ fileId? name ≠ none ∧ t.node? (k ++ [name]) = some (.file c) ∧
        p = folder.child name := by
  rw [fragmentPaths_eq_mapM, hfolders, Except.bind] at h
  cases hmap : folders.mapM (fragmentsIn t) with
  | error e => rw [hmap] at h; cases h
  | ok yss =>
    rw [hmap] at h
    cases h
    have hall := mapM_succeeds_iff.mp ⟨yss, hmap⟩
    have hthere : ∀ folder ∈ folders, ∃ k, t.resolve folder = .ok k ∧ t.node? k = some .folder := by
      intro folder hf
      obtain ⟨ys, hys⟩ := hall folder hf
      obtain ⟨k, hk, hn, -⟩ := mem_fragmentsIn hw hys
      exact ⟨k, hk, hn⟩
    refine ⟨hthere, fun p => (mem_flatten_mapM hmap).trans ⟨?_, ?_⟩⟩
    · rintro ⟨folder, hf, ys, hys, hp⟩
      obtain ⟨k, hk, hn, hiff⟩ := mem_fragmentsIn hw hys
      obtain ⟨name, c, hid, hc, e⟩ := (hiff p).mp hp
      exact ⟨folder, hf, k, name, c, hk, hn, hid, hc, e⟩
    · rintro ⟨folder, hf, k, name, c, hk, hn, hid, hc, e⟩
      obtain ⟨ys, hys⟩ := hall folder hf
      obtain ⟨k', hk', -, hiff⟩ := mem_fragmentsIn hw hys
      cases hk.symm.trans hk'
      exact ⟨folder, hf, ys, hys, (hiff p).mpr ⟨name, c, hid, hc, e⟩⟩

/-! ## Places -/

/-- Whether the file of a fragment is at a location. -/
def FragmentAt (s : Session) (t : Tree) (k : Location) : Prop :=
  ∃ files, s.fragmentPaths t = .ok files ∧ ∃ p ∈ files, t.resolve p = .ok k

/-- Where the file of a located id is. -/
def place? (s : Session) (t : Tree) (id : Text) : Option Location :=
  match s.locate t id with
  | .ok (some p) => (t.resolve p).toOption
  | _ => none

theorem fragmentAt_iff (h : SameKinds t u) (ht : t.WellFormed) (hu : u.WellFormed) {k : Location} :
    s.FragmentAt u k ↔ s.FragmentAt t k := by
  unfold FragmentAt
  simp only [fragmentPaths_eq h ht hu, h.resolve_eq]

theorem place?_eq (h : SameKinds t u) (ht : t.WellFormed) (hu : u.WellFormed) (id : Text) :
    s.place? u id = s.place? t id := by
  unfold place?
  simp only [locate_eq h ht hu, h.resolve_eq]

theorem place?_eq_some_iff {id : Text} {k : Location} : s.place? t id = some k ↔
    ∃ p, s.locate t id = .ok (some p) ∧ t.resolve p = .ok k := by
  unfold place?
  cases s.locate t id with
  | error e => simp
  | ok found =>
    cases found with
    | none => simp
    | some p => cases hr : t.resolve p <;> simp [Except.toOption, hr]

/-- A fragment file's path has no NUL, a name that gives an id and that is also the name of its
location, and it leads to a file. -/
theorem fragment_path (hw : t.WellFormed) {files : List Path} (h : s.fragmentPaths t = .ok files)
    {p : Path} (hp : p ∈ files) : p.hasNul = false ∧ fileId? p.name ≠ none ∧
      ∀ k, t.resolve p = .ok k → k.getLast? = some p.name ∧ ∃ c, t.node? k = some (.file c) := by
  cases hfolders : s.fragmentFolders t with
  | error e => simp [fragmentPaths, hfolders, bind, Except.bind] at h
  | ok folders =>
    obtain ⟨folder, hf, k, name, c, hk, hn, hid, hc, rfl⟩ :=
      ((mem_paths_iff hw h hfolders).2 p).mp hp
    have hname : Tree.IsName name := (hw.canHold hc).isName
    have hlast := folder.name_child name
    obtain ⟨hnul, -, -⟩ := Tree.resolve_eq_ok_iff.mp hk
    refine ⟨?_, by rwa [hlast], fun k' hk' => ?_⟩
    · rw [Path.hasNul_child, hnul]
      have := hname.no_nul
      simpa using this
    · obtain rfl := Tree.resolve_eq_lead hk
      have hplain : Path.above ∉ [name] := fun e =>
        hname.not_above (List.mem_singleton.mp e).symm
      have hlead := Tree.resolve_eq_lead hk'
      rw [Path.child_parts, lead_append, lead_of_plain hplain] at hlead
      rw [hlead, hlast, List.getLast?_concat]
      exact ⟨rfl, c, hc⟩

/-- The file of a located id is a fragment file with the name of the id. -/
theorem place?_spec (hw : t.WellFormed) {files : List Path} (hpaths : s.fragmentPaths t = .ok files)
    {id : Text} (hid : isId id = true) {k : Location} (h : s.place? t id = some k) :
    s.FragmentAt t k ∧ k.getLast? = some (id ++ ending) := by
  obtain ⟨p, hp, hr⟩ := place?_eq_some_iff.mp h
  obtain ⟨folders, hfolders, hfirst⟩ := locate_eq_ok hp
  obtain ⟨folder, hf, rfl, hfile⟩ := firstWith_some hfirst
  obtain ⟨k', c, hr', hn⟩ := Tree.isFile_eq_true_iff.mp hfile
  cases hr.symm.trans hr'
  obtain ⟨hthere, hmem⟩ := mem_paths_iff hw hpaths hfolders
  obtain ⟨m, hm, hfold⟩ := hthere folder hf
  have hname := folder.fragment_eq_child (digits_of_isId hid)
  have habove : Path.above ∉ [id ++ ending] := fun e =>
    ending_ne_above id (List.mem_singleton.mp e).symm
  have hlead := Tree.resolve_eq_lead hr
  rw [hname, Path.child_parts, lead_append, lead_of_plain habove, ← Tree.resolve_eq_lead hm] at hlead
  subst hlead
  have hgives : fileId? (id ++ ending) ≠ none := by simp [fileId?_ending hid]
  exact ⟨⟨files, hpaths, _, (hmem _).mpr ⟨folder, hf, m, _, c, hm, hfold, hgives, hn, hname⟩, hr⟩,
    List.getLast?_concat⟩

/-- Different ids are at different places. -/
theorem place?_inj (hw : t.WellFormed) {files : List Path} (hpaths : s.fragmentPaths t = .ok files)
    {id id' : Text} (hid : isId id = true) (hid' : isId id' = true) {k : Location}
    (h : s.place? t id = some k) (h' : s.place? t id' = some k) : id = id' := by
  have hlast := (place?_spec hw hpaths hid h).2
  rw [(place?_spec hw hpaths hid' h').2, Option.some.injEq] at hlast
  exact (List.append_cancel_right hlast).symm

end Marginalia.Session
