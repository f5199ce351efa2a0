import Marginalia.Proofs.Disk.Folders
import Marginalia.Proofs.Disk.Path
import Marginalia.Proofs.Numerals
import Marginalia.Proofs.Work
import Marginalia.Session.Lookup

/-!
# Where fragments are found

A fragment's file has the name of its id in the folder that holds the sets or in a folder there. An
id that is located has a file of that name (`entry_of_hasFragment`), and one that is not has none in
any of these folders (`no_file_of_hasFragment`).
-/

namespace Marginalia

/-! ## Names of fragment files -/

theorem not_slash_of_digits {id : Text} (hid : ∀ c ∈ id, isAsciiDigit c = true) :
    '/' ∉ id ++ ending := by
  rw [List.mem_append]
  rintro (h | h)
  · exact absurd (hid _ h) (by decide)
  · exact absurd h (by decide)

theorem digits_of_isId {id : Text} (h : isId id = true) : ∀ c ∈ id, isAsciiDigit c = true :=
  (isId_iff.mp h).2.2

theorem size_of_digits {id : Text} (hid : ∀ c ∈ id, isAsciiDigit c = true) :
    Utf8.size id = id.length := by
  induction id with
  | nil => rfl
  | cons c id ih =>
    have hc := isAsciiDigit_utf8Size (hid c List.mem_cons_self)
    have hrest := ih fun d hd => hid d (List.mem_cons_of_mem _ hd)
    show c.utf8Size + Utf8.size id = id.length + 1
    omega

theorem size_ending {id : Text} (hid : ∀ c ∈ id, isAsciiDigit c = true) :
    Utf8.size (id ++ ending) = id.length + 3 := by
  rw [Utf8.size_append, size_of_digits hid]
  rfl

theorem getLast?_ending (id : Text) : (id ++ ending).getLast? = some 'd' := by
  rw [List.getLast?_append]
  rfl

theorem ending_ne_above (id : Text) : id ++ ending ≠ Path.above := fun e => by
  have h := getLast?_ending id
  rw [e] at h
  cases h

theorem ending_ne_dot (id : Text) : id ++ ending ≠ ['.'] := fun e => by
  have h := getLast?_ending id
  rw [e] at h
  cases h

theorem isName_ending {id : Text} (hid : ∀ c ∈ id, isAsciiDigit c = true)
    (hlen : id.length ≤ 252) : Tree.IsName (id ++ ending) := by
  constructor
  · exact ending_ne_above id
  · rw [List.mem_append]
    rintro (h | h)
    · exact absurd (hid _ h) (by decide)
    · exact absurd h (by decide)
  · rw [size_ending hid, Disk.longestName]
    omega

theorem isName_of_isId {id : Text} (h : isId id = true) : Tree.IsName (id ++ ending) := by
  have hlen := (isId_iff.mp h).2.1
  rw [maxIdLength] at hlen
  exact isName_ending (digits_of_isId h) (by omega)

theorem size_ending_of_isId {id : Text} (h : isId id = true) : Utf8.size (id ++ ending) ≤ 35 := by
  have hlen := (isId_iff.mp h).2.1
  rw [maxIdLength] at hlen
  rw [size_ending (digits_of_isId h)]
  omega

theorem Tree.Fits.record {p : Path} {k : Nat} {id : Text} (hp : Fits p (k + 36))
    (hid : isId id = true) : Fits (p.child (id ++ ending)) k := by
  have hsize := size_ending_of_isId hid
  exact hp.child (isName_of_isId hid) (by omega)

theorem Tree.Fits.resolve_record {t : Tree} {p : Path} {k : Nat} {l : Location} {id : Text}
    (hp : Fits p (k + 36)) (hid : isId id = true) (hr : t.resolve p = .ok l)
    (hl : t.node? l = some .folder) :
    t.resolve (p.child (id ++ ending)) = .ok (l ++ [id ++ ending]) := by
  have hsize := size_ending_of_isId hid
  exact hp.resolve_child (j := 0) (isName_of_isId hid) (by omega) hr hl

namespace Path

theorem ofText_name {s : Text} (h0 : s ≠ []) (hd : s ≠ ['.']) (h : '/' ∉ s) :
    ofText s = { parts := [s] } := by
  have hrun : s.takeWhile (· == '/') = [] := by
    cases s with
    | nil => exact absurd rfl h0
    | cons c s =>
      rw [List.mem_cons, not_or] at h
      have hc : (c == '/') = false := by simpa using Ne.symm h.1
      simp [hc]
  have hkeep : ((pieces s).filter fun p => p != [] && p != ['.']) = [s] := by
    rw [pieces_of_no_slash h]
    simp [h0, hd]
  simp [ofText, hrun, hkeep]

theorem join_name (p : Path) {s : Text} (h0 : s ≠ []) (hd : s ≠ ['.']) (h : '/' ∉ s) :
    p.join (ofText s) = p.child s := by
  rw [ofText_name h0 hd h]
  rfl

theorem fragment_eq_child (p : Path) {id : Text} (hid : ∀ c ∈ id, isAsciiDigit c = true) :
    p.fragment id = p.child (id ++ ending) :=
  p.join_name (by simp [ending]) (ending_ne_dot id) (not_slash_of_digits hid)

theorem pieces_append {e : Text} (he : '/' ∉ e) (s : Text) :
    ∃ ps u, pieces (s ++ e) = ps ++ [u ++ e] := by
  induction s with
  | nil => exact ⟨[], [], pieces_of_no_slash he⟩
  | cons c s ih =>
    obtain ⟨ps, u, h⟩ := ih
    rw [List.cons_append, pieces, h]
    split
    · exact ⟨[] :: ps, u, rfl⟩
    · cases ps with
      | nil => exact ⟨[], c :: u, rfl⟩
      | cons p ps => exact ⟨(c :: p) :: ps, u, rfl⟩

/-- The name of a fragment's file has the ending, whatever the id is. -/
theorem name_fragment (folder : Path) (id : Text) : ∃ u, (folder.fragment id).name = u ++ ending := by
  obtain ⟨ps, u, h⟩ := pieces_append (e := ending) (by decide) id
  have hkeep : (fun p : Name => p != [] && p != ['.']) (u ++ ending) = true := by
    have hempty : u ++ ending ≠ [] := by simp [ending]
    have hdot := ending_ne_dot u
    simp [hempty, hdot]
  have hparts : (ofText (id ++ ending)).parts =
      ps.filter (fun p => p != [] && p != ['.']) ++ [u ++ ending] := by
    show (pieces (id ++ ending)).filter _ = _
    have hlast : [u ++ ending].filter (fun p : Name => p != [] && p != ['.']) = [u ++ ending] :=
      List.filter_cons_of_pos hkeep
    rw [h, List.filter_append, hlast]
  refine ⟨u, ?_⟩
  unfold fragment join
  split
  · rw [name, hparts]
    simp
  · show ((folder.parts ++ (ofText (id ++ ending)).parts).getLast?.getD []) = _
    rw [hparts]
    simp

end Path

/-! ## Folders of sets -/

namespace Tree

/-- A file that the names of a path lead to is not denied. -/
theorem isFile_ne_false {t : Tree} {p : Path} {l : Location} {c : Content}
    (hnul : p.hasNul = false) (hf : t.follow [] p.parts = .ok l)
    (hc : t.node? l = some (.file c)) : t.isFile p ≠ .ok false := by
  intro h
  by_cases hs : Disk.longestPath < Utf8.size p.text
  · have hr : t.resolve p = .error .nameTooLong := by rw [resolve_eq, hnul]; simp [hs]
    simp [isFile, holds, stat, hr] at h
  · have hr : t.resolve p = .ok l :=
      resolve_eq_ok_iff.mpr ⟨hnul, Nat.le_of_not_lt hs, hf⟩
    rw [isFile_of_resolve hr, hc] at h
    cases h

end Tree

/-- No file of the name of an id is in a folder or in a folder there. -/
def NoFile (home : Path) (id : Text) (t : Tree) : Prop :=
  ∀ c, t.node? (lead [] home.parts ++ [id ++ ending]) ≠ some (.file c) ∧
    ∀ name, t.node? (lead [] home.parts ++ [name, id ++ ending]) ≠ some (.file c)

namespace Session

theorem setNames_of_resolve {s : Session} {t : Tree} (hw : t.WellFormed) {home : Path}
    {l : Location} {k : Nat} (hs : s.folder? = some home) (hfits : Tree.Fits home (k + 256))
    (hr : t.resolve home = .ok l) (hl : t.node? l = some .folder) :
    s.setNames t = .ok (t.folderNames l) := by
  have hfold : t.isFolder home = .ok true := Tree.isFolder_eq_true_iff.mpr ⟨l, hr, hl⟩
  simp [setNames, hs, hfold, hw.foldersIn_of_resolve hfits hr hl, ask, bind, Except.bind,
    Except.mapError]

theorem setNames_eq_ok {s : Session} {t : Tree} (hw : t.WellFormed) {home : Path} {l : Location}
    {names : List Name} (hs : s.folder? = some home) (hr : t.resolve home = .ok l)
    (hl : t.node? l = some .folder) (h : s.setNames t = .ok names) : names = t.folderNames l := by
  have hfold : t.isFolder home = .ok true := Tree.isFolder_eq_true_iff.mpr ⟨l, hr, hl⟩
  cases hnames : t.foldersIn home with
  | error e => simp [setNames, hs, hfold, hnames, ask, bind, Except.bind, Except.mapError] at h
  | ok found =>
    obtain ⟨l', hr', -, rfl⟩ := hw.foldersIn_eq_ok hnames
    cases hr.symm.trans hr'
    simpa [setNames, hs, hfold, hnames, ask, bind, Except.bind, Except.mapError, eq_comm] using h

theorem fragmentFolders_of_resolve {s : Session} {t : Tree} (hw : t.WellFormed) {home : Path}
    {l : Location} {k : Nat} (hs : s.folder? = some home) (hfits : Tree.Fits home (k + 256))
    (hr : t.resolve home = .ok l) (hl : t.node? l = some .folder) :
    s.fragmentFolders t = .ok (home :: (t.folderNames l).map home.child) := by
  have hfold : t.isFolder home = .ok true := Tree.isFolder_eq_true_iff.mpr ⟨l, hr, hl⟩
  simp [fragmentFolders, hs, hfold, ask, bind, Except.bind, pure, Except.pure, Except.mapError,
    setNames_of_resolve hw hs hfits hr hl]

/-- The folders that are searched, where they could all be asked for. -/
theorem fragmentFolders_eq_ok {s : Session} {t : Tree} (hw : t.WellFormed) {home : Path}
    {l : Location} {folders : List Path} (hs : s.folder? = some home)
    (hr : t.resolve home = .ok l) (hl : t.node? l = some .folder)
    (h : s.fragmentFolders t = .ok folders) :
    folders = home :: (t.folderNames l).map home.child := by
  have hfold : t.isFolder home = .ok true := Tree.isFolder_eq_true_iff.mpr ⟨l, hr, hl⟩
  cases hnames : s.setNames t with
  | error e => simp [fragmentFolders, hs, hfold, hnames, ask, bind, Except.bind,
      Except.mapError] at h
  | ok names =>
    obtain rfl := setNames_eq_ok hw hs hr hl hnames
    simpa [fragmentFolders, hs, hfold, hnames, ask, bind, Except.bind, Except.mapError, pure,
      Except.pure, eq_comm] using h

theorem fragmentFolders_of_absent {s : Session} {t : Tree} {home : Path}
    (hs : s.folder? = some home) (h : t.isFolder home = .ok false) : s.fragmentFolders t = .ok [] := by
  simp [fragmentFolders, hs, h, ask, bind, Except.bind, Except.mapError, pure, Except.pure]

theorem mem_fragmentFolders {s : Session} {t : Tree} {home : Path} (hw : t.WellFormed)
    (hs : s.folder? = some home) {folders : List Path}
    (hfolders : s.fragmentFolders t = .ok folders) {folder : Path}
    (hf : folder ∈ folders) : folder = home ∨ ∃ set, Tree.IsName set ∧ folder = home.child set := by
  cases hb : t.isFolder home with
  | error e => simp [fragmentFolders, hs, hb, ask, bind, Except.bind, Except.mapError] at hfolders
  | ok b =>
    cases b with
    | false =>
      simp only [fragmentFolders, hs, hb, ask, bind, Except.bind, Except.mapError, pure,
        Except.pure, Bool.false_eq_true, if_false, Except.ok.injEq] at hfolders
      subst hfolders
      cases hf
    | true =>
      obtain ⟨l, hr, hl⟩ := Tree.isFolder_eq_true_iff.mp hb
      obtain rfl := fragmentFolders_eq_ok hw hs hr hl hfolders
      rcases List.mem_cons.mp hf with rfl | hf
      · exact .inl rfl
      · obtain ⟨set, hset, rfl⟩ := List.mem_map.mp hf
        exact .inr ⟨set, (hw.canHold (hw.mem_folderNames.mp hset)).isName, rfl⟩

/-! ## Locating -/

theorem firstWith_none {t : Tree} {id : Text} {folders : List Path}
    (h : firstWith t id folders = .ok none) :
    ∀ f ∈ folders, t.isFile (f.fragment id) = .ok false := by
  induction folders with
  | nil => simp
  | cons f folders ih =>
    simp only [firstWith, bind, Except.bind] at h
    cases hf : t.isFile (f.fragment id) with
    | error e => simp [hf] at h
    | ok b =>
      cases b with
      | true => simp [hf, pure, Except.pure] at h
      | false =>
        rw [hf] at h
        intro g hg
        rcases List.mem_cons.mp hg with rfl | hg
        · exact hf
        · exact ih (by simpa using h) g hg

theorem firstWith_some {t : Tree} {id : Text} {folders : List Path} {p : Path}
    (h : firstWith t id folders = .ok (some p)) :
    ∃ f ∈ folders, p = f.fragment id ∧ t.isFile p = .ok true := by
  induction folders with
  | nil => cases h
  | cons f folders ih =>
    simp only [firstWith, bind, Except.bind] at h
    cases hf : t.isFile (f.fragment id) with
    | error e => simp [hf] at h
    | ok b =>
      cases b with
      | true =>
        simp only [hf, pure, Except.pure, if_true, Except.ok.injEq, Option.some.injEq] at h
        subst h
        exact ⟨f, List.mem_cons_self, rfl, hf⟩
      | false =>
        rw [hf] at h
        obtain ⟨g, hg, hp⟩ := ih (by simpa using h)
        exact ⟨g, List.mem_cons_of_mem _ hg, hp⟩

theorem hasFragment_eq_ok_iff {s : Session} {t : Tree} {id : Text} {b : Bool} :
    s.hasFragment t id = .ok b ↔ ∃ p, s.locate t id = .ok p ∧ p.isSome = b := by
  unfold hasFragment
  cases s.locate t id <;> simp [Except.map]

theorem locate_eq_ok {s : Session} {t : Tree} {id : Text} {p : Option Path}
    (h : s.locate t id = .ok p) :
    ∃ folders, s.fragmentFolders t = .ok folders ∧ firstWith t id folders = .ok p := by
  simp only [locate, bind, Except.bind] at h
  cases hf : s.fragmentFolders t with
  | error e => simp [hf] at h
  | ok folders =>
    refine ⟨folders, rfl, ?_⟩
    rw [hf] at h
    cases hp : firstWith t id folders with
    | error e => simp [hp, ask, Except.mapError] at h
    | ok q =>
      simp only [hp, ask, Except.mapError, Except.ok.injEq] at h
      rw [h]

/-- A located id has a file of its name somewhere. -/
theorem entry_of_hasFragment {s : Session} {t : Tree} {id : Text}
    (hid : ∀ c ∈ id, isAsciiDigit c = true) (h : s.hasFragment t id = .ok true) :
    ∃ l n, (l, n) ∈ t.entries ∧ l.getLast? = some (id ++ ending) := by
  obtain ⟨p, hp, hsome⟩ := hasFragment_eq_ok_iff.mp h
  obtain ⟨p, rfl⟩ := Option.isSome_iff_exists.mp hsome
  obtain ⟨folders, -, hfirst⟩ := locate_eq_ok hp
  obtain ⟨f, -, rfl, hfile⟩ := firstWith_some hfirst
  obtain ⟨l, c, hr, hn⟩ := Tree.isFile_eq_true_iff.mp hfile
  have hlead := Tree.resolve_eq_lead hr
  have habove : Path.above ∉ [id ++ ending] := fun e =>
    ending_ne_above id (List.mem_singleton.mp e).symm
  rw [f.fragment_eq_child hid, Path.child_parts, lead_append, lead_of_plain habove] at hlead
  refine ⟨l, _, Tree.mem_entries (by simp [hlead]) hn, ?_⟩
  rw [hlead, List.getLast?_concat]

/-- An id that is not located has no file in the folder that holds the sets, nor in a folder
there. -/
theorem no_file_of_hasFragment {s : Session} {t : Tree} (hw : t.WellFormed) {home : Path}
    {l : Location} {id : Text} (hs : s.folder? = some home) (hr : t.resolve home = .ok l)
    (hl : t.node? l = some .folder) (hid : ∀ c ∈ id, isAsciiDigit c = true)
    (h : s.hasFragment t id = .ok false) (c : Content) :
    t.node? (l ++ [id ++ ending]) ≠ some (.file c) ∧
      ∀ name, t.node? (l ++ [name, id ++ ending]) ≠ some (.file c) := by
  obtain ⟨p, hp, hnone⟩ := hasFragment_eq_ok_iff.mp h
  obtain rfl : p = none := by simpa using hnone
  obtain ⟨folders, hfolders, hfirst⟩ := locate_eq_ok hp
  obtain rfl := fragmentFolders_eq_ok hw hs hr hl hfolders
  have hdeny := firstWith_none hfirst
  obtain ⟨hnul, -, hf⟩ := Tree.resolve_eq_ok_iff.mp hr
  constructor
  · intro hn
    have hname : Tree.IsName (id ++ ending) := (hw.canHold hn).isName
    have := hdeny home List.mem_cons_self
    rw [home.fragment_eq_child hid] at this
    refine Tree.isFile_ne_false (l := l ++ [id ++ ending]) ?_ ?_ hn this
    · simp [Path.hasNul_child, hnul, hname.no_nul]
    · rw [Path.child_parts, Tree.follow_append, hf]
      exact Tree.follow_single hl hname
  · intro name hn
    have hassoc : l ++ [name, id ++ ending] = l ++ [name] ++ [id ++ ending] := by simp
    rw [hassoc] at hn
    have hfold : t.node? (l ++ [name]) = some .folder := by simpa using hw.folder_above hn
    have hname : Tree.IsName (id ++ ending) := (hw.canHold hn).isName
    have hset : Tree.IsName name := (hw.canHold hfold).isName
    have hmem : home.child name ∈ home :: (t.folderNames l).map home.child :=
      List.mem_cons_of_mem _ (List.mem_map_of_mem (hw.mem_folderNames.mpr hfold))
    have := hdeny _ hmem
    rw [Path.fragment_eq_child _ hid] at this
    refine Tree.isFile_ne_false (l := l ++ [name] ++ [id ++ ending]) ?_ ?_ hn this
    · simp [Path.hasNul_child, hnul, hset.no_nul, hname.no_nul]
    · rw [Path.child_parts, Path.child_parts, Tree.follow_append, Tree.follow_append, hf]
      show (t.follow l [name]).bind _ = _
      rw [Tree.follow_single hl hset]
      exact Tree.follow_single hfold hname

/-- A located id has a file of its name in the folder that holds the sets or in a folder there. -/
theorem file_of_hasFragment {s : Session} {t : Tree} (hw : t.WellFormed) {home : Path}
    {l : Location} {id : Text} (hs : s.folder? = some home) (hr : t.resolve home = .ok l)
    (hl : t.node? l = some .folder) (hid : ∀ c ∈ id, isAsciiDigit c = true)
    (h : s.hasFragment t id = .ok true) :
    ∃ c, t.node? (l ++ [id ++ ending]) = some (.file c) ∨
      ∃ name, t.node? (l ++ [name, id ++ ending]) = some (.file c) := by
  obtain ⟨p, hp, hsome⟩ := hasFragment_eq_ok_iff.mp h
  obtain ⟨p, rfl⟩ := Option.isSome_iff_exists.mp hsome
  obtain ⟨folders, hfolders, hfirst⟩ := locate_eq_ok hp
  obtain rfl := fragmentFolders_eq_ok hw hs hr hl hfolders
  obtain ⟨f, hf, rfl, hfile⟩ := firstWith_some hfirst
  obtain ⟨k, c, hk, hn⟩ := Tree.isFile_eq_true_iff.mp hfile
  have habove : Path.above ∉ [id ++ ending] := fun e =>
    ending_ne_above id (List.mem_singleton.mp e).symm
  have hlead := Tree.resolve_eq_lead hk
  rw [f.fragment_eq_child hid, Path.child_parts, lead_append, lead_of_plain habove] at hlead
  have hhome : l = lead [] home.parts := Tree.resolve_eq_lead hr
  refine ⟨c, ?_⟩
  rcases List.mem_cons.mp hf with rfl | hf
  · left
    rwa [hhome, ← hlead]
  · right
    obtain ⟨name, hname, rfl⟩ := List.mem_map.mp hf
    have hset := (hw.canHold (hw.mem_folderNames.mp hname)).isName
    have hplain : Path.above ∉ [name] := fun e => hset.not_above (List.mem_singleton.mp e).symm
    refine ⟨name, ?_⟩
    rw [Path.child_parts, lead_append, lead_of_plain hplain, ← hhome] at hlead
    rw [hlead] at hn
    simpa using hn

theorem folder_of_hasFragment {s : Session} {t : Tree} {home : Path} {id : Text}
    (hs : s.folder? = some home) (h : s.hasFragment t id = .ok true) :
    t.isFolder home = .ok true := by
  obtain ⟨p, hp, hsome⟩ := hasFragment_eq_ok_iff.mp h
  obtain ⟨p, rfl⟩ := Option.isSome_iff_exists.mp hsome
  obtain ⟨folders, hfolders, hfirst⟩ := locate_eq_ok hp
  cases hb : t.isFolder home with
  | error e =>
    simp [fragmentFolders, hs, hb, ask, bind, Except.bind, Except.mapError] at hfolders
  | ok b =>
    cases b with
    | true => rfl
    | false =>
      cases hfolders.symm.trans (fragmentFolders_of_absent hs hb)
      cases hfirst

/-- An id of which no file is there is not located. -/
theorem hasFragment_of_noFile {s : Session} {t : Tree} (hw : t.WellFormed) {home : Path}
    {id : Text} {b : Bool} (hs : s.folder? = some home) (hid : ∀ c ∈ id, isAsciiDigit c = true)
    (hno : NoFile home id t) (h : s.hasFragment t id = .ok b) : b = false := by
  cases b with
  | false => rfl
  | true =>
    obtain ⟨l, hr, hl⟩ := Tree.isFolder_eq_true_iff.mp (folder_of_hasFragment hs h)
    obtain ⟨c, hc | ⟨name, hc⟩⟩ := file_of_hasFragment hw hs hr hl hid h
    · rw [Tree.resolve_eq_lead hr] at hc
      exact absurd hc (hno c).1
    · rw [Tree.resolve_eq_lead hr] at hc
      exact absurd hc ((hno c).2 name)

theorem firstWith_total (t : Tree) {id : Text} {folders : List Path}
    (h : ∀ f ∈ folders, Tree.Fits (f.fragment id) 0) : ∃ p, firstWith t id folders = .ok p := by
  induction folders with
  | nil => exact ⟨none, rfl⟩
  | cons f folders ih =>
    obtain ⟨p, hp⟩ := ih fun g hg => h g (List.mem_cons_of_mem _ hg)
    obtain ⟨b, hb⟩ := (h f List.mem_cons_self).holds t (· != .folder)
    have hfile : t.isFile (f.fragment id) = .ok b := hb
    cases b with
    | true => exact ⟨some (f.fragment id), by simp [firstWith, hfile, bind, Except.bind, pure,
        Except.pure]⟩
    | false => exact ⟨p, by simp [firstWith, hfile, bind, Except.bind, hp]⟩

/-- Whether an id is taken can be told when the paths of its files are not too long. -/
theorem hasFragment_total {s : Session} {t : Tree} (hw : t.WellFormed) {home : Path} {id : Text}
    (hs : s.folder? = some home) (hfits : Tree.Fits home 300) (hid : isId id = true) :
    ∃ b, s.hasFragment t id = .ok b := by
  obtain ⟨b, hb⟩ := hfits.holds t (· == .folder)
  have hfolder : t.isFolder home = .ok b := hb
  cases b with
  | false =>
    have hnone := fragmentFolders_of_absent hs hfolder
    exact ⟨false, by simp [hasFragment, locate, hnone, firstWith, ask, bind, Except.bind,
      Except.mapError, Except.map]⟩
  | true =>
    obtain ⟨l, hr, hl⟩ := Tree.isFolder_eq_true_iff.mp hfolder
    have hfits' : ∀ f ∈ home :: (t.folderNames l).map home.child,
        Tree.Fits (f.fragment id) 0 := by
      intro f hf
      rw [f.fragment_eq_child (digits_of_isId hid)]
      rcases List.mem_cons.mp hf with rfl | hf
      · exact (hfits.record hid).mono (by omega)
      · obtain ⟨name, hname, rfl⟩ := List.mem_map.mp hf
        have hset := (hw.canHold (hw.mem_folderNames.mp hname)).isName
        exact ((hfits.inside hset).record hid).mono (by omega)
    obtain ⟨p, hp⟩ := firstWith_total t hfits'
    have hfolders := fragmentFolders_of_resolve hw hs (k := 44) hfits hr hl
    exact ⟨p.isSome, by simp [hasFragment, locate, hfolders, hp, ask, bind, Except.bind,
      Except.mapError, Except.map]⟩

/-! ## All fragment files -/

theorem mem_fragmentIds {files : List Name} {name : Name} {id : Text} :
    (name, id) ∈ fragmentIds files ↔ name ∈ files ∧ fileId? name = some id := by
  simp only [fragmentIds, List.mem_filterMap, Option.map_eq_some_iff, Prod.mk.injEq]
  constructor
  · rintro ⟨n, hn, i, hid, rfl, rfl⟩
    exact ⟨hn, hid⟩
  · rintro ⟨hn, hid⟩
    exact ⟨name, hn, id, hid, rfl, rfl⟩

/-- The fragment files in a folder, as `fragmentPaths` lists them. -/
def fragmentsIn (t : Tree) (folder : Path) : Except Fault (List Path) :=
  ask ((t.filesIn folder).map fun files => (fragmentIds files).map fun e => folder.child e.1)

theorem fragmentPaths_eq_mapM (s : Session) (t : Tree) : s.fragmentPaths t =
    (s.fragmentFolders t).bind fun folders => (folders.mapM (fragmentsIn t)).map List.flatten := by
  unfold fragmentPaths
  cases s.fragmentFolders t with
  | error e => rfl
  | ok folders =>
    show Except.bind (folders.mapM (fragmentsIn t)) _ = _
    cases hmap : folders.mapM (fragmentsIn t) with
    | error e => simp [Except.bind, Except.map, hmap]
    | ok yss => simp [Except.bind, Except.map, hmap, pure, Except.pure]

theorem mem_fragmentsIn {t : Tree} (hw : t.WellFormed) {folder : Path} {found : List Path}
    (h : fragmentsIn t folder = .ok found) : ∃ k, t.resolve folder = .ok k ∧
      t.node? k = some .folder ∧ ∀ p, p ∈ found ↔
        ∃ name c, fileId? name ≠ none ∧ t.node? (k ++ [name]) = some (.file c) ∧
          p = folder.child name := by
  cases hfiles : t.filesIn folder with
  | error e => rw [fragmentsIn, hfiles] at h; cases h
  | ok files =>
    rw [fragmentsIn, hfiles] at h
    cases h
    obtain ⟨k, hk, hn, rfl⟩ := hw.filesIn_eq_ok hfiles
    refine ⟨k, hk, hn, fun p => ?_⟩
    simp only [List.mem_map, Prod.exists, mem_fragmentIds, hw.mem_fileNames]
    constructor
    · rintro ⟨name, id, ⟨⟨c, hc⟩, hid⟩, rfl⟩
      exact ⟨name, c, by simp [hid], hc, rfl⟩
    · rintro ⟨name, c, hid, hc, rfl⟩
      obtain ⟨id, hid⟩ := Option.ne_none_iff_exists'.mp hid
      exact ⟨name, id, ⟨⟨c, hc⟩, hid⟩, rfl⟩

/-- Where any name has room the fragment files can be listed. -/
theorem listed_fragments {t : Tree} (hw : t.WellFormed) {folder : Path} {k : Location} {j : Nat}
    (hfits : Tree.Fits folder (j + 256)) (hk : t.resolve folder = .ok k)
    (hn : t.node? k = some .folder) :
    ∃ found, fragmentsIn t folder = .ok found ∧
      ∀ p, p ∈ found ↔ ∃ name c, fileId? name ≠ none ∧ t.node? (k ++ [name]) = some (.file c) ∧
        p = folder.child name := by
  obtain ⟨found, hfound⟩ : ∃ found, fragmentsIn t folder = .ok found :=
    ⟨_, by rw [fragmentsIn, hw.filesIn_of_resolve hfits hk hn]; rfl⟩
  obtain ⟨k', hk', -, hmem⟩ := mem_fragmentsIn hw hfound
  cases hk.symm.trans hk'
  exact ⟨found, hfound, hmem⟩

theorem mapM_flatten {α β : Type} {f : α → Except Fault (List β)} {Q : α → β → Prop}
    {xs : List α} (h : ∀ x ∈ xs, ∃ ys, f x = .ok ys ∧ ∀ b, b ∈ ys ↔ Q x b) :
    ∃ yss, xs.mapM f = .ok yss ∧ ∀ b, b ∈ yss.flatten ↔ ∃ x ∈ xs, Q x b := by
  obtain ⟨yss, hyss⟩ := mapM_succeeds_iff.mpr fun x hx => (h x hx).imp fun _ => And.left
  refine ⟨yss, hyss, fun b => (mem_flatten_mapM hyss).trans (exists_congr fun x =>
    and_congr_right fun hx => ?_)⟩
  obtain ⟨ys, hys, hmem⟩ := h x hx
  constructor
  · rintro ⟨ys', hys', hb⟩
    cases hys.symm.trans hys'
    exact (hmem b).mp hb
  · exact fun hb => ⟨ys, hys, (hmem b).mpr hb⟩

/-- The fragment files are those in the folder of sets and those in the folders there. -/
theorem mem_fragmentPaths {s : Session} {t : Tree} (hw : t.WellFormed) {home : Path} {l : Location}
    (hs : s.folder? = some home) (hfits : Tree.Fits home 512) (hr : t.resolve home = .ok l)
    (hl : t.node? l = some .folder) :
    ∃ files, s.fragmentPaths t = .ok files ∧ ∀ p, p ∈ files ↔
      (∃ name c, fileId? name ≠ none ∧ t.node? (l ++ [name]) = some (.file c) ∧
        p = home.child name) ∨
      ∃ set name c, fileId? name ≠ none ∧ t.node? (l ++ [set, name]) = some (.file c) ∧
        p = (home.child set).child name := by
  have hsets : ∀ set ∈ t.folderNames l, t.resolve (home.child set) = .ok (l ++ [set]) := by
    intro set hset
    exact hfits.resolve_inside (hw.canHold (hw.mem_folderNames.mp hset)).isName hr hl
  have hall : ∀ folder ∈ home :: (t.folderNames l).map home.child, Tree.Fits folder 256 ∧ ∃ k,
      t.resolve folder = .ok k ∧ t.node? k = some .folder := by
    intro folder hf
    rcases List.mem_cons.mp hf with rfl | hf
    · exact ⟨hfits.mono (by omega), l, hr, hl⟩
    · obtain ⟨set, hset, rfl⟩ := List.mem_map.mp hf
      have hname := (hw.canHold (hw.mem_folderNames.mp hset)).isName
      exact ⟨hfits.inside hname, _, hsets set hset, hw.mem_folderNames.mp hset⟩
  obtain ⟨yss, hmap, hmem⟩ := mapM_flatten (Q := fun folder p => ∃ k,
      t.resolve folder = .ok k ∧ ∃ name c, fileId? name ≠ none ∧
        t.node? (k ++ [name]) = some (.file c) ∧ p = folder.child name) fun folder hf => by
    obtain ⟨hroom, k, hk, hn⟩ := hall folder hf
    obtain ⟨found, hfound, hiff⟩ := listed_fragments (j := 0) hw hroom hk hn
    refine ⟨found, hfound, fun p => (hiff p).trans ⟨fun h => ⟨k, hk, h⟩, ?_⟩⟩
    rintro ⟨k', hk', h⟩
    cases hk.symm.trans hk'
    exact h
  refine ⟨yss.flatten, ?_, fun p => (hmem p).trans ?_⟩
  · rw [fragmentPaths_eq_mapM, fragmentFolders_of_resolve hw hs (k := 256) hfits hr hl, Except.bind,
      hmap]
    rfl
  constructor
  · rintro ⟨folder, hf, k, hk, name, c, hid, hc, rfl⟩
    rcases List.mem_cons.mp hf with rfl | hf
    · cases hr.symm.trans hk
      exact .inl ⟨name, c, hid, hc, rfl⟩
    · obtain ⟨set, hset, rfl⟩ := List.mem_map.mp hf
      cases (hsets set hset).symm.trans hk
      exact .inr ⟨set, name, c, hid, by simpa using hc, rfl⟩
  · rintro (⟨name, c, hid, hc, rfl⟩ | ⟨set, name, c, hid, hc, rfl⟩)
    · exact ⟨home, List.mem_cons_self, l, hr, name, c, hid, hc, rfl⟩
    · have hset : set ∈ t.folderNames l := by
        rw [hw.mem_folderNames]
        have := hw.folder_above hc
        rwa [List.dropLast_append_of_ne_nil (by simp)] at this
      exact ⟨_, List.mem_cons_of_mem _ (List.mem_map.mpr ⟨set, hset, rfl⟩), _, hsets set hset, name,
        c, hid, by simpa using hc, rfl⟩

end Session

end Marginalia
