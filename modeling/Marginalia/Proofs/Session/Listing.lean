import Marginalia.Proofs.Session.Draws
import Marginalia.Proofs.Session.Making
import Marginalia.Proofs.Session.Resilience
import Mathlib.Data.List.Sort

/-!
# Listing and looking up

When every fragment file is named by its id in the way that the files of new fragments are
(`NamedById`), what is listed is located and the other way round (`Filed`): the ids of a set ascend
(`listed_ascend`), each is located (`located_of_listed`), none of them is handed out or drawn
(`not_listed`), and a summary reads each from the file that it was listed for (`ReadFrom`). A file
whose ending has capitals is listed, but not located, and together with one whose ending has none it
is listed twice (`capitals_disagree`).
-/

namespace Marginalia

/-! ## Names of files -/

/-- Whether a file of a name is in a folder or in a folder there. -/
def Tree.HasFile (t : Tree) (l : Location) (name : Name) : Prop :=
  ∃ c, t.node? (l ++ [name]) = some (.file c) ∨
    ∃ set, t.node? (l ++ [set, name]) = some (.file c)

theorem Tree.SameFiles.hasFile {t u : Tree} {ls : List Location} (h : Tree.SameFiles ls t u)
    {l : Location} {name : Name} (hout : ∀ k ∈ ls, k.getLast? ≠ some name)
    (hfile : u.HasFile l name) : t.HasFile l name := by
  have hkeep : ∀ k c, u.node? (k ++ [name]) = some (.file c) → t.node? (k ++ [name]) = some (.file c) :=
    fun k c => (h _ (fun hk => hout _ hk List.getLast?_concat) c).mp
  obtain ⟨c, hc | ⟨set, hc⟩⟩ := hfile
  · exact ⟨c, .inl (hkeep l c hc)⟩
  · rw [List.append_cons] at hc
    exact ⟨c, .inr ⟨set, by rw [List.append_cons]; exact hkeep _ c hc⟩⟩

/-- Whether every fragment file below a folder of sets is named as the file of a new fragment is. -/
def NamedById (home : Path) (t : Tree) : Prop :=
  ∀ name id, fileId? name = some id → t.HasFile (lead [] home.parts) name → name = id ++ ending

namespace Session

variable {s : Session} {home folder : Path} {l k : Location} {t u : Tree} {set : Option Text}
  {id : Text} {ids : List Text} {n : Name}

/-! ## The order of ids -/

/-- Whether an id is before another one: by their values, and by their texts where these are equal. -/
def IdBefore (a b : Text) : Prop :=
  Numeral.value a < Numeral.value b ∨ Numeral.value a = Numeral.value b ∧ a < b

theorem IdBefore.asymm {a b : Text} (h : IdBefore a b) : ¬ IdBefore b a := by
  rintro (h' | ⟨h', hlt'⟩)
  · rcases h with h | ⟨h, -⟩ <;> omega
  · rcases h with h | ⟨-, hlt⟩
    · omega
    · exact lt_asymm hlt hlt'

theorem nodup_of_ascend (h : ids.Pairwise IdBefore) : ids.Nodup :=
  h.imp fun hlt e => hlt.asymm (by rwa [e] at hlt ⊢)

theorem idsInOrder_ascend (h : ids.Nodup) : (idsInOrder ids).Pairwise IdBefore := by
  have hle : ∀ a b : Text, (Numeral.value a < Numeral.value b ||
      (Numeral.value a == Numeral.value b && !decide (b < a))) = true ↔
        Numeral.value a < Numeral.value b ∨ Numeral.value a = Numeral.value b ∧ a ≤ b := by
    simp
  have hsorted : (idsInOrder ids).Pairwise fun a b =>
      Numeral.value a < Numeral.value b ∨ Numeral.value a = Numeral.value b ∧ a ≤ b := by
    refine (List.pairwise_mergeSort (fun a b c hab hbc => ?_) (fun a b => ?_) ids).imp (hle _ _).mp
    · rw [hle] at hab hbc ⊢
      rcases hab with hab | ⟨hab, hab'⟩
      · rcases hbc with hbc | ⟨hbc, -⟩ <;> exact .inl (by omega)
      · rcases hbc with hbc | ⟨hbc, hbc'⟩
        · exact .inl (by omega)
        · exact .inr ⟨by omega, le_trans hab' hbc'⟩
    · rw [Bool.or_eq_true, hle, hle]
      rcases Nat.lt_trichotomy (Numeral.value a) (Numeral.value b) with hab | hab | hab
      · exact .inl (.inl hab)
      · exact (le_total a b).imp (fun h => .inr ⟨hab, h⟩) fun h => .inr ⟨hab.symm, h⟩
      · exact .inr (.inl hab)
  have hnodup : (idsInOrder ids).Nodup := (List.mergeSort_perm _ _).nodup_iff.mpr h
  exact hsorted.imp₂ (fun _ _ h hne => h.imp_right fun ⟨e, hle⟩ => ⟨e, lt_of_le_of_ne hle hne⟩) hnodup

/-! ## Looking up -/

theorem node_of_isFile {name : Name} (hr : t.resolve folder = .ok l) (hname : name ≠ Path.above)
    (h : t.isFile (folder.child name) = .ok true) : ∃ c, t.node? (l ++ [name]) = some (.file c) := by
  obtain ⟨k, c, hk, hc⟩ := Tree.isFile_eq_true_iff.mp h
  rw [Tree.resolve_eq_lead hk, lead_child _ hname, ← Tree.resolve_eq_lead hr] at hc
  exact ⟨c, hc⟩

/-- A workspace in which fragments can be looked up and every file is named by its id. -/
structure Filed (s : Session) (home : Path) (t : Tree) : Prop where
  wellFormed : t.WellFormed
  folder : s.folder? = some home
  fits : Tree.Fits home 512
  active : IsSetName s.activeSet
  named : NamedById home t

namespace Filed

theorem sameFiles (h : s.Filed home t) (hw : u.WellFormed) {ls : List Location}
    (hsame : Tree.SameFiles ls t u)
    (hout : ∀ k ∈ ls, ∀ name, k.getLast? = some name → fileId? name = none) : s.Filed home u := by
  refine ⟨hw, h.folder, h.fits, h.active, fun name id hid hfile => ?_⟩
  refine h.named name id hid (hsame.hasFile (fun k hk e => ?_) hfile)
  rw [hout k hk name e] at hid
  cases hid

/-- An id that the name of a file gives is located. -/
theorem located (h : s.Filed home t) (hr : t.resolve home = .ok l)
    (hl : t.node? l = some .folder) {name : Name} (hid : fileId? name = some id)
    (hfile : t.HasFile l name) : ∃ p, s.locate t id = .ok (some p) := by
  have hisId := isId_of_fileId? hid
  obtain rfl := h.named name id hid (Tree.resolve_eq_lead hr ▸ hfile)
  obtain ⟨b, hb⟩ := hasFragment_total h.wellFormed h.folder (h.fits.mono (by decide)) hisId
  cases b with
  | true =>
    obtain ⟨p, hp, hsome⟩ := hasFragment_eq_ok_iff.mp hb
    obtain ⟨p, rfl⟩ := Option.isSome_iff_exists.mp hsome
    exact ⟨p, hp⟩
  | false =>
    have hno := no_file_of_hasFragment h.wellFormed h.folder hr hl (digits_of_isId hisId) hb
    obtain ⟨c, hc | ⟨set, hc⟩⟩ := hfile
    · exact absurd hc (hno c).1
    · exact absurd hc ((hno c).2 set)

/-- The fragment files have ids that are located, and those of located ids are among them. -/
theorem paths (h : s.Filed home t) : ∃ files, s.fragmentPaths t = .ok files ∧
    (∀ p ∈ files, ∃ id q, fileId? p.name = some id ∧ s.locate t id = .ok (some q)) ∧
    ∀ id p, isId id = true → s.locate t id = .ok (some p) → p ∈ files ∧ fileId? p.name = some id := by
  obtain ⟨b, hb⟩ := h.fits.holds t (· == .folder)
  have hfolder : t.isFolder home = .ok b := hb
  cases b with
  | false =>
    have hfolders := fragmentFolders_of_absent h.folder hfolder
    refine ⟨[], by simp [fragmentPaths, hfolders, bind, Except.bind, pure, Except.pure], nofun,
      fun id p _ hp => ?_⟩
    obtain ⟨folders, hfolders', hfirst⟩ := locate_eq_ok hp
    cases hfolders.symm.trans hfolders'
    cases hfirst
  | true =>
    obtain ⟨l, hr, hl⟩ := Tree.isFolder_eq_true_iff.mp hfolder
    obtain ⟨files, hfiles, hmem⟩ := mem_fragmentPaths h.wellFormed h.folder h.fits hr hl
    refine ⟨files, hfiles, fun p hp => ?_, fun id p hid hp => ?_⟩
    · have hname : ∃ name, p.name = name ∧ fileId? name ≠ none ∧ t.HasFile l name := by
        rcases (hmem p).mp hp with ⟨name, c, hid, hc, rfl⟩ | ⟨set, name, c, hid, hc, rfl⟩
        · exact ⟨name, Path.name_child .., hid, c, .inl hc⟩
        · exact ⟨name, Path.name_child .., hid, c, .inr ⟨set, hc⟩⟩
      obtain ⟨name, hname, hid, hfile⟩ := hname
      obtain ⟨id, hid⟩ := Option.ne_none_iff_exists'.mp hid
      obtain ⟨q, hq⟩ := h.located hr hl hid hfile
      exact ⟨id, q, by rw [hname, hid], hq⟩
    · obtain ⟨folders, hfolders, hfirst⟩ := locate_eq_ok hp
      obtain ⟨folder, hf, rfl, hfile⟩ := firstWith_some hfirst
      obtain ⟨hthere, hpaths⟩ := mem_paths_iff h.wellFormed hfiles hfolders
      obtain ⟨k, hk, hn⟩ := hthere folder hf
      rw [folder.fragment_eq_child (digits_of_isId hid)] at hfile ⊢
      obtain ⟨c, hc⟩ := node_of_isFile hk (ending_ne_above id) hfile
      have hgives := fileId?_ending hid
      exact ⟨(hpaths _).mpr ⟨folder, hf, k, _, c, hk, hn, by simp [hgives], hc, rfl⟩,
        by rw [Path.name_child, hgives]⟩

end Filed

/-! ## Listing -/

theorem listIds_of_absent (hset : s.setFolder set = .ok folder)
    (h : t.isFolder folder = .ok false) : s.listIds t set = .ok [] := by
  simp only [listIds, hset, h, ask, Except.mapError, bind, Except.bind, pure, Except.pure,
    Bool.false_eq_true, if_false]

theorem listIds_of_there {j : Nat} (hw : t.WellFormed) (hset : s.setFolder set = .ok folder)
    (hfits : Tree.Fits folder (j + 256)) (hk : t.resolve folder = .ok k)
    (hn : t.node? k = some .folder) :
    s.listIds t set = .ok (idsInOrder ((fragmentIds (t.fileNames k)).map Prod.snd)) := by
  have hfolder : t.isFolder folder = .ok true := Tree.isFolder_eq_true_iff.mpr ⟨k, hk, hn⟩
  simp only [listIds, hset, hfolder, hw.filesIn_of_resolve hfits hk hn, ask, Except.mapError, bind,
    Except.bind, pure, Except.pure, if_true]

theorem listIds_cases (hw : t.WellFormed) (h : s.listIds t set = .ok ids) :
    ∃ folder, s.setFolder set = .ok folder ∧
      ((t.isFolder folder = .ok false ∧ ids = []) ∨ ∃ k, t.resolve folder = .ok k ∧
        t.node? k = some .folder ∧
        ids = idsInOrder ((fragmentIds (t.fileNames k)).map Prod.snd)) := by
  cases hset : s.setFolder set with
  | error f =>
    simp only [listIds, hset, bind, Except.bind] at h
    cases h
  | ok folder =>
    refine ⟨folder, rfl, ?_⟩
    cases hfolder : t.isFolder folder with
    | error e =>
      simp only [listIds, hset, hfolder, ask, Except.mapError, bind, Except.bind] at h
      cases h
    | ok b =>
      cases b with
      | false =>
        cases h.symm.trans (listIds_of_absent hset hfolder)
        exact .inl ⟨rfl, rfl⟩
      | true =>
        cases hnames : t.filesIn folder with
        | error e =>
          simp only [listIds, hset, hfolder, hnames, ask, Except.mapError, bind, Except.bind,
            if_true] at h
          cases h
        | ok names =>
          obtain ⟨k, hk, hn, rfl⟩ := hw.filesIn_eq_ok hnames
          simp only [listIds, hset, hfolder, hnames, ask, Except.mapError, bind, Except.bind, pure,
            Except.pure, if_true, Except.ok.injEq] at h
          exact .inr ⟨k, hk, hn, h.symm⟩

theorem mem_listed (hw : t.WellFormed) :
    id ∈ idsInOrder ((fragmentIds (t.fileNames (l ++ [n]))).map Prod.snd) ↔
      ∃ name c, fileId? name = some id ∧ t.node? (l ++ [n, name]) = some (.file c) := by
  rw [idsInOrder, List.mem_mergeSort, List.mem_map]
  simp only [Prod.exists, exists_eq_right, mem_fragmentIds, hw.mem_fileNames,
    List.append_cons l n [_]]
  exact ⟨fun ⟨name, ⟨c, hc⟩, hid⟩ => ⟨name, c, hid, hc⟩, fun ⟨name, c, hid, hc⟩ => ⟨name, ⟨c, hc⟩, hid⟩⟩

theorem fragmentIds_ascend (hw : t.WellFormed) (k : Location) :
    (fragmentIds (t.fileNames k)).Pairwise fun f f' => f.1 < f'.1 := by
  have hnames : (t.fileNames k).Pairwise (· < ·) :=
    List.pairwise_map.mpr ((hw.names_ascend k).filter _)
  refine List.Pairwise.filterMap _ ?_ hnames
  intro name name' hlt f hf f' hf'
  obtain ⟨id, -, rfl⟩ := Option.map_eq_some_iff.mp hf
  obtain ⟨id', -, rfl⟩ := Option.map_eq_some_iff.mp hf'
  exact hlt

namespace Filed

/-- A set whose name can be that of a file can be listed. -/
theorem listIds_total (h : s.Filed home t) (hn : Tree.IsName n)
    (hset : s.setFolder set = .ok (home.child n)) : ∃ ids, s.listIds t set = .ok ids := by
  obtain ⟨b, hb⟩ := (h.fits.inside hn).holds t (· == .folder)
  have hfolder : t.isFolder (home.child n) = .ok b := hb
  cases b with
  | false => exact ⟨_, listIds_of_absent hset hfolder⟩
  | true =>
    obtain ⟨k, hk, hk'⟩ := Tree.isFolder_eq_true_iff.mp hfolder
    exact ⟨_, listIds_of_there (j := 0) h.wellFormed hset (h.fits.inside hn) hk hk'⟩

/-- The folder of a set that is there lies in the folder of sets. -/
theorem set_there (h : s.Filed home t) (hset : s.setFolder set = .ok folder)
    (hk : t.resolve folder = .ok k) (hn : t.node? k = some .folder) :
    ∃ l n, t.resolve home = .ok l ∧ t.node? l = some .folder ∧ folder = home.child n ∧
      k = l ++ [n] ∧ Tree.IsName n := by
  obtain ⟨n, habove, rfl⟩ := setFolder_eq_ok h.folder h.active hset
  obtain ⟨l, hr, hl⟩ := Tree.isFolder_eq_true_iff.mp
    (h.fits.isFolder_of_child (Tree.isFolder_eq_true_iff.mpr ⟨k, hk, hn⟩))
  obtain rfl : k = l ++ [n] := by
    rw [Tree.resolve_eq_lead hk, Tree.resolve_eq_lead hr, lead_child _ habove]
  exact ⟨l, n, hr, hl, rfl, rfl, (h.wellFormed.canHold hn).isName⟩

/-- The ids that are listed are those of the files in one folder of the folder of sets. -/
theorem listIds (h : s.Filed home t) (hids : s.listIds t set = .ok ids) :
    ids = [] ∨ ∃ l n, t.resolve home = .ok l ∧ t.node? l = some .folder ∧
      s.setFolder set = .ok (home.child n) ∧ t.resolve (home.child n) = .ok (l ++ [n]) ∧
      t.node? (l ++ [n]) = some .folder ∧
      ids = idsInOrder ((fragmentIds (t.fileNames (l ++ [n]))).map Prod.snd) := by
  obtain ⟨folder, hset, ⟨-, rfl⟩ | ⟨k, hk, hn, hids⟩⟩ := listIds_cases h.wellFormed hids
  · exact .inl rfl
  obtain ⟨l, n, hr, hl, rfl, rfl, -⟩ := h.set_there hset hk hn
  exact .inr ⟨l, n, hr, hl, hset, hk, hn, hids⟩

theorem file_of_listed (h : s.Filed home t) (hids : s.listIds t set = .ok ids) (hid : id ∈ ids) :
    ∃ l name, t.resolve home = .ok l ∧ t.node? l = some .folder ∧ fileId? name = some id ∧
      t.HasFile l name := by
  rcases h.listIds hids with rfl | ⟨l, n, hr, hl, -, -, -, rfl⟩
  · cases hid
  · obtain ⟨name, c, hname, hc⟩ := (mem_listed h.wellFormed).mp hid
    exact ⟨l, name, hr, hl, hname, c, .inr ⟨n, hc⟩⟩

theorem located_of_listed (h : s.Filed home t) (hids : s.listIds t set = .ok ids) (hid : id ∈ ids) :
    isId id = true ∧ ∃ p, s.locate t id = .ok (some p) := by
  obtain ⟨l, name, hr, hl, hname, hfile⟩ := h.file_of_listed hids hid
  exact ⟨isId_of_fileId? hname, h.located hr hl hname hfile⟩

theorem listed_ascend (h : s.Filed home t) (hids : s.listIds t set = .ok ids) :
    ids.Pairwise IdBefore := by
  rcases h.listIds hids with rfl | ⟨l, n, hr, -, -, -, -, rfl⟩
  · exact .nil
  refine idsInOrder_ascend (List.pairwise_map.mpr ?_)
  have hnames := fragmentIds_ascend h.wellFormed (l ++ [n])
  -- two files of one id would have one name
  have hname : ∀ f ∈ fragmentIds (t.fileNames (l ++ [n])), f.1 = f.2 ++ ending := by
    rintro ⟨name, id⟩ hm
    obtain ⟨hfile, hid⟩ := mem_fragmentIds.mp hm
    obtain ⟨c, hc⟩ := h.wellFormed.mem_fileNames.mp hfile
    rw [List.append_assoc, List.singleton_append] at hc
    exact h.named name id hid (Tree.resolve_eq_lead hr ▸ ⟨c, .inr ⟨n, hc⟩⟩)
  exact hnames.imp_of_mem fun ha hb hlt e => ne_of_lt hlt (by rw [hname _ ha, hname _ hb, e])

/-- A listed id has one file in the folder of the set. -/
theorem listed_record (h : s.Filed home t) (hids : s.listIds t set = .ok ids)
    (hset : s.setFolder set = .ok folder) (hid : id ∈ ids) :
    (∃ k, t.resolve (folder.fragment id) = .ok k ∧ s.FragmentAt t k) ∧
      folder.fragment id = folder.child (id ++ ending) ∧
      ∀ name, fileId? name = some id → t.isFile (folder.child name) = .ok true →
        folder.child name = folder.fragment id := by
  rcases h.listIds hids with rfl | ⟨l, n, hr, hl, hset', hk, hn, rfl⟩
  · cases hid
  cases hset.symm.trans hset'
  have hof : ∀ name c, fileId? name = some id → t.node? (l ++ [n] ++ [name]) = some (.file c) →
      name = id ++ ending := fun name c hid hc =>
    h.named name id hid (Tree.resolve_eq_lead hr ▸ ⟨c, .inr ⟨n, by rwa [List.append_cons]⟩⟩)
  obtain ⟨name, c, hname, hc⟩ := (mem_listed h.wellFormed).mp hid
  have hisId := isId_of_fileId? hname
  have hchild := (home.child n).fragment_eq_child (digits_of_isId hisId)
  obtain rfl := hof name c hname (by rwa [← List.append_cons])
  have hfile := (h.fits.inside (h.wellFormed.canHold hn).isName).resolve_record hisId hk hn
  obtain ⟨files, hfiles, hmem⟩ := mem_fragmentPaths h.wellFormed h.folder h.fits hr hl
  have hpath := (hmem _).mpr (.inr ⟨n, _, c, by simp [hname], hc, rfl⟩)
  refine ⟨⟨_, hchild ▸ hfile, files, hfiles, _, hpath, hfile⟩, hchild, fun other hother hother' => ?_⟩
  have habove : other ≠ Path.above := fun e => by rw [e] at hother; cases hother
  obtain ⟨c', hc'⟩ := node_of_isFile hk habove hother'
  rw [hchild, hof other c' hother hc']

end Filed

/-! ## New ids -/

theorem randomId_free {digits : Nat → Char} {length : Option Toml.Value} {draw : Draw}
    (h : s.randomId t digits length = .ok draw) : s.hasFragment t draw.id = .ok false := by
  obtain ⟨size, -, h⟩ := bind_eq_ok_iff.mp h
  have hzero : TakenBefore s t digits size.toNat 0 := .zero
  obtain ⟨used, hdrawn, -⟩ := drawFrom_drawn (Nat.zero_add mostAttempts) hzero
  rw [h] at hdrawn
  exact hasFragment_eq_ok_iff.mpr ⟨none, hdrawn.eq_ok.2.1, rfl⟩

theorem not_located_of_free (hfree : s.hasFragment t id = .ok false) (p : Path) :
    s.locate t id ≠ .ok (some p) := by
  intro hp
  obtain ⟨q, hq, hnone⟩ := hasFragment_eq_ok_iff.mp hfree
  cases hp.symm.trans hq
  cases hnone

namespace Filed

theorem not_listed (h : s.Filed home t) (hfree : s.hasFragment t id = .ok false)
    (hids : s.listIds t set = .ok ids) : id ∉ ids := by
  intro hid
  obtain ⟨-, p, hp⟩ := h.located_of_listed hids hid
  exact not_located_of_free hfree p hp

/-- An id that is handed out is not listed before, and if the folder of sets is there not after. -/
theorem allocate (h : s.Filed home t) (hrun : s.allocate.run t = (.ok id, u)) :
    (∀ set ids, s.listIds t set = .ok ids → id ∉ ids) ∧
      (t.isFolder home = .ok true → ∀ set ids, s.listIds u set = .ok ids → id ∉ ids) := by
  rcases allocate_cases h.wellFormed hrun with
    ⟨e, he, -⟩ | ⟨home', start, n, hs, -, -, -, hfree, hadv, hid⟩
  · cases he
  cases hid
  cases h.folder.symm.trans hs
  refine ⟨fun set ids => h.not_listed hfree, fun hfolder set ids hids hid => ?_⟩
  obtain ⟨l, hr, hl⟩ := Tree.isFolder_eq_true_iff.mp hfolder
  have hsame : Tree.SameFiles [lead [] home.parts ++ [cursorName]] t u := by
    rw [hadv.eq, Tree.makeFolders_there hfolder]
    exact Tree.sameFiles_insert t _ _
  have hspare : ∀ k ∈ [lead [] home.parts ++ [cursorName]], ∀ name, k.getLast? = some name →
      fileId? name = none := by
    simp [fileId?_cursorName]
  have hu := h.sameFiles (hadv.wellFormed h.wellFormed) hsame hspare
  obtain ⟨l', name, hr', -, hname, hfile⟩ := hu.file_of_listed hids hid
  obtain rfl : l' = l := (Tree.resolve_eq_lead hr').trans (Tree.resolve_eq_lead hr).symm
  -- the file was there before, since the only one that is new is the cursor's
  have hold : t.HasFile l' name := hsame.hasFile
    (fun k hk e => by rw [hspare k hk name e] at hname; cases hname) hfile
  obtain ⟨p, hp⟩ := h.located hr hl hname hold
  exact not_located_of_free hfree p hp

end Filed

/-! ## Summaries -/

/-- Whether an entry of a summary is read from the one file of a folder that gives its id. -/
structure ReadFrom (label : Text) (t : Tree) (folder : Path) (e : Entry) : Prop where
  file : ∃ name, fileId? name = some e.id ∧ t.isFile (folder.child name) = .ok true ∧
    e.path = folder.child name
  only : ∀ name, fileId? name = some e.id → t.isFile (folder.child name) = .ok true →
    folder.child name = e.path
  page : ∀ page, readPage t e.path = .ok page →
    e.category = page.header.category label ∧ e.body = page.body
  unread : (∀ page, readPage t e.path ≠ .ok page) → e.category = label ∧ e.body = []

theorem ids_scanSet {found : List (Text × List Occurrence)} (h : s.scanSet t set = .ok found)
    (hids : s.listIds t set = .ok ids) (hnodup : ids.Nodup) : found.map Prod.fst = ids := by
  simp only [scanSet, hids, bind, Except.bind, pure, Except.pure] at h
  cases hscan : s.scan t ids with
  | error e =>
    rw [hscan] at h
    cases h
  | ok all =>
    rw [hscan] at h
    cases h
    simp [Function.comp_def, eraseDups_of_nodup hnodup]

theorem scanSet_succeeds (hw : t.WellFormed) {root : Path} (hroot : s.root = some root)
    (hwalk : s.Walkable t root) (hids : s.listIds t set = .ok ids) :
    ∃ found, s.scanSet t set = .ok found := by
  simp only [scanSet, hids, scan_eq hw hroot hwalk, bind, Except.bind, pure, Except.pure]
  exact ⟨_, rfl⟩

theorem entry_eq_ok {occurrences : List Occurrence} {e : Entry}
    (h : s.entry t folder id occurrences = .ok e) : e.id = id ∧ e.path = folder.fragment id ∧
      (∀ page, readPage t e.path = .ok page →
        e.category = page.header.category s.config.defaultCategory ∧ e.body = page.body) ∧
      ((∀ page, readPage t e.path ≠ .ok page) →
        e.category = s.config.defaultCategory ∧ e.body = []) := by
  simp only [entry, read, tolerate_map, bind, Except.bind, pure, Except.pure] at h
  cases hread : tolerate (readPage t (folder.fragment id)) with
  | error f =>
    rw [hread] at h
    cases h
  | ok found =>
    cases hrel : s.relativePath (folder.fragment id) with
    | error f =>
      rw [hread, hrel] at h
      cases h
    | ok relativePath =>
      rw [hread, hrel] at h
      cases h
      cases found with
      | none =>
        refine ⟨rfl, rfl, fun page hpage => ?_, fun _ => ⟨rfl, rfl⟩⟩
        rw [hpage] at hread
        cases hread
      | some page =>
        have hpage := tolerate_eq_ok_some hread
        refine ⟨rfl, rfl, fun page' hpage' => ?_, fun hno => absurd hpage (hno page)⟩
        cases hpage.symm.trans hpage'
        exact ⟨rfl, rfl⟩

theorem entry_succeeds {root : Path} (hroot : s.root = some root) {found : Option Page}
    (hread : tolerate (readPage t (folder.fragment id)) = .ok found) (occurrences : List Occurrence) :
    ∃ e, s.entry t folder id occurrences = .ok e := by
  have hfragment : ∃ fragment, tolerate (s.read t (folder.fragment id)) = .ok fragment := by
    rw [read, tolerate_map, hread]
    exact ⟨_, rfl⟩
  have hrel : ∃ text, s.relativePath (folder.fragment id) = .ok text := by
    rw [relativePath, requireRoot, hroot]
    exact ⟨_, rfl⟩
  obtain ⟨fragment, hfragment⟩ := hfragment
  obtain ⟨text, hrel⟩ := hrel
  simp only [entry, hfragment, hrel, bind, Except.bind, pure, Except.pure]
  exact ⟨_, rfl⟩

namespace Filed

/-- A summary has an entry for each id that is listed, read from the file that it is listed for. -/
theorem summary (h : s.Filed home t) {now : Int} {sm : Summary}
    (hrun : (s.summary now set).run t = (.ok sm, u)) :
    s.listIds u (some sm.set) = .ok (sm.entries.map Entry.id) ∧
      ∃ folder, s.setFolder (some sm.set) = .ok folder ∧
        ∀ e ∈ sm.entries, ReadFrom s.config.defaultCategory u folder e := by
  obtain ⟨hw, hmore, hsm⟩ := summary_spec h.wellFormed hrun
  obtain ⟨folder, found, hset, hscan, hentries⟩ := hsm sm rfl
  have hu := h.sameFiles hw hmore.sameFiles nofun
  cases hids : s.listIds u (some sm.set) with
  | error f =>
    simp only [scanSet, hids, bind, Except.bind] at hscan
    cases hscan
  | ok ids =>
    have hfound := ids_scanSet hscan hids (nodup_of_ascend (hu.listed_ascend hids))
    have hall : sm.entries.map Entry.id = ids := by
      rw [← hfound, eq_comm, ← List.forall₂_eq_eq_eq, List.forall₂_map_left_iff,
        List.forall₂_map_right_iff]
      exact (mapM_eq_ok_iff.mp hentries).imp fun f e he => (entry_eq_ok he).1.symm
    refine ⟨by rw [hall], folder, hset, fun e he => ?_⟩
    obtain ⟨f, -, hentry⟩ := of_mem_mapM hentries he
    obtain ⟨hid, hpath, hread, hunread⟩ := entry_eq_ok hentry
    have hmem : e.id ∈ ids := hall ▸ List.mem_map_of_mem he
    obtain ⟨⟨k, hk, hfragment⟩, hchild, honly⟩ := hu.listed_record hids hset hmem
    obtain ⟨c, hc⟩ := hfragment.file hw
    have hisId := (hu.located_of_listed hids hmem).1
    rw [← hid] at hpath
    have hfile := Tree.isFile_eq_true_iff.mpr ⟨k, c, hk, hc⟩
    exact ⟨⟨_, fileId?_ending hisId, hchild ▸ hfile, hchild ▸ hpath⟩,
      fun name hname hfile => by rw [hpath, honly name hname hfile], hread, hunread⟩

/-- A summary of a set whose folder is there can be made when the records there that are text are
pages and the full scan comes to its end. -/
theorem summary_succeeds (h : s.Filed home t) {root : Path} (hroot : s.root = some root)
    (hwalk : s.Walkable t root) (hparses : ∀ k, s.FragmentAt t k → Parses t k)
    (now : Int) {name : Text} (hne : name ≠ []) (hset : s.setFolder (some name) = .ok folder)
    (hfolder : t.isFolder folder = .ok true) :
    ∃ sm, (s.summary now (some name)).run t = (.ok sm, t) ∧ sm.set = name := by
  obtain ⟨k, hk, hn⟩ := Tree.isFolder_eq_true_iff.mp hfolder
  obtain ⟨-, n, -, -, hchild, -, hname⟩ := h.set_there hset hk hn
  have hroom : Tree.Fits folder 256 := hchild ▸ h.fits.inside hname
  have hids := listIds_of_there (j := 0) h.wellFormed hset hroom hk hn
  obtain ⟨found, hscan⟩ := scanSet_succeeds h.wellFormed hroot hwalk hids
  have hfound := ids_scanSet hscan hids (nodup_of_ascend (h.listed_ascend hids))
  obtain ⟨entries, hentries⟩ : ∃ entries,
      (found.mapM fun f => s.entry t folder f.1 f.2) = .ok entries := by
    refine mapM_succeeds_iff.mpr fun f hf => ?_
    obtain ⟨⟨k, hk, hfragment⟩, -, -⟩ :=
      h.listed_record hids hset (hfound ▸ List.mem_map_of_mem hf)
    obtain ⟨c, hc⟩ := hfragment.file h.wellFormed
    obtain ⟨page, hpage⟩ := tolerated_at hk hc (hparses k hfragment)
    exact entry_succeeds hroot hpage f.2
  have hmade : (s.ensureSet (some name)).run t = (.ok folder, t) := by
    unfold ensureSet
    rw [hset, Work.run_bind_of_ok (Work.run_ofExcept _ _),
      Work.run_bind_of_ok (by rw [Work.run_makeFolders, Tree.makeFolders_there hfolder]), Work.run_pure]
  cases name with
  | nil => exact absurd rfl hne
  | cons c name =>
    refine ⟨{ set := c :: name, generated := Time.stamp now, entries }, ?_, rfl⟩
    unfold Session.summary
    simp only
    rw [Work.run_bind_of_ok hmade, Work.run_bind_of_ok (by rw [Work.run_inspect, hscan]),
      Work.run_bind_of_ok (by rw [Work.run_inspect, hentries]), Work.run_pure]

end Filed

/-! ## Agreement -/

/-- How what is listed in a workspace and what is located agree. -/
structure ListingsAgree (s : Session) (home : Path) (t : Tree) : Prop where
  returns : ∀ set n, Tree.IsName n → s.setFolder set = .ok (home.child n) →
    ∃ ids, s.listIds t set = .ok ids
  /-- The ids of a set ascend, and each is located. -/
  listed : ∀ set ids, s.listIds t set = .ok ids → ids.Pairwise IdBefore ∧ ids.Nodup ∧
    ∀ id ∈ ids, isId id = true ∧ ∃ p, s.locate t id = .ok (some p)
  /-- The fragment files are those of the ids that are located. -/
  paths : ∃ files, s.fragmentPaths t = .ok files ∧
    (∀ p ∈ files, ∃ id q, fileId? p.name = some id ∧ s.locate t id = .ok (some q)) ∧
    ∀ id p, isId id = true → s.locate t id = .ok (some p) → p ∈ files ∧ fileId? p.name = some id
  /-- No new id is one that is listed. -/
  allocated : ∀ id u, s.allocate.run t = (.ok id, u) →
    (∀ set ids, s.listIds t set = .ok ids → id ∉ ids) ∧
    (t.isFolder home = .ok true → ∀ set ids, s.listIds u set = .ok ids → id ∉ ids)
  drawn : ∀ digits length draw, s.randomId t digits length = .ok draw →
    ∀ set ids, s.listIds t set = .ok ids → draw.id ∉ ids
  /-- A summary of a set shows each of its ids from the one file that gives it. -/
  summarized : ∀ now set sm u, (s.summary now set).run t = (.ok sm, u) →
    s.listIds u (some sm.set) = .ok (sm.entries.map Entry.id) ∧
    ∃ folder, s.setFolder (some sm.set) = .ok folder ∧
      ∀ e ∈ sm.entries, ReadFrom s.config.defaultCategory u folder e
  summarizes : ∀ root, s.root = some root → s.Walkable t root →
    (∀ k, s.FragmentAt t k → Parses t k) → ∀ now name folder, name ≠ [] →
    s.setFolder (some name) = .ok folder → t.isFolder folder = .ok true →
    ∃ sm, (s.summary now (some name)).run t = (.ok sm, t) ∧ sm.set = name

/-- They agree when every fragment file is named by its id. -/
theorem listing_agrees (hw : t.WellFormed) (hs : s.folder? = some home)
    (hfits : Tree.Fits home 512) (hactive : IsSetName s.activeSet) (hnamed : NamedById home t) :
    s.ListingsAgree home t := by
  have h : s.Filed home t := ⟨hw, hs, hfits, hactive, hnamed⟩
  exact
    { returns := fun set n => h.listIds_total
      listed := fun set ids hids => ⟨h.listed_ascend hids, nodup_of_ascend (h.listed_ascend hids),
        fun id => h.located_of_listed hids⟩
      paths := h.paths
      allocated := fun id u => h.allocate
      drawn := fun digits length draw hdraw set ids => h.not_listed (randomId_free hdraw)
      summarized := fun now set sm u => h.summary
      summarizes := fun root hroot hwalk hparses now name folder =>
        h.summary_succeeds hroot hwalk hparses now }

/-- A record in a set. -/
def oneFiled : Tree :=
  ⟨[([".cms".toList], .folder), ([".cms".toList, "default".toList], .folder),
    ([".cms".toList, "default".toList, "5.md".toList],
      .file (.text "---\ncategory: TODO\n---\n\nx".toList))]⟩

theorem namedById_oneFiled :
    NamedById { slashes := 1, parts := [".cms".toList] } oneFiled := by
  rintro name id hid ⟨c, hc⟩
  have hname : name = "5.md".toList := by
    rcases hc with hc | ⟨set, hc⟩
    · have hentry := Tree.mem_entries (by simp) hc
      simp [oneFiled, lead, Path.above] at hentry
    · have hentry := Tree.mem_entries (by simp) hc
      have hat : (set = "default".toList ∧ name = "5.md".toList) ∧
          c = .text "---\ncategory: TODO\n---\n\nx".toList := by
        simpa [oneFiled, lead, Path.above] using hentry
      exact hat.1.2
  subst hname
  have h5 : fileId? "5.md".toList = some ['5'] := by decide
  cases h5.symm.trans hid
  rfl

theorem parses_oneFiled {k : Location}
    (hk : FragmentAt { root := some { slashes := 1 } } oneFiled k) : Parses oneFiled k := by
  intro text htext
  obtain ⟨c, hentry⟩ := hk.entry (by decide)
  simp only [oneFiled, List.mem_cons, Prod.mk.injEq, reduceCtorEq, and_false,
    List.not_mem_nil, or_false, false_or] at hentry
  obtain ⟨rfl, -⟩ := hentry
  cases htext
  exact ⟨_, rfl⟩

theorem listing_agrees_oneFiled :
    listIds { root := some { slashes := 1 } } oneFiled none = .ok [['5']] ∧
      (∃ p, locate { root := some { slashes := 1 } } oneFiled ['5'] = .ok (some p)) ∧
      (∀ id u, (allocate { root := some { slashes := 1 } }).run oneFiled = (.ok id, u) → id ≠ ['5']) ∧
      ∃ sm, (summary { root := some { slashes := 1 } } 0 (some defaultSet)).run oneFiled =
        (.ok sm, oneFiled) ∧ sm.entries.map Entry.id = [['5']] ∧
        ∀ e ∈ sm.entries, e.category = "TODO".toList ∧ e.body = ['x'] := by
  have hids : listIds { root := some { slashes := 1 } } oneFiled none = .ok [['5']] := by decide +kernel
  have hset : setFolder { root := some { slashes := 1 } } (some defaultSet) =
      .ok { slashes := 1, parts := [".cms".toList, "default".toList] } := by decide +kernel
  have hs : folder? { root := some { slashes := 1 } } =
      some { slashes := 1, parts := [".cms".toList] } := by decide
  have hwalk : Walkable { root := some { slashes := 1 } } oneFiled { slashes := 1 } :=
    Tree.Walkable.of_entries [] (by decide) (by decide)
  have hagree := listing_agrees (t := oneFiled) (by decide) hs ⟨by decide, by decide, by decide⟩
    ⟨⟨by decide, by decide, by decide⟩, by decide, by decide, by decide⟩ namedById_oneFiled
  obtain ⟨sm, hrun, hsm⟩ :=
    hagree.summarizes _ rfl hwalk (fun _ => parses_oneFiled) 0 defaultSet _ (by decide) hset (by decide +kernel)
  obtain ⟨hentries, folder, hfolder, hread⟩ := hagree.summarized 0 _ sm _ hrun
  have hsame : listIds { root := some { slashes := 1 } } oneFiled (some defaultSet) = .ok [['5']] := by
    decide +kernel
  rw [hsm, hsame, Except.ok.injEq] at hentries
  refine ⟨hids, ((hagree.listed none _ hids).2.2 ['5'] (by simp)).2,
    fun id u hu e => (hagree.allocated id u hu).1 none _ hids (by simp [e]), sm, hrun, hentries.symm,
    fun e he => ?_⟩
  rw [hsm, hset, Except.ok.injEq] at hfolder
  subst hfolder
  have hid : e.id = ['5'] := List.mem_singleton.mp (hentries ▸ List.mem_map_of_mem he)
  have hpath := (hread e he).only "5.md".toList (by rw [hid]; decide) (by decide +kernel)
  have hpage : readPage oneFiled e.path =
      .ok ⟨⟨[(Header.categoryKey, "TODO".toList)], {}, none⟩, ['x']⟩ := by
    rw [← hpath]
    decide +kernel
  obtain ⟨hcategory, hbody⟩ := (hread e he).page _ hpage
  exact ⟨by rw [hcategory]; decide, hbody⟩

/-- A record whose file has capitals in its ending, and a record of the same id. -/
def capital : Tree :=
  ⟨[([".cms".toList], .folder), ([".cms".toList, "default".toList], .folder),
    ([".cms".toList, "default".toList, "5.MD".toList], .file (.text []))]⟩

def capitalAndSmall : Tree :=
  ⟨[([".cms".toList], .folder), ([".cms".toList, "default".toList], .folder),
    ([".cms".toList, "default".toList, "5.MD".toList], .file (.text [])),
    ([".cms".toList, "default".toList, "5.md".toList], .file (.text []))]⟩

theorem capitals_disagree :
    (listIds { root := some { slashes := 1 } } capital none = .ok [['5']] ∧
      locate { root := some { slashes := 1 } } capital ['5'] = .ok none) ∧
      listIds { root := some { slashes := 1 } } capitalAndSmall none = .ok [['5'], ['5']] := by
  have hchildren : capitalAndSmall.children [".cms".toList, "default".toList] =
      [("5.MD".toList, .file (.text [])), ("5.md".toList, .file (.text []))] :=
    List.mergeSort_of_pairwise (by decide +kernel)
  have hset : setFolder { root := some { slashes := 1 } } none =
      .ok { slashes := 1, parts := [".cms".toList, "default".toList] } := by decide +kernel
  have hfolder : capitalAndSmall.isFolder
      { slashes := 1, parts := [".cms".toList, "default".toList] } = .ok true := by decide +kernel
  have hnames : capitalAndSmall.filesIn
      { slashes := 1, parts := [".cms".toList, "default".toList] } =
        .ok ["5.MD".toList, "5.md".toList] := by
    obtain ⟨l, hr, hl⟩ := Tree.isFolder_eq_true_iff.mp hfolder
    obtain rfl : l = [".cms".toList, "default".toList] := Tree.resolve_eq_lead hr
    rw [Tree.filesIn, Tree.listing_of_resolve hr hl, hchildren]
    decide +kernel
  have hsorted : idsInOrder [['5'], ['5']] = [['5'], ['5']] :=
    List.mergeSort_of_pairwise (by decide +kernel)
  refine ⟨⟨by decide +kernel, by decide +kernel⟩, ?_⟩
  simp only [listIds, hset, hfolder, hnames, ask, Except.mapError, bind, Except.bind, pure,
    Except.pure, if_true]
  exact congrArg Except.ok hsorted

end Session

end Marginalia
