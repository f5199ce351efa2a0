import Marginalia.Proofs.Session.Migration
import Marginalia.Proofs.Session.Places
import Marginalia.Proofs.Session.Sequence
import Marginalia.Proofs.Session.Touches

/-!
# Tidy workspaces

A workspace is `Tidy` when no id has two files among the fragments and no folder is in the place of
a record. What makes no records is `Quiet`: all folders and files stay, and no file or folder comes
into the place of a fragment. Quiet steps in a row are quiet, and so is each change that a session
makes where the folder of sets can be made (`Passable.touch`), unless it makes a record. Switching
sets, moving the cursor, noting counts, writing summaries and migrating files are all calm, then.
Making a record is not, and `ensure_place` says where it is put.
-/

namespace Marginalia

/-- Whether all files are still there, whatever they hold. -/
def Tree.FilesStay (t t' : Tree) : Prop :=
  ∀ l, (∃ c, t.node? l = some (.file c)) → ∃ c, t'.node? l = some (.file c)

theorem Tree.FilesStay.trans {t t' t'' : Tree} (h : FilesStay t t') (h' : FilesStay t' t'') :
    FilesStay t t'' := fun l hl => h' l (h l hl)

theorem Tree.Extends.filesStay {t t' : Tree} (h : Extends t t') : FilesStay t t' :=
  fun l ⟨c, hc⟩ => ⟨c, h l _ hc⟩

namespace Session

/-! ## Places of fragments -/

/-- Whether an id consists of digits. It may have more of them than the id of a marker. -/
def IsNumeral (id : Text) : Prop := id ≠ [] ∧ ∀ c ∈ id, isAsciiDigit c = true

/-- Whether the file of an id may be at a location: in the folder of sets or in a folder there. -/
def IsPlace (home : Path) (id : Text) (l : Location) : Prop :=
  l = lead [] home.parts ++ [id ++ ending] ∨ ∃ set, l = recordPlace home set id

/-- No id has two files, and no folder is in the place of a record. -/
structure Tidy (home : Path) (t : Tree) : Prop where
  once : ∀ id, IsNumeral id → ∀ k l, IsPlace home id k → IsPlace home id l →
    (∃ c, t.node? k = some (.file c)) → (∃ c, t.node? l = some (.file c)) → k = l
  free : ∀ set id, IsNumeral id → t.node? (recordPlace home set id) ≠ some .folder

/-- No folder has to be made in the place of a record on the way to the folder of sets. -/
structure Passable (home : Path) (t : Tree) : Prop where
  wellFormed : t.WellFormed
  way : ∀ set id, IsNumeral id → recordPlace home set id ∈ visited [] home.parts →
    t.node? (recordPlace home set id) = some .folder

/-- A tidy workspace whose folder of sets is there, unless its path has no double dot. -/
structure Settled (home : Path) (t : Tree) : Prop extends Tidy home t where
  wellFormed : t.WellFormed
  reach : Path.above ∉ home.parts ∨ t.isFolder home = .ok true

/-- Nothing goes away, files may change, and no file or folder comes into the place of a fragment.
-/
structure Quiet (home : Path) (t t' : Tree) : Prop where
  wellFormed : t'.WellFormed
  folders : Tree.FoldersStay t t'
  files : Tree.FilesStay t t'
  made : ∀ id, IsNumeral id → ∀ l, IsPlace home id l → (∃ c, t'.node? l = some (.file c)) →
    ∃ c, t.node? l = some (.file c)
  free : ∀ set id, IsNumeral id → t'.node? (recordPlace home set id) = some .folder →
    t.node? (recordPlace home set id) = some .folder

variable {home : Path} {t t' t'' : Tree} {id : Text} {s : Session} {l : Location}

theorem IsPlace.getLast? (h : IsPlace home id l) : l.getLast? = some (id ++ ending) := by
  rcases h with rfl | ⟨set, rfl⟩
  · simp
  · simp [recordPlace]

theorem isPlace_record (home : Path) (set : Name) (id : Text) :
    IsPlace home id (recordPlace home set id) := .inr ⟨set, rfl⟩

/-- The places of different ids are different. -/
theorem IsPlace.id_unique {id' : Text} (h : IsPlace home id l) (h' : IsPlace home id' l) : id = id' := by
  have hlast := h.getLast?
  rw [h'.getLast?, Option.some.injEq] at hlast
  exact (List.append_cancel_right hlast).symm

/-- The cursor file is no fragment. -/
theorem not_isPlace_cursor (home : Path) (id : Text) : ¬ IsPlace home id (cursorPlace home) := by
  intro h
  have hlast := h.getLast?
  rw [cursorPlace, List.getLast?_concat, Option.some.injEq] at hlast
  have hend := getLast?_ending id
  rw [← hlast] at hend
  cases hend

theorem noFile_iff : NoFile home id t ↔
    ∀ l, IsPlace home id l → ∀ c, t.node? l ≠ some (.file c) := by
  constructor
  · rintro h l (rfl | ⟨set, rfl⟩) c
    · exact (h c).1
    · exact (h c).2 set
  · exact fun h c => ⟨h _ (.inl rfl) c, fun set => h _ (isPlace_record home set id) c⟩

/-! ## Quiet steps -/

namespace Quiet

theorem refl (hw : t.WellFormed) : Quiet home t t :=
  ⟨hw, fun _ h => h, fun _ h => h, fun _ _ _ _ h => h, fun _ _ _ h => h⟩

theorem trans (h : Quiet home t t') (h' : Quiet home t' t'') : Quiet home t t'' where
  wellFormed := h'.wellFormed
  folders := fun l hl => h'.folders l (h.folders l hl)
  files := h.files.trans h'.files
  made := fun id hid l hl hc => h.made id hid l hl (h'.made id hid l hl hc)
  free := fun set id hid hf => h.free set id hid (h'.free set id hid hf)

theorem noFile (h : Quiet home t t') (hid : IsNumeral id) (hno : NoFile home id t) :
    NoFile home id t' := by
  rw [noFile_iff] at hno ⊢
  intro l hl c hc
  obtain ⟨c', hc'⟩ := h.made id hid l hl ⟨c, hc⟩
  exact hno l hl c' hc'

theorem of_kinds (hw : t'.WellFormed) (h : t.SameKinds t') : Quiet home t t' := by
  have hback : ∀ l n, t'.node? l = some n → (t.node? l).map Node.isFolder = some n.isFolder :=
    fun l n hn => by rw [← h l, hn]; rfl
  refine ⟨hw, fun l hl => ?_, fun l ⟨c, hc⟩ => h.file_of_file hc, fun id _ l _ ⟨c, hc⟩ => ?_,
    fun set id _ hf => ?_⟩
  · rcases h.cases l with ⟨ht, -⟩ | ⟨-, ht'⟩ | ⟨c, -, ht, -⟩
    · rw [hl] at ht; cases ht
    · exact ht'
    · rw [hl] at ht; cases ht
  · rcases h.cases l with ⟨-, ht'⟩ | ⟨-, ht'⟩ | ⟨c', -, ht, -⟩
    · rw [hc] at ht'; cases ht'
    · rw [hc] at ht'; cases ht'
    · exact ⟨c', ht⟩
  · rcases h.cases (recordPlace home set id) with ⟨-, ht'⟩ | ⟨ht, -⟩ | ⟨-, c, -, ht'⟩
    · rw [hf] at ht'; cases ht'
    · exact ht
    · rw [hf] at ht'; cases ht'

/-- A file that is no fragment may be written where no folder is. -/
theorem insert_file {c : Content} (hw : (t.insert l (.file c)).WellFormed) (hl : l ≠ [])
    (hfree : t.node? l ≠ some .folder) (hout : ∀ id, IsNumeral id → ¬ IsPlace home id l) :
    Quiet home t (t.insert l (.file c)) := by
  refine ⟨hw, Tree.foldersStay_insert t _ hfree, fun k hk => ?_, fun id hid k hk hc => ?_,
    fun set id hid hf => ?_⟩
  · rw [Tree.node?_insert t hl]
    split
    · exact ⟨_, rfl⟩
    · exact hk
  · have hne : k ≠ l := fun e => hout id hid (e ▸ hk)
    rwa [Tree.node?_insert_of_ne t hne] at hc
  · have hne : recordPlace home set id ≠ l := fun e =>
      hout id hid (e ▸ isPlace_record home set id)
    rwa [Tree.node?_insert_of_ne t hne] at hf

end Quiet

theorem Passable.quiet (h : Passable home t) (hq : Quiet home t t') : Passable home t' :=
  ⟨hq.wellFormed, fun set id hid hl => hq.folders _ (h.way set id hid hl)⟩

theorem Settled.quiet (h : Settled home t) (hq : Quiet home t t') : Settled home t' where
  once := fun id hid k l hk hl hck hcl =>
    h.once id hid k l hk hl (hq.made id hid k hk hck) (hq.made id hid l hl hcl)
  free := fun set id hid hf => h.free set id hid (hq.free set id hid hf)
  wellFormed := hq.wellFormed
  reach := h.reach.imp_right fun hf => by
    obtain ⟨l, hr, hl⟩ := Tree.isFolder_eq_true_iff.mp hf
    exact Tree.isFolder_eq_true_iff.mpr ⟨l, hq.folders.resolve hr, hq.folders l hl⟩

end Session

/-! ## Folders on the way -/

namespace Session

variable {home : Path} {t t' t'' : Tree} {id : Text} {s : Session} {l : Location}

theorem Passable.of_plain (hw : t.WellFormed) (hplain : Path.above ∉ home.parts) :
    Passable home t := by
  refine ⟨hw, fun set id _ hl => ?_⟩
  obtain ⟨m, -, hm, e⟩ := visited_of_plain hplain hl
  have hlen := congrArg List.length e
  rw [recordPlace, lead_of_plain hplain] at hlen
  simp at hlen
  omega

theorem Settled.passable (h : Settled home t) : Passable home t := by
  rcases h.reach with hplain | hf
  · exact .of_plain h.wellFormed hplain
  · obtain ⟨k, hr, hk⟩ := Tree.isFolder_eq_true_iff.mp hf
    exact ⟨h.wellFormed, fun set id _ hl =>
      Tree.folder_of_visited (Tree.resolve_eq_ok_iff.mp hr).2.2 hk hl⟩

/-- No folder that is new on the way to a set is in the place of a record. -/
theorem Passable.way_set (h : Passable home t) {set : Name} (hset : set ≠ Path.above) {set' : Name}
    (hid : IsNumeral id) (hl : recordPlace home set' id ∈ visited [] (home.child set).parts) :
    t.node? (recordPlace home set' id) = some .folder := by
  rw [Path.child_parts, visited_append, List.mem_append, visited, if_neg hset] at hl
  rcases hl with hl | hl
  · exact h.way set' id hid hl
  · have hlen := congrArg List.length (List.mem_singleton.mp hl)
    simp [recordPlace] at hlen

theorem Passable.folders (h : Passable home t) {set : Name} (hset : set ≠ Path.above)
    (hw : t'.WellFormed) (hadds : Tree.AddsFolders (visited [] (home.child set).parts) t t') :
    Quiet home t t' := by
  refine ⟨hw, hadds.foldersStay, fun l ⟨c, hc⟩ => ⟨c, (hadds.file_iff l c).mpr hc⟩,
    fun id _ l _ ⟨c, hc⟩ => ⟨c, (hadds.file_iff l c).mp hc⟩, fun set' id hid hf => ?_⟩
  rcases hadds (recordPlace home set' id) with e | ⟨hl, -, -⟩
  · exact e ▸ hf
  · exact h.way_set hset hid hl

theorem Passable.folders_home (h : Passable home t) (hw : t'.WellFormed)
    (hadds : Tree.AddsFolders (visited [] home.parts) t t') : Quiet home t t' := by
  have hset : defaultSet ≠ Path.above := by decide
  exact h.folders hset hw (hadds.mono fun _ => visited_home)

/-- The file of a fragment was there before a change, unless its name is one of a file that may be
new. -/
theorem Touch.fragment_file {sets names : List Name} {c : Content}
    (h : Touch home sets names t t') (hw : t.WellFormed) (hname : id ++ ending ∉ names)
    (hl : IsPlace home id l) (hc : t'.node? l = some (.file c)) :
    ∃ c', t.node? l = some (.file c') := by
  rcases h.file_cases hw hc with ⟨c', hc', -⟩ | ⟨set, -, name, hmem, rfl⟩
  · exact ⟨c', hc'⟩
  · have hlast := hl.getLast?
    simp only [List.getLast?_append, List.getLast?_cons_cons, List.getLast?_singleton,
      Option.some_or, Option.some.injEq] at hlast
    exact absurd (hlast ▸ hmem) hname

/-- A change is quiet when no file that may be new has the name of a fragment's file. -/
theorem Passable.touch (h : Passable home t) {sets names : List Name}
    (hnames : ∀ id, IsNumeral id → id ++ ending ∉ names) (ht : Touch home sets names t t') :
    Quiet home t t' where
  wellFormed := ht.wellFormed h.wellFormed
  folders := ht.foldersStay h.wellFormed
  files := fun _ ⟨_, hc⟩ => ht.file_stays h.wellFormed hc
  made := fun id hid _ hl ⟨_, hc⟩ => ht.fragment_file h.wellFormed (hnames id hid) hl hc
  free := by
    intro set id hid hf
    rcases ht.folder_cases h.wellFormed hf with hold | ⟨-, set', -, hset', hvisited⟩
    · exact hold
    · exact h.way_set hset' hid hvisited

/-- Where a record is made, or was already. -/
theorem ensure_place (hw : t.WellFormed) (hs : s.folder? = some home)
    (hactive : IsSetName s.activeSet) (hid : ∀ c ∈ id, isAsciiDigit c = true) {now : Int}
    {set : Option Text} {m : Created} (hrun : (s.ensure now set id).run t = (.ok m, t')) :
    ∃ name, name ≠ Path.above ∧ m.path = (home.child name).fragment id ∧ ∃ t₁, t₁.WellFormed ∧
      Tree.AddsFolders (visited [] (home.child name).parts) t t₁ ∧
      ((m.created = true ∧ t₁.node? (recordPlace home name id) = none ∧
          ∃ c, t' = t₁.insert (recordPlace home name id) (.file c)) ∨
        (m.created = false ∧ t₁.node? (recordPlace home name id) ≠ none ∧ t' = t₁)) := by
  obtain ⟨-, -, hmade⟩ := ensure_spec hw hrun
  obtain ⟨p, hp, -, hpath, hcases⟩ := hmade m rfl
  obtain ⟨name, hname, rfl⟩ := setFolder_eq_ok hs hactive hp
  obtain ⟨hw₁, hadds⟩ := Tree.makeFolders_adds hw (home.child name)
  have hplace : ∀ l, (t.makeFolders (home.child name)).1.resolve m.path = .ok l →
      l = recordPlace home name id := by
    intro l hl
    rw [Tree.resolve_eq_lead hl, hpath, Path.fragment_eq_child _ hid, recordPlace,
      lead_child _ (ending_ne_above id), lead_child _ hname]
    simp
  refine ⟨name, hname, hpath, _, hw₁, hadds, ?_⟩
  rcases hcases with ⟨hcreated, l, hl, -, hnone, rfl⟩ | ⟨hcreated, hoccupied, rfl⟩
  · cases hplace l hl
    exact .inl ⟨hcreated, hnone, _, rfl⟩
  · obtain ⟨l, n, hl, hn⟩ := Tree.create_eq_occupied hoccupied
    cases hplace l hl
    exact .inr ⟨hcreated, by rw [hn]; simp, rfl⟩

/-! ## Sessions that work -/

/-- A session works on a folder of sets below a root, with an active set that can be had. -/
structure Works (s : Session) (root : Path) (folder : Text) : Prop extends s.On root folder where
  set : IsSetName s.activeSet

variable {root : Path} {folder : Text} {name : Option Text} {s' : Session}

/-- A session works from the start. -/
theorem works_default {config : Config} (root : Path) (h : config.folder = folder) :
    ({ root := some root, config } : Session).Works root folder := by
  have hset : IsSetName defaultSet :=
    ⟨⟨by decide, by decide, by decide⟩, by decide, by decide, by decide⟩
  exact ⟨⟨rfl, h⟩, hset⟩

/-- A session works on after it has switched sets. -/
theorem Works.switchSet (hs : s.Works root folder) (hw : t.WellFormed)
    (h : (s.switchSet name).run t = (.ok s', t')) : s'.Works root folder := by
  obtain ⟨-, -, hactive⟩ := switchSet_spec hs.folder? hw h
  obtain ⟨n, hn, rfl⟩ := hactive s' rfl
  exact ⟨⟨hs.root, hs.folder⟩, hn⟩

/-- Activation makes folders, and the new active set is one that can be had. -/
theorem activate_spec (hs : s.folder? = some home) (hactive : IsSetName s.activeSet)
    (hw : t.WellFormed) {r : Except Fault Session} (h : (s.activate name).run t = (r, t')) :
    t'.WellFormed ∧ Tree.SameFiles [] t t' ∧
      ∀ s', r = .ok s' → ∃ n, IsSetName n ∧ s' = { s with activeSet := n } := by
  obtain ⟨root, hroot, -⟩ := Option.map_eq_some_iff.mp hs
  rw [activate_eq, hroot] at h
  rcases hset : (s.ensureSet (some defaultSet)).run t with ⟨_ | p, t₁⟩
  · obtain ⟨hw₁, hmore, -⟩ := ensureSet_spec hw hset
    simp only [Work.run_bind_of_error hset] at h
    cases h
    exact ⟨hw₁, hmore.sameFiles, nofun⟩
  · obtain ⟨hw₁, hmore, -⟩ := ensureSet_spec hw hset
    have hstays : t₁.WellFormed ∧ Tree.SameFiles [] t t₁ ∧
        ∀ s', (.ok s : Except Fault Session) = .ok s' →
          ∃ n, IsSetName n ∧ s' = { s with activeSet := n } :=
      ⟨hw₁, hmore.sameFiles, fun s' e => ⟨_, hactive, (Except.ok.inj e).symm⟩⟩
    simp only [Work.run_bind_of_ok hset] at h
    split at h
    · cases h
      exact hstays
    · cases h
      exact hstays
    · obtain ⟨hw₂, hmore', hs'⟩ := switchSet_spec hs hw₁ h
      exact ⟨hw₂, hmore.sameFiles.trans hmore'.sameFiles, hs'⟩

/-- A session works on after it was activated. -/
theorem Works.activate (hs : s.Works root folder) (hw : t.WellFormed)
    (h : (s.activate name).run t = (.ok s', t')) : s'.Works root folder := by
  obtain ⟨-, -, hactive⟩ := activate_spec hs.folder? hs.set hw h
  obtain ⟨n, hn, rfl⟩ := hactive s' rfl
  exact ⟨⟨hs.root, hs.folder⟩, hn⟩

/-! ## Calm work -/

/-- Work that is quiet wherever the folder of sets can be made, whether it fails or not. -/
def Calm {α : Type} (home : Path) (w : Work α) : Prop :=
  ∀ t, Passable home t → Quiet home t (w.run t).2

namespace Calm

variable {α β : Type} {w : Work α}

theorem bind {f : α → Work β} (hw : Calm home w) (hf : ∀ a, Calm home (f a)) :
    Calm home (w >>= f) := by
  intro t ht
  have hfirst := hw t ht
  rw [Work.run_bind]
  rcases hrun : w.run t with ⟨r, t₁⟩
  rw [hrun] at hfirst
  cases r with
  | error e => exact hfirst
  | ok a => exact hfirst.trans (hf a t₁ (ht.quiet hfirst))

theorem ofExcept (r : Except Fault α) : Calm home (Work.ofExcept r) := fun _ ht =>
  .refl ht.wellFormed

theorem inspect (look : Tree → Except Fault α) : Calm home (Work.inspect look) := fun _ ht =>
  .refl ht.wellFormed

/-- Work is calm whose changes are known, when none of the names is one of a fragment's file. -/
theorem of_touches (sets names : List Name)
    (hnames : ∀ id, IsNumeral id → id ++ ending ∉ names) (hw : Touches home sets names w) :
    Calm home w := by
  intro t ht
  have hrow := hw t
  generalize (w.run t).2 = t' at hrow
  induction hrow with
  | refl => exact .refl ht.wellFormed
  | tail _ hlast ih => exact ih.trans ((ht.quiet ih).touch hnames hlast)

/-! ### Folders and the cursor -/

section

variable (hs : s.folder? = some home)
include hs

theorem ensureSet (hactive : IsSetName s.activeSet) (set : Option Text) :
    Calm home (s.ensureSet set) :=
  of_touches _ [] (by simp) (Touches.ensureSet hs hactive (List.Subset.refl _))

theorem switchSet (name : Option Text) : Calm home (s.switchSet name) :=
  of_touches _ [] (by simp) (Touches.switchSet hs (List.Subset.refl _))

theorem activate (hactive : IsSetName s.activeSet) (name : Option Text) :
    Calm home (s.activate name) :=
  of_touches _ [] (by simp)
    (Touches.activate hs hactive List.mem_cons_self (List.subset_cons_self defaultSet _))

theorem writeNextId (n : Nat) : Calm home (s.writeNextId n) := by
  intro t ht
  rcases hrun : (s.writeNextId n).run t with ⟨r, t'⟩
  rcases writeNextId_cases ht.wellFormed hs hrun with ⟨e, -, hw, hadds⟩ | ⟨-, hadv⟩
  · exact ht.folders_home hw hadds
  · obtain ⟨hw, hadds⟩ := Tree.makeFolders_adds ht.wellFormed home
    have hw' := hadv.wellFormed ht.wellFormed
    have hfolders := ht.folders_home hw hadds
    show Quiet home t t'
    rw [hadv.eq] at hw' ⊢
    exact hfolders.trans (.insert_file hw' (by simp) hadv.noFolder
      fun _ _ => not_isPlace_cursor home _)

theorem allocate : Calm home s.allocate :=
  bind (ofExcept _) fun _ => bind (inspect _) fun _ => bind (inspect _) fun _ =>
    bind (writeNextId hs _) fun _ => ofExcept _

end

/-! ### Counts, summaries and migration -/

theorem onSave (s : Session) (path text : Text) : Calm home (s.onSave path text) :=
  of_touches [] [] (by simp) (Touches.onSave s path text)

theorem refresh (s : Session) (id : Text) : Calm home (s.refresh id) :=
  of_touches [] [] (by simp) (Touches.refresh s id)

/-- A summary has the name of no fragment's file. -/
theorem ending_ne_summary (format : SummaryFormat) (hid : IsNumeral id) :
    id ++ ending ≠ format.fileName := by
  intro e
  obtain ⟨c, rest, rfl⟩ := List.exists_cons_of_ne_nil hid.1
  have hhead : format.fileName.head? = some 'S' := by cases format <;> rfl
  rw [← e] at hhead
  cases hhead
  exact absurd (hid.2 'S' List.mem_cons_self) (by decide)

theorem summarize (hs : s.folder? = some home) (hactive : IsSetName s.activeSet) (now : Int)
    (set : Option Text) (format : SummaryFormat) : Calm home (s.summarize now set format) :=
  of_touches _ [format.fileName]
    (fun _ hid => by simpa using ending_ne_summary format hid)
    (Touches.summarize hs hactive now (List.Subset.refl _) List.mem_cons_self)

end Calm

theorem Settled.migrate (h : Settled home t) (s : Session) (levels : Nat) (root : Path)
    (dryRun : Bool) : Quiet home t ((s.migrate levels root dryRun).run t).2 :=
  have ⟨hw, hkinds⟩ := run_migrate_kinds h.wellFormed s levels root dryRun
  .of_kinds hw hkinds

end Session

end Marginalia
