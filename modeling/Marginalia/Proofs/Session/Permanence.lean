import Marginalia.Proofs.Session.Sequence
import Marginalia.Proofs.Session.Tidy

/-!
# Records are unique and stay

A record is made where its id has no file (`Makes`), and then a tidy workspace is tidy as before
(`Makes.settled`). In a tidy workspace an id is located where its one file is (`Settled.locate`). So
whatever any number of sessions do, each record is made once and stays where it is (`records_stay`).
It takes that the folder of sets is there when its path turns back at a double dot: else it counts
as empty (`record_made_twice`).
-/

namespace Marginalia

namespace Session

variable {home : Path} {t t' t'' : Tree} {id : Text} {s : Session}

/-! ## Paths of fragments -/

/-- The path that a fragment is located by, and the place that it leads to. -/
def Leads (home : Path) (id : Text) (p : Path) (l : Location) : Prop :=
  (p = home.fragment id ∧ l = lead [] home.parts ++ [id ++ ending]) ∨
    ∃ set, p = (home.child set).fragment id ∧ l = recordPlace home set id

theorem Leads.isPlace {p : Path} {l : Location} (h : Leads home id p l) : IsPlace home id l :=
  h.imp (fun h => h.2) fun ⟨set, _, hl⟩ => ⟨set, hl⟩

/-- One path only leads to each place. -/
theorem Leads.unique {p p' : Path} {l : Location} (h : Leads home id p l)
    (h' : Leads home id p' l) : p = p' := by
  have hlength : ∀ set, lead [] home.parts ++ [id ++ ending] ≠ recordPlace home set id := by
    intro set e
    have := congrArg List.length e
    simp [recordPlace] at this
  rcases h with ⟨rfl, rfl⟩ | ⟨set, rfl, rfl⟩
  · rcases h' with ⟨rfl, -⟩ | ⟨set', -, e⟩
    · rfl
    · exact absurd e (hlength set')
  · rcases h' with ⟨-, e⟩ | ⟨set', rfl, e⟩
    · exact absurd e.symm (hlength set)
    · rw [recordPlace, recordPlace] at e
      rw [(List.cons.inj (List.append_cancel_left e)).1]

/-! ## Records -/

/-- A record comes into its place in a set. Its id has no file before. -/
structure Makes (home : Path) (id : Text) (set : Name) (t t' : Tree) : Prop where
  wellFormed : t'.WellFormed
  noFile : NoFile home id t
  vacant : t.node? (recordPlace home set id) = none
  made : ∃ c, t' = t.insert (recordPlace home set id) (.file c)

namespace Makes

variable {set : Name}

theorem grows (h : Makes home id set t t') : Tree.Extends t t' := by
  obtain ⟨c, rfl⟩ := h.made
  exact Tree.extends_insert h.vacant _

theorem file (h : Makes home id set t t') :
    ∃ c, t'.node? (recordPlace home set id) = some (.file c) := by
  obtain ⟨c, rfl⟩ := h.made
  exact ⟨c, Tree.node?_insert_self t (by simp [recordPlace]) _⟩

theorem settled (h : Makes home id set t t') (ht : Settled home t) : Settled home t' := by
  obtain ⟨c, hc⟩ := h.made
  have hold : ∀ k, k ≠ recordPlace home set id → t'.node? k = t.node? k := fun k hk => by
    rw [hc, Tree.node?_insert_of_ne t hk]
  refine ⟨⟨fun id' hid k l hk hl hck hcl => ?_, fun set' id' hid hf => ?_⟩, h.wellFormed, ?_⟩
  · -- Where the new record is, no file of its id is anywhere else.
    have hself : ∀ m, IsPlace home id' m → (∃ c, t'.node? m = some (.file c)) →
        m ≠ recordPlace home set id → id' ≠ id := by
      rintro m hm ⟨c', hc'⟩ hne rfl
      exact noFile_iff.mp h.noFile m hm c' (hold m hne ▸ hc')
    by_cases hk' : k = recordPlace home set id
    · by_cases hl' : l = recordPlace home set id
      · exact hk'.trans hl'.symm
      · exact absurd (hk.id_unique (hk' ▸ isPlace_record home set id)) (hself l hl hcl hl')
    · by_cases hl' : l = recordPlace home set id
      · exact absurd (hl.id_unique (hl' ▸ isPlace_record home set id)) (hself k hk hck hk')
      · rw [hold k hk'] at hck
        rw [hold l hl'] at hcl
        exact ht.once id' hid k l hk hl hck hcl
  · by_cases he : recordPlace home set' id' = recordPlace home set id
    · obtain ⟨c', hc'⟩ := h.file
      rw [he, hc'] at hf
      cases hf
    · exact ht.free set' id' hid (hold _ he ▸ hf)
  · refine ht.reach.imp_right fun hf => ?_
    obtain ⟨l, hr, hl⟩ := Tree.isFolder_eq_true_iff.mp hf
    exact Tree.isFolder_eq_true_iff.mpr ⟨l, h.grows.foldersStay.resolve hr, h.grows l _ hl⟩

end Makes

end Session

/-- A folder at the location that a path spells out is not denied. -/
theorem Tree.WellFormed.isFolder_ne_false {t : Tree} (hw : t.WellFormed) {p : Path}
    (hp : t.node? p.parts = some .folder) :
    t.isFolder p ≠ .ok false := by
  have hnul : p.hasNul = false := by
    refine List.any_eq_false.mpr fun n hn => ?_
    have := (hw.isName_of_mem hp hn).no_nul
    simpa using this
  have hf : t.follow [] p.parts = .ok p.parts := hw.follow_of_node (l := []) hp
  intro h
  by_cases hs : Disk.longestPath < Utf8.size p.text
  · have hr : t.resolve p = .error .nameTooLong := by rw [resolve_eq, hnul]; simp [hs]
    simp [isFolder, holds, stat, hr] at h
  · have hr : t.resolve p = .ok p.parts :=
      resolve_eq_ok_iff.mpr ⟨hnul, Nat.le_of_not_lt hs, hf⟩
    rw [isFolder_eq_true_iff.mpr ⟨_, hr, hp⟩] at h
    cases h

namespace Session

variable {home : Path} {t t' : Tree} {id : Text} {s : Session} {set : Option Text} {now : Int}

theorem ensure_refused {e : Fault} (h : (s.ensure now set id).run t = (.error e, t')) :
    t' = t ∨ t' = ((s.ensureSet set).run t).2 := by
  unfold ensure makeRecord at h
  cases hroot : s.requireRoot "ensure_fragment".toList with
  | error f =>
    rw [hroot, Work.run_bind_of_error (Work.run_ofExcept ..)] at h
    cases h
    exact .inl rfl
  | ok root =>
    rw [hroot, Work.run_bind_of_ok (Work.run_ofExcept ..)] at h
    rcases hset : (s.ensureSet set).run t with ⟨_ | p, t₁⟩
    · rw [Work.run_bind_of_error hset] at h
      cases h
      exact .inr rfl
    · rw [Work.run_bind_of_ok hset, Work.run_bind_of_ok (Work.run_get _)] at h
      split at h <;> cases h <;> exact .inr rfl

/-- An id that is not located has no file. -/
theorem Settled.noFile (h : Settled home t) (hs : s.folder? = some home) (hid : IsNumeral id)
    (hnone : s.locate t id = .ok none) : NoFile home id t := by
  have hfree : s.hasFragment t id = .ok false := hasFragment_eq_ok_iff.mpr ⟨none, hnone, rfl⟩
  by_cases hf : t.isFolder home = .ok true
  · obtain ⟨l, hr, hl⟩ := Tree.isFolder_eq_true_iff.mp hf
    obtain rfl := Tree.resolve_eq_lead hr
    exact no_file_of_hasFragment h.wellFormed hs hr hl hid.2 hfree
  · have hplain := h.reach.resolve_right hf
    have hlead : lead [] home.parts = home.parts := lead_of_plain hplain
    obtain ⟨folders, hfolders, -⟩ := locate_eq_ok hnone
    have hfalse : t.isFolder home = .ok false := by
      cases hb : t.isFolder home with
      | error e => simp [fragmentFolders, hs, hb, ask, bind, Except.bind, Except.mapError] at hfolders
      | ok b =>
        cases b with
        | false => rfl
        | true => exact absurd hb hf
    have hnone : t.node? home.parts ≠ some .folder := fun hl =>
      h.wellFormed.isFolder_ne_false hl hfalse
    intro c
    rw [hlead]
    exact ⟨by rw [h.wellFormed.none_below hnone _ (by simp)]; simp,
      fun name => by rw [h.wellFormed.none_below hnone _ (by simp)]; simp⟩

/-- A record is made when its id has no file, unless there is a fault. -/
theorem Settled.ensure (h : Settled home t) (hs : s.folder? = some home)
    (hactive : IsSetName s.activeSet) (hid : IsNumeral id) (hno : NoFile home id t)
    {r : Except Fault Created} (hrun : (s.ensure now set id).run t = (r, t')) :
    Settled home t' ∧ ∀ m, r = .ok m → m.created = true ∧
      ∃ l c, Leads home id m.path l ∧ t'.node? l = some (.file c) := by
  cases r with
  | error e =>
    refine ⟨?_, nofun⟩
    rcases ensure_refused hrun with rfl | rfl
    · exact h
    · exact h.quiet (Calm.ensureSet hs hactive set t h.passable)
  | ok m =>
    obtain ⟨name, hname, hpath, t₁, hw₁, hadds, hcases⟩ :=
      ensure_place h.wellFormed hs hactive hid.2 hrun
    have hquiet := h.passable.folders hname hw₁ hadds
    have hno₁ := hquiet.noFile hid hno
    rcases hcases with ⟨hcreated, hnone, hc⟩ | ⟨-, hthere, -⟩
    · have hmakes : Makes home id name t₁ t' :=
        ⟨(ensure_spec h.wellFormed hrun).1, hno₁, hnone, hc⟩
      obtain ⟨c, hc⟩ := hmakes.file
      refine ⟨hmakes.settled (h.quiet hquiet), fun m' e => ?_⟩
      cases e
      exact ⟨hcreated, _, c, .inr ⟨name, hpath, rfl⟩, hc⟩
    · obtain ⟨n, hn⟩ := Option.ne_none_iff_exists'.mp hthere
      cases n with
      | folder => exact absurd hn ((h.quiet hquiet).free name id hid)
      | file c => exact absurd hn (noFile_iff.mp hno₁ _ (isPlace_record home name id) c)

/-- An id that is handed out has no file. -/
theorem Settled.allocate (h : Settled home t) (hs : s.folder? = some home)
    (hrun : s.allocate.run t = (.ok id, t')) :
    IsNumeral id ∧ NoFile home id t ∧ Quiet home t t' ∧
      ∀ l n, l ≠ cursorPlace home → t.node? l = some n → t'.node? l = some n := by
  have hquiet : Quiet home t t' := by
    have := Calm.allocate hs t h.passable
    rwa [hrun] at this
  rcases allocate_cases h.wellFormed hrun with
    ⟨e, he, -⟩ | ⟨home', start, n, hs', -, -, -, hfree, hadv, he⟩
  · cases he
  · cases he
    cases hs.symm.trans hs'
    have hid : IsNumeral (Numeral.ofNat n) :=
      ⟨Numeral.ofNat_ne_nil n, fun _ => Numeral.isAsciiDigit_of_mem_ofNat⟩
    obtain ⟨p, hp, hnone⟩ := hasFragment_eq_ok_iff.mp hfree
    obtain rfl : p = none := by simpa using hnone
    refine ⟨hid, h.noFile hs hid hp, hquiet, fun l n hl hn => ?_⟩
    rw [cursorPlace] at hl
    rw [hadv.eq, Tree.node?_insert_of_ne _ hl]
    exact (Tree.makeFolders_adds h.wellFormed home).2.extends l n hn

/-! ## Where fragments are located -/

variable {p p' : Path} {l : Location}

/-- What is located is a file at one of the places. -/
theorem file_of_locate (hw : t.WellFormed) (hs : s.folder? = some home) (hid : IsNumeral id)
    (h : s.locate t id = .ok (some p)) :
    ∃ l, Leads home id p l ∧ ∃ c, t.node? l = some (.file c) := by
  have hfolder : t.isFolder home = .ok true :=
    folder_of_hasFragment hs (hasFragment_eq_ok_iff.mpr ⟨_, h, rfl⟩)
  obtain ⟨l, hr, hl⟩ := Tree.isFolder_eq_true_iff.mp hfolder
  obtain ⟨folders, hfolders, hfirst⟩ := locate_eq_ok h
  obtain rfl := fragmentFolders_eq_ok hw hs hr hl hfolders
  obtain ⟨f, hf, rfl, hfile⟩ := firstWith_some hfirst
  obtain ⟨k, c, hk, hn⟩ := Tree.isFile_eq_true_iff.mp hfile
  have hlead := Tree.resolve_eq_lead hk
  rw [f.fragment_eq_child hid.2, lead_child _ (ending_ne_above id)] at hlead
  refine ⟨k, ?_, c, hn⟩
  rcases List.mem_cons.mp hf with rfl | hf
  · exact .inl ⟨rfl, hlead⟩
  · obtain ⟨name, hname, rfl⟩ := List.mem_map.mp hf
    have hset := (hw.canHold (hw.mem_folderNames.mp hname)).isName
    rw [lead_child _ hset.not_above] at hlead
    exact .inr ⟨name, rfl, by rw [hlead, recordPlace]; simp⟩

/-- Where an id has a file, nothing else is located. -/
theorem Settled.eq_of_locate (h : Settled home t) (hs : s.folder? = some home) (hid : IsNumeral id)
    (hl : Leads home id p l) {c : Content} (hc : t.node? l = some (.file c)) {q : Option Path}
    (hlocate : s.locate t id = .ok q) : q = some p := by
  cases q with
  | none => exact absurd hc (noFile_iff.mp (h.noFile hs hid hlocate) l hl.isPlace c)
  | some p' =>
    obtain ⟨l', hl', hc'⟩ := file_of_locate h.wellFormed hs hid hlocate
    have hsame := h.once id hid l' l hl'.isPlace hl.isPlace hc' ⟨c, hc⟩
    rw [hl'.unique (hsame ▸ hl)]

/-- The folder of sets is there when a fragment is. -/
theorem Settled.isFolder (h : Settled home t) (hfits : Tree.Fits home 512) (hl : Leads home id p l)
    {c : Content} (hc : t.node? l = some (.file c)) : t.isFolder home = .ok true := by
  rcases h.reach with hplain | hf
  · have hhome : t.node? home.parts = some .folder := by
      have hlead : lead [] home.parts = home.parts := lead_of_plain hplain
      rcases hl.isPlace with rfl | ⟨set, rfl⟩
      · have := h.wellFormed.folder_above hc
        rwa [List.dropLast_concat, hlead] at this
      · have habove := h.wellFormed.folder_above hc
        rw [recordPlace, List.dropLast_append_of_ne_nil (by simp), hlead] at habove
        have := h.wellFormed.folder_above habove
        rwa [show home.parts ++ [set, id ++ ending].dropLast = home.parts ++ [set] from rfl,
          List.dropLast_concat] at this
    obtain ⟨b, hb⟩ := hfits.holds t (· == .folder)
    have hb : t.isFolder home = .ok b := hb
    cases b with
    | true => exact hb
    | false => exact absurd hb (h.wellFormed.isFolder_ne_false hhome)
  · exact hf

/-- A file at one of the places is located, when there is room in the paths of the folder of sets
for the names below it. -/
theorem Settled.locate (h : Settled home t) (hs : s.folder? = some home) (hfits : Tree.Fits home 512)
    (hid : IsNumeral id) (hl : Leads home id p l) {c : Content} (hc : t.node? l = some (.file c)) :
    s.locate t id = .ok (some p) := by
  have hname : Tree.IsName (id ++ ending) :=
    h.wellFormed.isName_of_mem hc (List.mem_of_getLast? hl.isPlace.getLast?)
  obtain ⟨k, hr, hk⟩ := Tree.isFolder_eq_true_iff.mp (h.isFolder hfits hl hc)
  have hfits' : ∀ f ∈ home :: (t.folderNames k).map home.child, Tree.Fits (f.fragment id) 0 := by
    intro f hf
    rw [f.fragment_eq_child hid.2]
    rcases List.mem_cons.mp hf with rfl | hf
    · exact (hfits.inside hname).mono (by omega)
    · obtain ⟨name, hmem, rfl⟩ := List.mem_map.mp hf
      have hset := (h.wellFormed.canHold (h.wellFormed.mem_folderNames.mp hmem)).isName
      exact (hfits.inside hset).inside hname
  obtain ⟨q, hq⟩ := firstWith_total t hfits'
  have hlocate : s.locate t id = .ok q := by
    simp [Session.locate, fragmentFolders_of_resolve h.wellFormed hs (k := 256) hfits hr hk, hq, ask,
      bind, Except.bind,
      Except.mapError]
  rw [hlocate, h.eq_of_locate hs hid hl hc hlocate]

/-! ## Openings -/

variable {root : Path} {folder : Text}

/-- A marker that was bound or opened, with the trees before and after. -/
structure Opening where
  bound : Bound
  before : Tree
  after : Tree

/-- What binding or opening a marker gives. -/
def openings (r : Except Fault (Option Bound)) (t t' : Tree) : List Opening :=
  match r with
  | .ok (some b) => [⟨b, t, t'⟩]
  | _ => []

theorem openings_of_ne {r : Except Fault (Option Bound)} (h : ∀ b, r ≠ .ok (some b)) (t t' : Tree) :
    openings r t t' = [] := by
  unfold openings
  split
  · next b => exact absurd rfl (h b)
  · rfl

/-- The path that is returned leads to a file of the id. When it was made there was none before, and
what was there stays as it was, but for the cursor. -/
structure Opening.Proper (home : Path) (o : Opening) : Prop where
  id : IsNumeral o.bound.id
  settled : Settled home o.after
  place : ∃ l c, Leads home o.bound.id o.bound.path l ∧ o.after.node? l = some (.file c)
  new : o.bound.created = true → NoFile home o.bound.id o.before
  kept : ∀ l n, l ≠ cursorPlace home → o.before.node? l = some n → o.after.node? l = some n

/-- What a step comes to: the workspace stays settled and all its files stay, and at most one marker
is bound or opened, properly. -/
structure Keeps (home : Path) (t : Tree) (os : List Opening) (t' : Tree) : Prop where
  settled : Settled home t'
  files : t.FilesStay t'
  opened : os = [] ∨ ∃ o, os = [o] ∧ o.before = t ∧ o.after = t' ∧ o.Proper home

theorem Settled.keeps (h : Settled home t) (hq : Quiet home t t') : Keeps home t [] t' :=
  ⟨h.quiet hq, hq.files, .inl rfl⟩

/-- What comes after a quiet step. -/
theorem Keeps.of_none {r : Except Fault (Option Bound)} (hr : ∀ b, r ≠ .ok (some b))
    (h : Keeps home t [] t') : Keeps home t (openings r t t') t' := by
  rwa [openings_of_ne hr]

/-- What binding a marker comes to in a settled workspace. -/
theorem Settled.binds {d d' : Desk} {r : Except Fault (Option Bound)} (h : Settled home d.tree)
    (hs : s.folder? = some home) (hactive : IsSetName s.activeSet) (hb : Binds s now d r d') :
    Keeps home d.tree (openings r d.tree d'.tree) d'.tree := by
  cases hb with
  | idle hr => exact .of_none hr (h.keeps (.refl h.wellFormed))
  | refused hid =>
    have hquiet := Calm.allocate hs d.tree h.passable
    rw [(Editing.onTree_eq hid).1] at hquiet
    exact .of_none nofun (h.keeps hquiet)
  | unedited hid hedit hr =>
    obtain ⟨-, -, hquiet, -⟩ := h.allocate hs (Editing.onTree_eq hid).1
    rw [Editing.apply_tree hedit]
    exact .of_none hr (h.keeps hquiet)
  | unrecorded hid hedit hmade =>
    obtain ⟨hnumeral, hno, hquiet, -⟩ := h.allocate hs (Editing.onTree_eq hid).1
    rw [← Editing.apply_tree hedit] at hquiet
    have hsettled := h.quiet hquiet
    have hrun := (Editing.onTree_eq hmade).1
    refine .of_none nofun ⟨?_, hquiet.files.trans (ensure_extends hsettled.wellFormed hrun).filesStay,
      .inl rfl⟩
    exact (hsettled.ensure hs hactive hnumeral (hquiet.noFile hnumeral hno) hrun).1
  | recorded hid hedit hmade =>
    obtain ⟨hnumeral, hno, hquiet, hkept⟩ := h.allocate hs (Editing.onTree_eq hid).1
    rw [← Editing.apply_tree hedit] at hquiet hkept
    have hsettled := h.quiet hquiet
    have hrun := (Editing.onTree_eq hmade).1
    have hext := ensure_extends hsettled.wellFormed hrun
    obtain ⟨hsettled', hplace⟩ :=
      hsettled.ensure hs hactive hnumeral (hquiet.noFile hnumeral hno) hrun
    exact ⟨hsettled', hquiet.files.trans hext.filesStay, .inr ⟨_, rfl, rfl, rfl,
      { id := hnumeral
        settled := hsettled'
        place := (hplace _ rfl).2
        new := fun _ => hno
        kept := fun l n hl hn => hext l n (hkept l n hl hn) }⟩⟩

/-- What opening a line comes to in a settled workspace. -/
theorem Settled.openAtLine {d d' : Desk} {line : Int} {r : Except Fault (Option Bound)}
    (h : Settled home d.tree) (hs : s.folder? = some home) (hactive : IsSetName s.activeSet)
    (hrun : (s.openAtLine now line).run d = (r, d')) :
    Keeps home d.tree (openings r d.tree d'.tree) d'.tree := by
  have hnumeral : ∀ {text m b}, Marker.scan line text = some m → m.binding = some b →
      IsNumeral b.id := fun hm hb =>
    let hid := isId_iff.mp (Marker.isId_of_scan hm hb)
    ⟨hid.1, hid.2.2⟩
  rcases openAtLine_cases hrun with
    hbinds | ⟨text, m, b, path, hm, hb, hlocate, rfl, rfl⟩ | ⟨text, m, b, r₁, hm, hb, hnone, hmade, rfl⟩
  · exact h.binds hs hactive hbinds
  · have hid := hnumeral hm hb
    obtain ⟨l, hleads, c, hc⟩ := file_of_locate h.wellFormed hs hid hlocate
    exact ⟨h, fun _ hl => hl, .inr ⟨_, rfl, rfl, rfl,
      { id := hid
        settled := h
        place := ⟨l, c, hleads, hc⟩
        new := nofun
        kept := fun _ _ _ hn => hn }⟩⟩
  · have hid := hnumeral hm hb
    have hno := h.noFile hs hid hnone
    have hmade := (Editing.onTree_eq hmade).1
    have hext := ensure_extends h.wellFormed hmade
    obtain ⟨hsettled, hplace⟩ := h.ensure hs hactive hid hno hmade
    cases r₁ with
    | error f => exact .of_none nofun ⟨hsettled, hext.filesStay, .inl rfl⟩
    | ok made =>
      exact ⟨hsettled, hext.filesStay, .inr ⟨_, rfl, rfl, rfl,
        { id := hid
          settled := hsettled
          place := (hplace made rfl).2
          new := fun _ => hno
          kept := fun l n _ hn => hext l n hn }⟩⟩

/-! ## Steps -/

/-- What a session does, whether it fails or not, with the markers that it binds or opens. Every
step may be another session's, on another document. -/
inductive Act (root : Path) (folder : Text) : Tree → List Opening → Tree → Prop where
  | activated {s : Session} {name : Option Text} {t t' : Tree} {r} (hs : s.Works root folder)
      (h : (s.activate name).run t = (r, t')) : Act root folder t [] t'
  | switched {s : Session} {name : Option Text} {t t' : Tree} {r} (hs : s.Works root folder)
      (h : (s.switchSet name).run t = (r, t')) : Act root folder t [] t'
  | allocated {s : Session} {t t' : Tree} {r} (hs : s.Works root folder)
      (h : s.allocate.run t = (r, t')) : Act root folder t [] t'
  | bound {s : Session} {now line : Int} {d d' : Desk} {r} (hs : s.Works root folder)
      (h : (s.bindMarker now line).run d = (r, d')) :
      Act root folder d.tree (openings r d.tree d'.tree) d'.tree
  | handled {s : Session} {now : Int} {c : Change} {d d' : Desk} {r} (hs : s.Works root folder)
      (h : (s.handleChange now c).run d = (r, d')) :
      Act root folder d.tree (openings r d.tree d'.tree) d'.tree
  | opened {s : Session} {now line : Int} {d d' : Desk} {r} (hs : s.Works root folder)
      (h : (s.openAtLine now line).run d = (r, d')) :
      Act root folder d.tree (openings r d.tree d'.tree) d'.tree
  | saved {s : Session} {path text : Text} {t t' : Tree} {r} (hs : s.Works root folder)
      (h : (s.onSave path text).run t = (r, t')) : Act root folder t [] t'
  | refreshed {s : Session} {id : Text} {t t' : Tree} {r} (hs : s.Works root folder)
      (h : (s.refresh id).run t = (r, t')) : Act root folder t [] t'
  | summarized {s : Session} {now : Int} {set : Option Text} {format : SummaryFormat}
      {t t' : Tree} {r} (hs : s.Works root folder)
      (h : (s.summarize now set format).run t = (r, t')) : Act root folder t [] t'
  | migrated {s : Session} {levels : Nat} {dryRun : Bool} {t t' : Tree} {r}
      (hs : s.Works root folder) (h : (s.migrate levels root dryRun).run t = (r, t')) :
      Act root folder t [] t'

/-- Acts in a row with all the markers that they bind or open. -/
inductive Course (root : Path) (folder : Text) : Tree → List Opening → Tree → Prop where
  | start (t : Tree) : Course root folder t [] t
  | act {t t' t'' : Tree} {os os'} (h : Course root folder t os t') (h' : Act root folder t' os' t'') :
      Course root folder t (os ++ os') t''

/-- Calm work binds and opens nothing. -/
theorem Settled.calm {α : Type} {w : Work α} {r : Except Fault α} (h : Settled home t)
    (hw : Calm home w) (hrun : w.run t = (r, t')) : Keeps home t [] t' := by
  have hquiet := hw t h.passable
  rw [hrun] at hquiet
  exact h.keeps hquiet

/-- What an act comes to in a settled workspace. -/
theorem Act.keeps {os : List Opening} (h : Act root folder t os t')
    (ht : Settled (root.join (Path.ofText folder)) t) :
    Keeps (root.join (Path.ofText folder)) t os t' := by
  cases h with
  | activated hs h => exact ht.calm (Calm.activate hs.folder? hs.set _) h
  | switched hs h => exact ht.calm (Calm.switchSet hs.folder? _) h
  | allocated hs h => exact ht.calm (Calm.allocate hs.folder?) h
  | bound hs h => exact ht.binds hs.folder? hs.set (bindFrom_cases h)
  | handled hs h => exact ht.binds hs.folder? hs.set (handleChange_cases h)
  | opened hs h => exact ht.openAtLine hs.folder? hs.set h
  | saved hs h => exact ht.calm (Calm.onSave _ _ _) h
  | refreshed hs h => exact ht.calm (Calm.refresh _ _) h
  | summarized hs h => exact ht.calm (Calm.summarize hs.folder? hs.set _ _ _) h
  | @migrated s levels dryRun _ _ _ _ h =>
    have hquiet := ht.migrate s levels root dryRun
    rw [h] at hquiet
    exact ht.keeps hquiet

/-- What a course of acts comes to: a record that is made is one that no earlier marker had. -/
structure KeepsAll (home : Path) (t : Tree) (os : List Opening) (t' : Tree) : Prop where
  settled : Settled home t'
  files : t.FilesStay t'
  proper : ∀ o ∈ os, o.Proper home ∧ o.after.FilesStay t'
  once : os.Pairwise fun o o' => o'.bound.created = true → o.bound.id ≠ o'.bound.id

theorem KeepsAll.act {os os' : List Opening} (h : KeepsAll home t os t') (h' : Keeps home t' os' t'') :
    KeepsAll home t (os ++ os') t'' := by
  have hstay : ∀ o ∈ os, o.Proper home ∧ o.after.FilesStay t'' :=
    fun o ho => ⟨(h.proper o ho).1, (h.proper o ho).2.trans h'.files⟩
  rcases h'.opened with rfl | ⟨o', rfl, rfl, rfl, hproper⟩
  · rw [List.append_nil]
    exact ⟨h'.settled, h.files.trans h'.files, hstay, h.once⟩
  · refine ⟨h'.settled, h.files.trans h'.files, fun o ho => ?_, ?_⟩
    · rcases List.mem_append.mp ho with ho | ho
      · exact hstay o ho
      · obtain rfl := List.mem_singleton.mp ho
        exact ⟨hproper, fun _ hl => hl⟩
    · refine List.pairwise_append.mpr ⟨h.once, List.pairwise_singleton _ _, fun o ho o'' ho'' hc e => ?_⟩
      obtain rfl := List.mem_singleton.mp ho''
      -- The file of the earlier marker is still there when the later record is made.
      obtain ⟨hearlier, hfiles⟩ := h.proper o ho
      obtain ⟨l, c, hl, hn⟩ := hearlier.place
      obtain ⟨c', hc'⟩ := hfiles l ⟨c, hn⟩
      exact noFile_iff.mp (hproper.new hc) l (e ▸ hl.isPlace) c' hc'

theorem Course.keeps {os : List Opening} (h : Course root folder t os t')
    (ht : Settled (root.join (Path.ofText folder)) t) :
    KeepsAll (root.join (Path.ofText folder)) t os t' := by
  induction h with
  | start => exact ⟨ht, fun _ hl => hl, nofun, .nil⟩
  | act _ hact ih => exact ih.act (hact.keeps ih.settled)

/-! ## Records are unique and stay -/

/-- Whatever session looks for an id finds it at one path. It finds it at all when there is room in
the paths of the folder of sets for the names below it. -/
def Stays (root : Path) (folder : Text) (t : Tree) (id : Text) (p : Path) : Prop :=
  ∀ s : Session, s.On root folder → (∀ q, s.locate t id = .ok q → q = some p) ∧
    (Tree.Fits (root.join (Path.ofText folder)) 512 → s.locate t id = .ok (some p))

theorem Settled.stays (h : Settled (root.join (Path.ofText folder)) t) (hid : IsNumeral id)
    (hl : Leads (root.join (Path.ofText folder)) id p l) (hc : ∃ c, t.node? l = some (.file c)) :
    Stays root folder t id p := by
  obtain ⟨c, hc⟩ := hc
  exact fun s hs => ⟨fun q hq => h.eq_of_locate hs.folder? hid hl hc hq,
    fun hfits => h.locate hs.folder? hfits hid hl hc⟩

/-- Whatever sessions do in a tidy workspace, it stays tidy with all its files, every id stays where
it is located, the path of every marker that is bound or opened is where its id is located from then
on, and no record is made twice. -/
theorem records_stay {os : List Opening} (hw : t.WellFormed)
    (ht : Tidy (root.join (Path.ofText folder)) t)
    (hreach : Path.above ∉ (root.join (Path.ofText folder)).parts ∨
      t.isFolder (root.join (Path.ofText folder)) = .ok true)
    (h : Course root folder t os t') :
    Tidy (root.join (Path.ofText folder)) t' ∧ t.FilesStay t' ∧
      (∀ s : Session, s.On root folder → ∀ id p, IsNumeral id → s.locate t id = .ok (some p) →
        Stays root folder t' id p) ∧
      (∀ o ∈ os, o.Proper (root.join (Path.ofText folder)) ∧
        Stays root folder o.after o.bound.id o.bound.path ∧
        Stays root folder t' o.bound.id o.bound.path) ∧
      ((os.filter (·.bound.created)).map (·.bound.id)).Nodup := by
  have hkeeps := h.keeps ⟨ht, hw, hreach⟩
  refine ⟨hkeeps.settled.toTidy, hkeeps.files, fun s hs id p hid hp => ?_, fun o ho => ?_, ?_⟩
  · obtain ⟨l, hl, hc⟩ := file_of_locate hw hs.folder? hid hp
    exact hkeeps.settled.stays hid hl (hkeeps.files l hc)
  · obtain ⟨hproper, hfiles⟩ := hkeeps.proper o ho
    obtain ⟨l, c, hl, hc⟩ := hproper.place
    exact ⟨hproper, hproper.settled.stays hproper.id hl ⟨c, hc⟩,
      hkeeps.settled.stays hproper.id hl (hfiles l ⟨c, hc⟩)⟩
  · rw [List.Nodup, List.pairwise_map, List.pairwise_filter]
    exact hkeeps.once.imp fun hne _ hcreated => hne hcreated

/-- A workspace is tidy whose files are all in one place and whose folders have no names of records.
-/
theorem tidy_of_lone {k : Location} (hfiles : ∀ e ∈ t.entries, e.2 = .folder ∨ e.1 = k)
    (hfolders : ∀ e ∈ t.entries, e.2 = .folder → (e.1.getLast?.getD []).getLast? ≠ some 'd') :
    Tidy home t := by
  have hlone : ∀ l, (∃ id, IsPlace home id l) → (∃ c, t.node? l = some (.file c)) → l = k := by
    rintro l ⟨id, hl⟩ ⟨c, hc⟩
    have hne : l ≠ [] := by
      rintro rfl
      cases hl.getLast?
    exact (hfiles _ (Tree.mem_entries hne hc)).resolve_left nofun
  refine ⟨fun id _ l l' hl hl' hc hc' => ?_, fun set id _ hf => ?_⟩
  · rw [hlone l ⟨id, hl⟩ hc, hlone l' ⟨id, hl'⟩ hc']
  · have hne : recordPlace home set id ≠ [] := by simp [recordPlace]
    refine hfolders _ (Tree.mem_entries hne hf) rfl ?_
    rw [(isPlace_record home set id).getLast?, Option.getD_some]
    exact getLast?_ending id

/-- A record is made once by two sessions that open the same marker and have different sets. -/
theorem records_stay_two_sets :
    ∃ (root : Path) (folder : Text) (t t' : Tree) (os : List Opening), t.WellFormed ∧
      Course root folder t os t' ∧
      os.map (fun o => (o.bound.id, o.bound.created)) = [(['7'], true), (['7'], false), (['0'], true)] ∧
      Tidy (root.join (Path.ofText folder)) t' ∧ t.FilesStay t' ∧
      (∀ s : Session, s.On root folder → ∀ id p, IsNumeral id → s.locate t id = .ok (some p) →
        Stays root folder t' id p) ∧
      (∀ o ∈ os, o.Proper (root.join (Path.ofText folder)) ∧
        Stays root folder o.after o.bound.id o.bound.path ∧
        Stays root folder t' o.bound.id o.bound.path) ∧
      ((os.filter (·.bound.created)).map (·.bound.id)).Nodup := by
  let root : Path := { slashes := 1, parts := [['w']] }
  let folder : Text := ".cms".toList
  let t : Tree := ⟨[([['w']], .folder)]⟩
  let s : Session := { root := some root, config := { folder } }
  let s' : Session := { root := some root, config := { folder }, activeSet := ['a'] }
  let d : Desk := { tree := t, document := .ofText ['d'] "//codemeta[7]\n#cm".toList }
  let file (set name : Name) : Path := { slashes := 1, parts := [['w'], folder, set, name] }
  obtain ⟨d₁, d₂, d₃, h₁, h₂, h₃⟩ : ∃ d₁ d₂ d₃,
      (s.openAtLine 0 0).run d = (.ok (some ⟨['7'], file defaultSet "7.md".toList, true,
        "//codemeta[7]".toList⟩), d₁) ∧
      (s'.openAtLine 0 0).run d₁ = (.ok (some ⟨['7'], file defaultSet "7.md".toList, false,
        "//codemeta[7]".toList⟩), d₂) ∧
      (s'.bindMarker 0 1).run d₂ = (.ok (some ⟨['0'], file ['a'] "0.md".toList, true,
        "#codemeta[0]".toList⟩), d₃) :=
    ⟨_, _, _, Work.run_eq_of_fst (by decide +kernel), Work.run_eq_of_fst (by decide +kernel),
      Work.run_eq_of_fst (by decide +kernel)⟩
  have hw : t.WellFormed := by decide +kernel
  have hs : s.Works root folder := works_default root rfl
  have hs' : s'.Works root folder :=
    ⟨⟨rfl, rfl⟩, ⟨⟨by decide, by decide, by decide⟩, by decide, by decide, by decide⟩⟩
  have hcourse := Course.act (.act (.act (.start t) (.opened hs h₁)) (.opened hs' h₂)) (.bound hs' h₃)
  exact ⟨root, folder, t, _, _, hw, hcourse, rfl,
    records_stay hw (tidy_of_lone (k := []) (by decide) (by decide)) (.inl (by decide)) hcourse⟩

/-- A folder of sets whose path turns back at a double dot, after a folder that is missing, is taken
to be empty: a record that is there is made once more. -/
theorem record_made_twice :
    ∃ (root : Path) (folder : Text) (t t' : Tree) (os : List Opening), t.WellFormed ∧
      Tidy (root.join (Path.ofText folder)) t ∧ Course root folder t os t' ∧
      ¬ Tidy (root.join (Path.ofText folder)) t' := by
  let root : Path := { slashes := 1, parts := [['w']] }
  let folder : Text := "x/../.cms".toList
  let t : Tree := ⟨[([['w']], .folder), ([['w'], ['.', 'c', 'm', 's']], .folder),
    ([['w'], ['.', 'c', 'm', 's'], ['0', '.', 'm', 'd']], .file (.text []))]⟩
  let s : Session := { root := some root, config := { folder } }
  let d : Desk := { tree := t, document := .ofText ['d'] "//codemeta[0]".toList }
  let file : Path :=
    { slashes := 1, parts := [['w'], ['x'], Path.above, ".cms".toList, defaultSet, "0.md".toList] }
  have hrun : (s.openAtLine 0 0).run d =
      (.ok (some ⟨['0'], file, true, "//codemeta[0]".toList⟩), ((s.openAtLine 0 0).run d).2) :=
    Work.run_eq_of_fst (by decide +kernel)
  have hs : s.Works root folder := works_default root rfl
  refine ⟨root, folder, t, ((s.openAtLine 0 0).run d).2.tree, _, by decide +kernel,
    tidy_of_lone (k := [['w'], ['.', 'c', 'm', 's'], ['0', '.', 'm', 'd']]) (by decide) (by decide),
    .act (.start t) (.opened hs hrun), fun h => ?_⟩
  have hplaces := h.once ['0'] ⟨by decide, List.forall_mem_singleton.mpr rfl⟩ _ _ (.inl rfl)
    (isPlace_record _ defaultSet _) ⟨.text [], by decide +kernel⟩
    ⟨.text (Page.fresh { folder } 0 ['0']).render, by decide +kernel⟩
  exact absurd hplaces (by decide)

end Session

end Marginalia
