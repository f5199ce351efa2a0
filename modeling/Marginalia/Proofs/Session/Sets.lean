import Marginalia.Proofs.Session.Listing

/-!
# Sets that are listed

The folders of sets are listed by the names they have, while every operation that is given a name
trims it, puts hyphens for blanks and refuses slashes and backslashes. So a listed set can be given
back by its name (`Opens`) exactly when these checks leave the name as it is (`SetName.Kept`), as
they leave every name of a set that was switched to (`sets_open`). The folder of any other name is
listed, and its fragments are located, but a switch makes another set active (`blank_name_lost`).
-/

namespace Marginalia

open SetName (Kept)

theorem Path.child_inj {p : Path} {m n : Name} (h : p.child m = p.child n) : m = n := by
  have hparts := congrArg Path.parts h
  rw [child_parts, child_parts] at hparts
  exact List.singleton_inj.mp (List.append_cancel_left hparts)

namespace Session

variable {s : Session} {home : Path} {t u : Tree} {n : Name}

/-! ## Operations that are given a name -/

theorem setFolder_of_kept (hs : s.folder? = some home) (hn : Kept n) :
    s.setFolder (some n) = .ok (home.child n) := by
  rw [setFolder_some hs hn.not_empty, SetName.sanitize_eq_self_iff.mpr hn]
  rfl

theorem kept_of_setFolder (hs : s.folder? = some home) (hactive : IsSetName s.activeSet)
    (h : s.setFolder (some n) = .ok (home.child n)) : Kept n := by
  by_cases hn : n = []
  · -- no name stands for the active set
    subst hn
    have hnone : s.setFolder (some []) = s.setFolder none := rfl
    rw [hnone, setFolder_none hs hactive] at h
    exact absurd (Path.child_inj (Except.ok.inj h)) hactive.not_empty
  · rw [setFolder_some hs hn] at h
    cases hname : SetName.sanitize (some n) with
    | error f =>
      rw [hname] at h
      cases h
    | ok m =>
      rw [hname] at h
      obtain rfl := Path.child_inj (Except.ok.inj h)
      exact .of_sanitize hname

/-- The active set after a switch has a name that the checks leave as it is. -/
theorem kept_of_switchSet {name : Option Text} {s' : Session}
    (h : (s.switchSet name).run t = (.ok s', u)) : Kept s'.activeSet := by
  obtain ⟨-, n, -, hn, -, rfl⟩ := switchSet_eq_ok h
  exact .of_sanitize hn

theorem kept_of_ensureSet (hw : t.WellFormed) (hs : s.folder? = some home)
    (hactive : IsSetName s.activeSet)
    (h : (s.ensureSet (some n)).run t = (.ok (home.child n), u)) : Kept n :=
  kept_of_setFolder hs hactive ((ensureSet_spec hw h).2.2 _ rfl).1

/-! ## Opening a set that is listed -/

/-- A set can be given back by its name: switching to it makes it the active one, its folder is the
one of that name, and the fragments that are found there are listed. -/
structure Opens (s : Session) (home : Path) (t : Tree) (n : Name) : Prop where
  switched : ∃ u, (s.switchSet (some n)).run t = (.ok { s with activeSet := n }, u) ∧
    u.isFolder (home.child n) = .ok true
  folder : s.setFolder (some n) = .ok (home.child n)
  ensured : ∃ u, (s.ensureSet (some n)).run t = (.ok (home.child n), u) ∧
    u.isFolder (home.child n) = .ok true
  listed : ∃ ids, s.listIds t (some n) = .ok ids ∧ ∀ id, isId id = true →
    s.locate t id = .ok (some ((home.child n).fragment id)) → id ∈ ids

/-- The folders of sets are in a layout: there is no file on the way to them or in the place of one,
and paths are not too long or too deep. -/
structure Spread (s : Session) (home : Path) (t : Tree) : Prop where
  wellFormed : t.WellFormed
  folder : s.folder? = some home
  fits : Tree.Fits home 556
  shallow : home.parts.length < deepest
  active : IsSetName s.activeSet
  way : ∀ l ∈ visited [] home.parts, t.node? l = none ∨ t.node? l = some .folder
  places : ∀ n, n = s.activeSet ∨ n = defaultSet →
    t.node? (lead [] home.parts ++ [n]) = none ∨ t.node? (lead [] home.parts ++ [n]) = some .folder

namespace Spread

theorem makeFolders (h : Spread s home t) (hn : Tree.IsName n)
    (hplace : t.node? (lead [] home.parts ++ [n]) = none ∨
      t.node? (lead [] home.parts ++ [n]) = some .folder) :
    (t.makeFolders (home.child n)).2 = none := by
  refine Tree.makeFolders_succeeds (k := 300) (h.fits.inside hn) ?_ fun l hl => ?_
  · have := h.shallow
    rw [Path.child_parts, List.length_append, List.length_singleton]
    omega
  · rw [Path.child_parts, visited_append, List.mem_append] at hl
    rcases hl with hl | hl
    · exact h.way l hl
    · rw [visited, if_neg hn.not_above] at hl
      obtain rfl := List.mem_singleton.mp hl
      exact hplace

theorem setNames (h : Spread s home t) : ∃ names, s.setNames t = .ok names ∧
    ∀ n, n ∈ names ↔ t.isFolder home = .ok true ∧
      t.node? (lead [] home.parts ++ [n]) = some .folder := by
  obtain ⟨b, hb⟩ := h.fits.holds t (· == .folder)
  have hfolder : t.isFolder home = .ok b := hb
  cases b with
  | false =>
    refine ⟨[], ?_, fun n => ?_⟩
    · simp only [Session.setNames, h.folder, hfolder, ask, bind, Except.bind, pure, Except.pure,
        Except.mapError, Bool.false_eq_true, if_false]
    · rw [hfolder]
      exact ⟨fun hn => absurd hn List.not_mem_nil, fun hn => by cases hn.1⟩
  | true =>
    obtain ⟨l, hr, hl⟩ := Tree.isFolder_eq_true_iff.mp hfolder
    obtain rfl := Tree.resolve_eq_lead hr
    refine ⟨_, setNames_of_resolve h.wellFormed h.folder (k := 300) h.fits hr hl, fun n => ?_⟩
    rw [h.wellFormed.mem_folderNames, hfolder]
    exact (and_iff_right rfl).symm

/-- What is located in the folder of a set is listed there. -/
theorem listIds (h : Spread s home t) (hname : Tree.IsName n)
    (hset : s.setFolder (some n) = .ok (home.child n)) :
    ∃ ids, s.listIds t (some n) = .ok ids ∧ ∀ id, isId id = true →
      s.locate t id = .ok (some ((home.child n).fragment id)) → id ∈ ids := by
  have hfits : Tree.Fits (home.child n) 300 := h.fits.inside hname
  have hfile (id : Text) (hlocate : s.locate t id = .ok (some ((home.child n).fragment id))) :
      t.isFile ((home.child n).fragment id) = .ok true := by
    obtain ⟨folders, -, hfirst⟩ := locate_eq_ok hlocate
    obtain ⟨f, -, -, hfile⟩ := firstWith_some hfirst
    exact hfile
  obtain ⟨b, hb⟩ := hfits.holds t (· == .folder)
  have hfolder : t.isFolder (home.child n) = .ok b := hb
  cases b with
  | false =>
    refine ⟨_, listIds_of_absent hset hfolder, fun id hid hlocate => ?_⟩
    have hat := hfile id hlocate
    rw [Path.fragment_eq_child _ (digits_of_isId hid)] at hat
    obtain ⟨m, c, hm, -⟩ := Tree.isFile_eq_true_iff.mp hat
    cases hfolder.symm.trans (hfits.isFolder_of_resolve hm)
  | true =>
    obtain ⟨k, hk, hn⟩ := Tree.isFolder_eq_true_iff.mp hfolder
    refine ⟨_, listIds_of_there (j := 44) h.wellFormed hset hfits hk hn, fun id hid hlocate => ?_⟩
    have hat := hfile id hlocate
    rw [Path.fragment_eq_child _ (digits_of_isId hid)] at hat
    obtain ⟨m, c, hm, hc⟩ := Tree.isFile_eq_true_iff.mp hat
    rw [hfits.resolve_record (k := 264) hid hk hn, Except.ok.injEq] at hm
    obtain rfl : k = lead [] home.parts ++ [n] := by
      rw [Tree.resolve_eq_lead hk, lead_child _ hname.not_above]
    refine (mem_listed h.wellFormed).mpr ⟨_, c, fileId?_ending hid, ?_⟩
    rw [List.append_cons, hm]
    exact hc

theorem opens (h : Spread s home t) (hname : Tree.IsName n) (hn : Kept n)
    (hplace : t.node? (lead [] home.parts ++ [n]) = none ∨
      t.node? (lead [] home.parts ++ [n]) = some .folder) : Opens s home t n := by
  have hset := setFolder_of_kept h.folder hn
  have hmade := h.makeFolders hname hplace
  have hthere := Tree.isFolder_eq_true_iff.mpr ⟨_, Tree.makeFolders_ok h.wellFormed hmade⟩
  refine ⟨⟨_, ?_, hthere⟩, hset, ⟨_, run_ensureSet hset hmade, hthere⟩, h.listIds hname hset⟩
  rw [run_switchSet h.folder (SetName.sanitize_eq_self_iff.mpr hn), hmade]

end Spread

/-- Every set that is listed can be given back by its name when the checks on names leave it as it
is, and otherwise none of the operations that are given a name takes it for that set. -/
theorem sets_open (h : Spread s home t) : ∃ names sets, s.setNames t = .ok names ∧
    s.listSets t = .ok sets ∧ (∀ n, n ∈ names ↔ t.isFolder home = .ok true ∧
      t.node? (lead [] home.parts ++ [n]) = some .folder) ∧
    (∀ n, n ∈ sets ↔ n = s.activeSet ∨ n = defaultSet ∨ n ∈ names) ∧
    ∀ n ∈ sets, (Kept n → Opens s home t n) ∧
      (¬ Kept n → s.setFolder (some n) ≠ .ok (home.child n) ∧
        ∀ u, (s.switchSet (some n)).run t ≠ (.ok { s with activeSet := n }, u) ∧
          (s.ensureSet (some n)).run t ≠ (.ok (home.child n), u)) := by
  obtain ⟨names, hnames, hmem⟩ := h.setNames
  have hsets : ∀ n, n ∈ (s.activeSet :: defaultSet :: names).eraseDups ↔
      n = s.activeSet ∨ n = defaultSet ∨ n ∈ names := fun n => by
    rw [List.mem_eraseDups, List.mem_cons, List.mem_cons]
  refine ⟨names, _, hnames, by rw [listSets, hnames]; rfl, hmem, hsets, fun n hn =>
    ⟨fun hkept => ?_, fun hlost => ⟨fun e => hlost (kept_of_setFolder h.folder h.active e), fun u =>
      ⟨fun e => hlost (kept_of_switchSet e),
        fun e => hlost (kept_of_ensureSet h.wellFormed h.folder h.active e)⟩⟩⟩⟩
  rcases (hsets n).mp hn with rfl | rfl | hn
  · exact h.opens h.active.toIsName hkept (h.places _ (.inl rfl))
  · exact h.opens (by decide) hkept (h.places _ (.inr rfl))
  · have hfolder := ((hmem n).mp hn).2
    exact h.opens (h.wellFormed.canHold hfolder).isName hkept (.inr hfolder)

/-- A workspace with one record in a set besides the default one, which has no folder yet. -/
def oneNote : Tree :=
  ⟨[([".cms".toList], .folder), ([".cms".toList, "notes".toList], .folder),
    ([".cms".toList, "notes".toList, "5.md".toList], .file (.text []))]⟩

theorem sets_open_oneNote : ∃ sets, listSets { root := some { slashes := 1 } } oneNote = .ok sets ∧
    ∀ n, n = defaultSet ∨ n = "notes".toList → n ∈ sets ∧ Opens { root := some { slashes := 1 } }
      { slashes := 1, parts := [".cms".toList] } oneNote n := by
  have hspread : Spread { root := some { slashes := 1 } } { slashes := 1, parts := [".cms".toList] }
      oneNote :=
    { wellFormed := by decide
      folder := by decide
      fits := ⟨by decide, by decide, by decide⟩
      shallow := by decide
      active := ⟨⟨by decide, by decide, by decide⟩, by decide, by decide, by decide⟩
      way := by decide
      places := by
        intro n hn
        have hdefault : n = defaultSet := hn.elim id id
        subst hdefault
        exact .inl (by decide) }
  obtain ⟨names, sets, -, hsets, hnames, hmem, hopen⟩ := sets_open hspread
  refine ⟨sets, hsets, fun n hn => ?_⟩
  have hlisted : n ∈ sets := by
    rcases hn with rfl | rfl
    · exact (hmem _).mpr (.inr (.inl rfl))
    · exact (hmem _).mpr (.inr (.inr ((hnames _).mpr ⟨by decide, by decide⟩)))
  have hkept : Kept n := by
    rcases hn with rfl | rfl <;> exact SetName.sanitize_eq_self_iff.mp (by decide +kernel)
  exact ⟨hlisted, (hopen n hlisted).1 hkept⟩

/-- A workspace with one record in a folder whose name has a blank. -/
def spacedNote : Tree :=
  ⟨[([".cms".toList], .folder), ([".cms".toList, "code review".toList], .folder),
    ([".cms".toList, "code review".toList, "5.md".toList], .file (.text []))]⟩

theorem blank_name_lost :
    listSets { root := some { slashes := 1 } } spacedNote = .ok [defaultSet, "code review".toList] ∧
      locate { root := some { slashes := 1 } } spacedNote ['5'] = .ok (some
        { slashes := 1, parts := [".cms".toList, "code review".toList, "5.md".toList] }) ∧
      ((switchSet { root := some { slashes := 1 } } (some "code review".toList)).run
        spacedNote).1.map activeSet = .ok "code-review".toList ∧
      listIds { root := some { slashes := 1 } } spacedNote (some "code review".toList) = .ok [] :=
  ⟨by decide +kernel, by decide +kernel, by decide +kernel, by decide +kernel⟩

end Session

end Marginalia
