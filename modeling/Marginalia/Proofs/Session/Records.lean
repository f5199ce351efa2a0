import Marginalia.Proofs.Disk.Folders
import Marginalia.Proofs.Work
import Marginalia.Session.Records

/-!
# Making records

Making a fragment's record adds folders and at most one file, and changes nothing that was there
(`ensure_extends`), whether it ends in a fault or not.
-/

namespace Marginalia.Session

theorem requireRoot_of_folder? {s : Session} {home : Path} (hs : s.folder? = some home) :
    ∃ root, ∀ operation, s.requireRoot operation = .ok root := by
  unfold folder? at hs
  cases hroot : s.root with
  | none => simp [hroot] at hs
  | some root => exact ⟨root, fun _ => by simp [requireRoot, hroot]⟩

/-! ## What making a record comes to -/

theorem ensureSet_spec {s : Session} {set : Option Text} {t t' : Tree} {r : Except Fault Path}
    (hw : t.WellFormed) (h : (s.ensureSet set).run t = (r, t')) :
    t'.WellFormed ∧ Tree.MoreFolders t t' ∧
      ∀ p, r = .ok p → s.setFolder set = .ok p ∧ (t.makeFolders p).2 = none ∧
        t' = (t.makeFolders p).1 := by
  unfold ensureSet at h
  cases hp : s.setFolder set with
  | error e =>
    rw [hp, Work.run_bind_of_error (Work.run_ofExcept _ _)] at h
    obtain ⟨rfl, rfl⟩ := Prod.mk.inj h
    exact ⟨hw, .refl t, fun p e => by cases e⟩
  | ok p =>
    obtain ⟨hw', hadd⟩ := Tree.makeFolders_adds hw p
    rw [hp, Work.run_bind_of_ok (Work.run_ofExcept _ _)] at h
    cases hmade : (t.makeFolders p).2 with
    | some f =>
      rw [Work.run_bind_of_error (by rw [Work.run_makeFolders, hmade])] at h
      obtain ⟨rfl, rfl⟩ := Prod.mk.inj h
      exact ⟨hw', hadd.more, fun p e => by cases e⟩
    | none =>
      rw [Work.run_bind_of_ok (by rw [Work.run_makeFolders, hmade])] at h
      obtain ⟨rfl, rfl⟩ := Prod.mk.inj h
      refine ⟨hw', hadd.more, fun q e => ?_⟩
      cases e
      exact ⟨rfl, hmade, rfl⟩

/-- What making a record comes to: it is made where nothing was, or something is there already, or
no more than folders are made before a fault. -/
theorem ensure_spec {s : Session} {now : Int} {set : Option Text} {id : Text} {t t' : Tree}
    {r : Except Fault Created} (hw : t.WellFormed) (h : (s.ensure now set id).run t = (r, t')) :
    t'.WellFormed ∧ (∀ e, r = .error e → Tree.MoreFolders t t') ∧
      ∀ m, r = .ok m → ∃ p, s.setFolder set = .ok p ∧ (t.makeFolders p).2 = none ∧
        m.path = p.fragment id ∧
        ((m.created = true ∧ ∃ l, (t.makeFolders p).1.resolve m.path = .ok l ∧ l ≠ [] ∧
            (t.makeFolders p).1.node? l = none ∧
            t' = (t.makeFolders p).1.insert l
              (.file (.text (Page.fresh s.config now id).render))) ∨
          (m.created = false ∧
            (t.makeFolders p).1.create m.path (Page.fresh s.config now id).render =
              .error .occupied ∧
            t' = (t.makeFolders p).1)) := by
  unfold ensure makeRecord at h
  cases hreq : s.requireRoot "ensure_fragment".toList with
  | error e =>
    rw [hreq, Work.run_bind_of_error (Work.run_ofExcept _ _)] at h
    obtain ⟨rfl, rfl⟩ := Prod.mk.inj h
    exact ⟨hw, fun _ _ => .refl t, fun p e => by cases e⟩
  | ok root =>
    rw [hreq, Work.run_bind_of_ok (Work.run_ofExcept _ _)] at h
    rcases hset : (s.ensureSet set).run t with ⟨r₁, t₁⟩
    obtain ⟨hw₁, hmore, hmade⟩ := ensureSet_spec hw hset
    cases r₁ with
    | error e =>
      rw [Work.run_bind_of_error hset] at h
      obtain ⟨rfl, rfl⟩ := Prod.mk.inj h
      exact ⟨hw₁, fun _ _ => hmore, fun p e => by cases e⟩
    | ok p =>
      obtain ⟨hfolder, hnone, rfl⟩ := hmade p rfl
      rw [Work.run_bind_of_ok hset, Work.run_bind_of_ok (Work.run_get _)] at h
      cases hc : (t.makeFolders p).1.create (p.fragment id)
          (Page.fresh s.config now id).render with
      | ok t₂ =>
        rw [hc] at h
        obtain ⟨l, hl, hne, hn, rfl⟩ := Tree.create_eq_ok hc
        obtain ⟨rfl, rfl⟩ := Prod.mk.inj h
        refine ⟨hw₁.insert_file hl (by rw [hn]; simp) _, fun _ e => (by cases e), fun m e => ?_⟩
        cases e
        exact ⟨p, hfolder, hnone, rfl, .inl ⟨rfl, l, hl, hne, hn, rfl⟩⟩
      | error f =>
        rw [hc] at h
        by_cases hf : f = .occupied
        · subst hf
          obtain ⟨rfl, rfl⟩ := Prod.mk.inj h
          refine ⟨hw₁, fun _ _ => hmore, fun m e => ?_⟩
          cases e
          exact ⟨p, hfolder, hnone, rfl, .inr ⟨rfl, hc, rfl⟩⟩
        · have hfail : ∃ e, (r, t') = (.error e, (t.makeFolders p).1) := by
            cases f with
            | occupied => exact absurd rfl hf
            | _ => exact ⟨_, h.symm⟩
          obtain ⟨e, he⟩ := hfail
          obtain ⟨rfl, rfl⟩ := Prod.mk.inj he
          exact ⟨hw₁, fun _ _ => hmore, fun m e => by cases e⟩

theorem ensure_extends {s : Session} {now : Int} {set : Option Text} {id : Text} {t t' : Tree}
    {r : Except Fault Created} (hw : t.WellFormed) (h : (s.ensure now set id).run t = (r, t')) :
    Tree.Extends t t' := by
  obtain ⟨-, hfail, hmade⟩ := ensure_spec hw h
  cases r with
  | error e => exact (hfail e rfl).extends
  | ok m =>
    obtain ⟨p, -, -, -, ⟨-, l, -, -, hn, rfl⟩ | ⟨-, -, rfl⟩⟩ := hmade m rfl
    · exact (Tree.makeFolders_adds hw p).2.extends.trans (Tree.extends_insert hn _)
    · exact (Tree.makeFolders_adds hw p).2.extends

/-! ## When it succeeds -/

theorem run_ensureSet {s : Session} {set : Option Text} {t : Tree} {p : Path}
    (hp : s.setFolder set = .ok p) (hmade : (t.makeFolders p).2 = none) :
    (s.ensureSet set).run t = (.ok p, (t.makeFolders p).1) := by
  unfold ensureSet
  rw [hp, Work.run_bind_of_ok (Work.run_ofExcept _ _),
    Work.run_bind_of_ok (by rw [Work.run_makeFolders, hmade])]
  rfl

theorem run_makeRecord {s : Session} (text : Text) {set : Option Text} {id : Text} {t : Tree}
    {p : Path} {home : Path} {l : Location} (hs : s.folder? = some home)
    (hp : s.setFolder set = .ok p) (hmade : (t.makeFolders p).2 = none)
    (hl : (t.makeFolders p).1.resolve (p.fragment id) = .ok l) :
    (s.makeRecord set id text).run t =
      if ((t.makeFolders p).1.node? l).isSome then
        (.ok { path := p.fragment id, created := false }, (t.makeFolders p).1)
      else
        (.ok { path := p.fragment id, created := true },
          (t.makeFolders p).1.insert l (.file (.text text))) := by
  obtain ⟨root, hroot⟩ := requireRoot_of_folder? hs
  unfold makeRecord
  rw [hroot, Work.run_bind_of_ok (Work.run_ofExcept _ _),
    Work.run_bind_of_ok (run_ensureSet hp hmade), Work.run_bind_of_ok (Work.run_get _)]
  cases hn : (t.makeFolders p).1.node? l with
  | none => simp only [Tree.create, hl, hn]; rfl
  | some x => simp only [Tree.create, hl, hn]; rfl

end Marginalia.Session
