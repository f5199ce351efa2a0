import Marginalia.Proofs.Session.Sets

/-!
# Sessions that switch sets

A session starts in the default set, and activations and switches, each on whatever tree the disk
holds by then, give it other active sets or fail (`Reached`). The active set is set only when the
folder is made, so a call that fails leaves the session as it was (`firm_call`). One that succeeds
leaves it as it is or switches it to a set whose folder it makes (`Switched`). So a call keeps what
the checks on names say of the active set (`kept_of_call`), and it holds of every session that is
reached (`Reached.kept`): the name of the active set is one that the checks leave as it is, and with
it or without a name the folder is the same one, straight in the folder of sets (`Placed`).
-/

namespace Marginalia

open SetName (Kept)

/-- The calls that may give a session another active set. -/
inductive Call where
  | activate (name : Option Text)
  | switch (name : Option Text)
  deriving DecidableEq, Repr

def Call.name : Call → Option Text
  | .activate name | .switch name => name

namespace Session

variable {root : Option Path} {config : Config} {s s' : Session} {c : Call} {t t' : Tree}
  {r : Except Fault Unit} {name : Option Text} {home : Path}

def call : Call → Acting Unit
  | .activate name => activating name
  | .switch name => do
    let _ ← switching name

/-- The sessions after any calls, of which some may fail. The tree is any at each of them. -/
inductive Reached (root : Option Path) (config : Config) : Session → Prop
  | start : Reached root config { root, config }
  | step {s s' : Session} {c : Call} {t t' : Tree} {r : Except Fault Unit}
      (hs : Reached root config s) (h : (call c).run ⟨s, t⟩ = (r, ⟨s', t'⟩)) :
      Reached root config s'

/-- The active set has a name that the checks leave as it is. Without a name and with the one of the
active set the folder is the same one, straight in the folder of sets. -/
structure Placed (s : Session) : Prop where
  kept : Kept s.activeSet
  stays : SetName.sanitize (some s.activeSet) = .ok s.activeSet
  same : s.setFolder (some s.activeSet) = s.setFolder none
  child : ∀ home, s.folder? = some home → ∃ p, s.setFolder none = .ok p ∧ p.parent = home ∧
    p.name = s.activeSet ∧ p = home.child s.activeSet

/-- The tree that a call makes the folder of the set named in: an activation has made the one of the
default set before. -/
def prepared (s : Session) (t : Tree) : Call → Tree
  | .activate _ => ((s.ensureSet (some defaultSet)).run t).2
  | .switch _ => t

/-- A session was switched to the name that the checks make of the one given, and the folder of its
active set was made. -/
structure Switched (s : Session) (name : Option Text) (t : Tree) (s' : Session) (t' : Tree) :
    Prop where
  checked : SetName.sanitize name = .ok s'.activeSet
  rest : s' = { s with activeSet := s'.activeSet }
  made : ∃ p, s'.setFolder none = .ok p ∧ t.makeFolders p = (t', none)

/-! ## The folder of the active set -/

theorem setFolder_active (hs : s.folder? = some home) (h : Kept s.activeSet) :
    s.setFolder none = .ok (home.child s.activeSet) := by
  have hempty : s.activeSet.isEmpty = false := by simpa using h.not_empty
  have hslash : '/' ∉ s.activeSet := fun hm => by cases h.no_slash _ hm
  simp only [setFolder, bind, Except.bind, pure, Except.pure, requireFolder_eq hs, hempty,
    Bool.false_eq_true, if_false, home.join_name h.not_empty h.not_dot hslash]

theorem placed_of_kept (h : Kept s.activeSet) : Placed s := by
  have hstays := SetName.sanitize_eq_self_iff.mpr h
  refine ⟨h, hstays, ?_, fun home hs => ⟨_, setFolder_active hs h, Path.parent_child .., by simp, rfl⟩⟩
  cases hs : s.folder? with
  | some home => rw [setFolder_active hs h, setFolder_of_kept hs h]
  | none =>
    -- without a workspace both ways end in the same fault
    obtain ⟨c, r, hcr⟩ := List.exists_cons_of_ne_nil h.not_empty
    rw [hcr] at hstays ⊢
    simp only [setFolder, hstays, Except.mapError, requireFolder_of_none hs, bind, Except.bind,
      pure, Except.pure]

/-! ## Calls that fail -/

/-- Work that leaves the session as it was when it fails. -/
def Firm {α : Type} (act : Acting α) : Prop :=
  ∀ a b f, act.run a = (.error f, b) → b.session = a.session

theorem firm_pure {α : Type} (x : α) : Firm (pure x) := fun _ _ _ h => by cases h

theorem Firm.then_pure {α β : Type} {act : Acting α} (hact : Firm act) (x : β) :
    Firm (act >>= fun _ => pure x) := fun a _ _ h => by
  rcases hrun : act.run a with ⟨e | y, d⟩
  · rw [Work.run_bind_of_error hrun] at h
    obtain rfl := (Prod.mk.inj h).2
    exact hact _ _ _ hrun
  · rw [Work.run_bind_of_ok hrun] at h
    cases h

/-- Work on the tree alone, and then other work. -/
theorem Firm.after_onTree {α β : Type} {next : α → Acting β} (hnext : ∀ x, Firm (next x))
    (w : Work α) : Firm (Acting.onTree w >>= next) := fun a _ _ h => by
  rcases hrun : w.run a.tree with ⟨e | x, t₁⟩
  · rw [Work.run_bind_of_error (by rw [Acting.run_onTree, hrun])] at h
    rw [← (Prod.mk.inj h).2]
  · rw [Work.run_bind_of_ok (by rw [Acting.run_onTree, hrun])] at h
    have hkept := hnext x _ _ _ h
    exact hkept

theorem firm_switching (name : Option Text) : Firm (switching name) := fun a _ _ h => by
  cases hn : SetName.sanitize name with
  | error e =>
    rw [run_switching_of_error hn] at h
    rw [← (Prod.mk.inj h).2]
  | ok n =>
    cases hs : a.session.folder? with
    | none =>
      rw [run_switching_of_none hn hs] at h
      rw [← (Prod.mk.inj h).2]
    | some home =>
      -- the active set is set where the folder was made, and then nothing fails
      rw [run_switching hs hn] at h
      cases hmade : (a.tree.makeFolders (home.child n)).2 with
      | none =>
        rw [hmade] at h
        cases h
      | some e =>
        rw [hmade] at h
        rw [← (Prod.mk.inj h).2]

theorem firm_activating (name : Option Text) : Firm (activating name) := fun a _ _ h => by
  unfold activating at h
  rw [Work.run_bind_of_ok (Work.run_get _)] at h
  split at h
  · exact firm_pure () _ _ _ h
  · rw [Work.run_bind_of_ok (Work.run_get _)] at h
    refine Firm.after_onTree (fun _ => ?_) _ _ _ _ h
    split
    · exact firm_pure ()
    · exact firm_pure ()
    · exact (firm_switching _).then_pure ()

theorem firm_call (c : Call) : Firm (call c) := by
  cases c with
  | activate name => exact firm_activating name
  | switch name => exact (firm_switching name).then_pure ()

/-! ## Calls that succeed -/

/-- What a call that succeeds makes of the session and of the tree. -/
theorem outcome_of_ok (h : (call c).run ⟨s, t⟩ = (.ok (), ⟨s', t'⟩)) :
    (match c with
      | .activate name => s.activate name
      | .switch name => s.switchSet name).run t = (.ok s', t') := by
  cases c with
  | activate name =>
    show ((activating name).outcome s).run t = _
    rw [Acting.run_outcome, show (activating name).run ⟨s, t⟩ = _ from h]
    rfl
  | switch name =>
    obtain ⟨n, a, hrun, hlast⟩ := Work.run_bind_eq_ok h
    obtain rfl : a = ⟨s', t'⟩ := (Prod.mk.inj hlast).2
    show ((switching name).outcome s).run t = _
    rw [Acting.run_outcome, hrun]
    rfl

theorem switched_of_ok (h : (s.switchSet name).run t = (.ok s', t')) : Switched s name t s' t' := by
  obtain ⟨home, n, hs, hn, hmade, rfl⟩ := switchSet_eq_ok h
  exact ⟨hn, rfl, _, setFolder_active hs (.of_sanitize hn), hmade⟩

theorem Switched.there (hw : t.WellFormed) (h : Switched s name t s' t') :
    ∃ p, s'.setFolder none = .ok p ∧ t'.isFolder p = .ok true := by
  obtain ⟨p, hp, hmade⟩ := h.made
  have hthere := Tree.makeFolders_ok hw (congrArg Prod.snd hmade)
  rw [hmade] at hthere
  exact ⟨p, hp, Tree.isFolder_eq_true_iff.mpr ⟨_, hthere⟩⟩

theorem prepared_wellFormed (hw : t.WellFormed) (c : Call) : (s.prepared t c).WellFormed := by
  cases c with
  | activate name => exact (ensureSet_spec hw (Prod.eta _).symm).1
  | switch name => exact hw

/-- A call that succeeds switches to the set named, but for an activation without a workspace or
without a name, which leaves the session as it is. -/
theorem call_eq_ok (h : (call c).run ⟨s, t⟩ = (.ok (), ⟨s', t'⟩)) :
    (s' = s ∧ ∃ name, c = .activate name ∧ (s.root = none ∨ name.getD [] = [])) ∨
      Switched s c.name (s.prepared t c) s' t' := by
  have h := outcome_of_ok h
  cases c with
  | switch name => exact .inr (switched_of_ok h)
  | activate name =>
    have h : (s.activate name).run t = (.ok s', t') := h
    rw [activate_eq] at h
    cases hroot : s.root with
    | none =>
      rw [hroot] at h
      cases h
      exact .inl ⟨rfl, name, rfl, .inl rfl⟩
    | some root =>
      rw [hroot] at h
      obtain ⟨p, u, hset, h⟩ := Work.run_bind_eq_ok h
      have hu : s.prepared t (.activate name) = u := congrArg Prod.snd hset
      split at h
      · cases h
        exact .inl ⟨rfl, _, rfl, .inr rfl⟩
      · cases h
        exact .inl ⟨rfl, _, rfl, .inr rfl⟩
      · exact .inr (hu ▸ switched_of_ok h)

/-- A call leaves the session as it was or switches it. -/
theorem call_cases (h : (call c).run ⟨s, t⟩ = (r, ⟨s', t'⟩)) :
    s' = s ∨ Switched s c.name (s.prepared t c) s' t' := by
  cases r with
  | error f => exact .inl (firm_call _ _ _ _ h)
  | ok u => exact (call_eq_ok h).imp And.left id

theorem kept_of_call (hk : Kept s.activeSet) (h : (call c).run ⟨s, t⟩ = (r, ⟨s', t'⟩)) :
    Kept s'.activeSet := by
  rcases call_cases h with rfl | hswitched
  · exact hk
  · exact .of_sanitize hswitched.checked

theorem rest_of_call (h : (call c).run ⟨s, t⟩ = (r, ⟨s', t'⟩)) :
    s' = { s with activeSet := s'.activeSet } := by
  rcases call_cases h with rfl | hswitched
  · rfl
  · exact hswitched.rest

namespace Reached

/-- The checks leave the name of the active set as it is, whatever calls were made. -/
theorem kept (h : Reached root config s) : Kept s.activeSet := by
  induction h with
  | start =>
    have hstays : SetName.sanitize (some defaultSet) = .ok defaultSet := by decide +kernel
    exact .of_sanitize hstays
  | step _ hrun ih => exact kept_of_call ih hrun

theorem rest (h : Reached root config s) : s = { root, config, activeSet := s.activeSet } := by
  induction h with
  | start => rfl
  | step _ hrun ih =>
    rw [rest_of_call hrun, ih]

end Reached

/-! ## Names and the folders they stand for -/

/-- A name is refused, for what is left of it without the blanks around it, or stands for a name that
the checks leave as it is. The active set of a session after any calls has such a name, and its
folder, straight in the folder of sets, is the same one with the name, without a name and for the
switch to it. -/
theorem names_stay_inside :
    (∀ name trimmed : Text, Text.trim name = trimmed →
      ((∃ f, SetName.sanitize (some name) = .error f) ↔
        trimmed = [] ∨ trimmed = ['.'] ∨ trimmed = ['.', '.'] ∨ '/' ∈ trimmed ∨ '\\' ∈ trimmed) ∧
      ∀ n, SetName.sanitize (some name) = .ok n →
        Kept n ∧ SetName.sanitize (some n) = .ok n) ∧
    ∀ root config s, Reached root config s →
      Placed s ∧ s = { root, config, activeSet := s.activeSet } ∧
      ∀ c t r s' t', (call c).run ⟨s, t⟩ = (r, ⟨s', t'⟩) →
        (∀ f, r = .error f → s' = s) ∧
        (r = .ok () →
          (s' = s ∧ ∃ name, c = .activate name ∧ (root = none ∨ name.getD [] = [])) ∨
          (Switched s c.name (s.prepared t c) s' t' ∧
            (t.WellFormed → ∃ p, s'.setFolder none = .ok p ∧ t'.isFolder p = .ok true))) := by
  refine ⟨fun name trimmed htrim => ⟨SetName.sanitize_error_iff htrim, fun n hn => ?_⟩,
    fun root config s hs => ⟨placed_of_kept hs.kept, hs.rest, fun c t r s' t' hrun => ⟨?_, ?_⟩⟩⟩
  · have hkept := Kept.of_sanitize hn
    exact ⟨hkept, SetName.sanitize_eq_self_iff.mpr hkept⟩
  · rintro f rfl
    exact firm_call _ _ _ _ hrun
  · rintro rfl
    have hroot : s.root = root := congrArg Session.root hs.rest
    rcases call_eq_ok hrun with ⟨rfl, name, rfl, hidle⟩ | hswitched
    · exact .inl ⟨rfl, name, rfl, hroot ▸ hidle⟩
    · exact .inr ⟨hswitched, fun hw => hswitched.there (prepared_wellFormed hw c)⟩

/-- A session that was activated for a set whose name has blanks, and then failed to switch. -/
theorem names_stay_inside_two_calls :
    ∃ s t, Reached (some { slashes := 1 }) {} s ∧ s.activeSet = "code-review".toList ∧
      (∃ f, SetName.sanitize (some " ../notes".toList) = .error f) ∧ Placed s ∧
      s.setFolder none = .ok { slashes := 1, parts := [".cms".toList, "code-review".toList] } ∧
      Tree.isFolder t { slashes := 1, parts := [".cms".toList, "code-review".toList] } =
        .ok true := by
  let start : Session := { root := some { slashes := 1 } }
  let s : Session := { start with activeSet := "code-review".toList }
  let t : Tree := ((call (.activate (some " code \t review".toList))).run ⟨start, {}⟩).2.tree
  have hactivated : (call (.activate (some " code \t review".toList))).run ⟨start, {}⟩ =
      (.ok (), ⟨s, t⟩) := rfl
  have hfailed : (call (.switch (some " ../notes".toList))).run ⟨s, t⟩ =
      (.error (.setName (.slash "../notes".toList)), ⟨s, t⟩) := rfl
  have hstays : Reached (some { slashes := 1 }) {} s := (Reached.start.step hactivated).step hfailed
  obtain ⟨hnames, hsessions⟩ := names_stay_inside
  obtain ⟨hplaced, -, -⟩ := hsessions _ _ _ hstays
  obtain ⟨p, hp, -, -, rfl⟩ := hplaced.child _ rfl
  obtain ⟨-, -, hcalls⟩ := hsessions (some { slashes := 1 }) {} _ .start
  have hrefused := (hnames " ../notes".toList "../notes".toList (by decide +kernel)).1.mpr
    (.inr (.inr (.inr (.inl (by decide)))))
  rcases (hcalls _ _ _ _ _ hactivated).2 rfl with ⟨-, _, e, hidle⟩ | ⟨-, hthere⟩
  · cases e
    rcases hidle with hroot | hname
    · cases hroot
    · cases hname
  · obtain ⟨q, hq, hfolder⟩ := hthere .empty
    cases Except.ok.inj (hp.symm.trans hq)
    exact ⟨s, t, hstays, rfl, hrefused, hplaced, hp, hfolder⟩

end Session

end Marginalia
