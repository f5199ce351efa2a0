import Marginalia.Session.Binding
import Mathlib.Data.List.Forall2

/-!
# Running work

How the steps of `Work` and `Editing` run: each takes the state to a result, which may be a fault,
and the state after it. `run_bind` runs two steps in a row and the other lemmas run the single
steps, so that no proof unfolds the monads. A list of steps succeeds when each does
(`mapM_eq_ok_iff`).
-/

namespace Marginalia

section

variable {ε α β : Type} {f : α → Except ε β} {xs : List α}

theorem bind_eq_ok_iff {r : Except ε α} {g : α → Except ε β} {b : β} :
    r >>= g = .ok b ↔ ∃ a, r = .ok a ∧ g a = .ok b := by
  cases r with
  | error e => simp [bind, Except.bind]
  | ok a => simp [bind, Except.bind]

theorem map_eq_ok_iff {r : Except ε α} {g : α → β} {b : β} :
    r.map g = .ok b ↔ ∃ a, r = .ok a ∧ b = g a := by
  cases r <;> simp [Except.map, eq_comm]

theorem mapError_eq_ok_iff {ε' : Type} {g : ε → ε'} {r : Except ε α} {a : α} :
    r.mapError g = .ok a ↔ r = .ok a := by
  cases r <;> simp [Except.mapError]

/-- Every step of a loop that ends was taken. -/
theorem of_foldlM_eq_ok {f : β → α → Except ε β} {b c : β} (h : xs.foldlM f b = .ok c) {x : α}
    (hx : x ∈ xs) : ∃ b' c', f b' x = .ok c' := by
  induction xs generalizing b with
  | nil => cases hx
  | cons y xs ih =>
    rw [List.foldlM_cons] at h
    obtain ⟨b', hy, h⟩ := bind_eq_ok_iff.mp h
    rcases List.mem_cons.mp hx with rfl | hx
    · exact ⟨b, b', hy⟩
    · exact ih h hx

theorem mapM_eq_ok_iff {ys : List β} :
    xs.mapM f = .ok ys ↔ List.Forall₂ (fun x y => f x = .ok y) xs ys := by
  induction xs generalizing ys with
  | nil => cases ys <;> simp [pure, Except.pure]
  | cons x xs ih =>
    rw [List.mapM_cons]
    cases hx : f x with
    | error e => cases ys <;> simp [bind, Except.bind, hx]
    | ok y =>
      cases hxs : xs.mapM f with
      | error e => cases ys <;> simp [bind, Except.bind, ← ih, hx, hxs]
      | ok ys' => cases ys <;> simp [bind, Except.bind, pure, Except.pure, ← ih, hx, hxs]

theorem of_mem_mapM {ys : List β} (h : xs.mapM f = .ok ys) {y : β} (hy : y ∈ ys) :
    ∃ x ∈ xs, f x = .ok y := by
  have h := mapM_eq_ok_iff.mp h
  obtain ⟨i, hi, rfl⟩ := List.mem_iff_getElem.mp hy
  exact ⟨_, List.getElem_mem (h.length_eq ▸ hi), h.get (h.length_eq ▸ hi) hi⟩

theorem mapM_succeeds_iff : (∃ ys, xs.mapM f = .ok ys) ↔ ∀ x ∈ xs, ∃ y, f x = .ok y := by
  simp only [mapM_eq_ok_iff]
  constructor
  · rintro ⟨ys, h⟩ x hx
    obtain ⟨i, hi, rfl⟩ := List.mem_iff_getElem.mp hx
    exact ⟨_, List.Forall₂.get h hi (h.length_eq ▸ hi)⟩
  · intro h
    induction xs with
    | nil => exact ⟨[], .nil⟩
    | cons x xs ih =>
      obtain ⟨⟨y, hy⟩, hxs⟩ := List.forall_mem_cons.mp h
      obtain ⟨ys, hys⟩ := ih hxs
      exact ⟨y :: ys, .cons hy hys⟩

/-- A row of steps each of which gives one thing only, under its own condition. -/
theorem mapM_eq_ok_map_iff {P : α → Prop} {g : α → β} (hf : ∀ x y, f x = .ok y ↔ P x ∧ y = g x)
    {ys : List β} : xs.mapM f = .ok ys ↔ (∀ x ∈ xs, P x) ∧ ys = xs.map g := by
  induction xs generalizing ys with
  | nil => simp [pure, Except.pure, eq_comm]
  | cons x xs ih =>
    rw [List.mapM_cons, bind_eq_ok_iff, List.forall_mem_cons, List.map_cons]
    constructor
    · rintro ⟨y, hy, h⟩
      obtain ⟨ys', hys, h⟩ := bind_eq_ok_iff.mp h
      obtain ⟨hx, rfl⟩ := (hf x y).mp hy
      obtain ⟨hxs, rfl⟩ := ih.mp hys
      exact ⟨⟨hx, hxs⟩, (Except.ok.inj h).symm⟩
    · rintro ⟨⟨hx, hxs⟩, rfl⟩
      exact ⟨g x, (hf x _).mpr ⟨hx, rfl⟩, bind_eq_ok_iff.mpr ⟨_, ih.mpr ⟨hxs, rfl⟩, rfl⟩⟩

theorem mem_flatten_mapM {f : α → Except ε (List β)} {yss : List (List β)}
    (h : xs.mapM f = .ok yss) {b : β} :
    b ∈ yss.flatten ↔ ∃ x ∈ xs, ∃ ys, f x = .ok ys ∧ b ∈ ys := by
  induction xs generalizing yss with
  | nil =>
    cases h
    simp
  | cons x xs ih =>
    cases mapM_eq_ok_iff.mp h with
    | cons hx hxs =>
      rw [List.flatten_cons, List.mem_append, ih (mapM_eq_ok_iff.mpr hxs)]
      simp [hx]

end

namespace Work

section General

variable {ε σ α β : Type}

theorem run_bind (x : ExceptT ε (StateM σ) α) (f : α → ExceptT ε (StateM σ) β) (t : σ) :
    (x >>= f).run t = match x.run t with
      | (.ok a, t') => (f a).run t'
      | (.error e, t') => (.error e, t') := by
  show (ExceptT.bindCont f (x.run t).1) (x.run t).2 = _
  rcases x.run t with ⟨r, t'⟩
  cases r <;> rfl

theorem run_eq_of_fst {x : ExceptT ε (StateM σ) α} {t : σ} {r : Except ε α}
    (h : (x.run t).1 = r) : x.run t = (r, (x.run t).2) := by
  rw [← h]
  exact (Prod.eta _).symm

theorem run_bind_of_ok {x : ExceptT ε (StateM σ) α} {t t' : σ} {a : α}
    (h : x.run t = (.ok a, t')) (f : α → ExceptT ε (StateM σ) β) :
    (x >>= f).run t = (f a).run t' := by
  rw [run_bind, h]

theorem run_bind_of_error {x : ExceptT ε (StateM σ) α} {t t' : σ} {e : ε}
    (h : x.run t = (.error e, t')) (f : α → ExceptT ε (StateM σ) β) :
    (x >>= f).run t = (.error e, t') := by
  rw [run_bind, h]

/-- Two steps that succeed: the first does, and so does the second with its result. -/
theorem run_bind_eq_ok {x : ExceptT ε (StateM σ) α} {f : α → ExceptT ε (StateM σ) β} {t t' : σ}
    {b : β} (h : (x >>= f).run t = (.ok b, t')) :
    ∃ a t₁, x.run t = (.ok a, t₁) ∧ (f a).run t₁ = (.ok b, t') := by
  rw [run_bind] at h
  rcases hx : x.run t with ⟨_ | a, t₁⟩
  · rw [hx] at h
    cases h
  · rw [hx] at h
    exact ⟨a, t₁, rfl, h⟩

/-- A step and a value after it leave the state as the step does. -/
theorem run_bind_pure_snd (x : ExceptT ε (StateM σ) α) (b : β) (t : σ) :
    ((x >>= fun _ => pure b).run t).2 = (x.run t).2 := by
  rw [run_bind]
  rcases x.run t with ⟨_ | a, t'⟩ <;> rfl

@[simp] theorem run_pure (a : α) (t : σ) :
    (pure a : ExceptT ε (StateM σ) α).run t = (.ok a, t) := rfl

@[simp] theorem run_get (t : σ) : (get : ExceptT ε (StateM σ) σ).run t = (.ok t, t) := rfl

@[simp] theorem run_set (t t' : σ) :
    (set t' : ExceptT ε (StateM σ) PUnit).run t = (.ok ⟨⟩, t') := rfl

@[simp] theorem run_throw (e : ε) (t : σ) :
    (throw e : ExceptT ε (StateM σ) α).run t = (.error e, t) := rfl

end General

variable {α β : Type}

theorem ext {w w' : Work α} (h : ∀ t, w.run t = w'.run t) : w = w' := funext h

@[simp] theorem run_ofExcept (r : Except Fault α) (t : Tree) : (ofExcept r).run t = (r, t) := rfl

@[simp] theorem run_inspect (look : Tree → Except Fault α) (t : Tree) :
    (inspect look).run t = (look t, t) := rfl

theorem run_change (act : Tree → Except Disk.Fault Tree) (t : Tree) :
    (change act).run t = match act t with
      | .ok t' => (.ok (), t')
      | .error f => (.error (.disk f), t) := by
  unfold change
  rw [run_bind_of_ok (run_get t)]
  cases act t <;> rfl

theorem run_makeFolders (p : Path) (t : Tree) :
    (makeFolders p).run t = match (t.makeFolders p).2 with
      | none => (.ok (), (t.makeFolders p).1)
      | some f => (.error (.disk f), (t.makeFolders p).1) := by
  unfold makeFolders
  rw [run_bind_of_ok (run_get t)]
  rcases h : t.makeFolders p with ⟨t', fault⟩
  simp only
  rw [run_bind_of_ok (run_set t t')]
  cases fault <;> rfl

end Work

namespace Acting

variable {α : Type}

@[simp] theorem run_ofExcept (r : Except Fault α) (a : Sitting) : (ofExcept r).run a = (r, a) := rfl

/-- Work on the tree leaves the session alone. -/
theorem run_onTree (w : Work α) (a : Sitting) :
    (onTree w).run a = ((w.run a.tree).1, { a with tree := (w.run a.tree).2 }) := rfl

theorem run_outcome (act : Acting α) (s : Session) (t : Tree) :
    (act.outcome s).run t =
      ((act.run ⟨s, t⟩).1.map fun _ => (act.run ⟨s, t⟩).2.session, (act.run ⟨s, t⟩).2.tree) := rfl

end Acting

namespace Editing

variable {α : Type}

@[simp] theorem run_ofExcept (r : Except Fault α) (d : Desk) : (ofExcept r).run d = (r, d) := rfl

/-- Work on the tree of a desk leaves the document alone. -/
theorem run_onTree (w : Work α) (d : Desk) :
    (onTree w).run d = ((w.run d.tree).1, { d with tree := (w.run d.tree).2 }) := rfl

theorem onTree_eq {w : Work α} {d d' : Desk} {r : Except Fault α}
    (h : (onTree w).run d = (r, d')) :
    w.run d.tree = (r, d'.tree) ∧ d' = { d with tree := d'.tree } := by
  rw [run_onTree] at h
  obtain ⟨rfl, rfl⟩ := Prod.mk.inj h
  exact ⟨rfl, rfl⟩

@[simp] theorem run_lineText (line : Int) (d : Desk) :
    (lineText line).run d = (d.document.lineText line, d) := rfl

theorem run_apply (s : Session) (e : Edit) (d : Desk) :
    (Editing.apply s e).run d = match d.document.apply e (d.watcher.observes s) with
      | .ok (document, applied) => (.ok applied, { d with document })
      | .error f => (.error f, d) := by
  unfold Editing.apply
  rw [Work.run_bind_of_ok (Work.run_get d)]
  cases d.document.apply e (d.watcher.observes s) <;> rfl

/-- An edit leaves the tree of a desk alone. -/
theorem apply_tree {s : Session} {e : Edit} {d d' : Desk} {r : Except Fault Bool}
    (h : (Editing.apply s e).run d = (r, d')) : d'.tree = d.tree := by
  rw [run_apply] at h
  cases hd : d.document.apply e (d.watcher.observes s) with
  | error f => rw [hd] at h; obtain ⟨-, rfl⟩ := Prod.mk.inj h; rfl
  | ok applied => rw [hd] at h; obtain ⟨-, rfl⟩ := Prod.mk.inj h; rfl

end Editing

end Marginalia
