import Marginalia.CommandLine
import Marginalia.Proofs.Session.Tidy

/-!
# Runs of the program

A run that does not fail loads the settings, takes the set from the arguments, activates a session
and does the work of its command (`run_of_dispatch`). A run that fails before the command does its
work has changed no file (`command_cases`).
-/

namespace Marginalia.CommandLine

/-! ## Runs -/

namespace Run

variable {α : Type}

@[simp] theorem run_ofExcept (r : Except Fault α) (t : Tree) : (ofExcept r).run t = (r, t) := rfl

theorem run_ofWork (w : Work α) (t : Tree) :
    (ofWork w).run t = ((w.run t).1.mapError .workspace, (w.run t).2) := by
  rfl

@[simp] theorem run_inspect (look : Tree → Except Marginalia.Fault α) (t : Tree) :
    (inspect look).run t = ((look t).mapError .workspace, t) := rfl

end Run

variable {e : Setting} {s : Session} {t t' t'' : Tree}

/-! ## Outcomes -/

/-- Whether a run ended with a fault, one that is reported or not. -/
def Outcome.Failed (o : Outcome) : Prop := o.exit = .ok 1 ∨ ∃ f, o.exit = .error f

theorem run_cases {name : Text} {args : List Text} {o : Outcome}
    (h : run e (name :: args) t = (o, t')) : ∃ r, (command e name args).run t = (r, t') ∧
      ((∃ f, r = .error f) ∧ o.Failed ∨
        ∃ p, r = .ok p ∧ o = { exit := .ok p.exit, output := printed p.lines }) := by
  unfold run at h
  rcases hrun : (command e name args).run t with ⟨f | p, t₁⟩
  · simp only [hrun] at h
    split at h
    · cases h
      exact ⟨_, rfl, .inl ⟨⟨f, rfl⟩, .inl rfl⟩⟩
    · cases h
      exact ⟨_, rfl, .inl ⟨⟨f, rfl⟩, .inr ⟨f, rfl⟩⟩⟩
  · simp only [hrun] at h
    cases h
    exact ⟨_, rfl, .inr ⟨p, rfl, rfl⟩⟩

/-- Before a command does its work the settings are loaded and a session is activated. -/
theorem command_cases {name : Text} {args : List Text} {r : Except Fault Printed}
    (hw : t.WellFormed) (h : (command e name args).run t = (r, t')) :
    ((∃ f, r = .error f) ∧ Tree.SameFiles [] t t') ∨ ∃ config set rest s t₁,
      Config.load t e.env none e.cwd e.home = .ok config ∧
      takeOption setOption args = .ok (set, rest) ∧
      (Session.activate { root := some e.cwd, config } set).run t = (.ok s, t₁) ∧
      (dispatch s e.now e.cwd set name rest).run t₁ = (r, t') := by
  unfold command at h
  cases hload : Config.load t e.env none e.cwd e.home with
  | error f =>
    rw [Work.run_bind_of_error (by rw [Run.run_inspect, hload]; rfl)] at h
    cases h
    exact .inl ⟨⟨_, rfl⟩, .refl _ _⟩
  | ok config =>
    rw [Work.run_bind_of_ok (by rw [Run.run_inspect, hload]; rfl)] at h
    simp only at h
    split at h
    · cases htake : takeOption setOption args with
      | error f =>
        rw [htake, Work.run_bind_of_error (Run.run_ofExcept ..)] at h
        cases h
        exact .inl ⟨⟨_, rfl⟩, .refl _ _⟩
      | ok taken =>
        obtain ⟨set, rest⟩ := taken
        rw [htake, Work.run_bind_of_ok (Run.run_ofExcept ..)] at h
        have hworks : Session.Works { root := some e.cwd, config } e.cwd config.folder :=
          Session.works_default e.cwd rfl
        rcases hactivate : (Session.activate { root := some e.cwd, config } set).run t
          with ⟨f | s, t₁⟩
        · rw [Work.run_bind_of_error (by rw [Run.run_ofWork, hactivate]; rfl)] at h
          cases h
          obtain ⟨-, hsame, -⟩ := Session.activate_spec hworks.folder? hworks.set hw hactivate
          exact .inl ⟨⟨_, rfl⟩, hsame⟩
        · rw [Work.run_bind_of_ok (by rw [Run.run_ofWork, hactivate]; rfl)] at h
          exact .inr ⟨config, set, rest, s, t₁, rfl, rfl, hactivate, h⟩
    · cases h
      exact .inl ⟨⟨_, rfl⟩, .refl _ _⟩

/-- A run in which nothing fails. -/
theorem run_of_dispatch {config : Config} {level name : Text} {args rest : List Text}
    {set : Option Text} {p : Printed} (hload : Config.load t e.env none e.cwd e.home = .ok config)
    (hlevel : config.logLevel = .string level) (htake : takeOption setOption args = .ok (set, rest))
    (hactivate : (Session.activate { root := some e.cwd, config } set).run t = (.ok s, t'))
    (hdispatch : (dispatch s e.now e.cwd set name rest).run t' = (.ok p, t'')) :
    run e (name :: args) t = ({ exit := .ok p.exit, output := printed p.lines }, t'') := by
  have hcommand : (command e name args).run t = (.ok p, t'') := by
    unfold command
    rw [Work.run_bind_of_ok (by rw [Run.run_inspect, hload]; rfl)]
    simp only [hlevel]
    rw [htake, Work.run_bind_of_ok (Run.run_ofExcept ..),
      Work.run_bind_of_ok (by rw [Run.run_ofWork, hactivate]; rfl), hdispatch]
  unfold run
  simp only [hcommand]

end Marginalia.CommandLine
