import Marginalia.Proofs.Document
import Marginalia.Proofs.Work

/-!
# Runs of a binding

A marker is bound when every step succeeds (`run_bindFrom`). `Binds` lists what binding a marker can
come to, each case with the steps that were taken, and the runs of `bindFrom`, `handleChange` and
`openAtLine` are taken apart by it (`bindFrom_cases`, `handleChange_cases`, `openAtLine_cases`).
`bindFrom_applied` says which edit a run made that changed the document, and `handleChange_asks` which
binding a change asks for.
-/

namespace Marginalia

theorem Editing.lineText_of_apply {s : Session} {e : Edit} {d d' : Desk}
    (h : (Editing.apply s e).run d = (.ok true, d')) :
    ∃ line, d'.document.lineText e.line = .ok line := by
  rw [Editing.run_apply] at h
  split at h
  · next happly =>
    cases h
    obtain ⟨_, -, hline⟩ := Document.lineText_of_apply happly
    exact ⟨_, hline⟩
  · cases h

namespace Session

/-- The steps of a binding that all succeed. -/
theorem run_bindFrom {s : Session} {now line : Int} {consumed : Nat} (source : Option Text)
    {d : Desk} {text bound id : Text} {m : Marker} {t t' : Tree} {document : Document}
    {made : Created} (htext : d.document.lineText line = .ok text)
    (hm : Marker.scan line (source.getD text) = some m) (hb : m.binding = none)
    (hid : s.allocate.run d.tree = (.ok id, t))
    (hedit : d.document.apply
      { line, start := m.start, stop := min (text.length : Int) (m.stop + consumed)
        text := Marker.canonicalText m.token id } (d.watcher.observes s.mute) =
          .ok (document, true))
    (hmade : (s.ensure now none id).run t = (.ok made, t'))
    (hline : document.lineText line = .ok bound) :
    (s.bindFrom now line consumed source).run d =
      (.ok (some { id, path := made.path, created := made.created, line := bound }),
        { d with tree := t', document }) := by
  unfold bindFrom
  rw [Work.run_bind_of_ok (by rw [Editing.run_lineText, htext])]
  have hopen : m.isBound = false := by simp [Marker.isBound, hb]
  simp only [hm, hopen, Bool.false_eq_true, if_false]
  rw [Work.run_bind_of_ok (by rw [Editing.run_onTree, hid])]
  rw [Work.run_bind_of_ok (by rw [Editing.run_apply, hedit]), if_pos rfl,
    Work.run_bind_of_ok (by rw [Editing.run_onTree, hmade]),
    Work.run_bind_of_ok (by rw [Editing.run_lineText, hline])]
  rfl

/-- What binding a marker can come to: nothing is done, no id can be handed out, the edit is not
applied, the record cannot be made, or it is there. -/
inductive Binds (s : Session) (now : Int) (d : Desk) : Except Fault (Option Bound) → Desk → Prop where
  | idle {r} (h : ∀ b, r ≠ .ok (some b)) : Binds s now d r d
  | refused {f d₁} (hid : (Editing.onTree s.allocate).run d = (.error f, d₁)) :
      Binds s now d (.error f) d₁
  | unedited {e id d₁ r₁ d₂ r} (hid : (Editing.onTree s.allocate).run d = (.ok id, d₁))
      (hedit : (Editing.apply s.mute e).run d₁ = (r₁, d₂)) (h : ∀ b, r ≠ .ok (some b)) :
      Binds s now d r d₂
  | unrecorded {e id d₁ d₂ f d₃} (hid : (Editing.onTree s.allocate).run d = (.ok id, d₁))
      (hedit : (Editing.apply s.mute e).run d₁ = (.ok true, d₂))
      (hmade : (Editing.onTree (s.ensure now none id)).run d₂ = (.error f, d₃)) :
      Binds s now d (.error f) d₃
  | recorded {e id d₁ d₂ made d₃ bound} (hid : (Editing.onTree s.allocate).run d = (.ok id, d₁))
      (hedit : (Editing.apply s.mute e).run d₁ = (.ok true, d₂))
      (hmade : (Editing.onTree (s.ensure now none id)).run d₂ = (.ok made, d₃)) :
      Binds s now d (.ok (some ⟨id, made.path, made.created, bound⟩)) d₃

variable {s : Session} {now line : Int} {d d' : Desk} {r : Except Fault (Option Bound)}

theorem bindFrom_cases {consumed : Nat} {source : Option Text}
    (h : (s.bindFrom now line consumed source).run d = (r, d')) : Binds s now d r d' := by
  unfold bindFrom at h
  cases htext : d.document.lineText line with
  | error f =>
    rw [Work.run_bind_of_error (by rw [Editing.run_lineText, htext])] at h
    cases h
    exact .idle nofun
  | ok text =>
    rw [Work.run_bind_of_ok (by rw [Editing.run_lineText, htext])] at h
    split at h
    · cases h
      exact .idle nofun
    · next m hm =>
      split at h
      · cases h
        exact .idle nofun
      · rcases hid : (Editing.onTree s.allocate).run d with ⟨_ | id, d₁⟩
        · rw [Work.run_bind_of_error hid] at h
          cases h
          exact .refused hid
        · rw [Work.run_bind_of_ok hid] at h
          let edit : Edit :=
            ⟨line, m.start, min text.length (m.stop + consumed), Marker.canonicalText m.token id⟩
          rcases hedit : (Editing.apply s.mute edit).run d₁ with ⟨_ | _ | _, d₂⟩
          · rw [Work.run_bind_of_error hedit] at h
            cases h
            exact .unedited hid hedit nofun
          · rw [Work.run_bind_of_ok hedit] at h
            cases h
            exact .unedited hid hedit nofun
          · rw [Work.run_bind_of_ok hedit, if_pos rfl] at h
            rcases hmade : (Editing.onTree (s.ensure now none id)).run d₂ with ⟨_ | made, d₃⟩
            · rw [Work.run_bind_of_error hmade] at h
              cases h
              exact .unrecorded hid hedit hmade
            · -- Making the record leaves the document alone, so that the line can still be read.
              obtain ⟨bound, hbound⟩ := Editing.lineText_of_apply hedit
              have hline : d₃.document.lineText line = .ok bound := by
                rw [(Editing.onTree_eq hmade).2]
                exact hbound
              rw [Work.run_bind_of_ok hmade,
                Work.run_bind_of_ok (by rw [Editing.run_lineText, hline])] at h
              cases h
              exact .recorded hid hedit hmade

/-- Without an unbound marker nothing is done. -/
theorem bindFrom_idle {consumed : Nat} {source : Option Text}
    (hm : ∀ text m, d.document.lineText line = .ok text →
      Marker.scan line (source.getD text) = some m → m.binding ≠ none)
    (h : (s.bindFrom now line consumed source).run d = (r, d')) :
    d' = d ∧ ∀ b, r ≠ .ok (some b) := by
  unfold bindFrom at h
  cases htext : d.document.lineText line with
  | error f =>
    rw [Work.run_bind_of_error (by rw [Editing.run_lineText, htext])] at h
    cases h
    exact ⟨rfl, nofun⟩
  | ok text =>
    rw [Work.run_bind_of_ok (by rw [Editing.run_lineText, htext])] at h
    split at h
    · cases h
      exact ⟨rfl, nofun⟩
    · next m hscan =>
      have hbound : m.isBound = true := Option.isSome_iff_ne_none.mpr (hm text m htext hscan)
      rw [if_pos hbound] at h
      cases h
      exact ⟨rfl, nofun⟩

/-- With an unbound marker something is done, unless the edit is not applied. -/
theorem bindFrom_ne_none {consumed : Nat} {source : Option Text} {text : Text} {m : Marker}
    (htext : d.document.lineText line = .ok text)
    (hm : Marker.scan line (source.getD text) = some m) (hb : m.binding = none)
    (hedit : ∀ id, ∃ document, d.document.apply
      { line, start := m.start, stop := min (text.length : Int) (m.stop + consumed)
        text := Marker.canonicalText m.token id } (d.watcher.observes s.mute) =
          .ok (document, true)) :
    (s.bindFrom now line consumed source).run d ≠ (.ok none, d') := by
  intro h
  have hopen : m.isBound = false := by simp [Marker.isBound, hb]
  unfold bindFrom at h
  rw [Work.run_bind_of_ok (by rw [Editing.run_lineText, htext])] at h
  simp only [hm, hopen, Bool.false_eq_true, if_false] at h
  rcases hid : s.allocate.run d.tree with ⟨_ | id, t₁⟩
  · rw [Work.run_bind_of_error (by rw [Editing.run_onTree, hid])] at h
    cases h
  · obtain ⟨document, hdocument⟩ := hedit id
    rw [Work.run_bind_of_ok (by rw [Editing.run_onTree, hid]),
      Work.run_bind_of_ok (by rw [Editing.run_apply, hdocument]), if_pos rfl] at h
    obtain ⟨_, -, hbound⟩ := Document.lineText_of_apply hdocument
    rcases hmade : (s.ensure now none id).run t₁ with ⟨_ | made, t₂⟩
    · rw [Work.run_bind_of_error (by rw [Editing.run_onTree, hmade])] at h
      cases h
    · rw [Work.run_bind_of_ok (by rw [Editing.run_onTree, hmade]),
        Work.run_bind_of_ok (by rw [Editing.run_lineText, hbound])] at h
      cases h

/-- A binding does nothing to the document, or it edits the token of an unbound marker after an id was
handed out, and then makes the record, which alone may fail. -/
theorem bindFrom_applied {consumed : Nat} {source : Option Text}
    (h : (s.bindFrom now line consumed source).run d = (r, d')) :
    (d'.document = d.document ∧ ∀ b, r ≠ .ok (some b)) ∨
      ∃ text m id t₁ made bound, d.document.lineText line = .ok text ∧
        Marker.scan line (source.getD text) = some m ∧ m.binding = none ∧
        s.allocate.run d.tree = (.ok id, t₁) ∧
        d.document.apply ⟨line, m.start, min text.length (m.stop + consumed),
          Marker.canonicalText m.token id⟩ (d.watcher.observes s.mute) = .ok (d'.document, true) ∧
        (s.ensure now none id).run t₁ = (made, d'.tree) ∧
        d'.document.lineText line = .ok bound ∧
        r = made.map fun c => some ⟨id, c.path, c.created, bound⟩ := by
  by_cases hm : ∃ text m, d.document.lineText line = .ok text ∧
      Marker.scan line (source.getD text) = some m ∧ m.binding = none
  · obtain ⟨text, m, htext, hscan, hb⟩ := hm
    have hopen : m.isBound = false := by simp [Marker.isBound, hb]
    unfold bindFrom at h
    rw [Work.run_bind_of_ok (by rw [Editing.run_lineText, htext])] at h
    simp only [hscan, hopen, Bool.false_eq_true, if_false] at h
    rcases hid : s.allocate.run d.tree with ⟨f | id, t₁⟩
    · rw [Work.run_bind_of_error (by rw [Editing.run_onTree, hid])] at h
      cases h
      exact .inl ⟨rfl, nofun⟩
    rw [Work.run_bind_of_ok (by rw [Editing.run_onTree, hid])] at h
    let edit : Edit :=
      ⟨line, m.start, min text.length (m.stop + consumed), Marker.canonicalText m.token id⟩
    rcases hedit : d.document.apply edit (d.watcher.observes s.mute) with f | ⟨document, _ | _⟩
    · rw [Work.run_bind_of_error (by rw [Editing.run_apply, hedit])] at h
      cases h
      exact .inl ⟨rfl, nofun⟩
    · rw [Work.run_bind_of_ok (by rw [Editing.run_apply, hedit])] at h
      cases h
      exact .inl ⟨Document.eq_of_refused hedit, nofun⟩
    rw [Work.run_bind_of_ok (by rw [Editing.run_apply, hedit]), if_pos rfl] at h
    obtain ⟨_, -, hbound⟩ := Document.lineText_of_apply hedit
    rcases hmade : (s.ensure now none id).run t₁ with ⟨f | made, t₂⟩
    · rw [Work.run_bind_of_error (by rw [Editing.run_onTree, hmade])] at h
      cases h
      exact .inr ⟨text, m, id, t₁, .error f, _, htext, hscan, hb, rfl, hedit, hmade, hbound, rfl⟩
    · rw [Work.run_bind_of_ok (by rw [Editing.run_onTree, hmade]),
        Work.run_bind_of_ok (by rw [Editing.run_lineText, hbound])] at h
      cases h
      exact .inr ⟨text, m, id, t₁, .ok made, _, htext, hscan, hb, rfl, hedit, hmade, hbound, rfl⟩
  · obtain ⟨rfl, hnone⟩ :=
      bindFrom_idle (fun text m htext hscan hb => hm ⟨text, m, htext, hscan, hb⟩) h
    exact .inl ⟨rfl, hnone⟩

/-- What was done when a marker is bound: its token was edited after an id was handed out, and before
the record was made. -/
theorem bindFrom_eq_some {consumed : Nat} {source : Option Text} {b : Bound}
    (h : (s.bindFrom now line consumed source).run d = (.ok (some b), d')) :
    ∃ text m t₁ made, d.document.lineText line = .ok text ∧
      Marker.scan line (source.getD text) = some m ∧ m.binding = none ∧
      s.allocate.run d.tree = (.ok b.id, t₁) ∧
      d.document.apply ⟨line, m.start, min text.length (m.stop + consumed),
        Marker.canonicalText m.token b.id⟩ (d.watcher.observes s.mute) = .ok (d'.document, true) ∧
      (s.ensure now none b.id).run t₁ = (.ok made, d'.tree) ∧ b.path = made.path := by
  rcases bindFrom_applied h with ⟨-, hnone⟩ |
    ⟨text, m, id, t₁, made, bound, htext, hscan, hb, hid, hedit, hmade, -, hresult⟩
  · exact absurd rfl (hnone b)
  · cases made with
    | error f => cases hresult
    | ok made =>
      cases hresult
      exact ⟨text, m, t₁, made, htext, hscan, hb, hid, hedit, hmade, rfl⟩

/-! ## Changes -/

theorem run_handleChange_of_not {e : Change} (h : s.shouldHandle d.document e = .ok false) :
    (s.handleChange now e).run d = (.ok none, d) := by
  unfold handleChange
  rw [Work.run_bind_of_ok (Work.run_get _), h,
    Work.run_bind_of_ok (Editing.run_ofExcept _ _)]
  rfl

theorem run_handleChange_of_should {e : Change} {text : Text}
    (h : s.shouldHandle d.document e = .ok true) (htext : d.document.lineText e.line = .ok text) :
    (s.handleChange now e).run d =
      (s.bindFrom now e.line (if e.text = ['_'] then 1 else 0) (some (lineBefore text e))).run d := by
  unfold handleChange
  rw [Work.run_bind_of_ok (Work.run_get _), h,
    Work.run_bind_of_ok (Editing.run_ofExcept _ _), if_pos rfl,
    Work.run_bind_of_ok (by rw [Editing.run_lineText, htext])]

/-- A change does nothing, or it is one that asks for a binding. -/
theorem handleChange_asks {c : Change} (h : (s.handleChange now c).run d = (r, d')) :
    (d' = d ∧ ∀ b, r ≠ .ok (some b)) ∨
      s.shouldHandle d.document c = .ok true ∧ ∃ text, d.document.lineText c.line = .ok text ∧
        (s.bindFrom now c.line (if c.text = ['_'] then 1 else 0) (some (lineBefore text c))).run d =
          (r, d') := by
  rcases hshould : s.shouldHandle d.document c with f | _ | _
  · unfold handleChange at h
    rw [Work.run_bind_of_ok (Work.run_get d), hshould,
      Work.run_bind_of_error (Editing.run_ofExcept ..)] at h
    cases h
    exact .inl ⟨rfl, nofun⟩
  · rw [run_handleChange_of_not hshould] at h
    cases h
    exact .inl ⟨rfl, nofun⟩
  · cases htext : d.document.lineText c.line with
    | error f =>
      unfold handleChange at h
      rw [Work.run_bind_of_ok (Work.run_get d), hshould,
        Work.run_bind_of_ok (Editing.run_ofExcept ..), if_pos rfl,
        Work.run_bind_of_error (by rw [Editing.run_lineText, htext])] at h
      cases h
      exact .inl ⟨rfl, nofun⟩
    | ok text =>
      rw [run_handleChange_of_should hshould htext] at h
      exact .inr ⟨rfl, text, rfl, h⟩

theorem handleChange_cases {c : Change} (h : (s.handleChange now c).run d = (r, d')) :
    Binds s now d r d' := by
  rcases handleChange_asks h with ⟨rfl, hnone⟩ | ⟨-, text, -, hrun⟩
  · exact .idle hnone
  · exact bindFrom_cases hrun

/-! ## Opening a line -/

/-- Opening a line binds its marker, or finds the record of the id that the marker has, or asks for
that record to be made. -/
theorem openAtLine_cases (h : (s.openAtLine now line).run d = (r, d')) :
    Binds s now d r d' ∨
      (∃ text m b path, Marker.scan line text = some m ∧ m.binding = some b ∧
        s.locate d.tree b.id = .ok (some path) ∧ r = .ok (some ⟨b.id, path, false, text⟩) ∧ d' = d) ∨
      ∃ text m b r₁, Marker.scan line text = some m ∧ m.binding = some b ∧
        s.locate d.tree b.id = .ok none ∧
        (Editing.onTree (s.ensure now none b.id)).run d = (r₁, d') ∧
        r = r₁.map fun made => some ⟨b.id, made.path, made.created, text⟩ := by
  unfold openAtLine at h
  cases htext : d.document.lineText line with
  | error f =>
    rw [Work.run_bind_of_error (by rw [Editing.run_lineText, htext])] at h
    cases h
    exact .inl (.idle nofun)
  | ok text =>
    rw [Work.run_bind_of_ok (by rw [Editing.run_lineText, htext])] at h
    split at h
    · cases h
      exact .inl (.idle nofun)
    · next m hm =>
      split at h
      · exact .inl (bindFrom_cases h)
      · next b hb =>
        have hlook : (Editing.onTree (Work.inspect fun t => s.locate t b.id)).run d =
            (s.locate d.tree b.id, d) := rfl
        rcases hlocate : s.locate d.tree b.id with f | _ | path
        · rw [Work.run_bind_of_error (hlook.trans (by rw [hlocate]))] at h
          cases h
          exact .inl (.idle nofun)
        · rw [Work.run_bind_of_ok (hlook.trans (by rw [hlocate]))] at h
          refine .inr (.inr ⟨text, m, b, ?_⟩)
          rcases hmade : (Editing.onTree (s.ensure now none b.id)).run d with ⟨f | made, d₁⟩
          · rw [Work.run_bind_of_error hmade] at h
            cases h
            exact ⟨_, hm, hb, hlocate, rfl, rfl⟩
          · rw [Work.run_bind_of_ok hmade] at h
            cases h
            exact ⟨_, hm, hb, hlocate, rfl, rfl⟩
        · rw [Work.run_bind_of_ok (hlook.trans (by rw [hlocate]))] at h
          cases h
          exact .inr (.inl ⟨text, m, b, path, hm, hb, hlocate, rfl, rfl⟩)

end Session

end Marginalia
