import Marginalia.Proofs.Session.Activation

/-!
# Ids that bind

As long as a numeral of an id is free from the cursor on (`HasNextId`), handing out an id in a folder
of sets that is there gives such a numeral, or fails with a report and leaves everything as it was
(`allocate_there`). Whatever binds a marker leaves the document alone or edits the line, which the id
then binds (`MayBind.edited`), and a line that is bound is bound no more (`bindMarker_of_bound`,
`openAtLine_of_bound`, `handleChange_of_bound`).
-/

namespace Marginalia

/-- Whether the marker of a line is bound to an id. -/
def Document.BoundTo (d : Document) (line : Int) (id : Text) : Prop :=
  ∃ text m, d.lineText line = .ok text ∧ Marker.scan line text = some m ∧ m.id? = some id

namespace Session

/-- Whether the cursor can be read and a number from it on is free whose numeral is an id. -/
def HasNextId (s : Session) (t : Tree) : Prop :=
  ∃ start v, s.nextId t = .ok start ∧ start ≤ v ∧ v < 10 ^ maxIdLength ∧
    s.hasFragment t (Numeral.ofNat v) = .ok false

variable {s : Session} {home : Path} {t t' : Tree} {id : Text} {now line : Int} {d d' : Desk}
  {r : Except Fault (Option Bound)}

/-! ## Handing out -/

/-- In a folder that is there the cursor moves, or nothing changes and the fault is reported. -/
theorem writeNextId_there (hs : s.folder? = some home) (hfolder : t.isFolder home = .ok true)
    (n : Nat) :
    (∃ f report, (s.writeNextId n).run t = (.error f, t) ∧ f.report? = some report) ∨
      (s.writeNextId n).run t =
        (.ok (), t.insert (cursorPlace home) (.file (.text (cursorText n)))) := by
  have hmade := Tree.makeFolders_there hfolder
  unfold writeNextId
  rw [cursorPath_eq hs, Work.run_bind_of_ok (Work.run_ofExcept _ _), Path.parent_child,
    Work.run_bind_of_ok (by rw [Work.run_makeFolders, hmade]),
    Work.run_bind_of_ok (Work.run_get _)]
  cases hwrite : t.write (home.child cursorName) (cursorText n) with
  | error cause => exact .inl ⟨.cannotPersist _ _ cause, _, rfl, rfl⟩
  | ok t' =>
    obtain ⟨l, hl, -, -, rfl⟩ := Tree.write_eq_ok hwrite
    have hlead : l = cursorPlace home := by
      rw [Tree.resolve_eq_lead hl, Path.child_parts, lead_append, lead_of_plain (by decide)]
      rfl
    exact .inr (by rw [hlead]; rfl)

theorem allocate_there (hw : t.WellFormed) (hs : s.folder? = some home)
    (hfolder : t.isFolder home = .ok true) (hfits : Tree.Fits home 300) (hnext : s.HasNextId t) :
    (∃ f report, s.allocate.run t = (.error f, t) ∧ f.report? = some report) ∨
      ∃ n, n < 10 ^ maxIdLength ∧ s.hasFragment t (Numeral.ofNat n) = .ok false ∧
        s.allocate.run t = (.ok (Numeral.ofNat n),
          t.insert (cursorPlace home) (.file (.text (cursorText (n + 1))))) := by
  obtain ⟨start, v, hstart, hle, hv, hfree⟩ := hnext
  have hlimit : 10 ^ maxIdLength ≤ 10 ^ Numeral.limit := Nat.pow_le_pow_right (by decide) (by decide)
  obtain ⟨n, hn, hleast⟩ := leastFree_reaches (t.entries.length + 1) hle
    (Nat.lt_of_lt_of_le hv hlimit)
    (fun k _ hk => hasFragment_total hw hs hfits (isId_ofNat_iff.mpr (by omega))) hfree
  obtain ⟨-, hsmall, hnone⟩ := leastFree_free hleast
  obtain ⟨root, hroot⟩ := requireRoot_of_folder? hs
  unfold allocate
  rw [hroot, Work.run_bind_of_ok (Work.run_ofExcept _ _),
    Work.run_bind_of_ok (by rw [Work.run_inspect, hstart]),
    Work.run_bind_of_ok (by rw [Work.run_inspect, hleast])]
  rcases writeNextId_there hs hfolder (n + 1) with ⟨f, report, hrun, hreport⟩ | hrun
  · exact .inl ⟨f, report, by rw [Work.run_bind_of_error hrun], hreport⟩
  · refine .inr ⟨n, by omega, hnone, ?_⟩
    rw [Work.run_bind_of_ok hrun, Work.run_ofExcept, idText_eq_ok_iff.mpr ⟨hsmall, rfl⟩]

/-- What is handed out is an id exactly when there is one. -/
theorem isId_allocated_iff (hw : t.WellFormed) (hs : s.folder? = some home)
    (hfolder : t.isFolder home = .ok true) (hfits : Tree.Fits home 300)
    (h : s.allocate.run t = (.ok id, t')) : isId id = true ↔ s.HasNextId t := by
  constructor
  · intro hid
    rcases allocate_cases hw h with ⟨e, he, -⟩ | ⟨-, start, n, -, hstart, hle, -, hfree, -, he⟩
    · cases he
    · cases he
      exact ⟨start, n, hstart, hle, isId_ofNat_iff.mp hid, hfree⟩
  · intro hnext
    rcases allocate_there hw hs hfolder hfits hnext with ⟨f, -, hrun, -⟩ | ⟨n, hn, -, hrun⟩
    · cases h.symm.trans hrun
    · cases h.symm.trans hrun
      exact isId_ofNat_iff.mpr hn

/-! ## Binding -/

/-- An edit that was applied put the id that was handed out into a line, which is bound by it. -/
structure Edited (s : Session) (line : Int) (d d' : Desk) (r : Except Fault (Option Bound))
    (id : Text) : Prop where
  allocated : ∃ t', s.allocate.run d.tree = (.ok id, t')
  bound : isId id = true → d'.document.BoundTo line id
  result : ∀ b, r = .ok (some b) → b.id = id ∧ d'.document.lineText line = .ok b.line

/-- A line in which the token of an unbound marker got its canonical form. The text before the
marker is that of the line that was scanned. -/
theorem boundTo_of_apply {document document' : Document} {text old : Text} {m : Marker} {stop : Int}
    {observed : Bool} (htext : document.lineText line = .ok text)
    (hm : Marker.scan line old = some m) (hbefore : text.take m.start = old.take m.start)
    (hid : isId id = true)
    (h : document.apply ⟨line, m.start, stop, Marker.canonicalText m.token id⟩ observed =
      .ok (document', true)) : document'.BoundTo line id := by
  obtain ⟨text', htext', hline⟩ := Document.lineText_of_apply h
  cases htext.symm.trans htext'
  rw [Text.before_of_nat, hbefore, List.append_assoc] at hline
  exact ⟨_, _, hline, Marker.scan_canonical hm hid _, rfl⟩

/-- A binding leaves the document alone or edits the line. -/
theorem bindFrom_edited {consumed : Nat} {source : Option Text}
    (hsource : ∀ text m, d.document.lineText line = .ok text →
      Marker.scan line (source.getD text) = some m →
        text.take m.start = (source.getD text).take m.start)
    (h : (s.bindFrom now line consumed source).run d = (r, d')) :
    d'.document = d.document ∨ ∃ id, Edited s line d d' r id := by
  rcases bindFrom_applied h with ⟨hsame, -⟩ |
    ⟨text, m, id, t₁, made, bound, htext, hm, -, hid, hedit, -, hline, hresult⟩
  · exact .inl hsame
  · refine .inr ⟨id, ⟨t₁, hid⟩,
      fun hisId => boundTo_of_apply htext hm (hsource text m htext hm) hisId hedit, fun b hb => ?_⟩
    cases made with
    | error f => cases hresult.symm.trans hb
    | ok made =>
      cases hresult.symm.trans hb
      exact ⟨rfl, hline⟩

/-- In front of what is typed the line is the one before. -/
theorem take_lineBefore {text : Text} {c : Change} {m : Marker} {i : Int}
    (h : Activates i (lineBefore text c) c.column c.text m) :
    text.take m.start = (lineBefore text c).take m.start := by
  rcases shown_of_activates h with hsame | hshown
  · rw [hsame]
  · conv_lhs => rw [hshown]
    exact take_typed (Marker.scan_split h.scanned).2.2 c.text

theorem activates_of_shouldHandle {document : Document} {c : Change} {text : Text}
    (h : s.shouldHandle document c = .ok true) (htext : document.lineText c.line = .ok text) :
    ∃ m, Activates c.line (lineBefore text c) c.column c.text m := by
  unfold shouldHandle at h
  split at h
  · cases h
  · rw [htext, Except.map, Except.ok.injEq] at h
    exact isActivation_iff.mp h

/-- A run that may bind the marker of a line. -/
inductive MayBind (s : Session) (line : Int) (d : Desk) :
    Except Fault (Option Bound) → Desk → Prop where
  | bound {now : Int} {r : Except Fault (Option Bound)} {d' : Desk}
      (h : (s.bindMarker now line).run d = (r, d')) : MayBind s line d r d'
  | opened {now : Int} {r : Except Fault (Option Bound)} {d' : Desk}
      (h : (s.openAtLine now line).run d = (r, d')) : MayBind s line d r d'
  | handled {now : Int} {c : Change} {r : Except Fault (Option Bound)} {d' : Desk}
      (hline : c.line = line) (h : (s.handleChange now c).run d = (r, d')) : MayBind s line d r d'

theorem bindMarker_edited (h : (s.bindMarker now line).run d = (r, d')) :
    d'.document = d.document ∨ ∃ id, Edited s line d d' r id := by
  unfold bindMarker at h
  exact bindFrom_edited (fun _ _ _ _ => rfl) h

theorem handleChange_edited {c : Change} (h : (s.handleChange now c).run d = (r, d')) :
    d'.document = d.document ∨ ∃ id, Edited s c.line d d' r id := by
  rcases handleChange_asks h with ⟨rfl, -⟩ | ⟨hshould, text, htext, hrun⟩
  · exact .inl rfl
  · obtain ⟨m, hm⟩ := activates_of_shouldHandle hshould htext
    refine bindFrom_edited (fun text' m' htext' hm' => ?_) hrun
    cases htext.symm.trans htext'
    cases hm.scanned.symm.trans hm'
    exact take_lineBefore hm

/-- Opening a line whose marker is bound makes its record at most. -/
theorem openAtLine_of_bound {text : Text} {m : Marker} (htext : d.document.lineText line = .ok text)
    (hm : Marker.scan line text = some m) (hid : m.id? = some id)
    (h : (s.openAtLine now line).run d = (r, d')) : d'.document = d.document ∧
      (d'.tree = d.tree ∨ d'.tree = ((s.ensure now none id).run d.tree).2) ∧
      ∀ b, r = .ok (some b) → b.id = id := by
  obtain ⟨b, hb, rfl⟩ := Option.map_eq_some_iff.mp hid
  have hlook : (Editing.onTree (Work.inspect fun t => s.locate t b.id)).run d =
      (s.locate d.tree b.id, d) := rfl
  unfold openAtLine at h
  rw [Work.run_bind_of_ok (by rw [Editing.run_lineText, htext])] at h
  simp only [hm, hb] at h
  rcases hlocate : s.locate d.tree b.id with f | _ | path
  · rw [Work.run_bind_of_error (hlook.trans (by rw [hlocate]))] at h
    cases h
    exact ⟨rfl, .inl rfl, nofun⟩
  · rw [Work.run_bind_of_ok (hlook.trans (by rw [hlocate]))] at h
    rcases hmade : (s.ensure now none b.id).run d.tree with ⟨f | made, t₁⟩
    · rw [Work.run_bind_of_error (by rw [Editing.run_onTree, hmade])] at h
      cases h
      exact ⟨rfl, .inr rfl, nofun⟩
    · rw [Work.run_bind_of_ok (by rw [Editing.run_onTree, hmade])] at h
      cases h
      exact ⟨rfl, .inr rfl, fun b' hb' => by cases hb'; rfl⟩
  · rw [Work.run_bind_of_ok (hlook.trans (by rw [hlocate]))] at h
    cases h
    exact ⟨rfl, .inl rfl, fun b' hb' => by cases hb'; rfl⟩

theorem openAtLine_edited (h : (s.openAtLine now line).run d = (r, d')) :
    d'.document = d.document ∨ ∃ id, Edited s line d d' r id := by
  cases htext : d.document.lineText line with
  | error f =>
    unfold openAtLine at h
    rw [Work.run_bind_of_error (by rw [Editing.run_lineText, htext])] at h
    cases h
    exact .inl rfl
  | ok text =>
    cases hm : Marker.scan line text with
    | none =>
      unfold openAtLine at h
      rw [Work.run_bind_of_ok (by rw [Editing.run_lineText, htext])] at h
      simp only [hm] at h
      cases h
      exact .inl rfl
    | some m =>
      cases hb : m.binding with
      | none =>
        unfold openAtLine at h
        rw [Work.run_bind_of_ok (by rw [Editing.run_lineText, htext])] at h
        simp only [hm, hb] at h
        exact bindMarker_edited h
      | some b => exact .inl (openAtLine_of_bound htext hm (by rw [Marker.id?, hb]; rfl) h).1

theorem MayBind.edited (h : MayBind s line d r d') :
    d'.document = d.document ∨ ∃ id, Edited s line d d' r id := by
  cases h with
  | bound h => exact bindMarker_edited h
  | opened h => exact openAtLine_edited h
  | handled hline h => exact hline ▸ handleChange_edited h

/-! ## Bound for good -/

theorem bindMarker_of_bound (h : d.document.BoundTo line id) :
    (s.bindMarker now line).run d = (.ok none, d) := by
  obtain ⟨text, m, htext, hm, hid⟩ := h
  obtain ⟨b, hb, -⟩ := Option.map_eq_some_iff.mp hid
  have hbound : m.isBound = true := by rw [Marker.isBound, hb]; rfl
  unfold bindMarker bindFrom
  rw [Work.run_bind_of_ok (by rw [Editing.run_lineText, htext])]
  simp only [Option.getD_none, hm, hbound, if_true]
  rfl

/-- A change asks for nothing when the marker of the line before it was bound. -/
theorem handleChange_of_bound {text : Text} {m : Marker} {c : Change}
    (htext : d.document.lineText c.line = .ok text)
    (hm : Marker.scan c.line (lineBefore text c) = some m) (hb : m.isBound = true) :
    (s.handleChange now c).run d = (.ok none, d) := by
  refine run_handleChange_of_not ?_
  have hactive : Marker.isActivation (lineBefore text c) c.column c.text = false := by
    cases hact : Marker.isActivation (lineBefore text c) c.column c.text with
    | false => rfl
    | true =>
      obtain ⟨m', h⟩ := (isActivation_iff (i := c.line)).mp hact
      cases hm.symm.trans h.scanned
      rw [Marker.isBound, h.unbound] at hb
      cases hb
  unfold shouldHandle
  split
  · rfl
  · rw [htext, Except.map, hactive]

/-- In a folder of sets that is there an id is handed out that binds, or there is a report and nothing
changed, as long as there is such an id and never else. An edit binds its line to the id that was
handed out. A line that is bound is bound no more: it is opened, which makes its record at most, and
changes ask for nothing unless the marker of the line before them was unbound. -/
theorem allocate_usable {d : Desk} (hw : d.tree.WellFormed) (hs : s.folder? = some home)
    (hfolder : d.tree.isFolder home = .ok true) (hfits : Tree.Fits home 300) :
    (∀ id u, s.allocate.run d.tree = (.ok id, u) → (isId id = true ↔ s.HasNextId d.tree)) ∧
    (s.HasNextId d.tree →
      ((∃ f report, s.allocate.run d.tree = (.error f, d.tree) ∧ f.report? = some report) ∨
        ∃ id u, s.allocate.run d.tree = (.ok id, u) ∧ isId id = true ∧
          s.hasFragment d.tree id = .ok false ∧
          Tree.SameFiles [cursorPlace home] d.tree u) ∧
      ∀ line r d', MayBind s line d r d' → d'.document = d.document ∨
        ∃ id u, s.allocate.run d.tree = (.ok id, u) ∧ isId id = true ∧
          d'.document.BoundTo line id ∧
          ∀ b, r = .ok (some b) → b.id = id ∧ d'.document.lineText line = .ok b.line) ∧
    ∀ (e : Desk) line id, e.document.BoundTo line id →
      (∀ now, (s.bindMarker now line).run e = (.ok none, e)) ∧
      (∀ now r e', (s.openAtLine now line).run e = (r, e') → e'.document = e.document ∧
        (e'.tree = e.tree ∨ e'.tree = ((s.ensure now none id).run e.tree).2) ∧
        ∀ b, r = .ok (some b) → b.id = id) ∧
      ∀ now c text, c.line = line → e.document.lineText line = .ok text →
        (lineBefore text c = text ∨ ∃ m, Marker.scan line (lineBefore text c) = some m ∧
          m.isBound = true) → (s.handleChange now c).run e = (.ok none, e) := by
  refine ⟨fun id u h => isId_allocated_iff hw hs hfolder hfits h, fun hnext => ⟨?_, ?_⟩,
    fun e line id he => ⟨fun now => bindMarker_of_bound he, fun now r e' h => ?_, ?_⟩⟩
  · rcases allocate_there hw hs hfolder hfits hnext with hfail | ⟨n, hn, hfree, hrun⟩
    · exact .inl hfail
    · exact .inr ⟨_, _, hrun, isId_ofNat_iff.mpr hn, hfree, Tree.sameFiles_insert d.tree _ _⟩
  · intro line r d' h
    rcases h.edited with hsame | ⟨id, ⟨u, hid⟩, hbound, hresult⟩
    · exact .inl hsame
    · have hisId := (isId_allocated_iff hw hs hfolder hfits hid).mpr hnext
      exact .inr ⟨id, u, hid, hisId, hbound hisId, hresult⟩
  · obtain ⟨text, m, htext, hm, hid⟩ := he
    exact openAtLine_of_bound htext hm hid h
  · rintro now c text rfl htext hbefore
    rcases hbefore with hsame | ⟨m, hm, hb⟩
    · obtain ⟨text', m, htext', hm, hid⟩ := he
      cases htext.symm.trans htext'
      obtain ⟨b, hb, -⟩ := Option.map_eq_some_iff.mp hid
      exact handleChange_of_bound htext (hsame ▸ hm) (by rw [Marker.isBound, hb]; rfl)
    · exact handleChange_of_bound htext hm hb

/-- A desk with one unbound marker, in a workspace with a number in the cursor file. -/
def oneMarker (n : Nat) : Desk where
  tree := ⟨[([".cms".toList], .folder), ([".cms".toList, cursorName], .file (.text (cursorText n)))]⟩
  document := .ofText ['a'] "//codemeta".toList

theorem allocate_usable_seven :
    HasNextId { root := some { slashes := 1 } } (oneMarker 7).tree ∧
    ∃ b d', (bindMarker { root := some { slashes := 1 } } 0 0).run (oneMarker 7) =
        (.ok (some b), d') ∧ b.id = ['7'] ∧ d'.document.BoundTo 0 ['7'] ∧
      (bindMarker { root := some { slashes := 1 } } 0 0).run d' = (.ok none, d') := by
  have hnext : HasNextId { root := some { slashes := 1 } } (oneMarker 7).tree :=
    ⟨7, 7, by decide +kernel, Nat.le_refl 7, by decide, by decide +kernel⟩
  have hrun : (bindMarker { root := some { slashes := 1 } } 0 0).run (oneMarker 7) =
      (.ok (some ⟨['7'], { slashes := 1, parts := [".cms".toList, "default".toList, "7.md".toList] },
        true, "//codemeta[7]".toList⟩), _) := Work.run_eq_of_fst (by decide +kernel)
  have hs : folder? { root := some { slashes := 1 } } =
      some { slashes := 1, parts := [".cms".toList] } := by decide
  obtain ⟨-, husable, hgood⟩ := allocate_usable (d := oneMarker 7) (by decide +kernel) hs
    (by decide +kernel) ⟨by decide, by decide, by decide⟩
  rcases (husable hnext).2 0 _ _ (.bound hrun) with hsame | ⟨id, u, -, -, hbound, hresult⟩
  · have hedited : ((bindMarker { root := some { slashes := 1 } } 0 0).run
        (oneMarker 7)).2.document ≠ (oneMarker 7).document := by decide +kernel
    exact absurd hsame hedited
  · obtain ⟨rfl, -⟩ := hresult _ rfl
    exact ⟨hnext, _, _, hrun, rfl, hbound, (hgood _ 0 _ hbound).1 0⟩

/-- Past the numerals of ids the cursor gives a number that is put into the line but binds nothing. -/
theorem long_number_unbound :
    ∃ b d', (bindMarker { root := some { slashes := 1 } } 0 0).run (oneMarker (10 ^ maxIdLength)) =
        (.ok (some b), d') ∧ isId b.id = false ∧
      ∃ m, Marker.scan 0 b.line = some m ∧ m.binding = none := by
  have hrun : (bindMarker { root := some { slashes := 1 } } 0 0).run
      (oneMarker (10 ^ maxIdLength)) = (.ok (some ⟨Numeral.ofNat (10 ^ maxIdLength),
        { slashes := 1, parts := [".cms".toList, "default".toList,
          Numeral.ofNat (10 ^ maxIdLength) ++ ending] }, true,
        "//codemeta[".toList ++ Numeral.ofNat (10 ^ maxIdLength) ++ [']']⟩), _) :=
    Work.run_eq_of_fst (by decide +kernel)
  exact ⟨_, _, hrun, by decide +kernel, ⟨0, 0, ⟨['/', '/'], [], .full⟩, none⟩, by decide +kernel,
    rfl⟩

end Session

end Marginalia
