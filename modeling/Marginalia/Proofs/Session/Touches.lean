import Marginalia.Proofs.Session.Counts
import Marginalia.Proofs.Session.Making
import Mathlib.Logic.Relation

/-!
# Work as a row of changes

What a session does to the tree, but for moving the cursor, consists of three kinds of changes
(`Touch`): the folder of a set is made, a file that is no cursor file is written over, and a file of
a known name is written into the folder of a set. Which sets and which names these are is shown once
for every operation (`Touches.bind` and the lemmas after it), so that whatever each of the changes
keeps is kept by all of them.
-/

namespace Marginalia.Session

/-- One change: the sets whose folders may be made, and the names of the files that may be new. -/
inductive Touch (home : Path) (sets names : List Name) : Tree → Tree → Prop where
  | folders {t : Tree} {set} (hset : set ∈ sets) (habove : set ≠ Path.above) :
      Touch home sets names t (t.makeFolders (home.child set)).1
  | rewritten {t : Tree} {l c c'} (hl : l.getLast? ≠ some cursorName)
      (hc : t.node? l = some (.file c)) : Touch home sets names t (t.insert l (.file c'))
  | placed {t : Tree} {set name l c} (hset : set ∈ sets) (hname : name ∈ names)
      (habove : set ≠ Path.above ∧ name ≠ Path.above)
      (hl : t.resolve ((home.child set).child name) = .ok l) (hfree : t.node? l ≠ some .folder) :
      Touch home sets names t (t.insert l (.file c))

/-- Any number of changes one after the other. -/
def Touched (home : Path) (sets names : List Name) : Tree → Tree → Prop :=
  Relation.ReflTransGen (Touch home sets names)

/-- Work that makes no other changes, whether it fails or not. -/
def Touches {α : Type} (home : Path) (sets names : List Name) (w : Work α) : Prop :=
  ∀ t, Touched home sets names t (w.run t).2

/-! ## What a change keeps -/

section

variable {home : Path} {sets names : List Name} {t t' : Tree} {l : Location} {c : Content}

theorem Touch.wellFormed (h : Touch home sets names t t') (hw : t.WellFormed) : t'.WellFormed := by
  cases h with
  | folders => exact (Tree.makeFolders_adds hw _).1
  | @rewritten l c c' _ hc =>
    have hne : l ≠ [] := by
      rintro rfl
      cases hc
    exact hw.insert hne (hw.canHold hc) (by simp [hc])
  | placed _ _ _ hl hfree => exact hw.insert_file hl hfree _

theorem Touch.foldersStay (h : Touch home sets names t t') (hw : t.WellFormed) :
    Tree.FoldersStay t t' := by
  cases h with
  | folders => exact (Tree.makeFolders_adds hw _).2.foldersStay
  | rewritten _ hc => exact Tree.foldersStay_insert t _ (by simp [hc])
  | placed _ _ _ _ hfree => exact Tree.foldersStay_insert t _ hfree

theorem Touch.file_stays (h : Touch home sets names t t') (hw : t.WellFormed)
    (hl : t.node? l = some (.file c)) : ∃ c', t'.node? l = some (.file c') := by
  have hne : l ≠ [] := by
    rintro rfl
    cases hl
  have hinsert : ∀ k c', ∃ c'', (t.insert k (.file c')).node? l = some (.file c'') := by
    intro k c'
    by_cases hk : l = k
    · exact ⟨c', by rw [← hk, Tree.node?_insert_self t hne]⟩
    · exact ⟨c, by rw [Tree.node?_insert_of_ne t hk, hl]⟩
  cases h with
  | folders => exact ⟨c, ((Tree.makeFolders_adds hw _).2.file_iff l c).mpr hl⟩
  | rewritten => exact hinsert _ _
  | placed => exact hinsert _ _

/-- A folder is new only on the way to one of the sets. -/
theorem Touch.folder_cases (h : Touch home sets names t t') (hw : t.WellFormed)
    (hl : t'.node? l = some .folder) : t.node? l = some .folder ∨ t.node? l = none ∧
      ∃ set ∈ sets, set ≠ Path.above ∧ l ∈ visited [] (home.child set).parts := by
  have hinsert : ∀ k c', (t.insert k (.file c')).node? l = some .folder → k ≠ [] →
      t.node? l = some .folder := by
    intro k c' h' hk
    rw [Tree.node?_insert t hk] at h'
    split at h'
    · cases h'
    · exact h'
  cases h with
  | folders hset habove =>
    rcases (Tree.makeFolders_adds hw _).2 l with e | ⟨hvisited, hnone, -⟩
    · exact .inl (e ▸ hl)
    · exact .inr ⟨hnone, _, hset, habove, hvisited⟩
  | rewritten _ hc => exact .inl (hinsert _ _ hl (by rintro rfl; cases hc))
  | placed _ _ _ _ hfree => exact .inl (hinsert _ _ hl (fun e => hfree (by rw [e]; rfl)))

/-- New folders are no deeper than those of sets. -/
theorem Touch.growsWithin (h : Touch home sets names t t') (hw : t.WellFormed) :
    Tree.GrowsWithin (home.parts.length + 1) t t' := by
  refine ⟨h.foldersStay hw, fun k hk => (h.folder_cases hw hk).imp_right ?_⟩
  rintro ⟨-, set, -, -, hvisited⟩
  simpa using length_visited_le hvisited

theorem Touched.growsWithin (h : Touched home sets names t t') (hw : t.WellFormed) :
    Tree.GrowsWithin (home.parts.length + 1) t t' := by
  have hboth : t'.WellFormed ∧ Tree.GrowsWithin (home.parts.length + 1) t t' := by
    induction h with
    | refl => exact ⟨hw, .refl _ _⟩
    | tail _ hstep ih => exact ⟨hstep.wellFormed ih.1, ih.2.trans (hstep.growsWithin ih.1)⟩
  exact hboth.2

/-- A file was there already, and is the same if it is the cursor file, or it is in the folder of
one of the sets and has one of the names. -/
theorem Touch.file_cases (h : Touch home sets names t t') (hw : t.WellFormed)
    (hl : t'.node? l = some (.file c)) :
    (∃ c', t.node? l = some (.file c') ∧ (l.getLast? = some cursorName → c' = c)) ∨
      ∃ set ∈ sets, ∃ name ∈ names, l = lead [] home.parts ++ [set, name] := by
  cases h with
  | folders => exact .inl ⟨c, ((Tree.makeFolders_adds hw _).2.file_iff l c).mp hl, fun _ => rfl⟩
  | @rewritten k c₀ c' hk hc =>
    by_cases e : l = k
    · exact .inl ⟨c₀, e ▸ hc, fun hlast => absurd (e ▸ hlast) hk⟩
    · rw [Tree.node?_insert_of_ne t e] at hl
      exact .inl ⟨c, hl, fun _ => rfl⟩
  | @placed set name k c' hset hname habove hk hfree =>
    by_cases e : l = k
    · refine .inr ⟨set, hset, name, hname, ?_⟩
      rw [e, Tree.resolve_eq_lead hk, lead_child _ habove.2, lead_child _ habove.1]
      simp
    · rw [Tree.node?_insert_of_ne t e] at hl
      exact .inl ⟨c, hl, fun _ => rfl⟩

/-- A file is written into the folder of a set only when that is there, so that it is not on the way
there. -/
theorem Touch.way (h : Touch home sets names t t') (hw : t.WellFormed)
    (hway : ∀ l ∈ visited [] home.parts, t.node? l = none ∨ t.node? l = some .folder) :
    ∀ l ∈ visited [] home.parts, t'.node? l = none ∨ t'.node? l = some .folder := by
  intro l hl
  cases h with
  | @folders set =>
    rcases (Tree.makeFolders_adds hw (home.child set)).2 l with e | ⟨-, -, hf⟩
    · rw [e]
      exact hway l hl
    · exact .inr hf
  | @rewritten k c c' _ hc =>
    have hne : l ≠ k := by
      rintro rfl
      rcases hway l hl with h | h <;> rw [hc] at h <;> cases h
    rw [Tree.node?_insert_of_ne t hne]
    exact hway l hl
  | @placed set name k _ _ _ _ hk hfree =>
    obtain ⟨-, -, hfollow⟩ := Tree.resolve_eq_ok_iff.mp hk
    rw [Path.child_parts, Path.child_parts, List.append_assoc] at hfollow
    obtain ⟨m, hm, hfolder⟩ := Tree.folder_of_follow_append hfollow (List.cons_ne_nil _ _)
    have hthere := Tree.folder_of_visited hm hfolder hl
    rw [Tree.node?_insert_of_ne t (by rintro rfl; exact hfree hthere)]
    exact .inr hthere

end

/-! ## The sets that are meant -/

variable {s : Session} {home : Path} {sets names : List Name} {t t' : Tree} {set : Option Text}

/-- The name of a set's folder, if there is one. -/
def named (s : Session) (set : Option Text) : List Name :=
  ((s.setFolder set).toOption.map Path.name).toList

/-- The name by which a summary asks for its set. -/
def asked (s : Session) : Option Text → Text
  | none | some [] => s.activeSet
  | some name => name

theorem setFolder_named (hs : s.folder? = some home) (hactive : IsSetName s.activeSet) {p : Path}
    (h : s.setFolder set = .ok p) :
    ∃ name, name ∈ s.named set ∧ name ≠ Path.above ∧ p = home.child name := by
  obtain ⟨name, hname, rfl⟩ := setFolder_eq_ok hs hactive h
  exact ⟨name, by simp [named, h, Except.toOption], hname, rfl⟩

theorem setFolder_of_ensureSet {p : Path} (h : (s.ensureSet set).run t = (.ok p, t')) :
    s.setFolder set = .ok p := by
  unfold ensureSet at h
  obtain ⟨q, t₁, hq, h⟩ := Work.run_bind_eq_ok h
  obtain ⟨_, _, -, h⟩ := Work.run_bind_eq_ok h
  cases h
  exact congrArg Prod.fst hq

/-- A summary has the name by which it asks for its set. -/
theorem set_of_summary {now : Int} {sm : Summary} (h : (s.summary now set).run t = (.ok sm, t')) :
    sm.set = s.asked set := by
  unfold Session.summary at h
  obtain ⟨_, _, -, h⟩ := Work.run_bind_eq_ok h
  obtain ⟨_, _, -, h⟩ := Work.run_bind_eq_ok h
  obtain ⟨_, _, -, h⟩ := Work.run_bind_eq_ok h
  cases h
  rfl

/-! ## Files that are not the cursor file -/

theorem ne_cursor_of_ending {name u : Name} (h : name = u ++ ending) : name ≠ cursorName := by
  rintro rfl
  have hlast := getLast?_ending u
  rw [← h] at hlast
  cases hlast

theorem ne_cursor_of_locate {id : Text} {file : Path} (h : s.locate t id = .ok (some file)) :
    file.name ≠ cursorName := by
  obtain ⟨u, hu⟩ := ending_of_locate h
  exact ne_cursor_of_ending hu

theorem ne_cursor_of_fileId? {name : Name} {id : Text} (h : fileId? name = some id) :
    name ≠ cursorName := by
  have hcursor : fileId? cursorName = none := by decide
  rintro rfl
  rw [hcursor] at h
  cases h

/-! ## What work changes -/

namespace Touches

variable {α β : Type} {w : Work α}

/-- Only what the first work can give is used. -/
theorem bind {f : α → Work β} (hw : Touches home sets names w)
    (hf : ∀ a, (∃ t t', w.run t = (.ok a, t')) → Touches home sets names (f a)) :
    Touches home sets names (w >>= f) := by
  intro t
  have hfirst := hw t
  rw [Work.run_bind]
  rcases hrun : w.run t with ⟨r, t₁⟩
  rw [hrun] at hfirst
  cases r with
  | error e => exact hfirst
  | ok a => exact hfirst.trans (hf a ⟨t, t₁, hrun⟩ t₁)

theorem pure (a : α) : Touches home sets names (Pure.pure a : Work α) := fun _ => .refl

theorem ofExcept (r : Except Fault α) : Touches home sets names (Work.ofExcept r) := fun _ => .refl

theorem inspect (look : Tree → Except Fault α) : Touches home sets names (Work.inspect look) :=
  fun _ => .refl

/-! ### Folders -/

theorem makeFolders {n : Name} (hn : n ∈ sets) (habove : n ≠ Path.above) :
    Touches home sets names (Work.makeFolders (home.child n)) := by
  intro t
  have hstep : Touched home sets names t (t.makeFolders (home.child n)).1 :=
    .single (.folders hn habove)
  rw [Work.run_makeFolders]
  cases (t.makeFolders (home.child n)).2 <;> exact hstep

section

variable (hs : s.folder? = some home)
include hs

theorem ensureSet (hactive : IsSetName s.activeSet) (hsub : s.named set ⊆ sets) :
    Touches home sets names (s.ensureSet set) := by
  refine bind (ofExcept _) fun p ⟨_, _, hp⟩ => ?_
  obtain ⟨name, hname, habove, rfl⟩ := setFolder_named hs hactive (congrArg Prod.fst hp)
  exact bind (makeFolders (hsub hname) habove) fun _ _ => pure _

theorem switchSet {name : Option Text} (hsub : (SetName.sanitize name).toOption.toList ⊆ sets) :
    Touches home sets names (s.switchSet name) := by
  cases hn : SetName.sanitize name with
  | error f =>
    intro t
    rw [run_switchSet_of_error hn]
    exact .refl
  | ok n =>
    intro t
    obtain ⟨-, -, habove, -⟩ := SetName.sanitize_eq_ok hn
    have hmem : n ∈ sets := hsub (by simp [hn, Except.toOption])
    have hstep : Touched home sets names t (t.makeFolders (home.child n)).1 :=
      .single (.folders hmem habove)
    rw [run_switchSet hs hn]
    cases (t.makeFolders (home.child n)).2 <;> exact hstep

theorem activate {name : Option Text} (hactive : IsSetName s.activeSet)
    (hdefault : defaultSet ∈ sets) (hsub : (SetName.sanitize name).toOption.toList ⊆ sets) :
    Touches home sets names (s.activate name) := by
  have hnamed : s.named (some defaultSet) ⊆ sets := by
    have hfolder := setFolder_some hs (show defaultSet ≠ [] by decide)
    rw [show SetName.sanitize (some defaultSet) = .ok defaultSet by decide] at hfolder
    have hname : s.named (some defaultSet) = [defaultSet] := by
      simp [named, hfolder, Except.mapError, Except.map, Except.toOption]
    rw [hname]
    simpa using hdefault
  rw [activate_eq]
  split
  · exact pure s
  · refine bind (ensureSet hs hactive hnamed) fun _ _ => ?_
    split
    · exact pure s
    · exact pure s
    · exact switchSet hs hsub

/-! ### Records -/

theorem ensure (hactive : IsSetName s.activeSet) (now : Int) {id : Text}
    (hid : ∀ c ∈ id, isAsciiDigit c = true) (hsub : s.named set ⊆ sets)
    (hname : id ++ ending ∈ names) : Touches home sets names (s.ensure now set id) := by
  refine bind (ofExcept _) fun _ _ => bind (ensureSet hs hactive hsub) fun p ⟨_, _, hp⟩ t => ?_
  obtain ⟨name, hmem, habove, rfl⟩ := setFolder_named hs hactive (setFolder_of_ensureSet hp)
  simp only
  rw [Work.run_bind_of_ok (Work.run_get t)]
  cases hmade : t.create ((home.child name).fragment id) (Page.fresh s.config now id).render with
  | error f => cases f <;> exact .refl
  | ok u =>
    obtain ⟨l, hl, -, hnone, rfl⟩ := Tree.create_eq_ok hmade
    rw [Path.fragment_eq_child _ hid] at hl
    exact .single (.placed (hsub hmem) hname ⟨habove, ending_ne_above id⟩ hl (by simp [hnone]))

end

/-! ### Counts -/

/-- A header is written only where a page was read. -/
theorem writeHeader {file : Path} (hname : file.name ≠ [] ∧ file.name ≠ Path.above)
    (hcursor : file.name ≠ cursorName) (header : Header) :
    Touches home sets names (Session.writeHeader file header) := by
  intro t
  unfold Session.writeHeader
  rw [Work.run_bind, Work.run_inspect]
  cases hpage : readPage t file with
  | error e => exact .refl
  | ok page =>
    rcases hrun : (writePage file { page with header := identify file header }).run t with ⟨r, t'⟩
    show Touched home sets names t
      ((writePage file { page with header := identify file header }).run t).2
    rw [hrun]
    rcases writePage_cases hrun with ⟨e, -, rfl⟩ | ⟨-, -, l, hl, hfold, rfl⟩
    · exact .refl
    · obtain ⟨text, hread, -⟩ := readPage_eq_ok_iff.mp hpage
      obtain ⟨l', c, hl', hn⟩ := Tree.node_of_readText hread
      cases hl.symm.trans hl'
      have hlast := name_of_resolve hl hname.1 hname.2
      refine .single (.rewritten (fun e => hcursor ?_) hn)
      rw [← hlast, Path.name, e]
      rfl

theorem record (s : Session) (id path : Text) (count : Int) :
    Touches home sets names (s.record id path count) := by
  refine bind (inspect _) fun found ⟨t, _, hfound⟩ => ?_
  have hfound : s.locate t id = .ok found := congrArg Prod.fst hfound
  cases found with
  | none => exact pure _
  | some file =>
    refine bind (inspect _) fun header _ => ?_
    split
    · exact pure _
    · simp only
      split
      · exact bind (writeHeader (name_of_locate hfound) (ne_cursor_of_locate hfound) _)
          fun _ _ => pure _
      · exact pure _

theorem recordAll (s : Session) (path : Text) (counts : List (Text × Nat)) :
    Touches home sets names (s.recordAll path counts) := by
  induction counts with
  | nil => exact pure _
  | cons e counts ih => exact bind (record s _ _ _) fun _ _ => ih

theorem forget (path : Text) (kept : List Text) (files : List Path) :
    Touches home sets names (Session.forget path kept files) := by
  induction files with
  | nil => exact pure _
  | cons file files ih =>
    unfold Session.forget
    simp only
    split
    · next hid =>
      obtain ⟨id, hid, -⟩ := Option.any_eq_true _ _ |>.mp hid
      refine bind (inspect _) fun header _ => ?_
      split
      · exact ih
      · split
        · exact bind (writeHeader (name_of_fileId? (by simp [hid])) (ne_cursor_of_fileId? hid) _)
            fun _ _ => ih
        · exact ih
    · exact ih

theorem onSave (s : Session) (path text : Text) : Touches home sets names (s.onSave path text) := by
  unfold Session.onSave
  split
  · exact pure _
  · exact bind (recordAll s _ _) fun _ _ => bind (inspect _) fun _ _ =>
      bind (forget _ _ _) fun _ _ => pure _

theorem refresh (s : Session) (id : Text) : Touches home sets names (s.refresh id) := by
  refine bind (inspect _) fun found ⟨t, _, hfound⟩ => ?_
  have hfound : s.locate t id = .ok found := congrArg Prod.fst hfound
  cases found with
  | none => exact pure _
  | some file =>
    refine bind (inspect _) fun references _ => bind (inspect _) fun header _ => ?_
    simp only
    split
    · exact bind (writeHeader (name_of_locate hfound) (ne_cursor_of_locate hfound) _)
        fun _ _ => pure _
    · exact pure _

/-! ### Summaries -/

section

variable (hs : s.folder? = some home) (hactive : IsSetName s.activeSet)
include hs hactive

theorem summary (now : Int) (hsub : s.named (some (s.asked set)) ⊆ sets) :
    Touches home sets names (s.summary now set) :=
  bind (ensureSet hs hactive hsub) fun _ _ => bind (inspect _) fun _ _ =>
    bind (inspect _) fun _ _ => pure _

theorem summarize (now : Int) {format : SummaryFormat}
    (hsub : s.named (some (s.asked set)) ⊆ sets) (hname : format.fileName ∈ names) :
    Touches home sets names (s.summarize now set format) := by
  refine bind (ofExcept _) fun _ _ => bind (summary hs hactive now hsub) fun sm ⟨_, _, hsm⟩ =>
    bind (ofExcept _) fun text _ => bind (ofExcept _) fun folder ⟨_, _, hfolder⟩ =>
      bind (fun t => ?_) fun _ _ => pure _
  obtain ⟨name, hmem, habove, rfl⟩ := setFolder_named hs hactive (congrArg Prod.fst hfolder)
  rw [Work.run_change]
  cases hwrite : t.write ((home.child name).child format.fileName) text with
  | error f => exact .refl
  | ok u =>
    obtain ⟨l, hl, -, hfree, rfl⟩ := Tree.write_eq_ok hwrite
    have hfile : format.fileName ≠ Path.above := by cases format <;> decide
    rw [set_of_summary hsm] at hmem
    exact .single (.placed (hsub hmem) hname ⟨habove, hfile⟩ hl hfree)

end

end Touches

end Marginalia.Session
