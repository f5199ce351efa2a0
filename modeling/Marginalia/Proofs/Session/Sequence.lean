import Marginalia.Proofs.Session.Allocation
import Marginalia.Proofs.Session.Binding
import Marginalia.Proofs.Session.Records

/-!
# The sequence of ids

Any number of sessions hand out ids from one folder of sets, in any order, and attempts at binding a
marker stop wherever they are cut off, while others change whatever they like but the cursor file.
The cursor stays beyond every id handed out (`Ahead`), so that the ids ascend (`ids_ascend`). What
is named by a new id has no file yet, unless the folder of sets was missing and its path turns back
at a double dot (`taken_id_handed_out`).
-/

namespace Marginalia

/-! ## Steps -/

/-- An id handed out, with the tree before and at the moment it was. -/
structure Issue where
  id : Text
  before : Tree
  after : Tree

/-- Whether a session works on a folder of sets below a root. Its other settings, its active set and
whether it takes note of changes are its own. -/
structure Session.On (s : Session) (root : Path) (folder : Text) : Prop where
  root : s.root = some root
  folder : s.config.folder = folder

/-- How far an attempt at binding a marker has come that has its id: the cursor is moved, the edit
is applied or refused, the folder for the record is made, the record itself is made. -/
inductive Attempt (s : Session) (now : Int) (e : Edit) (d : Desk) : Issue → Desk → Prop where
  | issued {id d₁} (hid : (Editing.onTree s.allocate).run d = (.ok id, d₁)) :
      Attempt s now e d ⟨id, d.tree, d₁.tree⟩ d₁
  | edited {id d₁ r d₂} (hid : (Editing.onTree s.allocate).run d = (.ok id, d₁))
      (hedit : (Editing.apply s.mute e).run d₁ = (r, d₂)) :
      Attempt s now e d ⟨id, d.tree, d₁.tree⟩ d₂
  | placed {id d₁ d₂ r d₃} (hid : (Editing.onTree s.allocate).run d = (.ok id, d₁))
      (hedit : (Editing.apply s.mute e).run d₁ = (.ok true, d₂))
      (hset : (Editing.onTree (s.ensureSet none)).run d₂ = (r, d₃)) :
      Attempt s now e d ⟨id, d.tree, d₁.tree⟩ d₃
  | recorded {id d₁ d₂ r d₃} (hid : (Editing.onTree s.allocate).run d = (.ok id, d₁))
      (hedit : (Editing.apply s.mute e).run d₁ = (.ok true, d₂))
      (hmade : (Editing.onTree (s.ensure now none id)).run d₂ = (r, d₃)) :
      Attempt s now e d ⟨id, d.tree, d₁.tree⟩ d₃

/-- A step on a workspace with the ids that it hands out. What others do leaves the cursor file to be
read as before, or not at all if it was not. -/
inductive Step (root : Path) (folder : Text) : Tree → List Issue → Tree → Prop where
  | allocated {s : Session} {t t' id} (hs : s.On root folder)
      (h : s.allocate.run t = (.ok id, t')) : Step root folder t [⟨id, t, t'⟩] t'
  | refused {s : Session} {t t' e} (hs : s.On root folder)
      (h : s.allocate.run t = (.error e, t')) : Step root folder t [] t'
  | attempted {s : Session} {now e d i d'} (hs : s.On root folder)
      (h : Attempt s now e d i d') : Step root folder d.tree [i] d'.tree
  | others {t t'} (hw : t'.WellFormed)
      (h : (t'.readText ((root.join (Path.ofText folder)).child Session.cursorName)).toOption =
        (t.readText ((root.join (Path.ofText folder)).child Session.cursorName)).toOption) :
      Step root folder t [] t'

/-- Steps in a row with all the ids that they hand out, the first one first. -/
inductive Run (root : Path) (folder : Text) : Tree → List Issue → Tree → Prop where
  | done (t) : Run root folder t [] t
  | step {t is t' js t''} (h : Run root folder t is t') (h' : Step root folder t' js t'') :
      Run root folder t (is ++ js) t''

/-! ## The cursor stays ahead -/

/-- The cursor of a folder of sets is beyond the ids handed out, if there is one to read. -/
def Ahead (home : Path) (issues : List Issue) (t : Tree) : Prop :=
  ∀ n, cursorAt t home = .ok n → ∀ i ∈ issues, Numeral.value i.id < n

/-- What holds of an id when it is handed out after others. -/
structure Proper (home : Path) (issues : List Issue) (i : Issue) : Prop where
  numeral : ∃ n, i.id = Numeral.ofNat n ∧ ∀ j ∈ issues, Numeral.value j.id < n
  new : Path.above ∉ home.parts ∨ i.before.isFolder home = .ok true → NoFile home i.id i.after

theorem Ahead.of_same {home : Path} {issues : List Issue} {t t' : Tree} (h : Ahead home issues t)
    (hsame : ∀ s, t.readText (home.child Session.cursorName) = .ok s →
      t'.readText (home.child Session.cursorName) = .ok s) : Ahead home issues t' := by
  intro n hn i hi
  rcases cursorAt_of_same hsame hn with h' | h'
  · exact h n h' i hi
  · have := h 0 h' i hi
    omega

theorem Ahead.extends {home : Path} {issues : List Issue} {t t' : Tree} (h : Ahead home issues t)
    (hext : Tree.Extends t t') : Ahead home issues t' := h.of_same fun _ => hext.readText

theorem Session.On.folder? {s : Session} {root : Path} {folder : Text} (h : s.On root folder) :
    s.folder? = some (root.join (Path.ofText folder)) := by
  simp [Session.folder?, h.root, h.folder]

namespace Session

/-- Setting the cursor puts no fragment's file anywhere, and neither does making its folder. -/
theorem Advanced.noFile {home : Path} {t t' : Tree} {n : Nat} {id : Text} (hw : t.WellFormed)
    (h : Advanced home t n t') (hno : NoFile home id t) : NoFile home id t' := by
  have hkeep : ∀ l c, l ≠ lead [] home.parts ++ [cursorName] →
      t.node? l ≠ some (.file c) → t'.node? l ≠ some (.file c) := by
    intro l c hl hc hc'
    rw [h.eq, Tree.node?_insert_of_ne _ hl] at hc'
    exact hc (((Tree.makeFolders_adds hw home).2.file_iff l c).mp hc')
  have hlast : ∀ xs, xs ++ [id ++ ending] ≠ lead [] home.parts ++ [cursorName] := by
    intro xs e
    have hid : id ++ ending = cursorName := (List.append_inj' e rfl).2 |> List.singleton_inj.mp
    have := getLast?_ending id
    rw [hid] at this
    cases this
  intro c
  refine ⟨hkeep _ c (hlast _) (hno c).1, fun name => hkeep _ c ?_ ((hno c).2 name)⟩
  have := hlast (lead [] home.parts ++ [name])
  rwa [List.append_assoc, List.singleton_append] at this

/-- Before its folder is made nothing can be there, if the path to it has no double dot. -/
theorem Advanced.noFile_before {home : Path} {t t' : Tree} {n : Nat} (id : Text)
    (hw : t.WellFormed) (h : Advanced home t n t') (hplain : Path.above ∉ home.parts)
    (hfold : t.isFolder home ≠ .ok true) : NoFile home id t := by
  obtain ⟨hr, -⟩ := Tree.makeFolders_ok hw h.made
  obtain ⟨hnul, hshort, -⟩ := Tree.resolve_eq_ok_iff.mp hr
  have hlead : lead [] home.parts = home.parts := lead_of_plain hplain
  have hnone : t.node? (lead [] home.parts) ≠ some .folder := by
    intro hl
    have hf : t.follow [] home.parts = .ok (lead [] home.parts) := by
      rw [hlead] at hl ⊢
      exact hw.follow_of_node (l := []) hl
    exact hfold (Tree.isFolder_eq_true_iff.mpr
      ⟨_, Tree.resolve_eq_ok_iff.mpr ⟨hnul, hshort, hf⟩, hl⟩)
  intro c
  constructor
  · rw [hw.none_below hnone _ (by simp)]; simp
  · intro name; rw [hw.none_below hnone _ (by simp)]; simp

end Session

/-! ## What a step preserves -/

/-- Handing out an id after others that the cursor is ahead of. -/
theorem proper_of_allocate {root : Path} {folder : Text} {s : Session} {t t' : Tree} {id : Text}
    {issues : List Issue} (hs : s.On root folder) (hw : t.WellFormed)
    (hahead : Ahead (root.join (Path.ofText folder)) issues t)
    (h : s.allocate.run t = (.ok id, t')) :
    t'.WellFormed ∧ Ahead (root.join (Path.ofText folder)) (issues ++ [⟨id, t, t'⟩]) t' ∧
      Proper (root.join (Path.ofText folder)) issues ⟨id, t, t'⟩ ∧
      ∃ c, t'.node? (lead [] (root.join (Path.ofText folder)).parts ++ [Session.cursorName]) =
        some (.file c) := by
  rcases Session.allocate_cases hw h with ⟨e, he, -⟩ | ⟨home, start, n, hhome, hstart, hle, hsmall,
    hfree, hadv, hid⟩
  · cases he
  rw [hs.folder?] at hhome
  obtain rfl := Option.some.inj hhome
  obtain rfl := Except.ok.inj hid
  rw [Session.nextId_eq hs.folder?] at hstart
  have hbelow : ∀ j ∈ issues, Numeral.value j.id < n :=
    fun j hj => Nat.lt_of_lt_of_le (hahead start hstart j hj) hle
  have hdigits : ∀ c ∈ Numeral.ofNat n, isAsciiDigit c = true :=
    fun c hc => Numeral.isAsciiDigit_of_mem_ofNat hc
  refine ⟨hadv.wellFormed hw, ?_, ⟨⟨n, rfl, hbelow⟩, ?_⟩, ?_⟩
  · intro m hm i hi
    obtain rfl := cursorAt_of_readText hadv.readText hm
    rcases List.mem_append.mp hi with hi | hi
    · have := hbelow i hi
      omega
    · obtain rfl := List.mem_singleton.mp hi
      simp
  · intro hcond
    refine hadv.noFile hw ?_
    by_cases hfold : t.isFolder (root.join (Path.ofText folder)) = .ok true
    · obtain ⟨l, hr, hl⟩ := Tree.isFolder_eq_true_iff.mp hfold
      obtain rfl := Tree.resolve_eq_lead hr
      exact Session.no_file_of_hasFragment hw hs.folder? hr hl hdigits hfree
    · exact hadv.noFile_before _ hw (hcond.resolve_right hfold) hfold
  · exact ⟨_, by rw [hadv.eq, Tree.node?_insert_self _ (by simp)]⟩

/-- After its id an attempt takes nothing away from the tree. -/
theorem Attempt.extends {s : Session} {now : Int} {e : Edit} {d d' : Desk} {i : Issue}
    (h : Attempt s now e d i d') :
    s.allocate.run d.tree = (.ok i.id, i.after) ∧ i.before = d.tree ∧
      (i.after.WellFormed → d'.tree.WellFormed ∧ Tree.Extends i.after d'.tree) := by
  cases h with
  | issued hid =>
    exact ⟨(Editing.onTree_eq hid).1, rfl, fun hw => ⟨hw, .refl _⟩⟩
  | edited hid hedit =>
    refine ⟨(Editing.onTree_eq hid).1, rfl, fun hw => ?_⟩
    rw [Editing.apply_tree hedit]
    exact ⟨hw, .refl _⟩
  | placed hid hedit hset =>
    refine ⟨(Editing.onTree_eq hid).1, rfl, fun hw => ?_⟩
    have hrun := (Editing.onTree_eq hset).1
    rw [Editing.apply_tree hedit] at hrun
    obtain ⟨hw', hmore, -⟩ := Session.ensureSet_spec hw hrun
    exact ⟨hw', hmore.extends⟩
  | recorded hid hedit hmade =>
    refine ⟨(Editing.onTree_eq hid).1, rfl, fun hw => ?_⟩
    have hrun := (Editing.onTree_eq hmade).1
    rw [Editing.apply_tree hedit] at hrun
    exact ⟨(Session.ensure_spec hw hrun).1, Session.ensure_extends hw hrun⟩

/-- A step keeps the cursor ahead, and the ids that it hands out are beyond those before. -/
theorem Step.ahead {root : Path} {folder : Text} {t t' : Tree} {is js : List Issue}
    (h : Step root folder t js t') (hw : t.WellFormed)
    (hahead : Ahead (root.join (Path.ofText folder)) is t) :
    t'.WellFormed ∧ Ahead (root.join (Path.ofText folder)) (is ++ js) t' ∧
      (js = [] ∨ ∃ i, js = [i] ∧ Proper (root.join (Path.ofText folder)) is i) := by
  cases h with
  | allocated hs h =>
    obtain ⟨hw', hahead', hproper, -⟩ := proper_of_allocate hs hw hahead h
    exact ⟨hw', hahead', .inr ⟨_, rfl, hproper⟩⟩
  | refused hs h =>
    rw [List.append_nil]
    rcases Session.allocate_cases hw h with ⟨e, -, hw', hmore⟩ | ⟨_, _, _, _, _, _, _, _, _, he⟩
    · exact ⟨hw', hahead.extends hmore.extends, .inl rfl⟩
    · cases he
  | attempted hs h =>
    obtain ⟨hid, hbefore, hafter⟩ := h.extends
    obtain ⟨hw', hahead', hproper, -⟩ := proper_of_allocate hs hw hahead hid
    obtain ⟨hw'', hext⟩ := hafter hw'
    rw [← hbefore] at hahead' hproper
    exact ⟨hw'', hahead'.extends hext, .inr ⟨_, rfl, hproper⟩⟩
  | others hw' h =>
    rw [List.append_nil]
    refine ⟨hw', hahead.of_same fun text htext => ?_, .inl rfl⟩
    rw [htext] at h
    cases hr : t'.readText ((root.join (Path.ofText folder)).child Session.cursorName) with
    | error f => rw [hr] at h; cases h
    | ok text' => rw [hr] at h; rw [Option.some.inj h]

/-- A whole run keeps the cursor ahead, and each of its ids is beyond all that came before. -/
theorem Run.ahead {root : Path} {folder : Text} {t t' : Tree} {is : List Issue}
    (h : Run root folder t is t') (hw : t.WellFormed) :
    t'.WellFormed ∧ Ahead (root.join (Path.ofText folder)) is t' ∧
      ∀ before i after, is = before ++ i :: after →
        Proper (root.join (Path.ofText folder)) before i := by
  induction h with
  | done => exact ⟨hw, fun n _ i hi => (by cases hi), fun before i after e => (by simp at e)⟩
  | step h h' ih =>
    obtain ⟨hw', hahead, hproper⟩ := ih
    obtain ⟨hw'', hahead', hnew⟩ := h'.ahead hw' hahead
    refine ⟨hw'', hahead', fun before i after e => ?_⟩
    rcases hnew with rfl | ⟨j, rfl, hj⟩
    · rw [List.append_nil] at e
      exact hproper before i after e
    · rcases List.eq_nil_or_concat after with rfl | ⟨after', k, rfl⟩
      · obtain ⟨rfl, e'⟩ := List.append_inj' e rfl
        rw [← (List.cons.inj e').1]
        exact hj
      · rw [List.concat_eq_append, ← List.cons_append, ← List.append_assoc] at e
        exact hproper before i after' (List.append_inj' e rfl).1

/-! ## Ids are never handed out twice -/

theorem Proper.value_lt {home : Path} {is : List Issue} {i : Issue} (h : Proper home is i) :
    ∀ j ∈ is, Numeral.value j.id < Numeral.value i.id := by
  obtain ⟨n, hi, hbelow⟩ := h.numeral
  intro j hj
  rw [hi, Numeral.value_ofNat]
  exact hbelow j hj

theorem pairwise_of_proper {home : Path} {is : List Issue}
    (h : ∀ before i after, is = before ++ i :: after → Proper home before i) :
    is.Pairwise fun i j => Numeral.value i.id < Numeral.value j.id := by
  induction is using List.reverseRecOn with
  | nil => exact List.Pairwise.nil
  | append_singleton is i ih =>
    rw [List.pairwise_append]
    refine ⟨ih fun before j after e => h before j (after ++ [i]) (by simp [e]),
      List.pairwise_singleton _ _, fun j hj k hk => ?_⟩
    obtain rfl := List.mem_singleton.mp hk
    exact (h is k [] rfl).value_lt j hj

/-- The ids that any number of sessions hand out on one folder of sets, cut off or not, are numerals
that ascend. No file has the name of one when it is handed out, if the folder of sets was there
before or the path to it has no double dot. -/
theorem ids_ascend {root : Path} {folder : Text} {t t' : Tree} {is : List Issue}
    (hw : t.WellFormed) (h : Run root folder t is t') :
    is.Pairwise (fun i j => Numeral.value i.id < Numeral.value j.id) ∧
      (is.map Issue.id).Nodup ∧
      ∀ i ∈ is, i.id = Numeral.ofNat (Numeral.value i.id) ∧
        (Path.above ∉ (root.join (Path.ofText folder)).parts ∨
            i.before.isFolder (root.join (Path.ofText folder)) = .ok true →
          NoFile (root.join (Path.ofText folder)) i.id i.after) := by
  obtain ⟨-, -, hproper⟩ := h.ahead hw
  have hpair := pairwise_of_proper hproper
  refine ⟨hpair, ?_, fun i hi => ?_⟩
  · rw [List.Nodup, List.pairwise_map]
    exact hpair.imp fun hlt e => by rw [e] at hlt; exact Nat.lt_irrefl _ hlt
  · obtain ⟨before, after, e⟩ := List.append_of_mem hi
    have hi := hproper before i after e
    obtain ⟨n, hid, -⟩ := hi.numeral
    exact ⟨by rw [hid, Numeral.value_ofNat], hi.new⟩

theorem ids_ascend_from_empty :
    ∃ (root : Path) (folder : Text) (t t' : Tree) (is : List Issue), t.WellFormed ∧
      Run root folder t is t' ∧ is.map Issue.id = [['0'], ['1']] ∧
      is.Pairwise (fun i j => Numeral.value i.id < Numeral.value j.id) ∧
      (is.map Issue.id).Nodup ∧ ∀ i ∈ is, i.id = Numeral.ofNat (Numeral.value i.id) ∧
        (Path.above ∉ (root.join (Path.ofText folder)).parts ∨
            i.before.isFolder (root.join (Path.ofText folder)) = .ok true →
          NoFile (root.join (Path.ofText folder)) i.id i.after) := by
  let root : Path := { slashes := 1, parts := [['w']] }
  let folder : Text := ".cms".toList
  let t : Tree := ⟨[([['w']], .folder)]⟩
  let s : Session := { root := some root, config := { folder } }
  let s' : Session := { root := some root, config := { folder }, activeSet := ['a'] }
  obtain ⟨t₁, h₁, h₂⟩ : ∃ t₁, s.allocate.run t = (.ok ['0'], t₁) ∧
      (s'.allocate.run t₁).1 = .ok ['1'] :=
    ⟨_, Work.run_eq_of_fst (by decide +kernel), by decide +kernel⟩
  have hw : t.WellFormed := by decide +kernel
  have hs : s.On root folder := ⟨rfl, rfl⟩
  have hs' : s'.On root folder := ⟨rfl, rfl⟩
  have hrun := Run.step (.step (.done t) (.allocated hs h₁))
    (.allocated hs' (Work.run_eq_of_fst h₂))
  exact ⟨root, folder, t, _, _, hw, hrun, rfl, ids_ascend hw hrun⟩

/-- A folder of sets whose path turns back at a double dot, after a folder that is missing, is taken
to be empty: the id of a file there is handed out. -/
theorem taken_id_handed_out :
    ∃ (root : Path) (folder : Text) (t t' : Tree) (i : Issue), t.WellFormed ∧
      Run root folder t [i] t' ∧ ¬ NoFile (root.join (Path.ofText folder)) i.id i.after := by
  let root : Path := { slashes := 1, parts := [['w']] }
  let folder : Text := "x/../.cms".toList
  let t : Tree := ⟨[([['w']], .folder), ([['w'], ['.', 'c', 'm', 's']], .folder),
    ([['w'], ['.', 'c', 'm', 's'], ['0', '.', 'm', 'd']], .file (.text []))]⟩
  let s : Session := { root := some root, config := { folder } }
  have hid : s.allocate.run t = (.ok ['0'], (s.allocate.run t).2) :=
    Work.run_eq_of_fst (by decide +kernel)
  refine ⟨root, folder, t, (s.allocate.run t).2, ⟨['0'], t, (s.allocate.run t).2⟩,
    by decide +kernel, .step (.done t) (.allocated ⟨rfl, rfl⟩ hid), fun h => ?_⟩
  exact (h (.text [])).1 (by decide +kernel)

end Marginalia
