import Marginalia.Proofs.Session.Tidy
import Mathlib.Data.Finset.Card

/-!
# Ids that stay available

Each operation of a session uses up at most one number (`Step.uses`), so that after fewer operations
than there are numerals of ids one is left, and handing out an id succeeds unless a folder is in the
place of the cursor file (`allocate_available`). Nothing but the cursor is ever written there, and a
folder comes there only when a set is asked for by the name of the cursor file before the first id
is handed out (`cursor_name_blocks`).
-/

namespace Marginalia.Supply

open Session (Works Touch Touched Touches Advanced Binds cursorName cursorPlace named asked)

/-! ## Steps -/

/-- What a session does, whether it fails or not, with the sets whose folders it may make. Every
step may be another session's, on another document. -/
inductive Step (root : Path) (folder : Text) : Tree → List Name → Tree → Prop where
  | activated {s : Session} {name : Option Text} {t t' : Tree} {r} (hs : s.Works root folder)
      (h : (s.activate name).run t = (r, t')) :
      Step root folder t (defaultSet :: (SetName.sanitize name).toOption.toList) t'
  | switched {s : Session} {name : Option Text} {t t' : Tree} {r} (hs : s.Works root folder)
      (h : (s.switchSet name).run t = (r, t')) :
      Step root folder t (SetName.sanitize name).toOption.toList t'
  | allocated {s : Session} {t t' : Tree} {r} (hs : s.Works root folder)
      (h : s.allocate.run t = (r, t')) : Step root folder t [] t'
  | bound {s : Session} {now line : Int} {d d' : Desk} {r} (hs : s.Works root folder)
      (h : (s.bindMarker now line).run d = (r, d')) :
      Step root folder d.tree (s.named none) d'.tree
  | handled {s : Session} {now : Int} {c : Change} {d d' : Desk} {r} (hs : s.Works root folder)
      (h : (s.handleChange now c).run d = (r, d')) :
      Step root folder d.tree (s.named none) d'.tree
  | opened {s : Session} {now line : Int} {d d' : Desk} {r} (hs : s.Works root folder)
      (h : (s.openAtLine now line).run d = (r, d')) :
      Step root folder d.tree (s.named none) d'.tree
  | saved {s : Session} {path text : Text} {t t' : Tree} {r} (hs : s.Works root folder)
      (h : (s.onSave path text).run t = (r, t')) : Step root folder t [] t'
  | refreshed {s : Session} {id : Text} {t t' : Tree} {r} (hs : s.Works root folder)
      (h : (s.refresh id).run t = (r, t')) : Step root folder t [] t'
  | summarized {s : Session} {now : Int} {set : Option Text} {format : SummaryFormat}
      {t t' : Tree} {r} (hs : s.Works root folder)
      (h : (s.summarize now set format).run t = (r, t')) :
      Step root folder t (s.named (some (s.asked set))) t'

/-- A step that was taken: the tree before it, and the sets whose folders it may have made. -/
structure Taken where
  before : Tree
  sets : List Name

/-- Steps in a row, the first one first. -/
inductive Run (root : Path) (folder : Text) : Tree → List Taken → Tree → Prop where
  | done (t : Tree) : Run root folder t [] t
  | step {t t' t'' : Tree} {taken sets} (h : Run root folder t taken t')
      (h' : Step root folder t' sets t'') : Run root folder t (taken ++ [⟨t', sets⟩]) t''

/-! ## What is left -/

/-- A path that the system takes for a folder of sets, with room for the files in it, and that does
not lead through the place of the cursor file. -/
structure Roomy (home : Path) : Prop where
  fits : Tree.Fits home 300
  shallow : home.parts.length < deepest
  apart : cursorPlace home ∉ visited [] home.parts

/-- Nothing is in the folder of sets, and only folders are on the way there. -/
structure Bare (home : Path) (t : Tree) : Prop where
  wellFormed : t.WellFormed
  way : ∀ l ∈ visited [] home.parts, t.node? l = none ∨ t.node? l = some .folder
  nothing : ∀ rest, rest ≠ [] → t.node? (lead [] home.parts ++ rest) = none

/-- No number has a file but those in a set of used ones, and a file in the place of the cursor has
the text of a cursor that passes over no others. -/
structure Left (home : Path) (used : Finset Nat) (t : Tree) : Prop where
  wellFormed : t.WellFormed
  way : ∀ l ∈ visited [] home.parts, t.node? l = none ∨ t.node? l = some .folder
  cursor : ∀ c, t.node? (cursorPlace home) = some (.file c) →
    ∃ m, c = .text (cursorText m) ∧ ∀ v ∉ used, m ≤ v
  free : ∀ v ∉ used, NoFile home (Numeral.ofNat v) t

/-- A folder comes into the place of the cursor file only as that of one of some sets where nothing
was, and what is there stays. -/
structure Spares (home : Path) (sets : List Name) (t t' : Tree) : Prop where
  folder : t'.node? (cursorPlace home) = some .folder → t.node? (cursorPlace home) = some .folder ∨
    t.node? (cursorPlace home) = none ∧ cursorName ∈ sets
  stays : t'.node? (cursorPlace home) = none → t.node? (cursorPlace home) = none

/-- What a step comes to that uses up one number at most and makes the folders of some sets. -/
def Uses (home : Path) (used : Finset Nat) (sets : List Name) (t t' : Tree) : Prop :=
  (∃ n, Left home (insert n used) t') ∧ Spares home sets t t'

/-- A path that never turns back does not lead through what is inside its end. -/
theorem Roomy.of_plain {home : Path} (hplain : Path.above ∉ home.parts)
    (hfits : Tree.Fits home 300) (hshallow : home.parts.length < deepest) : Roomy home where
  fits := hfits
  shallow := hshallow
  apart := fun hl => by
    obtain ⟨m, -, hm, e⟩ := visited_of_plain hplain hl
    have hlen := congrArg List.length e
    rw [cursorPlace, lead_of_plain hplain] at hlen
    simp at hlen
    omega

variable {home : Path} {used : Finset Nat} {sets names : List Name} {s : Session} {t t' t'' : Tree}
  {root : Path} {folder : Text}

theorem Spares.refl : Spares home sets t t := ⟨.inl, id⟩

theorem Spares.trans (h : Spares home sets t t') (h' : Spares home sets t' t'') :
    Spares home sets t t'' where
  folder := fun hf => by
    rcases h'.folder hf with hf' | ⟨hnone, hset⟩
    · exact h.folder hf'
    · exact .inr ⟨h.stays hnone, hset⟩
  stays := fun hnone => h.stays (h'.stays hnone)

theorem Bare.left (h : Bare home t) : Left home ∅ t where
  wellFormed := h.wellFormed
  way := h.way
  cursor := fun c hc => by
    rw [cursorPlace, h.nothing _ (List.cons_ne_nil _ _)] at hc
    cases hc
  free := fun v _ c =>
    ⟨by rw [h.nothing _ (List.cons_ne_nil _ _)]; simp,
      fun name => by rw [h.nothing _ (List.cons_ne_nil _ _)]; simp⟩

theorem Left.mono {used' : Finset Nat} (h : Left home used t) (hsub : used ⊆ used') :
    Left home used' t where
  wellFormed := h.wellFormed
  way := h.way
  cursor := fun c hc => by
    obtain ⟨m, hm, hle⟩ := h.cursor c hc
    exact ⟨m, hm, fun v hv => hle v fun hmem => hv (hsub hmem)⟩
  free := fun v hv => h.free v fun hmem => hv (hsub hmem)

theorem Uses.of_left (h : Left home used t' ∧ Spares home sets t t') : Uses home used sets t t' :=
  ⟨⟨0, h.1.mono (Finset.subset_insert 0 used)⟩, h.2⟩

theorem Left.idle (h : Left home used t) : Uses home used sets t t := .of_left ⟨h, .refl⟩

/-! ## Changes -/

theorem Left.touch (h : Left home used t)
    (hnames : ∀ v ∉ used, Numeral.ofNat v ++ ending ∉ names) (ht : Touch home sets names t t') :
    Left home used t' where
  wellFormed := ht.wellFormed h.wellFormed
  way := ht.way h.wellFormed h.way
  cursor := fun c hc => by
    rcases ht.file_cases h.wellFormed hc with ⟨c', hc', hsame⟩ | ⟨set, -, name, -, e⟩
    · rw [← hsame (by simp [cursorPlace])]
      exact h.cursor c' hc'
    · have hlen := congrArg List.length e
      simp [cursorPlace] at hlen
  free := fun v hv => by
    rw [Session.noFile_iff]
    intro l hl c hc
    obtain ⟨c', hc'⟩ := ht.fragment_file h.wellFormed (hnames v hv) hl hc
    exact Session.noFile_iff.mp (h.free v hv) l hl c' hc'

/-- A change spares the cursor file, if the way to the folder of sets does not lead there. -/
theorem Spares.of_touch (hw : t.WellFormed) (hapart : cursorPlace home ∉ visited [] home.parts)
    (ht : Touch home sets names t t') : Spares home sets t t' where
  folder := fun hf => by
    rcases ht.folder_cases hw hf with hold | ⟨hnone, set, hset, habove, hvisited⟩
    · exact .inl hold
    · rw [Path.child_parts, visited_append, List.mem_append, visited, if_neg habove] at hvisited
      have hlast := List.mem_singleton.mp (hvisited.resolve_left hapart)
      obtain rfl := List.singleton_inj.mp (List.append_cancel_left hlast)
      exact .inr ⟨hnone, hset⟩
  stays := fun hnone => by
    cases hn : t.node? (cursorPlace home) with
    | none => rfl
    | some n =>
      cases n with
      | folder =>
        rw [ht.foldersStay hw _ hn] at hnone
        cases hnone
      | file c =>
        obtain ⟨c', hc'⟩ := ht.file_stays hw hn
        rw [hc'] at hnone
        cases hnone

/-- What changes leave, when no number that is left is the name of a file that may be new. -/
theorem Left.touched (h : Left home used t) (hapart : cursorPlace home ∉ visited [] home.parts)
    (hnames : ∀ v ∉ used, Numeral.ofNat v ++ ending ∉ names) (ht : Touched home sets names t t') :
    Left home used t' ∧ Spares home sets t t' := by
  induction ht with
  | refl => exact ⟨h, .refl⟩
  | tail _ hlast ih =>
    obtain ⟨hleft, hspares⟩ := ih
    exact ⟨hleft.touch hnames hlast, hspares.trans (.of_touch hleft.wellFormed hapart hlast)⟩

theorem Left.touches {α : Type} {w : Work α} {r : Except Fault α} (h : Left home used t)
    (hapart : cursorPlace home ∉ visited [] home.parts)
    (hnames : ∀ v ∉ used, Numeral.ofNat v ++ ending ∉ names) (hw : Touches home sets names w)
    (hrun : w.run t = (r, t')) : Left home used t' ∧ Spares home sets t t' := by
  have ht := hw t
  rw [hrun] at ht
  exact h.touched hapart hnames ht

/-! ## Handing out an id -/

/-- The number to start from passes over no number that is left. -/
theorem Left.nextId (h : Left home used t) (hs : s.folder? = some home)
    (hfits : Tree.Fits home 300) : ∃ m, (∀ v ∉ used, m ≤ v) ∧
      (∀ start, s.nextId t = .ok start → start = m) ∧
        (m < 10 ^ Numeral.limit → s.nextId t = .ok m) := by
  have hname : Tree.IsName cursorName := by decide
  rw [Session.nextId_eq hs]
  cases hr : t.readText (home.child cursorName) with
  | error f =>
    have hzero := cursorAt_of_unread (hfits.child (j := 0) hname (by decide)).no_nul hr
    exact ⟨0, fun _ _ => Nat.zero_le _, fun start e => Except.ok.inj (e.symm.trans hzero),
      fun _ => hzero⟩
  | ok text =>
    obtain ⟨l, c, hl, hc⟩ := Tree.node_of_readText hr
    have hplace : l = cursorPlace home := by
      rw [Tree.resolve_eq_lead hl, lead_child _ hname.not_above]
      rfl
    obtain ⟨m, rfl, hle⟩ := h.cursor c (hplace ▸ hc)
    have htext : t.readText (home.child cursorName) = .ok (cursorText m) := by
      rw [Tree.readText_of_resolve hl hc]
      exact congrArg Except.ok (Session.unifyNewlines_cursorText m)
    exact ⟨m, hle, fun start e => cursorAt_of_readText htext e, cursorAt_cursorText htext⟩

/-- Making the folder of sets uses up nothing. -/
theorem Left.folders (h : Left home used t) (hroom : Roomy home) (hw : t'.WellFormed)
    (hadds : Tree.AddsFolders (visited [] home.parts) t t') :
    Left home used t' ∧ t'.node? (cursorPlace home) = t.node? (cursorPlace home) := by
  have hcursor := hadds.of_not_mem hroom.apart
  refine ⟨⟨hw, fun l hl => ?_, fun c hc => h.cursor c (hcursor ▸ hc), fun v hv => ?_⟩, hcursor⟩
  · rcases hadds l with e | ⟨-, -, hf⟩
    · rw [e]
      exact h.way l hl
    · exact .inr hf
  · have hno := h.free v hv
    rw [Session.noFile_iff] at hno ⊢
    exact fun l hl c hc => hno l hl c ((hadds.file_iff l c).mp hc)

/-- The cursor may be set beyond a number when only greater ones are left after it. -/
theorem Left.advance {n : Nat} (h : Left home used t) (hroom : Roomy home)
    (hadv : Advanced home t (n + 1) t') (hle : ∀ v ∉ used, n ≤ v) :
    Left home (insert n used) t' ∧
      t'.node? (cursorPlace home) = some (.file (.text (cursorText (n + 1)))) := by
  obtain ⟨hw, hadds⟩ := Tree.makeFolders_adds h.wellFormed home
  obtain ⟨hmade, -⟩ := h.folders hroom hw hadds
  have hinsert : t' = (t.makeFolders home).1.insert (cursorPlace home)
      (.file (.text (cursorText (n + 1)))) := hadv.eq
  have hself : t'.node? (cursorPlace home) = some (.file (.text (cursorText (n + 1)))) := by
    rw [hinsert, Tree.node?_insert_self _ (by simp [cursorPlace])]
  refine ⟨⟨hadv.wellFormed h.wellFormed, fun l hl => ?_, fun c hc => ?_, fun v hv => ?_⟩, hself⟩
  · have hne : l ≠ cursorPlace home := fun e => hroom.apart (e ▸ hl)
    rw [hinsert, Tree.node?_insert_of_ne _ hne]
    exact hmade.way l hl
  · rw [hself] at hc
    cases hc
    refine ⟨n + 1, rfl, fun v hv => ?_⟩
    rw [Finset.mem_insert, not_or] at hv
    have := hle v hv.2
    omega
  · rw [Finset.mem_insert, not_or] at hv
    exact hadv.noFile h.wellFormed (h.free v hv.2)

/-- The search passes over no number that is left: those before its end have files. -/
theorem Left.leastFree_le {start n : Nat} (h : Left home used t) (hs : s.folder? = some home)
    (hfits : Tree.Fits home 300) (hstart : s.nextId t = .ok start)
    (hleast : s.leastFree t (t.entries.length + 1) start = .ok n) : ∀ v ∉ used, n ≤ v := by
  intro v hv
  obtain ⟨m, hle, hm, -⟩ := h.nextId hs hfits
  obtain ⟨-, -, hpassed, -⟩ := Session.leastFree_spec hleast
  have hfrom : start ≤ v := hm start hstart ▸ hle v hv
  by_contra hlt
  have hfree := Session.hasFragment_of_noFile h.wellFormed hs
    (fun c hc => Numeral.isAsciiDigit_of_mem_ofNat hc) (h.free v hv)
    (hpassed v hfrom (Nat.lt_of_not_le hlt))
  cases hfree

/-- Handing out an id uses up its number, and fails without using up any. -/
theorem Left.allocate {r : Except Fault Text} (h : Left home used t) (hs : s.folder? = some home)
    (hroom : Roomy home) (hrun : s.allocate.run t = (r, t')) :
    ((∃ f, r = .error f) ∧ Left home used t' ∨
      ∃ n, r = .ok (Numeral.ofNat n) ∧ Left home (insert n used) t') ∧ Spares home sets t t' := by
  rcases Session.allocate_steps h.wellFormed hs hrun with
    ⟨f, rfl, hw, hadds⟩ | ⟨start, n, hstart, hleast, hadv, rfl⟩
  · obtain ⟨hleft, hcursor⟩ := h.folders hroom hw hadds
    exact ⟨.inl ⟨⟨f, rfl⟩, hleft⟩, fun hf => .inl (hcursor ▸ hf), fun hnone => hcursor ▸ hnone⟩
  · obtain ⟨hleft, hself⟩ :=
      h.advance hroom hadv (h.leastFree_le hs hroom.fits hstart hleast)
    refine ⟨.inr ⟨n, rfl, hleft⟩, fun hf => ?_, fun hnone => ?_⟩
    · rw [hself] at hf
      cases hf
    · rw [hself] at hnone
      cases hnone

/-! ## Binding a marker -/

/-- Making the record of an id uses up its number. -/
theorem Left.ensure {now : Int} {id : Text} {r : Except Fault Created} (h : Left home used t)
    (hs : s.folder? = some home) (hactive : IsSetName s.activeSet) (hroom : Roomy home)
    (hid : ∀ c ∈ id, isAsciiDigit c = true) (hrun : (s.ensure now none id).run t = (r, t')) :
    Left home (insert (Numeral.value id) used) t' ∧ Spares home (s.named none) t t' := by
  have htouches : Touches home (s.named none) [id ++ ending] (s.ensure now none id) :=
    Touches.ensure hs hactive now hid (List.Subset.refl _) List.mem_cons_self
  refine (h.mono (Finset.subset_insert _ _)).touches hroom.apart (fun v hv hmem => ?_) htouches hrun
  have e := List.append_cancel_right (List.mem_singleton.mp hmem)
  exact hv (by rw [← e, Numeral.value_ofNat]; exact Finset.mem_insert_self v used)

theorem Left.binds {now : Int} {d d' : Desk} {r : Except Fault (Option Bound)}
    (h : Left home used d.tree) (hs : s.folder? = some home) (hactive : IsSetName s.activeSet)
    (hroom : Roomy home) (hb : Binds s now d r d') :
    Uses home used (s.named none) d.tree d'.tree := by
  -- An id that is handed out, and the record that is made for it, use up one number together.
  have hrecord : ∀ {e : Edit} {id d₁ d₂ d₃} {r₁ : Except Fault Created},
      (Editing.onTree s.allocate).run d = (.ok id, d₁) →
      (Editing.apply s.mute e).run d₁ = (.ok true, d₂) →
      (Editing.onTree (s.ensure now none id)).run d₂ = (r₁, d₃) →
      Uses home used (s.named none) d.tree d₃.tree := by
    intro e id d₁ d₂ d₃ r₁ hid hedit hmade
    obtain ⟨⟨⟨f, hf⟩, -⟩ | ⟨n, hn, hleft⟩, hspares⟩ := h.allocate hs hroom (Editing.onTree_eq hid).1
    · cases hf
    · cases hn
      have hmade := (Editing.onTree_eq hmade).1
      rw [Editing.apply_tree hedit] at hmade
      obtain ⟨hleft', hspares'⟩ := hleft.ensure hs hactive hroom
        (fun c hc => Numeral.isAsciiDigit_of_mem_ofNat hc) hmade
      rw [Numeral.value_ofNat, Finset.insert_idem] at hleft'
      exact ⟨⟨n, hleft'⟩, hspares.trans hspares'⟩
  cases hb with
  | idle => exact h.idle
  | refused hid =>
    obtain ⟨⟨-, hleft⟩ | ⟨n, hn, -⟩, hspares⟩ := h.allocate hs hroom (Editing.onTree_eq hid).1
    · exact .of_left ⟨hleft, hspares⟩
    · cases hn
  | unedited hid hedit =>
    obtain ⟨⟨⟨f, hf⟩, -⟩ | ⟨n, -, hleft⟩, hspares⟩ := h.allocate hs hroom (Editing.onTree_eq hid).1
    · cases hf
    · rw [Editing.apply_tree hedit]
      exact ⟨⟨n, hleft⟩, hspares⟩
  | unrecorded hid hedit hmade => exact hrecord hid hedit hmade
  | recorded hid hedit hmade => exact hrecord hid hedit hmade

theorem Left.openAtLine {now line : Int} {d d' : Desk} {r : Except Fault (Option Bound)}
    (h : Left home used d.tree) (hs : s.folder? = some home) (hactive : IsSetName s.activeSet)
    (hroom : Roomy home) (hrun : (s.openAtLine now line).run d = (r, d')) :
    Uses home used (s.named none) d.tree d'.tree := by
  rcases Session.openAtLine_cases hrun with
    hbinds | ⟨text, m, b, path, -, -, -, -, rfl⟩ | ⟨text, m, b, r₁, hm, hb, -, hmade, -⟩
  · exact h.binds hs hactive hroom hbinds
  · exact h.idle
  · obtain ⟨hleft, hspares⟩ := h.ensure hs hactive hroom
      (digits_of_isId (Marker.isId_of_scan hm hb)) (Editing.onTree_eq hmade).1
    exact ⟨⟨_, hleft⟩, hspares⟩

/-! ## Steps and runs -/

/-- Every step uses up one number at most and spares the cursor file. -/
theorem Step.uses (h : Step root folder t sets t') (hroom : Roomy (root.join (Path.ofText folder)))
    (hleft : Left (root.join (Path.ofText folder)) used t) :
    Uses (root.join (Path.ofText folder)) used sets t t' := by
  have hapart := hroom.apart
  have hnone : ∀ v ∉ used, Numeral.ofNat v ++ ending ∉ ([] : List Name) := fun _ _ => by simp
  cases h with
  | activated hs h =>
    exact .of_left (hleft.touches hapart hnone
      (Touches.activate hs.folder? hs.set List.mem_cons_self (List.subset_cons_self _ _)) h)
  | switched hs h =>
    exact .of_left (hleft.touches hapart hnone
      (Touches.switchSet hs.folder? (List.Subset.refl _)) h)
  | allocated hs h =>
    obtain ⟨⟨-, hleft'⟩ | ⟨n, -, hleft'⟩, hspares⟩ := hleft.allocate hs.folder? hroom h
    · exact .of_left ⟨hleft', hspares⟩
    · exact ⟨⟨n, hleft'⟩, hspares⟩
  | bound hs h => exact hleft.binds hs.folder? hs.set hroom (Session.bindFrom_cases h)
  | handled hs h => exact hleft.binds hs.folder? hs.set hroom (Session.handleChange_cases h)
  | opened hs h => exact hleft.openAtLine hs.folder? hs.set hroom h
  | saved hs h => exact .of_left (hleft.touches hapart hnone (Touches.onSave _ _ _) h)
  | refreshed hs h => exact .of_left (hleft.touches hapart hnone (Touches.refresh _ _) h)
  | @summarized s now set format t t' r hs h =>
    have htouches : Touches (root.join (Path.ofText folder)) (s.named (some (s.asked set)))
        [format.fileName] (s.summarize now set format) :=
      Touches.summarize hs.folder? hs.set now (List.Subset.refl _) List.mem_cons_self
    refine .of_left (hleft.touches hapart (fun v _ => ?_) htouches h)
    have hnumeral : Session.IsNumeral (Numeral.ofNat v) :=
      ⟨Numeral.ofNat_ne_nil v, fun c hc => Numeral.isAsciiDigit_of_mem_ofNat hc⟩
    simpa using Session.Calm.ending_ne_summary format hnumeral

/-- A run uses up no more numbers than it has steps, and a folder comes into the place of the cursor
file in a step that asks for a set of that name where nothing was. -/
theorem Run.left {taken : List Taken} (h : Run root folder t taken t')
    (hroom : Roomy (root.join (Path.ofText folder)))
    (hbare : Bare (root.join (Path.ofText folder)) t) :
    (∃ used : Finset Nat, used.card ≤ taken.length ∧
      Left (root.join (Path.ofText folder)) used t') ∧
    (t'.node? (cursorPlace (root.join (Path.ofText folder))) = some .folder →
      ∃ k ∈ taken, cursorName ∈ k.sets ∧
        k.before.node? (cursorPlace (root.join (Path.ofText folder))) = none) := by
  induction h with
  | done =>
    refine ⟨⟨∅, Nat.le_refl 0, hbare.left⟩, fun hf => ?_⟩
    rw [cursorPlace, hbare.nothing _ (List.cons_ne_nil _ _)] at hf
    cases hf
  | step h h' ih =>
    obtain ⟨⟨used, hcard, hleft⟩, hfolder⟩ := ih
    obtain ⟨⟨n, hleft'⟩, hspares⟩ := h'.uses hroom hleft
    refine ⟨⟨insert n used, ?_, hleft'⟩, fun hf => ?_⟩
    · rw [List.length_append, List.length_singleton]
      exact (Finset.card_insert_le n used).trans (Nat.succ_le_succ hcard)
    · rcases hspares.folder hf with hold | ⟨hnone, hset⟩
      · obtain ⟨k, hk, hnamed⟩ := hfolder hold
        exact ⟨k, List.mem_append_left _ hk, hnamed⟩
      · exact ⟨_, List.mem_append_right _ List.mem_cons_self, hset, hnone⟩

/-! ## Ids stay available -/

/-- An id can be handed out as long as fewer numbers are used up than there are numerals of ids and
no folder is in the place of the cursor file. -/
theorem Left.available (h : Left home used t) (hs : s.folder? = some home) (hroom : Roomy home)
    (hcard : used.card < 10 ^ maxIdLength) :
    (∃ id t', s.allocate.run t = (.ok id, t') ∧ isId id = true) ↔
      t.node? (cursorPlace home) ≠ some .folder := by
  constructor
  · rintro ⟨id, t', hrun, -⟩ hf
    rcases Session.allocate_steps h.wellFormed hs hrun with ⟨f, hfail, -⟩ | ⟨_, _, -, -, hadv, -⟩
    · cases hfail
    · exact hadv.noFolder ((Tree.makeFolders_adds h.wellFormed home).2.foldersStay _ hf)
  · intro hcursor
    obtain ⟨v, hv, hfree⟩ := Finset.exists_mem_notMem_of_card_lt_card
      (s := used) (t := Finset.range (10 ^ maxIdLength)) (by rwa [Finset.card_range])
    rw [Finset.mem_range] at hv
    have hlimit : 10 ^ maxIdLength ≤ 10 ^ Numeral.limit :=
      Nat.pow_le_pow_right (by decide) (by decide)
    obtain ⟨m, hle, -, hstart⟩ := h.nextId hs hroom.fits
    have hm := hle v hfree
    obtain ⟨n, t', hn, hrun, -⟩ := Session.allocate_of_free h.wellFormed hs hroom.fits
      (hstart (Nat.lt_of_le_of_lt hm (Nat.lt_of_lt_of_le hv hlimit))) hm hv (h.free v hfree)
      (Session.exists_advanced h.wellFormed hroom.fits hroom.shallow h.way hroom.apart hcursor)
    exact ⟨_, t', hrun, isId_ofNat_iff.mpr hn⟩

/-- After fewer operations than there are numerals of ids, in any order and by any sessions, from an
empty workspace, an id can be handed out unless a folder is in the place of the cursor file. A file
there is a cursor file, and a folder is there only if a set was asked for by the name of the cursor
file when nothing was there, that is before the first id was handed out. -/
theorem allocate_available {taken : List Taken} (hroom : Roomy (root.join (Path.ofText folder)))
    (hbare : Bare (root.join (Path.ofText folder)) t) (h : Run root folder t taken t')
    (hfew : taken.length < 10 ^ maxIdLength) :
    (∀ s : Session, s.On root folder →
      ((∃ id u, s.allocate.run t' = (.ok id, u) ∧ isId id = true) ↔
        t'.node? (cursorPlace (root.join (Path.ofText folder))) ≠ some .folder)) ∧
    (∀ c, t'.node? (cursorPlace (root.join (Path.ofText folder))) = some (.file c) →
      ∃ n, c = .text (cursorText n)) ∧
    (t'.node? (cursorPlace (root.join (Path.ofText folder))) = some .folder →
      ∃ k ∈ taken, cursorName ∈ k.sets ∧
        k.before.node? (cursorPlace (root.join (Path.ofText folder))) = none) := by
  obtain ⟨⟨used, hcard, hleft⟩, hfolder⟩ := h.left hroom hbare
  refine ⟨fun s hs => hleft.available hs.folder? hroom (Nat.lt_of_le_of_lt hcard hfew),
    fun c hc => ?_, hfolder⟩
  obtain ⟨n, hn, -⟩ := hleft.cursor c hc
  exact ⟨n, hn⟩

/-- Once the first id is handed out the name of the cursor file is taken, and the second id can be
handed out although a set of that name was asked for. -/
theorem allocate_available_after_first :
    ∃ (root : Path) (folder : Text) (taken : List Taken) (t' : Tree) (s : Session),
      Roomy (root.join (Path.ofText folder)) ∧ Bare (root.join (Path.ofText folder)) {} ∧
      Run root folder {} taken t' ∧ taken.length < 10 ^ maxIdLength ∧
      (∃ k ∈ taken, cursorName ∈ k.sets) ∧ s.On root folder ∧
      ∃ id u, s.allocate.run t' = (.ok id, u) ∧ isId id = true := by
  let root : Path := { slashes := 1 }
  let s : Session := { root := some root }
  let t₁ : Tree := (s.allocate.run {}).2
  let t₂ : Tree := ((s.switchSet (some cursorName)).run t₁).2
  have hs : s.Works root ".cms".toList := Session.works_default root rfl
  have hroom : Roomy (root.join (Path.ofText ".cms".toList)) :=
    .of_plain (by decide) ⟨by decide, by decide, by decide⟩ (by decide)
  have hbare : Bare (root.join (Path.ofText ".cms".toList)) {} :=
    ⟨by decide, by decide, fun _ _ => rfl⟩
  have hrun : Run root ".cms".toList {} [⟨{}, []⟩, ⟨t₁, [cursorName]⟩] t₂ :=
    .step (.step (.done {}) (.allocated hs (Prod.eta (s.allocate.run {})).symm))
      (.switched hs (Prod.eta ((s.switchSet (some cursorName)).run t₁)).symm)
  obtain ⟨havailable, -, -⟩ := allocate_available hroom hbare hrun (by decide)
  exact ⟨root, ".cms".toList, _, t₂, s, hroom, hbare, hrun, by decide,
    ⟨⟨t₁, [cursorName]⟩, by simp, List.mem_cons_self⟩, hs.toOn,
    (havailable s hs.toOn).mpr (by decide +kernel)⟩

/-- A set that is asked for by the name of the cursor file before the first id is handed out puts a
folder in its place, and no id can be handed out any more. -/
theorem cursor_name_blocks :
    ∃ (s : Session) (t' : Tree), s.Works { slashes := 1 } ".cms".toList ∧
      Run { slashes := 1 } ".cms".toList {} [⟨{}, [cursorName]⟩] t' ∧
      ∀ id u, s.allocate.run t' ≠ (.ok id, u) := by
  let s : Session := { root := some { slashes := 1 } }
  have hs : s.Works { slashes := 1 } ".cms".toList := Session.works_default _ rfl
  refine ⟨s, ((s.switchSet (some cursorName)).run {}).2, hs, .step (.done {})
    (.switched hs (Prod.eta ((s.switchSet (some cursorName)).run {})).symm), fun id u hrun => ?_⟩
  have hfail : (s.allocate.run ((s.switchSet (some cursorName)).run {}).2).1.toOption = none := by
    decide +kernel
  rw [hrun] at hfail
  cases hfail

end Marginalia.Supply
