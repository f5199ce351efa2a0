import Marginalia.Proofs.Disk.Walk
import Marginalia.Proofs.Marker.Canonical
import Marginalia.Proofs.SetName
import Marginalia.Proofs.Session.Binding
import Marginalia.Proofs.Session.Ledger
import Marginalia.Proofs.Session.Migration
import Marginalia.Summary.File

/-!
# Making records, and what makes none

A record that is made enters the ledger under an id that it did not have (`ensure`, and from it
`binds` and `openAtLine`). Handing out an id, switching sets, writing a summary and migrating files
leave the ledger as it is.
-/

namespace Marginalia

open Header (IsPath IsKey IsValue)
open Session (recordPlace cursorPlace)

/-! ## Folders of sets -/

namespace Session

variable {s : Session} {home : Path} {set : Option Text} {p : Path} {t t' : Tree}

theorem requireFolder_eq (hs : s.folder? = some home) (operation : Text) :
    s.requireFolder operation = .ok home := by
  unfold folder? at hs
  obtain ⟨root, hroot, rfl⟩ := Option.map_eq_some_iff.mp hs
  simp [requireFolder, requireRoot, hroot, Except.map]

theorem requireFolder_of_none (hs : s.folder? = none) (operation : Text) :
    s.requireFolder operation = .error (.noWorkspace operation) := by
  rw [folder?, Option.map_eq_none_iff] at hs
  simp [requireFolder, requireRoot, hs, Except.map]

/-- The folder of a set that is named is the one of the name that the checks give. -/
theorem setFolder_some (hs : s.folder? = some home) {name : Text} (hname : name ≠ []) :
    s.setFolder (some name) =
      ((SetName.sanitize (some name)).mapError .setName).map home.child := by
  obtain ⟨c, r, rfl⟩ := List.exists_cons_of_ne_nil hname
  unfold setFolder
  cases hn : SetName.sanitize (some (c :: r)) with
  | error f => simp only [hn, Except.mapError, bind, Except.bind, Except.map]
  | ok n =>
    obtain ⟨h0, hd, -, hslash⟩ := SetName.sanitize_eq_ok hn
    have hempty : n.isEmpty = false := by simpa using h0
    simp only [hn, Except.mapError, bind, Except.bind, pure, Except.pure, requireFolder_eq hs,
      hempty, Bool.false_eq_true, if_false, home.join_name h0 hd hslash, Except.map]

/-- The folder of a set is one folder below the folder of sets. -/
theorem setFolder_eq_ok (hs : s.folder? = some home) (hset : IsSetName s.activeSet)
    (h : s.setFolder set = .ok p) : ∃ name, name ≠ Path.above ∧ p = home.child name := by
  have hactive : s.setFolder none = .ok p → ∃ name, name ≠ Path.above ∧ p = home.child name := by
    rw [setFolder_none hs hset]
    intro e
    cases e
    exact ⟨_, hset.not_above, rfl⟩
  match set with
  | none => exact hactive h
  | some [] => exact hactive h
  | some (c :: r) =>
    rw [setFolder_some hs (List.cons_ne_nil c r)] at h
    cases hn : SetName.sanitize (some (c :: r)) with
    | error f =>
      rw [hn] at h
      cases h
    | ok name =>
      rw [hn] at h
      exact ⟨name, (SetName.sanitize_eq_ok hn).2.2.1, (Except.ok.inj h).symm⟩

/-! ## Switches -/

theorem run_switching_of_error {name : Option Text} {f : SetName.Fault}
    (hn : SetName.sanitize name = .error f) (a : Sitting) :
    (switching name).run a = (.error (.setName f), a) := by
  unfold switching
  rw [hn, Except.mapError, Work.run_bind_of_error (Acting.run_ofExcept ..)]

theorem run_switching_of_none {name : Option Text} {n : Text} {a : Sitting}
    (hn : SetName.sanitize name = .ok n) (hs : a.session.folder? = none) :
    (switching name).run a = (.error (.noWorkspace "switch_set".toList), a) := by
  unfold switching
  rw [hn, Except.mapError, Work.run_bind_of_ok (Acting.run_ofExcept ..),
    Work.run_bind_of_ok (Work.run_get _), requireFolder_of_none hs,
    Work.run_bind_of_error (Acting.run_ofExcept ..)]

/-- What a switch to a name that is let through comes to: the folder is made first. -/
theorem run_switching {name : Option Text} {n : Text} {a : Sitting}
    (hs : a.session.folder? = some home) (hn : SetName.sanitize name = .ok n) :
    (switching name).run a = match (a.tree.makeFolders (home.child n)).2 with
      | none => (.ok n, ⟨{ a.session with activeSet := n }, (a.tree.makeFolders (home.child n)).1⟩)
      | some f => (.error (.disk f), { a with tree := (a.tree.makeFolders (home.child n)).1 }) := by
  obtain ⟨h0, hd, -, hslash⟩ := SetName.sanitize_eq_ok hn
  unfold switching
  rw [hn, Except.mapError, Work.run_bind_of_ok (Acting.run_ofExcept ..),
    Work.run_bind_of_ok (Work.run_get _), requireFolder_eq hs,
    Work.run_bind_of_ok (Acting.run_ofExcept ..), home.join_name h0 hd hslash, Work.run_bind,
    Acting.run_onTree, Work.run_makeFolders]
  cases (a.tree.makeFolders (home.child n)).2 <;> rfl

theorem run_switchSet_of_error {name : Option Text} {f : SetName.Fault}
    (hn : SetName.sanitize name = .error f) (t : Tree) :
    (s.switchSet name).run t = (.error (.setName f), t) := by
  rw [switchSet, Acting.run_outcome, run_switching_of_error hn]
  rfl

theorem run_switchSet (hs : s.folder? = some home) {name : Option Text} {n : Text}
    (hn : SetName.sanitize name = .ok n) (t : Tree) :
    (s.switchSet name).run t = match (t.makeFolders (home.child n)).2 with
      | none => (.ok { s with activeSet := n }, (t.makeFolders (home.child n)).1)
      | some f => (.error (.disk f), (t.makeFolders (home.child n)).1) := by
  rw [switchSet, Acting.run_outcome, run_switching (a := ⟨s, t⟩) hs hn]
  cases (t.makeFolders (home.child n)).2 <;> rfl

/-- A switch that succeeds has let the name through and made its folder. -/
theorem switchSet_eq_ok {name : Option Text} {s' : Session}
    (h : (s.switchSet name).run t = (.ok s', t')) : ∃ home n, s.folder? = some home ∧
      SetName.sanitize name = .ok n ∧ t.makeFolders (home.child n) = (t', none) ∧
      s' = { s with activeSet := n } := by
  cases hn : SetName.sanitize name with
  | error f =>
    rw [run_switchSet_of_error hn] at h
    cases h
  | ok n =>
    cases hs : s.folder? with
    | none =>
      rw [switchSet, Acting.run_outcome, run_switching_of_none (a := ⟨s, t⟩) hn hs] at h
      cases h
    | some home =>
      rw [run_switchSet hs hn] at h
      cases hmade : (t.makeFolders (home.child n)).2 with
      | some f =>
        rw [hmade] at h
        cases h
      | none =>
        rw [hmade] at h
        cases h
        exact ⟨home, n, rfl, rfl, Prod.ext rfl hmade, rfl⟩

/-- What an activation comes to: the folder of the default set is made first. -/
theorem activate_eq (s : Session) (name : Option Text) :
    s.activate name = (match s.root with
      | none => pure s
      | some _ => do
        let _ ← s.ensureSet (some defaultSet)
        match name with
        | none | some [] => pure s
        | some name => s.switchSet (some name)) := by
  refine Work.ext fun t => ?_
  rw [activate, Acting.run_outcome]
  unfold activating
  simp only [Work.run_bind_of_ok (Work.run_get _)]
  cases hroot : s.root with
  | none => rfl
  | some root =>
    simp only [Work.run_bind_of_ok (Work.run_get _), Work.run_bind, Acting.run_onTree]
    rcases (s.ensureSet (some defaultSet)).run t with ⟨_ | p, t₁⟩
    · rfl
    · rcases name with _ | _ | ⟨c, r⟩
      · rfl
      · rfl
      · show _ = ((switching (some (c :: r))).outcome s).run t₁
        rw [Acting.run_outcome]
        simp only [Work.run_bind]
        rcases (switching (some (c :: r))).run ⟨s, t₁⟩ with ⟨_ | n, a⟩ <;> rfl

/-- Switching sets makes folders, and the new active set is one that can be had. -/
theorem switchSet_spec (hs : s.folder? = some home) (hw : t.WellFormed) {name : Option Text}
    {r : Except Fault Session} (h : (s.switchSet name).run t = (r, t')) :
    t'.WellFormed ∧ Tree.MoreFolders t t' ∧
      ∀ s', r = .ok s' → ∃ n, IsSetName n ∧ s' = { s with activeSet := n } := by
  cases hn : SetName.sanitize name with
  | error f =>
    rw [run_switchSet_of_error hn] at h
    cases h
    exact ⟨hw, .refl t, fun _ e => by cases e⟩
  | ok n =>
    obtain ⟨h0, hd, habove, hslash⟩ := SetName.sanitize_eq_ok hn
    obtain ⟨hw', hadds⟩ := Tree.makeFolders_adds hw (home.child n)
    rw [run_switchSet hs hn] at h
    cases hmade : (t.makeFolders (home.child n)).2 with
    | some f =>
      rw [hmade] at h
      cases h
      exact ⟨hw', hadds.more, fun _ e => by cases e⟩
    | none =>
      rw [hmade] at h
      cases h
      refine ⟨hw', hadds.more, fun s' e => ?_⟩
      cases e
      obtain ⟨-, hfold⟩ := Tree.makeFolders_ok hw hmade
      rw [lead_child _ habove] at hfold
      exact ⟨n, ⟨(hw'.canHold hfold).isName, h0, hd, hslash⟩, rfl⟩

/-- A session serves a workspace from the start and after every switch of sets. -/
theorem serves_default {config : Config} (root : Path) (h : config.folder = ".cms".toList) :
    ({ root := some root, config } : Session).Serves root config := by
  have hset : IsSetName defaultSet :=
    ⟨⟨by decide, by decide, by decide⟩, by decide, by decide, by decide⟩
  exact ⟨h, hset, rfl, rfl⟩

theorem Serves.switchSet {config : Config} {root : Path} {name : Option Text} {s' : Session}
    (hs : s.Serves root config) (hw : t.WellFormed)
    (h : (s.switchSet name).run t = (.ok s', t')) : s'.Serves root config := by
  obtain ⟨-, -, hactive⟩ := switchSet_spec hs.folder? hw h
  obtain ⟨n, hn, rfl⟩ := hactive s' rfl
  exact ⟨hs.folder, hn, hs.config, hs.root⟩

/-- The entries of a summary are read, only the folder of the set is made. -/
theorem summary_spec (hw : t.WellFormed) {now : Int} {r : Except Fault Summary}
    (h : (s.summary now set).run t = (r, t')) : t'.WellFormed ∧ Tree.MoreFolders t t' ∧
      ∀ sm, r = .ok sm → ∃ folder found, s.setFolder (some sm.set) = .ok folder ∧
        s.scanSet t' (some sm.set) = .ok found ∧
        (found.mapM fun f => s.entry t' folder f.1 f.2) = .ok sm.entries := by
  obtain ⟨name, hname⟩ : ∃ name : Text, s.summary now set =
      (s.ensureSet (some name) >>= fun folder =>
        Work.inspect (fun t => s.scanSet t (some name)) >>= fun found =>
          Work.inspect (fun t =>
            found.mapM fun f => s.entry t folder f.1 f.2) >>= fun entries =>
              pure { set := name, generated := Time.stamp now, entries }) := ⟨_, rfl⟩
  rw [hname] at h
  rcases hset : (s.ensureSet (some name)).run t with ⟨r₁, t₁⟩
  obtain ⟨hw', hmore, hfolder⟩ := ensureSet_spec hw hset
  cases r₁ with
  | error f =>
    rw [Work.run_bind_of_error hset] at h
    cases h
    exact ⟨hw', hmore, nofun⟩
  | ok folder =>
    rw [Work.run_bind_of_ok hset] at h
    cases hscan : s.scanSet t₁ (some name) with
    | error f =>
      rw [Work.run_bind_of_error (by rw [Work.run_inspect, hscan])] at h
      cases h
      exact ⟨hw', hmore, nofun⟩
    | ok found =>
      rw [Work.run_bind_of_ok (by rw [Work.run_inspect, hscan])] at h
      cases hentries : found.mapM fun f => s.entry t₁ folder f.1 f.2 with
      | error f =>
        rw [Work.run_bind_of_error (by rw [Work.run_inspect, hentries])] at h
        cases h
        exact ⟨hw', hmore, nofun⟩
      | ok entries =>
        rw [Work.run_bind_of_ok (by rw [Work.run_inspect, hentries])] at h
        cases h
        refine ⟨hw', hmore, fun sm hsm => ?_⟩
        cases hsm
        exact ⟨folder, found, (hfolder folder rfl).1, hscan, hentries⟩

/-- Writing a summary fails with no file written, or writes the summary that is built. -/
theorem summarize_cases {now : Int} {format : SummaryFormat} {r : Except Fault Path}
    (h : (s.summarize now set format).run t = (r, t')) :
    (∃ f, r = .error f ∧ (t' = t ∨ ∃ r₁, (s.summary now set).run t = (r₁, t'))) ∨
      ∃ sm t₁ text folder l, (s.summary now set).run t = (.ok sm, t₁) ∧
        format.render sm = .ok text ∧
        s.setFolder (some sm.set) = .ok folder ∧ r = .ok (folder.child format.fileName) ∧
        t₁.resolve (folder.child format.fileName) = .ok l ∧ t₁.node? l ≠ some .folder ∧
        t' = t₁.insert l (.file (.text text)) := by
  unfold summarize at h
  cases hroot : s.requireRoot "summarize_set".toList with
  | error f =>
    rw [Work.run_bind_of_error (by rw [Work.run_ofExcept, hroot])] at h
    obtain ⟨rfl, rfl⟩ := Prod.mk.inj h
    exact .inl ⟨f, rfl, .inl rfl⟩
  | ok root =>
    rw [Work.run_bind_of_ok (by rw [Work.run_ofExcept, hroot])] at h
    rcases hsum : (s.summary now set).run t with ⟨r₁, t₁⟩
    cases r₁ with
    | error f =>
      rw [Work.run_bind_of_error hsum] at h
      obtain ⟨rfl, rfl⟩ := Prod.mk.inj h
      exact .inl ⟨f, rfl, .inr ⟨_, rfl⟩⟩
    | ok sm =>
      rw [Work.run_bind_of_ok hsum] at h
      cases htext : format.render sm with
      | error f =>
        rw [Work.run_bind_of_error (by rw [Work.run_ofExcept, htext])] at h
        obtain ⟨rfl, rfl⟩ := Prod.mk.inj h
        exact .inl ⟨f, rfl, .inr ⟨_, rfl⟩⟩
      | ok text =>
        rw [Work.run_bind_of_ok (by rw [Work.run_ofExcept, htext])] at h
        cases hfolder : s.setFolder (some sm.set) with
        | error f =>
          rw [Work.run_bind_of_error (by rw [Work.run_ofExcept, hfolder])] at h
          obtain ⟨rfl, rfl⟩ := Prod.mk.inj h
          exact .inl ⟨f, rfl, .inr ⟨_, rfl⟩⟩
        | ok folder =>
          rw [Work.run_bind_of_ok (by rw [Work.run_ofExcept, hfolder])] at h
          simp only [] at h
          rw [Work.run_bind, Work.run_change] at h
          cases hwrite : t₁.write (folder.child format.fileName) text with
          | error f =>
            rw [hwrite] at h
            obtain ⟨rfl, rfl⟩ := Prod.mk.inj h
            exact .inl ⟨_, rfl, .inr ⟨_, rfl⟩⟩
          | ok u =>
            rw [hwrite] at h
            obtain ⟨rfl, rfl⟩ := Prod.mk.inj h
            obtain ⟨l, hl, -, hfile, rfl⟩ := Tree.write_eq_ok hwrite
            exact .inr ⟨sm, t₁, text, folder, l, rfl, htext, hfolder, rfl, hl, hfile, rfl⟩

end Session

/-! ## New records -/

theorem isKey_createdKey : IsKey Header.createdKey where
  start := ⟨'c', _, rfl, by decide⟩
  chars := List.all_eq_true.mp (by decide)
  oneLine := by decide
  not_refs := by decide

theorem isKey_categoryKey : IsKey Header.categoryKey where
  start := ⟨'c', _, rfl, by decide⟩
  chars := List.all_eq_true.mp (by decide)
  oneLine := by decide
  not_refs := by decide

theorem Time.mem_padded {c : Char} {width n : Nat} (h : c ∈ padded width n) :
    isAsciiDigit c = true := by
  rcases List.mem_append.mp h with h | h
  · rw [(List.mem_replicate.mp h).2]
    rfl
  · exact Numeral.isAsciiDigit_of_mem_ofNat h

theorem Time.mem_stamp {c : Char} {moment : Int} (h : c ∈ stamp moment) :
    isAsciiDigit c = true ∨ c ∈ ['-', 'T', ':', '.', 'Z'] := by
  simp only [stamp, Date.text, clockText, List.mem_append, List.mem_cons, List.not_mem_nil,
    or_false] at h ⊢
  rcases h with ((((h | rfl | h) | rfl | h) | rfl | (h | rfl | h) | rfl | h) | rfl | h) | rfl
  all_goals first | exact .inl (mem_padded h) | simp

theorem isValue_stamp (moment : Int) : IsValue (Time.stamp moment) := by
  refine isValue_of_plain fun c hc => ?_
  rcases Time.mem_stamp hc with hd | hm
  · exact ⟨isAsciiDigit_not_blank hd, isAsciiDigit_not_lineEnd hd⟩
  · simp only [List.mem_cons, List.not_mem_nil, or_false] at hm
    rcases hm with rfl | rfl | rfl | rfl | rfl <;> exact ⟨by decide, by decide⟩

/-- A new record is readable when the default category is a value that a field can have. -/
theorem readable_fresh {config : Config} (hvalue : IsValue config.defaultCategory) (now : Int)
    {id : Text} (hid : isId id = true) : (Page.fresh config now id).header.Readable := by
  refine ⟨?_, List.Pairwise.nil, by simp [Page.fresh], by simp [Page.fresh], by simp [Page.fresh],
    by simp [Page.fresh]⟩
  intro f hf
  simp only [Page.fresh, List.mem_cons, List.not_mem_nil, or_false] at hf
  rcases hf with rfl | rfl | rfl
  · exact ⟨isKey_idKey, isValue_of_digits (digits_of_isId hid)⟩
  · exact ⟨isKey_createdKey, isValue_stamp now⟩
  · exact ⟨isKey_categoryKey, hvalue⟩

/-- A new record shows that it has no counts and no body. -/
theorem Shows.fresh {config : Config} (hlabel : IsLabel config.defaultCategory) (now : Int)
    {id : Text} (hid : isId id = true) (path : Path) :
    Shows config.defaultCategory id { path, created := Time.stamp now }
      (Page.fresh config now id).render := by
  have hvalue := IsValue.of_line hlabel.trimmed hlabel.oneLine
  exact Shows.of_render (e := { path, created := Time.stamp now }) (readable_fresh hvalue now hid) rfl
    (show '\r' ∉ ([] : Text) by simp)

/-- The cursor can be read and its value has at most as many digits as an id. -/
def CursorShort (root : Path) (t : Tree) : Prop :=
  ∃ n, cursorAt t root.home = .ok n ∧ n < 10 ^ maxIdLength

theorem CursorShort.of_extends {root : Path} {t t' : Tree} (hext : Tree.Extends t t')
    (h : CursorShort root t') : CursorShort root t := by
  obtain ⟨n, hn, hlt⟩ := h
  rcases cursorAt_of_same (fun _ => hext.readText) hn with hn | hn
  · exact ⟨n, hn, hlt⟩
  · exact ⟨0, hn, by decide⟩

/-- The ledger after work that may have made the record of a marker. -/
def Ledger.bound (L : Ledger) (now : Int) (r : Except Fault (Option Bound)) : Ledger :=
  match r with
  | .ok (some b) =>
    if b.created then L.put b.id { path := b.path, created := Time.stamp now } else L
  | _ => L

namespace Ledger.Matches

variable {config : Config} {label : Text} {root : Path} {t t' : Tree} {L : Ledger} {s : Session}
variable {id : Text} {now : Int}

/-! ## Ids -/

/-- The cursor file and summaries are none of the ledger's. -/
theorem insert_spare (h : L.Matches label root t) {rest : List Name} (hspare : IsSpare rest)
    {n : Node} (hw : (t.insert (lead [] root.home.parts ++ rest) n).WellFormed)
    (hfree : t.node? (lead [] root.home.parts ++ rest) ≠ some .folder) :
    L.Matches label root (t.insert (lead [] root.home.parts ++ rest) n) :=
  h.frame hw ((Tree.foldersStay_insert t n hfree).resolve h.reach) fun rest' => by
    by_cases hr : rest' = rest
    · exact .inr (.inl (hr ▸ hspare))
    · exact .inl (Tree.node?_insert_of_ne t (fun e => hr (List.append_cancel_left e)) n)

theorem advance (h : L.Matches label root t) {n : Nat} (hadv : Session.Advanced root.home t n t') :
    L.Matches label root t' := by
  obtain ⟨hw, hadds⟩ := Tree.makeFolders_adds h.wellFormed root.home
  have hw' := hadv.wellFormed h.wellFormed
  rw [hadv.eq] at hw' ⊢
  exact (h.more hw hadds.more).insert_spare (.inl rfl) hw' hadv.noFolder

/-- An id that is handed out is new to the ledger. -/
theorem allocate (h : L.Matches label root t) (hfits : Tree.Fits root.home 512)
    (hs : s.folder? = some root.home) {r : Except Fault Text}
    (hrun : s.allocate.run t = (r, t')) :
    L.Matches label root t' ∧
      ∀ id, r = .ok id → CursorShort root t' → isId id = true ∧ L id = none := by
  rcases Session.allocate_cases h.wellFormed hrun with
    ⟨e, rfl, hw, hmore⟩ | ⟨home, start, n, hs', -, -, hn, hfree, hadv, rfl⟩
  · exact ⟨h.more hw hmore, fun _ he => by cases he⟩
  · cases hs.symm.trans hs'
    refine ⟨h.advance hadv, fun id he hcursor => ?_⟩
    cases he
    obtain ⟨m, hm, hlt⟩ := hcursor
    have hnext := cursorAt_of_readText hadv.readText hm
    have hid : isId (Numeral.ofNat n) = true := isId_ofNat_iff.mpr (by omega)
    obtain ⟨p, hp, hnone⟩ := Session.hasFragment_eq_ok_iff.mp hfree
    rw [h.locate hfits hs hid] at hp
    cases hp
    exact ⟨hid, by simpa using hnone⟩

/-! ## Records of markers -/

/-- A record that is made enters the ledger; none is made where there is one. -/
theorem ensure (h : L.Matches config.defaultCategory root t) (hs : s.Serves root config)
    (hlabel : IsLabel config.defaultCategory) (hid : isId id = true) (hnew : L id = none)
    {set : Option Text} {r : Except Fault Created} (hrun : (s.ensure now set id).run t = (r, t')) :
    (∀ f, r = .error f → L.Matches config.defaultCategory root t') ∧
      ∀ m line, r = .ok m →
        (L.bound now (.ok (some ⟨id, m.path, m.created, line⟩))).Matches
          config.defaultCategory root t' := by
  obtain ⟨hw', herror, hok⟩ := Session.ensure_spec h.wellFormed hrun
  refine ⟨fun f hf => h.more hw' (herror f hf), fun m line hm => ?_⟩
  obtain ⟨p, hp, hmade, hpath, hcases⟩ := hok m hm
  obtain ⟨hw, hadds⟩ := Tree.makeFolders_adds h.wellFormed p
  have hmid := h.more hw hadds.more
  unfold Ledger.bound
  rcases hcases with ⟨hcreated, l, hl, -, hnone, rfl⟩ | ⟨hcreated, -, rfl⟩
  · obtain ⟨name, habove, rfl⟩ := Session.setFolder_eq_ok hs.folder? hs.set hp
    rw [Path.fragment_eq_child _ (digits_of_isId hid)] at hpath
    have hplace : l = recordPlace root.home name id := by
      rw [Tree.resolve_eq_lead hl, hpath, recordPlace_eq habove]
      rfl
    subst hplace
    have hsame : ∀ e₀, L id = some e₀ → e₀.path = m.path := fun e₀ he₀ => by
      rw [hnew] at he₀
      cases he₀
    simp only [hcreated, if_true]
    rw [hs.config]
    exact hmid.put hid (hw.resolve_canHold hl) (by simp [hnone]) hpath hsame
      (Shows.fresh hlabel now hid m.path)
  · simp only [hcreated, Bool.false_eq_true, if_false]
    exact hmid

/-- Whatever binding a marker comes to, the ledger has a new entry when a record was made. -/
theorem binds (h : L.Matches config.defaultCategory root t) (hfits : Tree.Fits root.home 512)
    (hs : s.Serves root config) (hlabel : IsLabel config.defaultCategory) {d d' : Desk}
    (hd : d.tree = t) {r : Except Fault (Option Bound)} (hrun : Session.Binds s now d r d')
    (hcursor : CursorShort root d'.tree) :
    (L.bound now r).Matches config.defaultCategory root d'.tree ∧
      ∀ b, r = .ok (some b) → b.created = true → L b.id = none := by
  subst hd
  have hold {r : Except Fault (Option Bound)} (hr : ∀ b, r ≠ .ok (some b)) : L.bound now r = L := by
    unfold Ledger.bound
    split
    · exact absurd rfl (hr _)
    · rfl
  -- Once an id is handed out, the edit leaves the tree alone.
  have hissued {id : Text} {e : Edit} {d₁ d₂ : Desk} {r₁ : Except Fault Bool}
      (hid : (Editing.onTree s.allocate).run d = (.ok id, d₁))
      (hedit : (Editing.apply s.mute e).run d₁ = (r₁, d₂)) :
      L.Matches config.defaultCategory root d₂.tree ∧
        (CursorShort root d₂.tree → isId id = true ∧ L id = none) := by
    obtain ⟨h₁, hnew⟩ := h.allocate hfits hs.folder? (Editing.onTree_eq hid).1
    rw [Editing.apply_tree hedit]
    exact ⟨h₁, hnew id rfl⟩
  cases hrun with
  | idle hr => exact ⟨(hold hr).symm ▸ h, fun b hb => absurd hb (hr b)⟩
  | refused hid => exact ⟨(h.allocate hfits hs.folder? (Editing.onTree_eq hid).1).1, nofun⟩
  | unedited hid hedit hr =>
    exact ⟨(hold hr).symm ▸ (hissued hid hedit).1, fun b hb => absurd hb (hr b)⟩
  | unrecorded hid hedit hmade =>
    obtain ⟨h₂, hnew⟩ := hissued hid hedit
    have hensure := (Editing.onTree_eq hmade).1
    obtain ⟨hid', hnone⟩ :=
      hnew (hcursor.of_extends (Session.ensure_extends h₂.wellFormed hensure))
    exact ⟨(h₂.ensure hs hlabel hid' hnone hensure).1 _ rfl, nofun⟩
  | recorded hid hedit hmade =>
    obtain ⟨h₂, hnew⟩ := hissued hid hedit
    have hensure := (Editing.onTree_eq hmade).1
    obtain ⟨hid', hnone⟩ :=
      hnew (hcursor.of_extends (Session.ensure_extends h₂.wellFormed hensure))
    refine ⟨(h₂.ensure hs hlabel hid' hnone hensure).2 _ _ rfl, fun b hb _ => ?_⟩
    cases hb
    exact hnone

theorem openAtLine (h : L.Matches config.defaultCategory root t) (hfits : Tree.Fits root.home 512)
    (hs : s.Serves root config) (hlabel : IsLabel config.defaultCategory) {line : Int}
    {d d' : Desk} (hd : d.tree = t) {r : Except Fault (Option Bound)}
    (hrun : (s.openAtLine now line).run d = (r, d')) (hcursor : CursorShort root d'.tree) :
    (L.bound now r).Matches config.defaultCategory root d'.tree ∧
      ∀ b, r = .ok (some b) → b.created = true → L b.id = none := by
  rcases Session.openAtLine_cases hrun with
    hbinds | ⟨-, -, b, path, -, -, -, rfl, rfl⟩ | ⟨text, m, b, r₁, hm, hb, hnone, hmade, rfl⟩
  · exact h.binds hfits hs hlabel hd hbinds hcursor
  · refine ⟨?_, fun b' hb' hc => ?_⟩
    · simp only [Ledger.bound, Bool.false_eq_true, if_false]
      exact hd ▸ h
    · cases hb'
      cases hc
  · subst hd
    have hid := Marker.isId_of_scan hm hb
    rw [h.locate hfits hs.folder? hid, Except.ok.injEq, Option.map_eq_none_iff] at hnone
    have hensure := h.ensure hs hlabel hid hnone (Editing.onTree_eq hmade).1
    cases r₁ with
    | error f => exact ⟨hensure.1 f rfl, nofun⟩
    | ok made =>
      refine ⟨hensure.2 made text rfl, fun b' hb' _ => ?_⟩
      cases hb'
      exact hnone

/-! ## Work that makes no records -/

theorem switchSet (h : L.Matches label root t) (hs : s.folder? = some root.home)
    {name : Option Text} {r : Except Fault Session} (hrun : (s.switchSet name).run t = (r, t')) :
    L.Matches label root t' := by
  obtain ⟨hw, hmore, -⟩ := Session.switchSet_spec hs h.wellFormed hrun
  exact h.more hw hmore

theorem summarize (h : L.Matches label root t) (hs : s.folder? = some root.home)
    (hset : IsSetName s.activeSet) {set : Option Text} {format : SummaryFormat}
    {r : Except Fault Path} (hrun : (s.summarize now set format).run t = (r, t')) :
    L.Matches label root t' := by
  have hmid : ∀ {r₁ t₁}, (s.summary now set).run t = (r₁, t₁) → L.Matches label root t₁ := by
    intro r₁ t₁ hsum
    obtain ⟨hw, hmore, -⟩ := Session.summary_spec h.wellFormed hsum
    exact h.more hw hmore
  rcases Session.summarize_cases hrun with
    ⟨f, -, rfl | ⟨r₁, hsum⟩⟩ | ⟨sm, t₁, text, folder, l, hsum, -, hfolder, -, hl, hfree, rfl⟩
  · exact h
  · exact hmid hsum
  · obtain ⟨name, habove, rfl⟩ := Session.setFolder_eq_ok hs hset hfolder
    have hfile : format.fileName ≠ Path.above := by cases format <;> decide
    have hplace : l = lead [] root.home.parts ++ [name, format.fileName] := by
      rw [Tree.resolve_eq_lead hl, lead_child _ hfile, lead_child _ habove]
      simp
    have hw := (hmid hsum).wellFormed.insert_file hl hfree (.text text)
    subst hplace
    exact (hmid hsum).insert_spare (.inr ⟨name, format, rfl⟩) hw hfree

theorem migrate (h : L.Matches label root t) (hs : s.Serves root config) (levels : Nat)
    (dryRun : Bool) : L.Matches label root ((s.migrate levels root dryRun).run t).2 := by
  obtain ⟨hwell, hkinds⟩ := Session.run_migrate_kinds h.wellFormed s levels root dryRun
  refine h.frame hwell ((hkinds.resolve_eq _).trans h.reach) fun rest => .inl ?_
  rw [Session.run_migrate h.wellFormed]
  cases dryRun with
  | true => rfl
  | false =>
    refine Tree.node?_rewriteFiles_of_not_mem fun hk => ?_
    obtain ⟨w, hw, hwrest⟩ := List.mem_map.mp hk
    obtain ⟨l, text, hscan, -, rfl⟩ := Session.of_mem_migrationWrites h.wellFormed hw
    have hplace : lead [] root.parts ++ l = lead [] root.home.parts ++ rest := hwrest
    have hl : l = ".cms".toList :: rest := by
      rw [lead_home, List.append_assoc] at hplace
      exact List.append_cancel_left hplace
    cases rest with
    | nil =>
      -- The folder of sets is no file.
      obtain ⟨c, hn, -⟩ := hscan.file
      rw [hplace] at hn
      rcases h.only [] c hn with (hk | ⟨_, _, hk⟩) | ⟨_, _, _, hk, -⟩ <;> cases hk
    | cons n rest =>
      refine (hscan.allowed ".cms".toList (by simp [hl])).2 ?_
      rw [hs.config, hs.folder]
      decide

end Ledger.Matches

end Marginalia
