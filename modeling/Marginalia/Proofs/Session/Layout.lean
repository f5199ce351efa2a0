import Marginalia.Proofs.Session.Allocation
import Marginalia.Proofs.Session.Records

/-!
# Workspaces where ids and records can be made

`LaidOut` says what a session needs of its workspace: folders or nothing on the way to its active
set, no folder in the place of the cursor file or of a record, paths that are not too long, and an
id that is free. If nothing on the way is to be a file (`Apart`), handing out an id succeeds
(`allocate_succeeds`), and so does making its record (`ensure_succeeds`).
-/

namespace Marginalia

/-- A name that the folder of a set may have. -/
structure IsSetName (n : Name) : Prop extends Tree.IsName n where
  not_empty : n ≠ []
  not_dot : n ≠ ['.']
  no_slash : '/' ∉ n

theorem join_setName (p : Path) {n : Name} (h : IsSetName n) : p.join (Path.ofText n) = p.child n :=
  p.join_name h.not_empty h.not_dot h.no_slash

namespace Session

/-- Where the cursor file of a folder of sets is. -/
def cursorPlace (home : Path) : Location := lead [] home.parts ++ [cursorName]

/-- Where the record of an id is in a set. -/
def recordPlace (home : Path) (set : Name) (id : Text) : Location :=
  lead [] home.parts ++ [set, id ++ ending]

structure LaidOut (s : Session) (home : Path) (t : Tree) : Prop where
  wellFormed : t.WellFormed
  folder : s.folder? = some home
  fits : Tree.Fits home 300
  shallow : home.parts.length < deepest
  set : IsSetName s.activeSet
  way : ∀ l ∈ visited [] (home.child s.activeSet).parts,
    t.node? l = none ∨ t.node? l = some .folder
  cursor : t.node? (cursorPlace home) ≠ some .folder
  records : ∀ id, isId id = true → t.node? (recordPlace home s.activeSet id) ≠ some .folder
  free : ∃ start v, s.nextId t = .ok start ∧ start ≤ v ∧ v < 10 ^ maxIdLength ∧
    NoFile home (Numeral.ofNat v) t

/-- Whether no folder on the way to a set is in the place of the cursor file or of a record. -/
structure Apart (home : Path) (set : Name) : Prop where
  cursor : cursorPlace home ∉ visited [] (home.child set).parts
  records : ∀ id, isId id = true → recordPlace home set id ∉ visited [] (home.child set).parts

/-- The only set that is in the way of the cursor file has its name, if no path turns back. -/
theorem Apart.of_plain {home : Path} {set : Name} (hplain : Path.above ∉ home.parts)
    (hset : set ≠ Path.above) (hname : set ≠ cursorName) : Apart home set := by
  have hparts : Path.above ∉ (home.child set).parts := by
    rw [Path.child_parts, List.mem_append, List.mem_singleton, not_or]
    exact ⟨hplain, Ne.symm hset⟩
  have hlead : lead [] home.parts = home.parts := lead_of_plain hplain
  constructor
  · intro h
    obtain ⟨m, -, hm, e⟩ := visited_of_plain hparts h
    rw [cursorPlace, hlead, Path.child_parts, List.nil_append] at e
    have hlen := congrArg List.length e
    simp only [Path.child_parts, List.length_append, List.length_take, List.length_cons,
      List.length_nil] at hlen hm
    rw [List.take_of_length_le (by simp; omega)] at e
    exact hname (List.singleton_inj.mp (List.append_cancel_left e)).symm
  · intro id _ h
    obtain ⟨m, -, hm, e⟩ := visited_of_plain hparts h
    rw [recordPlace, hlead, Path.child_parts, List.nil_append] at e
    have hlen := congrArg List.length e
    simp only [List.length_append, List.length_take, List.length_cons, List.length_nil] at hlen
    omega

theorem setFolder_none {s : Session} {home : Path} (hs : s.folder? = some home)
    (hset : IsSetName s.activeSet) : s.setFolder none = .ok (home.child s.activeSet) := by
  have hempty : s.activeSet.isEmpty = false := by
    cases h : s.activeSet with
    | nil => exact absurd h hset.not_empty
    | cons c r => rfl
  unfold folder? at hs
  cases hroot : s.root with
  | none => simp [hroot] at hs
  | some root =>
    simp only [hroot, Option.map_some, Option.some.injEq] at hs
    have hfolder : s.requireFolder "set_dir".toList = .ok home := by
      simp [requireFolder, requireRoot, hroot, Except.map, hs]
    simp only [setFolder, bind, Except.bind, pure, Except.pure, hfolder, hempty,
      Bool.false_eq_true, if_false, join_setName home hset]

/-- A workspace is laid out where the folder of sets is not made yet. -/
theorem LaidOut.of_fresh {s : Session} {home : Path} {t : Tree} (hw : t.WellFormed)
    (hs : s.folder? = some home) (hplain : Path.above ∉ home.parts) (hfits : Tree.Fits home 300)
    (hshallow : home.parts.length < deepest) (hset : IsSetName s.activeSet)
    (hway : ∀ l ∈ visited [] home.parts, t.node? l = none ∨ t.node? l = some .folder)
    (hnone : t.node? home.parts = none) : LaidOut s home t := by
  have hlead : lead [] home.parts = home.parts := lead_of_plain hplain
  have hbelow : ∀ rest, rest ≠ [] → t.node? (home.parts ++ rest) = none :=
    fun rest hr => hw.none_below (by rw [hnone]; simp) rest hr
  have hname : Tree.IsName cursorName := by decide
  have hcursor : cursorAt t home = .ok 0 := by
    cases hr : t.readText (home.child cursorName) with
    | error f => exact cursorAt_of_unread (by
        have := hname.no_nul
        simp [Path.hasNul_child, hfits.no_nul, this]) hr
    | ok text =>
      obtain ⟨l, c, hl, hn⟩ := Tree.node_of_readText hr
      rw [Tree.resolve_eq_lead hl, Path.child_parts, lead_append, hlead,
        lead_of_plain (by decide), hbelow _ (by simp)] at hn
      cases hn
  refine ⟨hw, hs, hfits, hshallow, hset, fun l hl => ?_, ?_, fun id _ => ?_,
    0, 0, by rw [nextId_eq hs, hcursor], Nat.le_refl 0, by decide, fun c => ⟨?_, fun name => ?_⟩⟩
  · rw [Path.child_parts, visited_append, hlead, List.mem_append] at hl
    rcases hl with hl | hl
    · exact hway l hl
    · rw [visited, if_neg hset.not_above] at hl
      obtain rfl := List.mem_singleton.mp hl
      exact .inl (hbelow _ (by simp))
  · rw [cursorPlace, hlead, hbelow _ (by simp)]
    simp
  · rw [recordPlace, hlead, hbelow _ (by simp)]
    simp
  · rw [hlead, hbelow _ (by simp)]
    simp
  · rw [hlead, hbelow _ (by simp)]
    simp

/-! ## Handing out an id -/

section

variable {s : Session} {home : Path} {t : Tree}

theorem LaidOut.way_home (h : LaidOut s home t) :
    ∀ l ∈ visited [] home.parts, t.node? l = none ∨ t.node? l = some .folder := by
  intro l hl
  refine h.way l ?_
  rw [Path.child_parts, visited_append, List.mem_append]
  exact .inl hl

/-- The cursor can be set where the way to it is free. -/
theorem exists_advanced (hw : t.WellFormed) (hfits : Tree.Fits home 300)
    (hshallow : home.parts.length < deepest)
    (hway : ∀ l ∈ visited [] home.parts, t.node? l = none ∨ t.node? l = some .folder)
    (hout : cursorPlace home ∉ visited [] home.parts)
    (hcursor : t.node? (cursorPlace home) ≠ some .folder) (n : Nat) :
    ∃ t', Advanced home t n t' := by
  have hmade := Tree.makeFolders_succeeds hfits (Nat.le_of_lt hshallow) hway
  obtain ⟨hr, hfold⟩ := Tree.makeFolders_ok hw hmade
  obtain ⟨-, hadd⟩ := Tree.makeFolders_adds hw home
  have hname : Tree.IsName cursorName := by decide
  refine ⟨_, hmade, hfits.resolve_child (j := 0) hname (by decide) hr hfold, ?_, rfl⟩
  have hkeep := hadd.of_not_mem hout
  rw [cursorPlace] at hkeep
  rw [hkeep]
  exact hcursor

/-- Handing out an id succeeds where a number is free and the cursor can be set. -/
theorem allocate_of_free (hw : t.WellFormed) (hs : s.folder? = some home)
    (hfits : Tree.Fits home 300) {start v : Nat} (hstart : s.nextId t = .ok start)
    (hle : start ≤ v) (hv : v < 10 ^ maxIdLength) (hno : NoFile home (Numeral.ofNat v) t)
    (hadvance : ∀ n, ∃ t', Advanced home t n t') :
    ∃ n t', n < 10 ^ maxIdLength ∧ s.allocate.run t = (.ok (Numeral.ofNat n), t') ∧
      Advanced home t (n + 1) t' := by
  have hlimit : 10 ^ maxIdLength ≤ 10 ^ Numeral.limit := Nat.pow_le_pow_right (by decide) (by decide)
  have htotal : ∀ k, start ≤ k → k ≤ v → ∃ b, s.hasFragment t (Numeral.ofNat k) = .ok b :=
    fun k _ hk => hasFragment_total hw hs hfits (isId_ofNat_iff.mpr (by omega))
  obtain ⟨b, hb⟩ := htotal v hle (Nat.le_refl v)
  obtain rfl := hasFragment_of_noFile hw hs
    (fun c hc => Numeral.isAsciiDigit_of_mem_ofNat hc) hno hb
  obtain ⟨n, hn, hfree⟩ := leastFree_reaches (t.entries.length + 1) hle
    (Nat.lt_of_lt_of_le hv hlimit) htotal hb
  obtain ⟨t', hadv⟩ := hadvance (n + 1)
  obtain ⟨root, hroot⟩ := requireRoot_of_folder? hs
  have hsmall : n < 10 ^ Numeral.limit := by omega
  refine ⟨n, t', by omega, ?_, hadv⟩
  unfold allocate
  rw [hroot, Work.run_bind_of_ok (Work.run_ofExcept _ _),
    Work.run_bind_of_ok (by rw [Work.run_inspect, hstart]),
    Work.run_bind_of_ok (by rw [Work.run_inspect, hfree]),
    Work.run_bind_of_ok (hadv.run_writeNextId hs), Work.run_ofExcept,
    idText_eq_ok_iff.mpr ⟨hsmall, rfl⟩]

theorem LaidOut.allocate_succeeds (h : LaidOut s home t) (hapart : Apart home s.activeSet) :
    ∃ n t', n < 10 ^ maxIdLength ∧ s.allocate.run t = (.ok (Numeral.ofNat n), t') ∧
      Advanced home t (n + 1) t' := by
  obtain ⟨start, v, hstart, hle, hv, hno⟩ := h.free
  have hout : cursorPlace home ∉ visited [] home.parts := fun hl => hapart.cursor (by
    rw [Path.child_parts, visited_append, List.mem_append]
    exact .inl hl)
  exact allocate_of_free h.wellFormed h.folder h.fits hstart hle hv hno
    (exists_advanced h.wellFormed h.fits h.shallow h.way_home hout h.cursor)

/-! ## Making its record -/

theorem visited_home {home : Path} {set : Name} {l : Location} (hl : l ∈ visited [] home.parts) :
    l ∈ visited [] (home.child set).parts := by
  rw [Path.child_parts, visited_append, List.mem_append]
  exact .inl hl

/-- What moving the cursor leaves on the way to the active set and in the place of a record. -/
theorem LaidOut.after_advance (h : LaidOut s home t) (hapart : Apart home s.activeSet) {t' : Tree}
    {n : Nat} (hadv : Advanced home t n t') :
    (∀ l ∈ visited [] (home.child s.activeSet).parts,
        t'.node? l = none ∨ t'.node? l = some .folder) ∧
      ∀ id, isId id = true → t'.node? (recordPlace home s.activeSet id) ≠ some .folder := by
  obtain ⟨-, hadd⟩ := Tree.makeFolders_adds h.wellFormed home
  have hkeep : ∀ l, l ≠ cursorPlace home → t'.node? l = (t.makeFolders home).1.node? l := by
    intro l hl
    rw [cursorPlace] at hl
    rw [hadv.eq, Tree.node?_insert_of_ne _ hl]
  constructor
  · intro l hl
    rw [hkeep l fun e => hapart.cursor (by rw [← e]; exact hl)]
    rcases hadd l with e | ⟨-, -, hf⟩
    · rw [e]
      exact h.way l hl
    · exact .inr hf
  · intro id hid
    have hne : recordPlace home s.activeSet id ≠ cursorPlace home := by
      intro e
      have := congrArg List.length e
      simp [recordPlace, cursorPlace] at this
    rw [hkeep _ hne, hadd.of_not_mem fun hl => hapart.records id hid (visited_home hl)]
    exact h.records id hid

theorem LaidOut.ensure_succeeds (h : LaidOut s home t) (hapart : Apart home s.activeSet)
    {t' : Tree} {n : Nat} (hadv : Advanced home t n t') (now : Int) {id : Text}
    (hid : isId id = true) :
    ∃ m t'' c, (s.ensure now none id).run t' = (.ok m, t'') ∧
      m.path = (home.child s.activeSet).fragment id ∧
      t''.node? (recordPlace home s.activeSet id) = some (.file c) := by
  obtain ⟨hway, hrecord⟩ := h.after_advance hapart hadv
  have hw := hadv.wellFormed h.wellFormed
  have hfits := h.fits.inside h.set.toIsName
  have hdeep : (home.child s.activeSet).parts.length ≤ deepest := by
    rw [Path.child_parts, List.length_append]
    exact h.shallow
  have hmade := Tree.makeFolders_succeeds hfits hdeep hway
  obtain ⟨hr, hfold⟩ := Tree.makeFolders_ok hw hmade
  obtain ⟨-, hadd⟩ := Tree.makeFolders_adds hw (home.child s.activeSet)
  have hplain : Path.above ∉ [s.activeSet] := fun e =>
    h.set.not_above (List.mem_singleton.mp e).symm
  have hlead : lead [] (home.child s.activeSet).parts ++ [id ++ ending] =
      recordPlace home s.activeSet id := by
    rw [Path.child_parts, lead_append, lead_of_plain hplain, recordPlace]
    simp
  have hres := hfits.resolve_record hid hr hfold
  rw [hlead, ← Path.fragment_eq_child _ (digits_of_isId hid)] at hres
  have hkeep := hadd.of_not_mem (hapart.records id hid)
  have hrun := run_makeRecord (Page.fresh s.config now id).render h.folder
    (setFolder_none h.folder h.set) hmade hres
  cases hn : t'.node? (recordPlace home s.activeSet id) with
  | none =>
    rw [hn] at hkeep
    rw [hkeep, if_neg (by simp)] at hrun
    have hne : recordPlace home s.activeSet id ≠ [] := by simp [recordPlace]
    exact ⟨_, _, _, hrun, rfl, Tree.node?_insert_self _ hne _⟩
  | some x =>
    rw [hn] at hkeep
    rw [hkeep, if_pos (by simp)] at hrun
    cases x with
    | folder => exact absurd hn (hrecord id hid)
    | file c => exact ⟨_, _, c, hrun, rfl, hkeep⟩

end

end Session

end Marginalia
