import Marginalia.Proofs.Session.Layout

/-!
# The least free number

The search starts from the number in the cursor file, zero where none can be read (`cursorAt_eq_ok`),
and stops at the least one that is no fragment's (`LeastFrom`), having passed over no more numbers
than there are files of fragments (`search_least`). The cursor can be moved beyond it exactly where
folders can be made down to the cursor file and no folder is in its place (`exists_advanced_iff`).
Then that number is handed out, and beside the cursor file no more than missing folders on the way to
it are made; everywhere else handing out an id fails (`allocate_least`).
-/

namespace Marginalia

/-- The number at the key in the object that the cursor file holds. -/
def CursorHolds (t : Tree) (home : Path) (n : Nat) : Prop :=
  ∃ text j, t.readText (home.child Session.cursorName) = .ok text ∧ Json.read text = .ok j ∧
    j.get? cursorKey = some (.integer n)

/-- A file with digits and the ending of fragment files for a name, in the folder of sets or in a
folder there. -/
def IsNumbered (home : Path) (t : Tree) (l : Location) : Prop :=
  ∃ id c, id ≠ [] ∧ (∀ d ∈ id, isAsciiDigit d = true) ∧ t.node? l = some (.file c) ∧
    (l = lead [] home.parts ++ [id ++ ending] ∨
      ∃ set, l = lead [] home.parts ++ [set, id ++ ending])

/-- The least number from `n` on that is the name of no fragment's file. -/
structure LeastFrom (home : Path) (t : Tree) (n v : Nat) : Prop where
  le : n ≤ v
  free : NoFile home (Numeral.ofNat v) t
  taken : ∀ k, n ≤ k → k < v → ¬ NoFile home (Numeral.ofNat k) t

namespace Session

/-- There are folders or nothing on the way to the cursor file, and no folder in its place. -/
structure Settable (home : Path) (t : Tree) : Prop where
  way : ∀ l ∈ visited [] home.parts, t.node? l = none ∨ t.node? l = some .folder
  apart : cursorPlace home ∉ visited [] home.parts
  place : t.node? (cursorPlace home) ≠ some .folder

variable {s : Session} {home : Path} {t t' : Tree} {id : Text} {n v : Nat}

/-! ## The number to start from -/

theorem readCursor_cases {text : Text} (h : readCursor text = .ok n) :
    (∃ j, Json.read text = .ok j ∧ j.get? cursorKey = some (.integer n)) ∨
      n = 0 ∧ ∀ j m, Json.read text = .ok j → j.get? cursorKey ≠ some (.integer (.ofNat m)) := by
  unfold readCursor at h
  split at h
  next hread =>
    cases h
    exact .inr ⟨rfl, fun j m e => by cases hread.symm.trans e⟩
  · cases h
  next j hread =>
    split at h
    next m hkey =>
      cases h
      exact .inl ⟨j, hread, hkey⟩
    next hkey =>
      cases h
      refine .inr ⟨rfl, fun j' m e => ?_⟩
      cases hread.symm.trans e
      exact hkey m

/-- The search starts from the number that the cursor file holds, and from zero if it holds none. -/
theorem cursorAt_eq_ok (h : cursorAt t home = .ok n) :
    CursorHolds t home n ∨ n = 0 ∧ ∀ m, ¬ CursorHolds t home m := by
  unfold cursorAt at h
  cases hread : t.readText (home.child cursorName) with
  | error f =>
    simp only [hread, ask, Except.mapError, tolerate, bind, Except.bind, pure, Except.pure] at h
    have hempty : ∀ m, ¬ CursorHolds t home m := by
      rintro m ⟨text, j, e, -, -⟩
      cases hread.symm.trans e
    refine .inr ⟨?_, hempty⟩
    split at h
    · cases h
    next hnone =>
      split at hnone
      · cases hnone
        exact (Except.ok.inj h).symm
      · cases hnone
  | ok text =>
    simp only [hread, ask, Except.mapError, tolerate, bind, Except.bind] at h
    rcases readCursor_cases (mapError_eq_ok_iff.mp h) with ⟨j, hj, hkey⟩ | ⟨hzero, hno⟩
    · exact .inl ⟨text, j, hread, hj, hkey⟩
    · refine .inr ⟨hzero, ?_⟩
      rintro m ⟨text', j, e, hj, hkey⟩
      cases hread.symm.trans e
      exact hno j m hj hkey

/-! ## Whether a number is taken -/

theorem isNumbered_of_taken (h : ¬ NoFile home (Numeral.ofNat n) t) :
    ∃ l, IsNumbered home t l ∧ l.getLast? = some (Numeral.ofNat n ++ ending) := by
  have hne := Numeral.ofNat_ne_nil n
  have hdigits : ∀ d ∈ Numeral.ofNat n, isAsciiDigit d = true :=
    fun d hd => Numeral.isAsciiDigit_of_mem_ofNat hd
  simp only [NoFile, not_forall, not_and_or, not_not] at h
  obtain ⟨c, hc | ⟨set, hc⟩⟩ := h
  · exact ⟨_, ⟨_, c, hne, hdigits, hc, .inl rfl⟩, List.getLast?_concat ..⟩
  · exact ⟨_, ⟨_, c, hne, hdigits, hc, .inr ⟨set, rfl⟩⟩, by simp⟩

theorem noFile_of_names (h : ∀ e ∈ t.entries, e.1.getLast? ≠ some (id ++ ending)) :
    NoFile home id t := fun _ =>
  ⟨fun hn => h _ (Tree.mem_entries (by simp) hn) (List.getLast?_concat ..),
    fun _ hn => h _ (Tree.mem_entries (by simp) hn) (by simp)⟩

/-- An id that is not located has no file, if the folder of sets is found wherever it is there. -/
theorem noFile_of_hasFragment (hw : t.WellFormed) (hs : s.folder? = some home)
    (hfits : Tree.Fits home 300)
    (hreach : t.node? (lead [] home.parts) = some .folder → t.isFolder home = .ok true)
    (hid : ∀ d ∈ id, isAsciiDigit d = true) (h : s.hasFragment t id = .ok false) :
    NoFile home id t := by
  obtain ⟨b, hb⟩ := hfits.holds t (· == .folder)
  have hfolder : t.isFolder home = .ok b := hb
  cases b with
  | true =>
    obtain ⟨l, hr, hl⟩ := Tree.isFolder_eq_true_iff.mp hfolder
    obtain rfl := Tree.resolve_eq_lead hr
    exact no_file_of_hasFragment hw hs hr hl hid h
  | false =>
    have hnone : t.node? (lead [] home.parts) ≠ some .folder := fun e => by
      cases hfolder.symm.trans (hreach e)
    intro c
    refine ⟨?_, fun name => ?_⟩
    · rw [hw.none_below hnone _ (by simp)]
      exact nofun
    · rw [hw.none_below hnone _ (by simp)]
      exact nofun

/-! ## The search -/

theorem search_least (hw : t.WellFormed) (hs : s.folder? = some home) (hfits : Tree.Fits home 300)
    (hreach : t.node? (lead [] home.parts) = some .folder → t.isFolder home = .ok true)
    (hfree : ∃ w, n ≤ w ∧ w < 10 ^ maxIdLength ∧ NoFile home (Numeral.ofNat w) t) :
    ∃ v, v < 10 ^ maxIdLength ∧ LeastFrom home t n v ∧
      ∀ files : List Location, (∀ l, IsNumbered home t l → l ∈ files) → v - n ≤ files.length ∧
        ∀ fuel, files.length < fuel → s.leastFree t fuel n = .ok v := by
  have hdigits : ∀ k, ∀ d ∈ Numeral.ofNat k, isAsciiDigit d = true :=
    fun k d hd => Numeral.isAsciiDigit_of_mem_ofNat hd
  have hlimit : 10 ^ maxIdLength ≤ 10 ^ Numeral.limit := Nat.pow_le_pow_right (by decide) (by decide)
  obtain ⟨w, hnw, hw32, hno⟩ := hfree
  have htotal : ∀ k, n ≤ k → k ≤ w → ∃ b, s.hasFragment t (Numeral.ofNat k) = .ok b :=
    fun k _ hk => hasFragment_total hw hs hfits (isId_ofNat_iff.mpr (by omega))
  obtain ⟨b, hb⟩ := htotal w hnw (Nat.le_refl w)
  obtain rfl := hasFragment_of_noFile hw hs (hdigits w) hno hb
  obtain ⟨v, hvw, hrun⟩ := leastFree_reaches (t.entries.length + 1) hnw
    (Nat.lt_of_lt_of_le hw32 hlimit) htotal hb
  obtain ⟨hnv, -, hpassed, -⟩ := leastFree_spec hrun
  obtain ⟨-, hsmall, hstop⟩ := leastFree_free hrun
  have htaken : ∀ k, n ≤ k → k < v → ¬ NoFile home (Numeral.ofNat k) t := fun k hk hkv hnone => by
    cases hasFragment_of_noFile hw hs (hdigits k) hnone (hpassed k hk hkv)
  refine ⟨v, by omega, ⟨hnv, noFile_of_hasFragment hw hs hfits hreach (hdigits v) hstop, htaken⟩,
    fun files hfiles => ?_⟩
  have hle : v - n ≤ files.length := sub_le_length fun k hk hkv => by
    obtain ⟨l, hl, hlast⟩ := isNumbered_of_taken (htaken k hk hkv)
    exact ⟨l, hfiles l hl, hlast⟩
  exact ⟨hle, fun fuel hfuel => leastFree_of_taken hnv (by omega) hpassed hsmall hstop⟩

/-! ## Moving the cursor -/

theorem exists_advanced_iff (hw : t.WellFormed) (hfits : Tree.Fits home 300)
    (hshallow : home.parts.length < deepest) :
    (∃ t', Advanced home t n t') ↔ Settable home t := by
  refine ⟨?_, fun h => exists_advanced hw hfits hshallow h.way h.apart h.place n⟩
  rintro ⟨t', hadv⟩
  obtain ⟨-, hadd⟩ := Tree.makeFolders_adds hw home
  obtain ⟨hr, hfold⟩ := Tree.makeFolders_ok hw hadv.made
  obtain ⟨-, -, hfollow⟩ := Tree.resolve_eq_ok_iff.mp hr
  have hvisited : ∀ l ∈ visited [] home.parts, (t.makeFolders home).1.node? l = some .folder :=
    fun l hl => Tree.folder_of_visited hfollow hfold hl
  refine ⟨fun l hl => ?_, fun hl => hadv.noFolder (hvisited _ hl), fun hplace => ?_⟩
  · rcases hadd l with e | ⟨-, hnone, -⟩
    · exact .inr (e ▸ hvisited l hl)
    · exact .inl hnone
  · exact hadv.noFolder (hadd.foldersStay _ hplace)

/-- Moving the cursor makes no more than missing folders on the way beside it. -/
theorem Advanced.beside (hw : t.WellFormed) (h : Advanced home t n t') {l : Location}
    (hl : l ≠ cursorPlace home) : t'.node? l = t.node? l ∨
      l ∈ visited [] home.parts ∧ t.node? l = none ∧ t'.node? l = some .folder := by
  obtain ⟨-, hadd⟩ := Tree.makeFolders_adds hw home
  have hstays := Tree.node?_insert_of_ne (t.makeFolders home).1
    (n := .file (.text (cursorText n))) hl
  rw [h.eq, ← cursorPlace, hstays]
  exact hadd l

/-! ## Handing out the least free number -/

/-- Handing out an id takes the least number from the cursor on that no file of a fragment has, moves
the cursor beyond it and makes the folders that are missing on the way, if the cursor can be set.
Otherwise it fails, and no more than such folders are made. -/
theorem allocate_least (hw : t.WellFormed) (hs : s.folder? = some home)
    (hfits : Tree.Fits home 300) (hshallow : home.parts.length < deepest)
    (hreach : t.node? (lead [] home.parts) = some .folder → t.isFolder home = .ok true)
    (hstart : s.nextId t = .ok n)
    (hfree : ∃ w, n ≤ w ∧ w < 10 ^ maxIdLength ∧ NoFile home (Numeral.ofNat w) t) :
    (CursorHolds t home n ∨ n = 0 ∧ ∀ m, ¬ CursorHolds t home m) ∧
    ∃ v, v < 10 ^ maxIdLength ∧ LeastFrom home t n v ∧
      (∀ files : List Location, (∀ l, IsNumbered home t l → l ∈ files) →
        v - n ≤ files.length ∧ ∀ fuel, files.length < fuel → s.leastFree t fuel n = .ok v) ∧
      (Settable home t → ∃ t', s.allocate.run t = (.ok (Numeral.ofNat v), t') ∧
        s.nextId t' = .ok (v + 1) ∧
        t'.node? (cursorPlace home) = some (.file (.text (cursorText (v + 1)))) ∧
        ∀ l, l ≠ cursorPlace home → t'.node? l = t.node? l ∨
          l ∈ visited [] home.parts ∧ t.node? l = none ∧ t'.node? l = some .folder) ∧
      (¬ Settable home t → ∃ f t', s.allocate.run t = (.error f, t') ∧
        Tree.AddsFolders (visited [] home.parts) t t') := by
  obtain ⟨v, hv, hleast, hsearch⟩ := search_least hw hs hfits hreach hfree
  have hlimit : 10 ^ maxIdLength < 10 ^ Numeral.limit := Nat.pow_lt_pow_right (by decide) (by decide)
  have hrun : s.leastFree t (t.entries.length + 1) n = .ok v :=
    (hsearch (t.entries.map Prod.fst) fun l ⟨id, c, _, _, hc, hl⟩ =>
      List.mem_map_of_mem (Tree.mem_entries (by rcases hl with rfl | ⟨set, rfl⟩ <;> simp) hc)).2 _
      (by simp)
  refine ⟨cursorAt_eq_ok (nextId_eq hs t ▸ hstart), v, hv, hleast, hsearch, fun hset => ?_,
    fun hset => ?_⟩
  · obtain ⟨w, hnw, hw32, hno⟩ := hfree
    obtain ⟨m, t', -, hallocate, hadv⟩ := allocate_of_free hw hs hfits hstart hnw hw32 hno
      (exists_advanced hw hfits hshallow hset.way hset.apart hset.place)
    obtain rfl : m = v := by
      rcases allocate_steps hw hs hallocate with ⟨e, he, -⟩ | ⟨start, k, hk, hlast, -, he⟩
      · cases he
      · cases hstart.symm.trans hk
        cases hrun.symm.trans hlast
        exact Numeral.ofNat_injective (Except.ok.inj he)
    refine ⟨t', hallocate, ?_, ?_, fun l => hadv.beside hw⟩
    · rw [nextId_eq hs, cursorAt_cursorText hadv.readText (by omega)]
    · rw [hadv.eq, cursorPlace]
      exact Tree.node?_insert_self _ (by simp) _
  · rcases hallocate : s.allocate.run t with ⟨r, t'⟩
    rcases allocate_steps hw hs hallocate with ⟨f, rfl, -, hadd⟩ | ⟨-, k, -, -, hadv, -⟩
    · exact ⟨f, t', rfl, hadd⟩
    · exact absurd ((exists_advanced_iff hw hfits hshallow).mp ⟨t', hadv⟩) hset

/-- A workspace whose cursor stands at a number that a record in the folder of sets has, and the next
one has a record in a set. -/
def takenFromThree : Tree :=
  ⟨[([".cms".toList], .folder), ([".cms".toList, cursorName], .file (.text (cursorText 3))),
    ([".cms".toList, "3.md".toList], .file (.text [])), ([".cms".toList, "default".toList], .folder),
    ([".cms".toList, "default".toList, "4.md".toList], .file (.text []))]⟩

theorem allocate_least_takenFromThree :
    LeastFrom { slashes := 1, parts := [".cms".toList] } takenFromThree 3 5 ∧
      ∃ t', (allocate { root := some { slashes := 1 } }).run takenFromThree = (.ok ['5'], t') ∧
        nextId { root := some { slashes := 1 } } t' = .ok 6 := by
  have hno : NoFile { slashes := 1, parts := [".cms".toList] } (Numeral.ofNat 5) takenFromThree :=
    noFile_of_names (by decide)
  obtain ⟨-, v, -, hleast, -, hset, -⟩ :=
    allocate_least (s := { root := some { slashes := 1 } }) (t := takenFromThree) (n := 3)
      (by decide) rfl ⟨by decide, by decide, by decide⟩ (by decide) (fun _ => by decide)
      (by decide +kernel) ⟨5, by decide, by decide, hno⟩
  obtain rfl : v = 5 := by
    have hle := hleast.le
    have hthree : v ≠ 3 := fun e => (hleast.free (.text [])).1 (by rw [e]; decide)
    have hfour : v ≠ 4 := fun e =>
      (hleast.free (.text [])).2 "default".toList (by rw [e]; decide)
    have hfive : ¬ 5 < v := fun h => hleast.taken 5 (by decide) h hno
    omega
  obtain ⟨t', hallocate, hnext, -⟩ := hset ⟨by decide, by decide, by decide⟩
  exact ⟨hleast, t', hallocate, hnext⟩

/-- A folder in the place of the cursor file keeps ids from being handed out, where no number is
taken and zero is the one to start from. -/
theorem cursor_folder_blocks :
    let s : Session := { root := some { slashes := 1 } }
    let t : Tree := ⟨[([".cms".toList], .folder), ([".cms".toList, cursorName], .folder)]⟩
    t.WellFormed ∧ s.nextId t = .ok 0 ∧
      LeastFrom { slashes := 1, parts := [".cms".toList] } t 0 0 ∧
      ∀ id t', s.allocate.run t ≠ (.ok id, t') := by
  intro s t
  refine ⟨by decide, by decide +kernel, ⟨Nat.le_refl 0, noFile_of_names (by decide),
    fun k _ hk => absurd hk (Nat.not_lt_zero k)⟩, fun id t' hrun => ?_⟩
  have hfail : (s.allocate.run t).1 = .error (.cannotPersist
      { slashes := 1, parts := [".cms".toList, cursorName] }
      { slashes := 1, parts := [".cms".toList, temporaryName] } .isFolder) := by decide +kernel
  rw [hrun] at hfail
  cases hfail

end Session

end Marginalia
