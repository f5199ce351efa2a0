import Marginalia.Proofs.Disk.Folders
import Marginalia.Proofs.Session.Cursor
import Marginalia.Proofs.Session.Lookup
import Marginalia.Proofs.Text.Lines
import Marginalia.Proofs.Work
import Mathlib.Data.List.Nodup
import Mathlib.Data.List.Perm.Subperm

/-!
# Handing out ids

The search for a free number ends before its fuel does, since every number it passes over is the
name of another file (`leastFree_free`). Handing out an id either fails, and then whatever was there
is there still, or it moves the cursor beyond a free number from the cursor on (`allocate_cases`).
-/

namespace Marginalia

/-- The number in the cursor file of a folder, zero where none can be read. -/
def cursorAt (t : Tree) (home : Path) : Except Fault Nat := do
  match ← tolerate (ask (t.readText (home.child Session.cursorName))) with
  | none => pure 0
  | some text => (readCursor text).mapError .excess

theorem cursorAt_of_readText {t : Tree} {home : Path} {n m : Nat}
    (h : t.readText (home.child Session.cursorName) = .ok (cursorText n))
    (hm : cursorAt t home = .ok m) : m = n := by
  simp only [cursorAt, h, ask, Except.mapError, tolerate, bind, Except.bind] at hm
  cases hr : readCursor (cursorText n) with
  | error e => rw [hr] at hm; cases hm
  | ok k =>
    rw [hr] at hm
    cases hm
    exact readCursor_eq_ok hr

theorem cursorAt_cursorText {t : Tree} {home : Path} {n : Nat}
    (h : t.readText (home.child Session.cursorName) = .ok (cursorText n))
    (hn : n < 10 ^ Numeral.limit) : cursorAt t home = .ok n := by
  simp [cursorAt, h, ask, Except.mapError, tolerate, bind, Except.bind, readCursor_cursorText hn]

theorem cursorAt_of_unread {t : Tree} {home : Path} {f : Disk.Fault}
    (hnul : (home.child Session.cursorName).hasNul = false)
    (h : t.readText (home.child Session.cursorName) = .error f) : cursorAt t home = .ok 0 := by
  have hf := Tree.readText_error hnul h
  simp [cursorAt, h, ask, Except.mapError, tolerate, Fault.isUnreadable, hf, bind, Except.bind,
    pure, Except.pure]

/-- A cursor that is read was read before as well, or there was none and zero counted. -/
theorem cursorAt_of_same {t t' : Tree} {home : Path} {n : Nat}
    (hsame : ∀ s, t.readText (home.child Session.cursorName) = .ok s →
      t'.readText (home.child Session.cursorName) = .ok s)
    (h : cursorAt t' home = .ok n) : cursorAt t home = .ok n ∨ cursorAt t home = .ok 0 := by
  cases hr : t.readText (home.child Session.cursorName) with
  | ok s =>
    have hsame : cursorAt t home = cursorAt t' home := by
      simp only [cursorAt, hr, hsame s hr]
    exact .inl (hsame.trans h)
  | error f =>
    cases hnul : (home.child Session.cursorName).hasNul with
    | true =>
      simp [cursorAt, Tree.readText_of_hasNul t' hnul, ask, Except.mapError, tolerate,
        Fault.isUnreadable, bind, Except.bind] at h
    | false => exact .inr (cursorAt_of_unread hnul hr)

namespace Session

theorem cursorPath_eq {s : Session} {home : Path} (hs : s.folder? = some home) (operation : Text) :
    s.cursorPath operation = .ok (home.child cursorName) := by
  unfold folder? at hs
  unfold cursorPath requireFolder requireRoot
  cases hroot : s.root with
  | none => simp [hroot] at hs
  | some root =>
    simp only [hroot, Option.map_some, Option.some.injEq] at hs
    simp [Except.map, hs]

theorem nextId_eq {s : Session} {home : Path} (hs : s.folder? = some home) (t : Tree) :
    s.nextId t = cursorAt t home := by
  unfold nextId
  rw [cursorPath_eq hs]
  rfl

/-! ## The search for a free number -/

theorem leastFree_spec {s : Session} {t : Tree} {fuel n m : Nat}
    (h : s.leastFree t fuel n = .ok m) :
    n ≤ m ∧ m ≤ n + fuel ∧
      (∀ k, n ≤ k → k < m → s.hasFragment t (Numeral.ofNat k) = .ok true) ∧
      (m < n + fuel → m < 10 ^ Numeral.limit ∧
        s.hasFragment t (Numeral.ofNat m) = .ok false) := by
  induction fuel generalizing n with
  | zero =>
    cases h
    exact ⟨Nat.le_refl _, Nat.le_refl _, fun k h1 h2 => by omega, fun h => by omega⟩
  | succ fuel ih =>
    simp only [leastFree, bind, Except.bind] at h
    cases hid : idText n with
    | error e => simp [hid] at h
    | ok id =>
      obtain ⟨hsmall, rfl⟩ := idText_eq_ok_iff.mp hid
      cases hb : s.hasFragment t (Numeral.ofNat n) with
      | error e => simp [hid, hb] at h
      | ok b =>
        cases b with
        | false =>
          simp only [hid, hb, pure, Except.pure, Bool.false_eq_true, if_false,
            Except.ok.injEq] at h
          subst h
          exact ⟨Nat.le_refl _, by omega, fun k h1 h2 => by omega, fun _ => ⟨hsmall, hb⟩⟩
        | true =>
          simp only [hid, hb, if_true] at h
          obtain ⟨h1, h2, h3, h4⟩ := ih h
          refine ⟨by omega, by omega, fun k hk hkm => ?_, fun hm => h4 (by omega)⟩
          by_cases e : k = n
          · subst e; exact hb
          · exact h3 k (by omega) hkm

/-- With more fuel than numbers to pass over the search arrives at the first number that is free. -/
theorem leastFree_of_taken {s : Session} {t : Tree} {fuel n m : Nat} (hle : n ≤ m)
    (hfuel : m - n < fuel)
    (htaken : ∀ k, n ≤ k → k < m → s.hasFragment t (Numeral.ofNat k) = .ok true)
    (hsmall : m < 10 ^ Numeral.limit) (hfree : s.hasFragment t (Numeral.ofNat m) = .ok false) :
    s.leastFree t fuel n = .ok m := by
  induction fuel generalizing n with
  | zero => omega
  | succ fuel ih =>
    have hid : idText n = .ok (Numeral.ofNat n) :=
      idText_eq_ok_iff.mpr ⟨Nat.lt_of_le_of_lt hle hsmall, rfl⟩
    simp only [leastFree, hid, bind, Except.bind]
    by_cases e : n = m
    · subst e
      simp [hfree, pure, Except.pure]
    · simp only [htaken n (Nat.le_refl n) (by omega), if_true]
      exact ih (by omega) (by omega) fun k hk => htaken k (by omega)

/-- Numbers that are the names of files at some places are no more than the places. -/
theorem sub_le_length {places : List Location} {n m : Nat}
    (h : ∀ k, n ≤ k → k < m → ∃ l ∈ places, l.getLast? = some (Numeral.ofNat k ++ ending)) :
    m - n ≤ places.length := by
  let names := (List.range (m - n)).map fun i => some (Numeral.ofNat (n + i) ++ ending)
  have hnodup : names.Nodup := by
    refine List.Nodup.map (fun i j e => ?_) List.nodup_range
    have := Numeral.ofNat_injective (List.append_cancel_right (Option.some.inj e))
    omega
  have hsub : names ⊆ places.map List.getLast? := by
    intro name hname
    obtain ⟨i, hi, rfl⟩ := List.mem_map.mp hname
    rw [List.mem_range] at hi
    obtain ⟨l, hl, hlast⟩ := h (n + i) (by omega) (by omega)
    exact List.mem_map.mpr ⟨l, hl, hlast⟩
  have hlen := (List.subperm_of_subset hnodup hsub).length_le
  simpa [names] using hlen

/-- Each number taken is the name of another file. -/
theorem taken_le_entries {s : Session} {t : Tree} {n m : Nat}
    (h : ∀ k, n ≤ k → k < m → s.hasFragment t (Numeral.ofNat k) = .ok true) :
    m - n ≤ t.entries.length := by
  have hle : m - n ≤ (t.entries.map Prod.fst).length := sub_le_length fun k hk hkm => by
    obtain ⟨l, c, hmem, hlast⟩ := entry_of_hasFragment
      (fun c hc => Numeral.isAsciiDigit_of_mem_ofNat hc) (h k hk hkm)
    exact ⟨l, List.mem_map_of_mem hmem, hlast⟩
  rwa [List.length_map] at hle

theorem leastFree_free {s : Session} {t : Tree} {n m : Nat}
    (h : s.leastFree t (t.entries.length + 1) n = .ok m) :
    n ≤ m ∧ m < 10 ^ Numeral.limit ∧ s.hasFragment t (Numeral.ofNat m) = .ok false := by
  obtain ⟨h1, -, h3, h4⟩ := leastFree_spec h
  have hle := taken_le_entries h3
  obtain ⟨h5, h6⟩ := h4 (by omega)
  exact ⟨h1, h5, h6⟩

/-- The search succeeds when there is a free number and whether a number is taken can be told. -/
theorem leastFree_reaches {s : Session} {t : Tree} {n v : Nat} (fuel : Nat) (hnv : n ≤ v)
    (hv : v < 10 ^ Numeral.limit)
    (htotal : ∀ k, n ≤ k → k ≤ v → ∃ b, s.hasFragment t (Numeral.ofNat k) = .ok b)
    (hfree : s.hasFragment t (Numeral.ofNat v) = .ok false) :
    ∃ m, m ≤ v ∧ s.leastFree t fuel n = .ok m := by
  induction fuel generalizing n with
  | zero => exact ⟨n, hnv, rfl⟩
  | succ fuel ih =>
    have hid : idText n = .ok (Numeral.ofNat n) :=
      idText_eq_ok_iff.mpr ⟨Nat.lt_of_le_of_lt hnv hv, rfl⟩
    obtain ⟨b, hb⟩ := htotal n (Nat.le_refl n) hnv
    cases b with
    | false => exact ⟨n, hnv, by simp [leastFree, hid, hb, bind, Except.bind, pure, Except.pure]⟩
    | true =>
      have hne : n ≠ v := fun e => by rw [e, hfree] at hb; cases hb
      obtain ⟨m, hm, hrun⟩ := ih (show n + 1 ≤ v by omega) fun k hk => htotal k (by omega)
      exact ⟨m, hm, by simp [leastFree, hid, hb, bind, Except.bind, hrun]⟩

/-! ## Moving the cursor -/

/-- The tree when the folder of sets was made and its cursor set to a number. -/
structure Advanced (home : Path) (t : Tree) (n : Nat) (t' : Tree) : Prop where
  made : (t.makeFolders home).2 = none
  resolves : (t.makeFolders home).1.resolve (home.child cursorName) =
    .ok (lead [] home.parts ++ [cursorName])
  noFolder : (t.makeFolders home).1.node? (lead [] home.parts ++ [cursorName]) ≠ some .folder
  eq : t' = (t.makeFolders home).1.insert (lead [] home.parts ++ [cursorName])
    (.file (.text (cursorText n)))

theorem writeNextId_cases {s : Session} {t t' : Tree} {home : Path} {n : Nat}
    {r : Except Fault Unit} (hw : t.WellFormed) (hs : s.folder? = some home)
    (h : (s.writeNextId n).run t = (r, t')) :
    (∃ e, r = .error e ∧ t'.WellFormed ∧ Tree.AddsFolders (visited [] home.parts) t t') ∨
      (r = .ok () ∧ Advanced home t n t') := by
  obtain ⟨hw', hadd⟩ := Tree.makeFolders_adds hw home
  unfold writeNextId at h
  rw [cursorPath_eq hs, Work.run_bind_of_ok (Work.run_ofExcept _ _), Path.parent_child] at h
  cases hmade : (t.makeFolders home).2 with
  | some f =>
    rw [Work.run_bind_of_error (by rw [Work.run_makeFolders, hmade])] at h
    obtain ⟨rfl, rfl⟩ := Prod.mk.inj h
    exact .inl ⟨_, rfl, hw', hadd⟩
  | none =>
    obtain ⟨hr, hfold⟩ := Tree.makeFolders_ok hw hmade
    rw [Work.run_bind_of_ok (by rw [Work.run_makeFolders, hmade]),
      Work.run_bind_of_ok (Work.run_get _)] at h
    cases hwrite : (t.makeFolders home).1.write (home.child cursorName) (cursorText n) with
    | error f =>
      rw [hwrite] at h
      obtain ⟨rfl, rfl⟩ := Prod.mk.inj h
      exact .inl ⟨_, rfl, hw', hadd⟩
    | ok t'' =>
      rw [hwrite] at h
      obtain ⟨rfl, rfl⟩ := Prod.mk.inj h
      obtain ⟨l, hl, -, hno, rfl⟩ := Tree.write_eq_ok hwrite
      have hlead : l = lead [] home.parts ++ [cursorName] := by
        rw [Tree.resolve_eq_lead hl, Path.child_parts, lead_append, lead_of_plain (by decide)]
      subst hlead
      exact .inr ⟨rfl, ⟨hmade, hl, hno, rfl⟩⟩

theorem Advanced.run_writeNextId {s : Session} {t t' : Tree} {home : Path} {n : Nat}
    (hs : s.folder? = some home) (h : Advanced home t n t') :
    (s.writeNextId n).run t = (.ok (), t') := by
  unfold writeNextId
  rw [cursorPath_eq hs, Work.run_bind_of_ok (Work.run_ofExcept _ _), Path.parent_child,
    Work.run_bind_of_ok (by rw [Work.run_makeFolders, h.made]),
    Work.run_bind_of_ok (Work.run_get _), Tree.write_of_resolve _ h.resolves h.noFolder, h.eq]
  rfl

theorem Advanced.wellFormed {home : Path} {t t' : Tree} {n : Nat} (hw : t.WellFormed)
    (h : Advanced home t n t') : t'.WellFormed := by
  rw [h.eq]
  exact (Tree.makeFolders_adds hw home).1.insert_file h.resolves h.noFolder _

/-- A cursor file has digits beside the text around its number. -/
theorem mem_cursorText {n : Nat} {c : Char} (h : c ∈ cursorText n) :
    c ∈ "\x7b\"nextId\": \x7d".toList ∨ isAsciiDigit c = true := by
  unfold cursorText at h
  rw [List.mem_append, List.mem_append] at h
  rcases h with (h | h) | h
  · exact .inl (List.mem_append_left ['\x7d'] h)
  · exact .inr (Numeral.isAsciiDigit_of_mem_ofNat h)
  · exact .inl (List.mem_append_right "\x7b\"nextId\": ".toList h)

theorem unifyNewlines_cursorText (n : Nat) : Text.unifyNewlines (cursorText n) = cursorText n := by
  refine Text.unifyNewlines_of_no_return fun hr => ?_
  rcases mem_cursorText hr with hr | hr <;> exact absurd hr (by decide)

theorem Advanced.readText {home : Path} {t t' : Tree} {n : Nat} (h : Advanced home t n t') :
    t'.readText (home.child cursorName) = .ok (cursorText n) := by
  rw [h.eq, Tree.readText_insert h.resolves h.noFolder, unifyNewlines_cursorText]

/-- What an attempt to hand out an id comes to in a folder of sets, with the search it makes. -/
theorem allocate_steps {s : Session} {home : Path} {t t' : Tree} {r : Except Fault Text}
    (hw : t.WellFormed) (hs : s.folder? = some home) (h : s.allocate.run t = (r, t')) :
    (∃ e, r = .error e ∧ t'.WellFormed ∧ Tree.AddsFolders (visited [] home.parts) t t') ∨
      ∃ start n, s.nextId t = .ok start ∧ s.leastFree t (t.entries.length + 1) start = .ok n ∧
        Advanced home t (n + 1) t' ∧ r = .ok (Numeral.ofNat n) := by
  obtain ⟨root, hroot, -⟩ := Option.map_eq_some_iff.mp hs
  have hreq : s.requireRoot "allocate".toList = .ok root := by simp [requireRoot, hroot]
  unfold allocate at h
  rw [hreq, Work.run_bind_of_ok (Work.run_ofExcept _ _)] at h
  cases hstart : s.nextId t with
  | error e =>
    rw [Work.run_bind_of_error (by rw [Work.run_inspect, hstart])] at h
    obtain ⟨rfl, rfl⟩ := Prod.mk.inj h
    exact .inl ⟨_, rfl, hw, .refl _ t⟩
  | ok start =>
    rw [Work.run_bind_of_ok (by rw [Work.run_inspect, hstart])] at h
    cases hfree : s.leastFree t (t.entries.length + 1) start with
    | error e =>
      rw [Work.run_bind_of_error (by rw [Work.run_inspect, hfree])] at h
      obtain ⟨rfl, rfl⟩ := Prod.mk.inj h
      exact .inl ⟨_, rfl, hw, .refl _ t⟩
    | ok n =>
      obtain ⟨-, hsmall, -⟩ := leastFree_free hfree
      rw [Work.run_bind_of_ok (by rw [Work.run_inspect, hfree])] at h
      rcases hnext : (s.writeNextId (n + 1)).run t with ⟨r', t''⟩
      rcases writeNextId_cases hw hs hnext with ⟨e, rfl, hw', hadd⟩ | ⟨rfl, hadv⟩
      · rw [Work.run_bind_of_error hnext] at h
        obtain ⟨rfl, rfl⟩ := Prod.mk.inj h
        exact .inl ⟨_, rfl, hw', hadd⟩
      · rw [Work.run_bind_of_ok hnext, Work.run_ofExcept,
          idText_eq_ok_iff.mpr ⟨hsmall, rfl⟩] at h
        obtain ⟨rfl, rfl⟩ := Prod.mk.inj h
        exact .inr ⟨start, n, rfl, hfree, hadv, rfl⟩

/-- What an attempt to hand out an id comes to. -/
theorem allocate_cases {s : Session} {t t' : Tree} {r : Except Fault Text} (hw : t.WellFormed)
    (h : s.allocate.run t = (r, t')) :
    (∃ e, r = .error e ∧ t'.WellFormed ∧ Tree.MoreFolders t t') ∨
      ∃ home start n, s.folder? = some home ∧ s.nextId t = .ok start ∧ start ≤ n ∧
        n < 10 ^ Numeral.limit ∧ s.hasFragment t (Numeral.ofNat n) = .ok false ∧
        Advanced home t (n + 1) t' ∧ r = .ok (Numeral.ofNat n) := by
  cases hs : s.folder? with
  | none =>
    have hroot : s.root = none := Option.map_eq_none_iff.mp hs
    have hreq : s.requireRoot "allocate".toList = .error (.noWorkspace "allocate".toList) := by
      simp [requireRoot, hroot]
    unfold allocate at h
    rw [hreq, Work.run_bind_of_error (Work.run_ofExcept _ _)] at h
    obtain ⟨rfl, rfl⟩ := Prod.mk.inj h
    exact .inl ⟨_, rfl, hw, .refl t⟩
  | some home =>
    rcases allocate_steps hw hs h with ⟨e, rfl, hw', hadd⟩ | ⟨start, n, hstart, hfree, hadv, rfl⟩
    · exact .inl ⟨e, rfl, hw', hadd.more⟩
    · obtain ⟨hle, hsmall, hnone⟩ := leastFree_free hfree
      exact .inr ⟨home, start, n, rfl, hstart, hle, hsmall, hnone, hadv, rfl⟩

end Session

end Marginalia
