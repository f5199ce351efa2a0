import Marginalia.Disk.Walk
import Marginalia.Proofs.Disk.Kinds
import Mathlib.Data.Char
import Mathlib.Data.List.Lex

/-!
# What a walk finds

The files of a walk are those below a folder with no excluded folder on the way (`mem_files`), in
the order of the walk, which is total and transitive (`ascending_files`). The walk comes to those in the
folders it enters (`mem_reached`) and finds them all when it is not ended early, which is told by
where files and folders are (`Walkable`, `ended_walk_eq_none_iff`). Writing into files that are there
keeps the tree well formed (`WellFormed.rewriteFiles`) with its folders and files where they are
(`sameKinds_rewriteFiles`), and changes no other place (`node?_rewriteFiles_of_not_mem`).
-/

namespace Marginalia.Tree

theorem isWalked_eq_true_iff {root : Location} {excluded : List Name} {l : Location} :
    isWalked root excluded l = true ↔
      ∃ rest, l = root ++ rest ∧ rest ≠ [] ∧ ∀ n ∈ rest.dropLast, n ∉ excluded := by
  unfold isWalked
  simp only [Bool.and_eq_true, Bool.not_eq_true', List.isPrefixOf_iff_prefix]
  constructor
  · rintro ⟨⟨⟨rest, rfl⟩, hne⟩, hfree⟩
    rw [List.drop_left] at hne hfree
    refine ⟨rest, rfl, by simpa using hne, fun n hn hex => ?_⟩
    have := List.any_eq_false.mp hfree n hn
    simp [hex] at this
  · rintro ⟨rest, rfl, hne, hfree⟩
    rw [List.drop_left]
    refine ⟨⟨List.prefix_append _ _, by simpa using hne⟩, List.any_eq_false.mpr fun n hn => ?_⟩
    simpa using hfree n hn

theorem WellFormed.mem_files {t : Tree} (hw : t.WellFormed) {root : Location}
    {excluded : List Name} {f : Found} : f ∈ t.files root excluded ↔
      t.node? (root ++ f.location) = some (.file f.content) ∧ f.location ≠ [] ∧
        ∀ n ∈ f.location.dropLast, n ∉ excluded := by
  unfold files
  rw [List.mem_mergeSort, List.mem_filterMap]
  constructor
  · rintro ⟨⟨l, n⟩, hmem, hf⟩
    cases n with
    | folder => cases hf
    | file c =>
      simp only [found?, Option.ite_none_right_eq_some, Option.some.injEq] at hf
      obtain ⟨hwalk, rfl⟩ := hf
      obtain ⟨rest, rfl, hne, hfree⟩ := isWalked_eq_true_iff.mp hwalk
      simp only [List.drop_left]
      exact ⟨hw.node?_of_mem hmem, hne, hfree⟩
  · rintro ⟨hn, hne, hfree⟩
    refine ⟨_, mem_entries (by simp [hne]) hn, ?_⟩
    have hwalk : isWalked root excluded (root ++ f.location) = true :=
      isWalked_eq_true_iff.mpr ⟨_, rfl, hne, hfree⟩
    simp [found?, hwalk]

/-! ## The order -/

theorem walksBefore_single (a b : Name) (bs : Location) :
    walksBefore [a] (b :: bs) = true ↔ bs = [] → a ≤ b := by
  cases bs with
  | nil => simp [walksBefore]
  | cons b' bs => simp [walksBefore]

theorem walksBefore_cons (a a' b : Name) (as bs : Location) :
    walksBefore (a :: a' :: as) (b :: bs) = true ↔
      bs ≠ [] ∧ (a < b ∨ a = b ∧ walksBefore (a' :: as) bs = true) := by
  cases bs with
  | nil => simp [walksBefore]
  | cons b' bs =>
    simp only [walksBefore]
    by_cases h : a = b
    · simp [h]
    · simp [h, lt_iff_le_and_ne, Ne.symm h]

theorem walksBefore_total (l k : Location) : walksBefore l k = true ∨ walksBefore k l = true := by
  induction l generalizing k with
  | nil => exact .inl rfl
  | cons a as ih =>
    cases k with
    | nil => exact .inr rfl
    | cons b bs =>
      cases as with
      | nil =>
        cases bs with
        | nil =>
          rw [walksBefore_single, walksBefore_single]
          exact (le_total a b).imp (fun h _ => h) (fun h _ => h)
        | cons b' bs => exact .inl rfl
      | cons a' as =>
        cases bs with
        | nil => exact .inr rfl
        | cons b' bs =>
          rw [walksBefore_cons, walksBefore_cons]
          rcases lt_trichotomy a b with h | rfl | h
          · exact .inl ⟨by simp, .inl h⟩
          · exact (ih (b' :: bs)).imp (fun h => ⟨by simp, .inr ⟨rfl, h⟩⟩)
              (fun h => ⟨by simp, .inr ⟨rfl, h⟩⟩)
          · exact .inr ⟨by simp, .inl h⟩

theorem walksBefore_trans (l k m : Location) (hlk : walksBefore l k = true)
    (hkm : walksBefore k m = true) : walksBefore l m = true := by
  induction l generalizing k m with
  | nil => rfl
  | cons a as ih =>
    cases k with
    | nil => cases hlk
    | cons b bs =>
      cases m with
      | nil => cases hkm
      | cons c cs =>
        cases as with
        | nil =>
          rw [walksBefore_single] at hlk ⊢
          rintro rfl
          cases bs with
          | nil => exact le_trans (hlk rfl) ((walksBefore_single ..).mp hkm rfl)
          | cons b' bs => exact absurd rfl ((walksBefore_cons ..).mp hkm).1
        | cons a' as =>
          rw [walksBefore_cons] at hlk ⊢
          obtain ⟨hbs, hab⟩ := hlk
          cases bs with
          | nil => exact absurd rfl hbs
          | cons b' bs =>
            rw [walksBefore_cons] at hkm
            obtain ⟨hcs, hbc⟩ := hkm
            refine ⟨hcs, ?_⟩
            rcases hab with hab | ⟨rfl, hab⟩
            · rcases hbc with hbc | ⟨rfl, -⟩
              · exact .inl (lt_trans hab hbc)
              · exact .inl hab
            · rcases hbc with hbc | ⟨rfl, hbc⟩
              · exact .inl hbc
              · exact .inr ⟨rfl, ih _ _ hab hbc⟩

theorem ascending_files (t : Tree) (root : Location) (excluded : List Name) :
    (t.files root excluded).Pairwise fun a b => walksBefore a.location b.location = true :=
  List.pairwise_mergeSort
    (fun a b c : Found => walksBefore_trans a.location b.location c.location)
    (fun a b => (Bool.or_eq_true ..).mpr (walksBefore_total a.location b.location)) _

/-! ## What a walk comes to -/

section Walkable

variable {t u : Tree} {levels : Nat} {root : Path} {base : Location} {excluded : List Name}

theorem WellFormed.mem_reached (hw : t.WellFormed) {f : Found} :
    f ∈ t.reached root excluded ↔ ∃ base, t.resolve root = .ok base ∧
      t.node? (base ++ f.location) = some (.file f.content) ∧ f.location ≠ [] ∧
        (∀ n ∈ f.location.dropLast, n ∉ excluded) ∧ isEntered root f.location = true := by
  unfold reached
  cases t.resolve root with
  | error e => simp
  | ok base => simp [List.mem_filter, hw.mem_files, and_assoc]

/-- Whether a walk that can be inside of so many folders at a time comes to its end: the path of the
root has no NUL, no file in a folder that is entered has a path that is too long, and no folder in
one has more than so many from the root down to it. -/
structure Walkable (t : Tree) (levels : Nat) (root : Path) (excluded : List Name) : Prop where
  nameable : root.hasNul = false
  short : ∀ base l c, t.resolve root = .ok base → t.node? (base ++ l) = some (.file c) → l ≠ [] →
    (∀ n ∈ l.dropLast, n ∉ excluded) → isEntered root l = true →
      Utf8.size (root.under l).text ≤ Disk.longestPath
  shallow : ∀ base l, t.resolve root = .ok base → t.node? (base ++ l) = some .folder →
    (∀ n ∈ l, n ∉ excluded) → isEntered root l = true → l.length ≤ levels

theorem SameKinds.walkable (h : SameKinds t u) (hp : t.Walkable levels root excluded) :
    u.Walkable levels root excluded where
  nameable := hp.nameable
  short base l c hbase hl hne hfree hentered := by
    rw [h.resolve_eq] at hbase
    rcases h.cases (base ++ l) with ⟨-, hu⟩ | ⟨-, hu⟩ | ⟨c', -, ht, -⟩
    · rw [hl] at hu; cases hu
    · rw [hl] at hu; cases hu
    · exact hp.short base l c' hbase ht hne hfree hentered
  shallow base l hbase hl hfree hentered := by
    rw [h.resolve_eq] at hbase
    rcases h.cases (base ++ l) with ⟨-, hu⟩ | ⟨ht, -⟩ | ⟨-, c', -, hu⟩
    · rw [hl] at hu; cases hu
    · exact hp.shallow base l hbase ht hfree hentered
    · rw [hl] at hu; cases hu

/-- A small tree is walkable: no entry has a long path from the root, nor many names. -/
theorem Walkable.of_entries (base : Location) (hbase : t.resolve root = .ok base)
    (h : ∀ e ∈ t.entries, Utf8.size (root.under (e.1.drop base.length)).text ≤ Disk.longestPath ∧
      (e.1.drop base.length).length ≤ levels) : t.Walkable levels root excluded := by
  refine ⟨(resolve_eq_ok_iff.mp hbase).1, ?_, ?_⟩
  · intro base' l c hbase' hl hne _ _
    rw [hbase] at hbase'
    cases hbase'
    simpa using (h _ (mem_entries (by simp [hne]) hl)).1
  · intro base' l hbase' hl _ _
    rw [hbase] at hbase'
    cases hbase'
    by_cases hne : l = []
    · simp [hne]
    · simpa using (h _ (mem_entries (by simp [hne]) hl)).2

theorem longFile?_eq_none_iff {f : Found} : longFile? root f = none ↔
    Utf8.size (root.under f.location).text ≤ Disk.longestPath := by
  simp [longFile?]

/-- What is in a folder is walked when the folder is below another by names of which none is
excluded. -/
theorem isWalked_inside {l : Location} {n : Name} : isWalked base excluded (l ++ [n]) = true ↔
    ∃ below, l = base ++ below ∧ ∀ m ∈ below, m ∉ excluded := by
  rw [isWalked_eq_true_iff]
  constructor
  · rintro ⟨rest, he, hne, hfree⟩
    rw [← List.dropLast_append_getLast hne, ← List.append_assoc] at he
    exact ⟨rest.dropLast, (List.append_inj' he rfl).1, hfree⟩
  · rintro ⟨below, rfl, hfree⟩
    exact ⟨below ++ [n], List.append_assoc .., by simp, by rwa [List.dropLast_concat]⟩

theorem deepFolder?_eq_none_iff {l : Location} {n : Node} :
    deepFolder? levels root base excluded (l, n) = none ↔
      (n = .folder → ∀ below, l = base ++ below → (∀ m ∈ below, m ∉ excluded) →
        isEntered root below = true → below.length ≤ levels) := by
  cases n with
  | file c => simp [deepFolder?]
  | folder =>
    rw [deepFolder?, ite_eq_right_iff, Bool.and_eq_true, Bool.and_eq_true, isWalked_inside,
      decide_eq_true_eq]
    constructor
    · rintro h - below rfl hfree hentered
      rw [List.drop_left] at h
      by_contra hdeep
      exact absurd (h ⟨⟨⟨below, rfl, hfree⟩, hentered⟩, Nat.not_le.mp hdeep⟩) (by simp)
    · rintro h ⟨⟨⟨below, rfl, hfree⟩, hentered⟩, hdeep⟩
      rw [List.drop_left] at hentered hdeep
      exact absurd (h rfl below rfl hfree hentered) (Nat.not_le.mpr hdeep)

/-- The walk has nothing in its way when it can come to its end. -/
theorem WellFormed.walkable_iff (hw : t.WellFormed) (hbase : t.resolve root = .ok base) :
    t.Walkable levels root excluded ↔ (t.reached root excluded).filterMap (longFile? root) ++
      t.entries.filterMap (deepFolder? levels root base excluded) = [] := by
  rw [List.append_eq_nil_iff, List.filterMap_eq_nil_iff, List.filterMap_eq_nil_iff]
  constructor
  · intro h
    constructor
    · intro f hf
      obtain ⟨base, hbase, hn, hne, hfree, hentered⟩ := hw.mem_reached.mp hf
      exact longFile?_eq_none_iff.mpr (h.short _ _ _ hbase hn hne hfree hentered)
    · rintro ⟨l, n⟩ hl
      refine deepFolder?_eq_none_iff.mpr ?_
      rintro rfl below rfl hfree hentered
      exact h.shallow base below hbase (hw.node?_of_mem hl) hfree hentered
  · rintro ⟨hshort, hshallow⟩
    refine ⟨(resolve_eq_ok_iff.mp hbase).1, ?_, ?_⟩
    · intro base l c hbase hl hne hfree hentered
      exact longFile?_eq_none_iff.mp
        (hshort ⟨l, c⟩ (hw.mem_reached.mpr ⟨base, hbase, hl, hne, hfree, hentered⟩))
    · intro base' l hbase' hl hfree hentered
      rw [hbase] at hbase'
      cases hbase'
      by_cases hempty : l = []
      · rw [hempty]
        exact Nat.zero_le _
      · have hmem : (base ++ l, Node.folder) ∈ t.entries := mem_entries (by simp [hempty]) hl
        exact deepFolder?_eq_none_iff.mp (hshallow _ hmem) rfl l rfl hfree hentered

theorem head?_mergeSort_eq_none {α : Type} {le : α → α → Bool} {xs : List α} :
    (xs.mergeSort le).head? = none ↔ xs = [] := by
  rw [List.head?_eq_none_iff, ← List.length_eq_zero_iff, List.length_mergeSort,
    List.length_eq_zero_iff]

theorem walk_of_error {e : Disk.Fault} (h : t.resolve root = .error e) (hnul : root.hasNul = false) :
    t.walk levels root excluded = {} := by
  unfold walk
  rw [h]
  cases e with
  | nulInName => exact absurd rfl (resolve_error hnul h).1
  | _ => rfl

theorem walk_of_hasNul (h : root.hasNul = true) :
    (t.walk levels root excluded).ended = some { location := [], fault := .nulInName } := by
  unfold walk
  rw [resolve_eq, h, if_pos rfl]

/-- A walk is not ended early just when it can come to its end. -/
theorem WellFormed.ended_walk_eq_none_iff (hw : t.WellFormed) :
    (t.walk levels root excluded).ended = none ↔ t.Walkable levels root excluded := by
  cases hr : t.resolve root with
  | ok base =>
    unfold walk
    rw [hr]
    exact head?_mergeSort_eq_none.trans (hw.walkable_iff hr).symm
  | error e =>
    cases hnul : root.hasNul with
    | true =>
      rw [walk_of_hasNul hnul]
      refine ⟨nofun, fun h => ?_⟩
      rw [h.nameable] at hnul
      cases hnul
    | false =>
      rw [walk_of_error hr hnul]
      refine ⟨fun _ => ⟨hnul, fun base => ?_, fun base => ?_⟩, fun _ => rfl⟩ <;>
        · rw [hr]
          exact nofun

/-- Then it finds all that it comes to. -/
theorem WellFormed.found_walk (hw : t.WellFormed) (h : t.Walkable levels root excluded) :
    (t.walk levels root excluded).found = t.reached root excluded := by
  cases hr : t.resolve root with
  | ok base =>
    unfold walk
    rw [hr]
    simp only [(hw.walkable_iff hr).mp h, Walk.upTo, List.all_nil, List.filter_true]
  | error e =>
    rw [walk_of_error hr h.nameable, reached, hr]

theorem WellFormed.files_walk (hw : t.WellFormed) (h : t.Walkable levels root excluded) :
    (t.walk levels root excluded).files = .ok (t.reached root excluded) := by
  rw [Walk.files, hw.ended_walk_eq_none_iff.mpr h]
  exact congrArg _ (hw.found_walk h)

theorem WellFormed.files_walk_of_not (hw : t.WellFormed) (h : ¬t.Walkable levels root excluded) :
    ∃ e, (t.walk levels root excluded).files = .error e := by
  rw [Walk.files]
  cases he : (t.walk levels root excluded).ended with
  | none => exact absurd (hw.ended_walk_eq_none_iff.mp he) h
  | some o => exact ⟨_, rfl⟩

/-- In any case it finds some of what it comes to, in the same order. -/
theorem found_walk_sublist : (t.walk levels root excluded).found.Sublist (t.reached root excluded) := by
  unfold walk
  cases hr : t.resolve root with
  | ok base => exact List.filter_sublist
  | error e => cases e <;> exact List.nil_sublist _

theorem base_walk (h : t.resolve root = .ok base) : (t.walk levels root excluded).base = base := by
  rw [walk, h]
  rfl

end Walkable

/-! ## Writing into files -/

/-- Files written one after the other. -/
def rewriteFiles (t : Tree) (ws : List (Location × Content)) : Tree :=
  ws.foldl (fun t w => t.insert w.1 (.file w.2)) t

theorem node?_rewriteFiles_of_not_mem {t : Tree} {ws : List (Location × Content)} {k : Location}
    (hk : k ∉ ws.map Prod.fst) : (t.rewriteFiles ws).node? k = t.node? k := by
  induction ws generalizing t with
  | nil => rfl
  | cons w ws ih =>
    rw [List.map_cons, List.mem_cons, not_or] at hk
    exact (ih hk.2).trans (node?_insert_of_ne t hk.1 _)

theorem WellFormed.rewriteFiles {t : Tree} (hw : t.WellFormed) {ws : List (Location × Content)}
    (h : ∀ w ∈ ws, ∃ c, t.node? w.1 = some (.file c)) : (t.rewriteFiles ws).WellFormed := by
  induction ws generalizing t with
  | nil => exact hw
  | cons w ws ih =>
    obtain ⟨c, hc⟩ := h w List.mem_cons_self
    have hne : w.1 ≠ [] := fun e => by
      rw [e] at hc
      cases hc
    refine ih (hw.insert hne (hw.canHold hc) (by simp [hc])) fun v hv => ?_
    rw [node?_insert t hne]
    split
    · exact ⟨_, rfl⟩
    · exact h v (List.mem_cons_of_mem _ hv)

theorem sameKinds_rewriteFiles {t : Tree} {ws : List (Location × Content)}
    (h : ∀ w ∈ ws, ∃ c, t.node? w.1 = some (.file c)) : t.SameKinds (t.rewriteFiles ws) := by
  induction ws generalizing t with
  | nil => exact .refl t
  | cons w ws ih =>
    obtain ⟨c, hc⟩ := h w List.mem_cons_self
    have hne : w.1 ≠ [] := fun e => by
      rw [e] at hc
      cases hc
    have hkinds : t.SameKinds (t.insert w.1 (.file w.2)) := .insert_file hne hc w.2
    refine hkinds.trans (ih fun v hv => ?_)
    obtain ⟨c', hc'⟩ := h v (List.mem_cons_of_mem _ hv)
    exact hkinds.file_of_file hc'

end Marginalia.Tree
