import Marginalia.Proofs.Disk.Kinds
import Marginalia.Proofs.Disk.Walk
import Mathlib.Data.List.Nodup

/-!
# Relative paths

Names without slashes that are joined by slashes are cut apart again (`pieces_joined`), so files at
different places below a folder have different relative paths (`relativeText_inj`).
-/

namespace Marginalia

namespace Path

theorem pieces_cons {c : Char} (h : c ≠ '/') (s : Text) :
    pieces (c :: s) = match pieces s with
      | [] => [[c]]
      | p :: ps => (c :: p) :: ps :=
  if_neg h

theorem pieces_append_slash {n : Name} (h : '/' ∉ n) (s : Text) :
    pieces (n ++ '/' :: s) = n :: pieces s := by
  induction n with
  | nil => exact if_pos rfl
  | cons c n ih =>
    rw [List.mem_cons, not_or] at h
    rw [List.cons_append, pieces_cons (Ne.symm h.1), ih h.2]

theorem pieces_of_no_slash {n : Name} (h : '/' ∉ n) : pieces n = [n] := by
  induction n with
  | nil => rfl
  | cons c n ih =>
    rw [List.mem_cons, not_or] at h
    rw [pieces_cons (Ne.symm h.1), ih h.2]

theorem pieces_joined {parts : List Name} (h0 : parts ≠ []) (h : ∀ n ∈ parts, '/' ∉ n) :
    pieces (joined parts) = parts := by
  induction parts with
  | nil => exact absurd rfl h0
  | cons n parts ih =>
    obtain ⟨hn, hparts⟩ := List.forall_mem_cons.mp h
    cases parts with
    | nil => exact pieces_of_no_slash hn
    | cons m parts =>
      show pieces (n ++ ['/'] ++ joined (m :: parts)) = _
      rw [List.append_assoc, List.singleton_append, pieces_append_slash hn,
        ih (List.cons_ne_nil _ _) hparts]

theorem relativeText_of_ne_nil {parts : List Name} (h : parts ≠ []) :
    relativeText parts = joined parts := by
  simp [relativeText, text, isAbsolute, h]

theorem relativeText_inj {l k : Location} (hl : l ≠ []) (hk : k ≠ []) (hl' : ∀ n ∈ l, '/' ∉ n)
    (hk' : ∀ n ∈ k, '/' ∉ n) (h : relativeText l = relativeText k) : l = k := by
  rw [relativeText_of_ne_nil hl, relativeText_of_ne_nil hk] at h
  rw [← pieces_joined hl hl', h, pieces_joined hk hk']

end Path

namespace Tree

/-- A slash stands between names and in none of them. -/
def NoSlash (t : Tree) : Prop := ∀ e ∈ t.entries, ∀ n ∈ e.1, '/' ∉ n

instance (t : Tree) : Decidable t.NoSlash :=
  inferInstanceAs (Decidable (∀ e ∈ t.entries, ∀ n ∈ e.1, '/' ∉ n))

theorem NoSlash.of_node {t : Tree} (h : t.NoSlash) {l : Location} {n : Node}
    (hn : t.node? l = some n) : ∀ m ∈ l, '/' ∉ m := by
  by_cases hl : l = []
  · rw [hl]
    exact List.forall_mem_nil _
  · exact h _ (mem_entries hl hn)

theorem SameKinds.noSlash {t u : Tree} (h : SameKinds t u) (hu : u.WellFormed)
    (ht : t.NoSlash) : u.NoSlash := by
  rintro ⟨l, n⟩ he
  have hn := hu.node?_of_mem he
  rcases h.cases l with ⟨-, hnone⟩ | ⟨hfolder, -⟩ | ⟨c, -, hfile, -⟩
  · rw [hn] at hnone
    cases hnone
  · exact ht.of_node hfolder
  · exact ht.of_node hfile

/-! ## The files of a walk -/

variable {t : Tree} {base : Location} {root : Path} {excluded : List Name}

theorem WellFormed.nodup_files (hw : t.WellFormed) : (t.files base excluded).Nodup := by
  unfold files
  rw [(List.mergeSort_perm _ _).nodup_iff]
  refine List.Nodup.filterMap ?_ (List.Nodup.of_map _ hw.once)
  -- what is found tells the entry: its location from the top and its content
  have hentry : ∀ e f, found? base excluded e = some f →
      e = (base ++ f.location, .file f.content) := by
    rintro ⟨l, n⟩ f h
    cases n with
    | folder => cases h
    | file c =>
      simp only [found?, Option.ite_none_right_eq_some, Option.some.injEq] at h
      obtain ⟨hwalk, rfl⟩ := h
      obtain ⟨rest, rfl, -, -⟩ := isWalked_eq_true_iff.mp hwalk
      rw [List.drop_left]
  intro e e' f h h'
  rw [hentry e f h, hentry e' f h']

theorem reached_sublist (h : t.resolve root = .ok base) :
    (t.reached root excluded).Sublist (t.files base excluded) := by
  rw [reached, h]
  exact List.filter_sublist

theorem ascending_reached (t : Tree) (root : Path) (excluded : List Name) :
    (t.reached root excluded).Pairwise fun a b => walksBefore a.location b.location = true := by
  cases h : t.resolve root with
  | ok base => exact (ascending_files t base excluded).sublist (reached_sublist h)
  | error e =>
    rw [reached, h]
    exact List.Pairwise.nil

theorem WellFormed.nodup_reached (hw : t.WellFormed) : (t.reached root excluded).Nodup := by
  cases h : t.resolve root with
  | ok base => exact hw.nodup_files.sublist (reached_sublist h)
  | error e =>
    rw [reached, h]
    exact List.nodup_nil

theorem WellFormed.found_eq (hw : t.WellFormed) {f f' : Found} (h : f ∈ t.reached root excluded)
    (h' : f' ∈ t.reached root excluded) (e : f.location = f'.location) : f = f' := by
  obtain ⟨base, hbase, hf, -⟩ := hw.mem_reached.mp h
  obtain ⟨base', hbase', hf', -⟩ := hw.mem_reached.mp h'
  rw [hbase] at hbase'
  cases hbase'
  rw [e, hf'] at hf
  obtain ⟨l, c⟩ := f
  obtain ⟨l', c'⟩ := f'
  cases hf
  rw [show l = l' from e]

/-- The locations that a walk comes to are in its order, each of them once. -/
theorem WellFormed.reached_ascend (hw : t.WellFormed) :
    (t.reached root excluded).Pairwise fun a b =>
      walksBefore a.location b.location = true ∧ a.location ≠ b.location :=
  (ascending_reached t root excluded).imp₂ (fun _ _ hwalk hne => ⟨hwalk, hne⟩)
    (List.Pairwise.imp_of_mem (fun hf hg hne e => hne (hw.found_eq hf hg e)) hw.nodup_reached)

/-- Whether no name on the way to a file of a walk has a slash. -/
def PlainWalk (t : Tree) (root : Path) (excluded : List Name) : Prop :=
  ∀ f ∈ t.reached root excluded, ∀ n ∈ f.location, '/' ∉ n

theorem NoSlash.plainWalk (hs : t.NoSlash) (hw : t.WellFormed) : t.PlainWalk root excluded := by
  intro f hf n hn
  obtain ⟨base, -, hf, -⟩ := hw.mem_reached.mp hf
  exact hs.of_node hf n (List.mem_append_right _ hn)

/-- Different files have different paths. -/
theorem WellFormed.found_eq_of_path (hw : t.WellFormed) (hs : t.PlainWalk root excluded)
    {f f' : Found} (h : f ∈ t.reached root excluded) (h' : f' ∈ t.reached root excluded)
    (e : f.path = f'.path) : f = f' := by
  obtain ⟨-, -, -, hne, -⟩ := hw.mem_reached.mp h
  obtain ⟨-, -, -, hne', -⟩ := hw.mem_reached.mp h'
  exact hw.found_eq h h' (Path.relativeText_inj hne hne' (hs f h) (hs f' h') e)

end Tree

end Marginalia
