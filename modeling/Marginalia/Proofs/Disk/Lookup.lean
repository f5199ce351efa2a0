import Marginalia.Disk.Walk
import Mathlib.Data.List.Basic
import Mathlib.Data.List.Induction

/-!
# Looking up in a tree

What an entry put into a tree does to every lookup. `Tree.WellFormed` is what a tree is to be: every
location but the top is entered once, in a folder and under a name that a folder may hold.
-/

namespace Marginalia

namespace Tree

open Disk (Fault)

/-! ## Entries -/

@[simp] theorem node?_nil (t : Tree) : t.node? [] = some .folder := rfl

theorem node?_of_ne_nil {t : Tree} {l : Location} (h : l ≠ []) :
    t.node? l = t.entries.lookup l := by
  simp [node?, h]

theorem lookup_filter_ne {l k : Location} (h : k ≠ l) (es : List (Location × Node)) :
    (es.filter fun e => e.1 != l).lookup k = es.lookup k := by
  induction es with
  | nil => rfl
  | cons e es ih =>
    obtain ⟨m, n⟩ := e
    by_cases hm : m = l
    · subst hm
      have hk : (k == m) = false := by simpa using h
      simp [List.lookup_cons, hk, ih]
    · have hb : (m != l) = true := by simpa using hm
      simp only [List.filter_cons, hb, if_true, List.lookup_cons, ih]

theorem node?_insert_self (t : Tree) {l : Location} (h : l ≠ []) (n : Node) :
    (t.insert l n).node? l = some n := by
  rw [node?_of_ne_nil h]
  simp [insert]

theorem node?_insert_of_ne (t : Tree) {k l : Location} (h : k ≠ l) (n : Node) :
    (t.insert l n).node? k = t.node? k := by
  by_cases hk : k = []
  · subst hk; rfl
  · rw [node?_of_ne_nil hk, node?_of_ne_nil hk]
    have hb : (k == l) = false := by simpa using h
    simp only [insert, List.lookup_cons, hb]
    exact lookup_filter_ne h t.entries

theorem node?_insert (t : Tree) {l : Location} (h : l ≠ []) (n : Node) (k : Location) :
    (t.insert l n).node? k = if k = l then some n else t.node? k := by
  split
  · next e => subst e; exact node?_insert_self t h n
  · next e => exact node?_insert_of_ne t e n

theorem insert_insert (t : Tree) (l : Location) (m n : Node) :
    (t.insert l m).insert l n = t.insert l n := by
  simp [insert]

theorem mem_of_lookup {l : Location} {n : Node} {es : List (Location × Node)}
    (h : es.lookup l = some n) : (l, n) ∈ es := by
  obtain ⟨xs, ys, rfl, -⟩ := List.lookup_eq_some_iff.mp h
  simp

theorem mem_entries {t : Tree} {l : Location} {n : Node} (hl : l ≠ []) (h : t.node? l = some n) :
    (l, n) ∈ t.entries :=
  mem_of_lookup (by rwa [node?_of_ne_nil hl] at h)

/-! ## Well-formed trees -/

/-- A name that an entry of a folder may have. -/
structure IsName (n : Name) : Prop where
  not_above : n ≠ Path.above
  no_nul : '\x00' ∉ n
  short : Utf8.size n ≤ Disk.longestName

/-- Whether something may be put at a location. -/
def CanHold (t : Tree) (l : Location) : Prop :=
  l = [] ∨ (t.node? l.dropLast = some .folder ∧ ∀ n, l.getLast? = some n → IsName n)

structure WellFormed (t : Tree) : Prop where
  once : (t.entries.map Prod.fst).Nodup
  inFolder : ∀ e ∈ t.entries, e.1 ≠ [] ∧ t.CanHold e.1

instance (n : Name) : Decidable (IsName n) :=
  decidable_of_iff (n ≠ Path.above ∧ '\x00' ∉ n ∧ Utf8.size n ≤ Disk.longestName)
    ⟨fun ⟨h1, h2, h3⟩ => ⟨h1, h2, h3⟩, fun ⟨h1, h2, h3⟩ => ⟨h1, h2, h3⟩⟩

instance (t : Tree) (l : Location) : Decidable (t.CanHold l) :=
  inferInstanceAs (Decidable (l = [] ∨ (t.node? l.dropLast = some .folder ∧
    ∀ n, l.getLast? = some n → IsName n)))

instance (t : Tree) : Decidable t.WellFormed :=
  decidable_of_iff ((t.entries.map Prod.fst).Nodup ∧ ∀ e ∈ t.entries, e.1 ≠ [] ∧ t.CanHold e.1)
    ⟨fun ⟨h1, h2⟩ => ⟨h1, h2⟩, fun ⟨h1, h2⟩ => ⟨h1, h2⟩⟩

theorem lookup_of_mem {l : Location} {n : Node} {es : List (Location × Node)}
    (hn : (es.map Prod.fst).Nodup) (h : (l, n) ∈ es) : es.lookup l = some n := by
  induction es with
  | nil => cases h
  | cons e es ih =>
    obtain ⟨m, k⟩ := e
    rw [List.map_cons, List.nodup_cons] at hn
    rcases List.mem_cons.mp h with h | h
    · cases h; simp
    · have hne : l ≠ m := fun e => hn.1 (List.mem_map.mpr ⟨(l, n), h, e⟩)
      have hb : (l == m) = false := by simpa using hne
      rw [List.lookup_cons, hb]
      exact ih hn.2 h

theorem WellFormed.node?_of_mem {t : Tree} (hw : t.WellFormed) {l : Location} {n : Node}
    (h : (l, n) ∈ t.entries) : t.node? l = some n := by
  rw [node?_of_ne_nil (hw.inFolder _ h).1]
  exact lookup_of_mem hw.once h

theorem CanHold.folder_above {t : Tree} {l : Location} (h : t.CanHold l) :
    t.node? l.dropLast = some .folder := by
  rcases h with rfl | h
  · rfl
  · exact h.1

theorem CanHold.isName {t : Tree} {l : Location} {n : Name} (h : t.CanHold (l ++ [n])) :
    IsName n := by
  rcases h with h | h
  · simp at h
  · exact h.2 n (by simp)

theorem WellFormed.canHold {t : Tree} (hw : t.WellFormed) {l : Location} {n : Node}
    (h : t.node? l = some n) : t.CanHold l := by
  by_cases hl : l = []
  · exact .inl hl
  · exact (hw.inFolder _ (mem_entries hl h)).2

theorem WellFormed.folder_above {t : Tree} (hw : t.WellFormed) {l : Location} {n : Node}
    (h : t.node? l = some n) : t.node? l.dropLast = some .folder :=
  (hw.canHold h).folder_above

theorem WellFormed.isName_of_mem {t : Tree} (hw : t.WellFormed) {l : Location} {n : Node}
    (h : t.node? l = some n) {name : Name} (hm : name ∈ l) : IsName name := by
  induction l using List.reverseRecOn generalizing n with
  | nil => cases hm
  | append_singleton l last ih =>
    rcases List.mem_append.mp hm with hm | hm
    · have hup : t.node? l = some .folder := by simpa using hw.folder_above h
      exact ih hup hm
    · rw [List.mem_singleton.mp hm]
      exact (hw.canHold h).isName

theorem WellFormed.empty : ({} : Tree).WellFormed :=
  ⟨List.nodup_nil, fun _ h => by cases h⟩

theorem WellFormed.insert {t : Tree} (hw : t.WellFormed) {l : Location} {n : Node} (hl : l ≠ [])
    (hold : t.CanHold l) (hkeep : t.node? l = some .folder → n = .folder) :
    (t.insert l n).WellFormed := by
  -- the folder above an entry is still one: it is another location, or stays a folder itself
  have hstay : ∀ k, t.node? k = some .folder → (t.insert l n).node? k = some .folder := by
    intro k hk
    rw [node?_insert t hl]
    split
    · next e => subst e; rw [hkeep hk]
    · exact hk
  have hholds : ∀ k, t.CanHold k → (t.insert l n).CanHold k := by
    rintro k (rfl | ⟨hk, hname⟩)
    · exact .inl rfl
    · exact .inr ⟨hstay _ hk, hname⟩
  constructor
  · simp only [Tree.insert, List.map_cons, List.nodup_cons]
    constructor
    · simp
    · exact hw.once.sublist ((List.filter_sublist ..).map _)
  · intro e he
    rcases List.mem_cons.mp he with rfl | he
    · exact ⟨hl, hholds _ hold⟩
    · have hm := (List.mem_filter.mp he).1
      exact ⟨(hw.inFolder e hm).1, hholds _ (hw.inFolder e hm).2⟩

/-- Below what is no folder there is nothing. -/
theorem WellFormed.none_below {t : Tree} (hw : t.WellFormed) {l : Location}
    (h : t.node? l ≠ some .folder) (rest : List Name) (hr : rest ≠ []) :
    t.node? (l ++ rest) = none := by
  induction rest using List.reverseRecOn with
  | nil => exact absurd rfl hr
  | append_singleton rest n ih =>
    cases hn : t.node? (l ++ (rest ++ [n])) with
    | none => rfl
    | some x =>
      have hup := hw.folder_above hn
      rw [← List.append_assoc, List.dropLast_concat] at hup
      by_cases he : rest = []
      · subst he; rw [List.append_nil] at hup; exact absurd hup h
      · rw [ih he] at hup; cases hup

/-! ## The entries of a folder -/

theorem mem_children {t : Tree} {l : Location} {name : Name} {n : Node} :
    (name, n) ∈ t.children l ↔ (l ++ [name], n) ∈ t.entries := by
  simp only [children, List.mem_mergeSort, List.mem_filterMap]
  constructor
  · rintro ⟨⟨k, m⟩, hm, hk⟩
    cases hlast : k.getLast? with
    | none => simp [hlast] at hk
    | some last =>
      simp only [hlast] at hk
      split at hk
      · next hd =>
        have hd : k.dropLast = l := by simpa using hd
        obtain ⟨rfl, rfl⟩ := Prod.mk.inj (Option.some.inj hk)
        have hk0 : k ≠ [] := by intro e; subst e; cases hlast
        have : k = l ++ [last] := by
          rw [← List.dropLast_append_getLast? last hlast, hd]
        rwa [← this]
      · cases hk
  · intro h
    exact ⟨_, h, by simp⟩

theorem WellFormed.mem_children_iff {t : Tree} (hw : t.WellFormed) {l : Location} {name : Name}
    {n : Node} : (name, n) ∈ t.children l ↔ t.node? (l ++ [name]) = some n := by
  rw [mem_children]
  exact ⟨hw.node?_of_mem, mem_entries (by simp)⟩

end Tree

end Marginalia
