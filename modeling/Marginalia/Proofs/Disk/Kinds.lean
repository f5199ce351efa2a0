import Marginalia.Proofs.Disk.Resolve
import Mathlib.Data.Char
import Mathlib.Data.List.Lex
import Mathlib.Data.List.Nodup

/-!
# Trees with the same folders and files

Two trees that have folders and files at the same places, whatever the files hold (`SameKinds`), agree
on all that does not read a file: where paths lead (`SameKinds.resolve_eq`), what is at them, and what
the folders hold, by name and in order (`SameKinds.listing_eq`).
-/

namespace Marginalia

/-- Whether a node is a folder. -/
def Node.isFolder (n : Node) : Bool := n == .folder

namespace Tree

/-- Whether two trees have folders and files at the same places. -/
def SameKinds (t u : Tree) : Prop :=
  ∀ l, (u.node? l).map Node.isFolder = (t.node? l).map Node.isFolder

variable {t u v : Tree}

namespace SameKinds

theorem refl (t : Tree) : SameKinds t t := fun _ => rfl

theorem trans (h : SameKinds t u) (h' : SameKinds u v) : SameKinds t v :=
  fun l => (h' l).trans (h l)

/-- At each place both trees have nothing, a folder or a file. -/
theorem cases (h : SameKinds t u) (l : Location) : (t.node? l = none ∧ u.node? l = none) ∨
    (t.node? l = some .folder ∧ u.node? l = some .folder) ∨
    ∃ c c', t.node? l = some (.file c) ∧ u.node? l = some (.file c') := by
  have hl := h l
  cases ht : t.node? l with
  | none =>
    cases hu : u.node? l with
    | none => exact .inl ⟨rfl, rfl⟩
    | some m => rw [ht, hu] at hl; cases hl
  | some n =>
    cases hu : u.node? l with
    | none => rw [ht, hu] at hl; cases hl
    | some m =>
      rw [ht, hu, Option.map_some, Option.map_some, Option.some.injEq] at hl
      cases n with
      | folder =>
        cases m with
        | folder => exact .inr (.inl ⟨rfl, rfl⟩)
        | file c => cases hl
      | file c =>
        cases m with
        | folder => cases hl
        | file c' => exact .inr (.inr ⟨c, c', rfl, rfl⟩)

/-- A file in the place of a file. -/
theorem insert_file {l : Location} (hl : l ≠ []) {c : Content} (h : t.node? l = some (.file c))
    (c' : Content) : SameKinds t (t.insert l (.file c')) := by
  intro k
  rw [node?_insert t hl]
  split
  · next hk => rw [hk, h]; rfl
  · rfl

theorem file_of_file (h : SameKinds t u) {l : Location} {c : Content}
    (hl : t.node? l = some (.file c)) : ∃ c', u.node? l = some (.file c') := by
  rcases h.cases l with ⟨ht, -⟩ | ⟨ht, -⟩ | ⟨-, c', -, hu⟩
  · rw [hl] at ht; cases ht
  · rw [hl] at ht; cases ht
  · exact ⟨c', hu⟩

/-! ## Paths -/

theorem follow_eq (h : SameKinds t u) (l : Location) (parts : List Name) :
    u.follow l parts = t.follow l parts := by
  induction parts generalizing l with
  | nil => rfl
  | cons n parts ih =>
    simp only [follow]
    rcases h.cases l with ⟨ht, hu⟩ | ⟨ht, hu⟩ | ⟨c, c', ht, hu⟩
    · rw [ht, hu]
    · rw [ht, hu]
      simp only [ih]
    · rw [ht, hu]

theorem resolve_eq (h : SameKinds t u) (p : Path) : u.resolve p = t.resolve p := by
  rw [Tree.resolve_eq, Tree.resolve_eq, h.follow_eq]

theorem holds_eq (h : SameKinds t u) {kind : Node → Bool}
    (hkind : ∀ c c', kind (.file c) = kind (.file c')) (p : Path) :
    u.holds kind p = t.holds kind p := by
  unfold holds stat
  rw [h.resolve_eq]
  cases t.resolve p with
  | error e => rfl
  | ok l =>
    rcases h.cases l with ⟨ht, hu⟩ | ⟨ht, hu⟩ | ⟨c, c', ht, hu⟩
    · simp only [ht, hu]
    · simp only [ht, hu]
    · simp only [ht, hu, hkind c c']

theorem isFile_eq (h : SameKinds t u) (p : Path) : u.isFile p = t.isFile p :=
  h.holds_eq (fun _ _ => rfl) p

theorem isFolder_eq (h : SameKinds t u) (p : Path) : u.isFolder p = t.isFolder p :=
  h.holds_eq (fun _ _ => rfl) p

end SameKinds

/-- A path to another file reads what it read before. -/
theorem readText_insert_of_ne {l : Location} (hl : l ≠ []) {c : Content}
    (hc : t.node? l = some (.file c)) (c' : Content) {p : Path} (hp : t.resolve p ≠ .ok l) :
    (t.insert l (.file c')).readText p = t.readText p := by
  rw [readText, readText, (SameKinds.insert_file hl hc c').resolve_eq]
  cases hr : t.resolve p with
  | error e => rfl
  | ok k =>
    have hk : k ≠ l := fun e => hp (by rw [hr, e])
    simp only [bind, Except.bind, contentAt, node?_insert_of_ne t hk]

/-! ## Folders -/

theorem WellFormed.names_ascend (hw : t.WellFormed) (l : Location) :
    (t.children l).Pairwise fun a b => a.1 < b.1 := by
  have hsorted : (t.children l).Pairwise fun a b => ¬b.1 < a.1 := by
    have hsort : ∀ es : List (Name × Node),
        (es.mergeSort fun a b => !decide (b.1 < a.1)).Pairwise
          fun a b => (!decide (b.1 < a.1)) = true :=
      List.pairwise_mergeSort
        (fun a b c hab hbc => by
          simp only [Bool.not_eq_true', decide_eq_false_iff_not, not_lt] at hab hbc ⊢
          exact le_trans hab hbc)
        fun a b => by
          simp only [Bool.or_eq_true, Bool.not_eq_true', decide_eq_false_iff_not, not_lt]
          exact le_total a.1 b.1
    exact (hsort _).imp fun h => by simpa using h
  have hnodup : (t.children l).Nodup := by
    refine (List.mergeSort_perm _ _).nodup_iff.mpr ?_
    refine List.Nodup.filterMap (fun e e' b hb hb' => ?_) (List.Nodup.of_map _ hw.once)
    -- what is listed of an entry tells the entry, which is seen in the tree of this entry alone
    have hentry : ∀ e, b ∈ (⟨[e]⟩ : Tree).children l → e = (l ++ [b.1], b.2) := fun e h =>
      (List.mem_singleton.mp (mem_children.mp h)).symm
    rw [hentry e (List.mem_mergeSort.mpr (List.mem_filterMap.mpr ⟨e, List.mem_singleton_self e, hb⟩)),
      hentry e' (List.mem_mergeSort.mpr (List.mem_filterMap.mpr ⟨e', List.mem_singleton_self e', hb'⟩))]
  have hnames : (t.children l).Pairwise fun a b => a.1 ≠ b.1 := by
    refine List.Pairwise.imp_of_mem ?_ hnodup
    rintro ⟨name, n⟩ ⟨name', n'⟩ ha hb hne e
    obtain rfl : name = name' := e
    have hn := hw.mem_children_iff.mp ha
    rw [hw.mem_children_iff.mp hb] at hn
    cases hn
    exact hne rfl
  exact hsorted.imp₂ (fun _ _ h hne => lt_of_le_of_ne (not_lt.mp h) hne) hnames

/-- The names in a folder, with whether they are folders. -/
def namesIn (t : Tree) (l : Location) : List (Name × Bool) :=
  (t.children l).map fun e => (e.1, e.2.isFolder)

theorem SameKinds.namesIn_eq (h : SameKinds t u) (ht : t.WellFormed) (hu : u.WellFormed)
    (l : Location) : u.namesIn l = t.namesIn l := by
  have hasc : ∀ {w : Tree}, w.WellFormed → (w.namesIn l).Pairwise fun a b => a.1 < b.1 :=
    fun hw => List.pairwise_map.mpr (hw.names_ascend l)
  have hmem : ∀ {w : Tree}, w.WellFormed → ∀ a, a ∈ w.namesIn l ↔
      (w.node? (l ++ [a.1])).map Node.isFolder = some a.2 := by
    rintro w hw ⟨name, b⟩
    unfold namesIn
    rw [List.mem_map, Option.map_eq_some_iff]
    constructor
    · rintro ⟨⟨m, n⟩, hm, e⟩
      cases e
      exact ⟨n, hw.mem_children_iff.mp hm, rfl⟩
    · rintro ⟨n, hn, e⟩
      exact ⟨(name, n), hw.mem_children_iff.mpr hn, by rw [e]⟩
  have hnodup : ∀ {w : Tree}, w.WellFormed → (w.namesIn l).Nodup :=
    fun hw => (hasc hw).imp fun hlt e => absurd hlt (by rw [e]; exact lt_irrefl _)
  refine ((List.perm_ext_iff_of_nodup (hnodup hu) (hnodup ht)).mpr fun a => ?_).eq_of_pairwise
    (fun a b _ _ hab hba => absurd hba (lt_asymm hab)) (hasc hu) (hasc ht)
  rw [hmem hu, hmem ht, h]

/-- The names in a folder are the same in both trees. -/
theorem SameKinds.listing_eq (h : SameKinds t u) (ht : t.WellFormed) (hu : u.WellFormed) (p : Path) :
    (u.listing p).map (List.map Prod.fst) = (t.listing p).map (List.map Prod.fst) := by
  unfold listing
  rw [h.resolve_eq]
  cases t.resolve p with
  | error e => rfl
  | ok l =>
    have hnames := congrArg (List.map Prod.fst) (h.namesIn_eq ht hu l)
    unfold namesIn at hnames
    rw [List.map_map, List.map_map] at hnames
    rcases h.cases l with ⟨hl, hl'⟩ | ⟨hl, hl'⟩ | ⟨c, c', hl, hl'⟩
    · simp only [hl, hl', Except.map]
    · simp only [hl, hl']
      exact congrArg Except.ok hnames
    · simp only [hl, hl', Except.map]

/-- What is selected from them is told by what is answered about paths. -/
theorem SameKinds.select_eq (h : SameKinds t u) (ht : t.WellFormed) (hu : u.WellFormed)
    {question question' : Path → Except Disk.Fault Bool} (hsame : ∀ q, question' q = question q)
    (p : Path) : ((u.listing p).bind fun es => select question' p (es.map Prod.fst)) =
      (t.listing p).bind fun es => select question p (es.map Prod.fst) := by
  obtain rfl : question' = question := funext hsame
  have hlist := h.listing_eq ht hu p
  have hbind : ∀ r : Except Disk.Fault (List (Name × Node)),
      (r.bind fun es => select question' p (es.map Prod.fst)) =
        (r.map (List.map Prod.fst)).bind (select question' p) := fun r => by cases r <;> rfl
  rw [hbind, hbind, hlist]

theorem SameKinds.filesIn_eq (h : SameKinds t u) (ht : t.WellFormed) (hu : u.WellFormed)
    (p : Path) : u.filesIn p = t.filesIn p := h.select_eq ht hu h.isFile_eq p

theorem SameKinds.foldersIn_eq (h : SameKinds t u) (ht : t.WellFormed) (hu : u.WellFormed)
    (p : Path) : u.foldersIn p = t.foldersIn p := h.select_eq ht hu h.isFolder_eq p

end Tree

end Marginalia
