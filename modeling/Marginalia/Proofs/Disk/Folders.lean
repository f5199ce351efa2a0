import Marginalia.Proofs.Disk.Resolve

/-!
# Making folders

`Tree.makeFolders` adds folders on the way of its path and changes nothing else, whether it fails or
not (`makeFolders_adds`). When it succeeds the path leads to a folder (`makeFolders_ok`), and it does
succeed when no file is on the way and the path is not too long or too deep (`makeFolders_succeeds`).
-/

namespace Marginalia

/-- The locations of the folders on the way, the last one included. -/
def visited : Location → List Name → List Location
  | _, [] => []
  | l, n :: rest =>
    if n = Path.above then visited l.dropLast rest else (l ++ [n]) :: visited (l ++ [n]) rest

theorem visited_of_plain {l k : Location} {parts : List Name} (h : Path.above ∉ parts)
    (hk : k ∈ visited l parts) : ∃ m, 0 < m ∧ m ≤ parts.length ∧ k = l ++ parts.take m := by
  induction parts generalizing l with
  | nil => cases hk
  | cons n parts ih =>
    rw [List.mem_cons, not_or] at h
    rw [visited, if_neg (Ne.symm h.1), List.mem_cons] at hk
    rcases hk with rfl | hk
    · exact ⟨1, by omega, by simp, by simp⟩
    · obtain ⟨m, hm, hle, rfl⟩ := ih h.2 hk
      exact ⟨m + 1, by omega, by simpa using hle, by simp⟩

theorem visited_append (l : Location) (xs ys : List Name) :
    visited l (xs ++ ys) = visited l xs ++ visited (lead l xs) ys := by
  induction xs generalizing l with
  | nil => rfl
  | cons n xs ih =>
    simp only [List.cons_append, visited, lead]
    split
    · exact ih _
    · rw [ih]; rfl

theorem length_visited_le {l k : Location} {parts : List Name} (hk : k ∈ visited l parts) :
    k.length ≤ l.length + parts.length := by
  induction parts generalizing l with
  | nil => cases hk
  | cons n parts ih =>
    rw [visited] at hk
    split at hk
    · have hle := ih hk
      rw [List.length_dropLast] at hle
      rw [List.length_cons]
      omega
    · rcases List.mem_cons.mp hk with rfl | hk
      · rw [List.length_append, List.length_singleton, List.length_cons]
        omega
      · have hle := ih hk
        rw [List.length_append, List.length_singleton] at hle
        rw [List.length_cons]
        omega

/-! ## The length of a path -/

theorem Utf8.size_append (s s' : Text) : Utf8.size (s ++ s') = Utf8.size s + Utf8.size s' := by
  induction s with
  | nil => exact (Nat.zero_add _).symm
  | cons c s ih =>
    show c.utf8Size + Utf8.size (s ++ s') = c.utf8Size + Utf8.size s + Utf8.size s'
    omega

theorem Text.join_concat (mark : Text) {xs : List Text} (h : xs ≠ []) (s : Text) :
    Text.join mark (xs ++ [s]) = Text.join mark xs ++ (mark ++ s) := by
  induction xs with
  | nil => exact absurd rfl h
  | cons x xs ih =>
    cases xs with
    | nil => simp [Text.join]
    | cons y xs =>
      have := ih (by simp)
      rw [List.cons_append] at this
      simp only [List.cons_append, Text.join, this, List.append_assoc]

theorem Path.size_text_child (p : Path) (n : Name) :
    Utf8.size (p.child n).text ≤ Utf8.size p.text + 1 + Utf8.size n := by
  have hchild : (p.child n).text =
      List.replicate p.slashes '/' ++ Path.joined (p.parts ++ [n]) := by
    simp [Path.text, Path.child]
  have hsep : Utf8.size ['/'] = 1 := rfl
  rw [hchild, Path.joined]
  by_cases hp : p.parts = []
  · rw [hp, List.nil_append, Text.join, Utf8.size_append]
    cases ha : p.isAbsolute with
    | true =>
      have : p.text = List.replicate p.slashes '/' := by
        simp [Path.text, ha, hp, Path.joined, Text.join]
      rw [this]
      omega
    | false =>
      have : p.slashes = 0 := by simpa [Path.isAbsolute] using ha
      rw [this]
      have h0 : Utf8.size (List.replicate 0 '/') = 0 := rfl
      omega
  · have htext : p.text = List.replicate p.slashes '/' ++ Text.join ['/'] p.parts := by
      simp [Path.text, hp, Path.joined]
    rw [htext, Text.join_concat _ hp, Utf8.size_append, Utf8.size_append, Utf8.size_append,
      Utf8.size_append, hsep]
    omega

namespace Tree

/-- The second tree is the first with folders put where nothing was, at some of the locations. -/
def AddsFolders (ls : List Location) (t t' : Tree) : Prop :=
  ∀ k, t'.node? k = t.node? k ∨ (k ∈ ls ∧ t.node? k = none ∧ t'.node? k = some .folder)

theorem AddsFolders.refl (ls : List Location) (t : Tree) : AddsFolders ls t t := fun _ => .inl rfl

theorem AddsFolders.trans {ls : List Location} {t t' t'' : Tree} (h : AddsFolders ls t t')
    (h' : AddsFolders ls t' t'') : AddsFolders ls t t'' := by
  intro k
  rcases h k with e | ⟨hk, hn, hf⟩
  · rcases h' k with e' | ⟨hk', hn', hf'⟩
    · exact .inl (e'.trans e)
    · exact .inr ⟨hk', by rw [← e, hn'], hf'⟩
  · rcases h' k with e' | ⟨-, hn', -⟩
    · exact .inr ⟨hk, hn, by rw [e', hf]⟩
    · rw [hf] at hn'; cases hn'

theorem AddsFolders.mono {ls ls' : List Location} {t t' : Tree} (h : AddsFolders ls t t')
    (hsub : ∀ k ∈ ls, k ∈ ls') : AddsFolders ls' t t' := by
  intro k
  rcases h k with e | ⟨hk, hn, hf⟩
  · exact .inl e
  · exact .inr ⟨hsub k hk, hn, hf⟩

/-- The second tree has more folders and is the first otherwise. -/
def MoreFolders (t t' : Tree) : Prop :=
  ∀ k, t'.node? k = t.node? k ∨ (t.node? k = none ∧ t'.node? k = some .folder)

theorem MoreFolders.refl (t : Tree) : MoreFolders t t := fun _ => .inl rfl

theorem MoreFolders.extends {t t' : Tree} (h : MoreFolders t t') : Extends t t' := by
  intro k n hk
  rcases h k with e | ⟨hn, -⟩
  · rw [e, hk]
  · rw [hn] at hk; cases hk

theorem AddsFolders.more {ls : List Location} {t t' : Tree} (h : AddsFolders ls t t') :
    MoreFolders t t' := fun k => (h k).imp_right fun ⟨_, hn, hf⟩ => ⟨hn, hf⟩

theorem AddsFolders.extends {ls : List Location} {t t' : Tree} (h : AddsFolders ls t t') :
    Extends t t' := h.more.extends

/-- The files are the same, with the same contents, but for some places. -/
def SameFiles (ls : List Location) (t t' : Tree) : Prop :=
  ∀ k, k ∉ ls → ∀ c, t'.node? k = some (.file c) ↔ t.node? k = some (.file c)

theorem SameFiles.refl (ls : List Location) (t : Tree) : SameFiles ls t t := fun _ _ _ => Iff.rfl

theorem SameFiles.trans {ls ls' : List Location} {t t' t'' : Tree} (h : SameFiles ls t t')
    (h' : SameFiles ls' t' t'') : SameFiles (ls ++ ls') t t'' := by
  intro k hk c
  rw [List.mem_append, not_or] at hk
  exact (h' k hk.2 c).trans (h k hk.1 c)

theorem MoreFolders.sameFiles {t t' : Tree} (h : MoreFolders t t') : SameFiles [] t t' := by
  intro k _ c
  rcases h k with e | ⟨hn, hf⟩
  · rw [e]
  · simp [hn, hf]

theorem sameFiles_insert (t : Tree) (l : Location) (n : Node) : SameFiles [l] t (t.insert l n) := by
  intro k hk c
  rw [node?_insert_of_ne t fun e => hk (List.mem_singleton.mpr e)]

theorem AddsFolders.foldersStay {ls : List Location} {t t' : Tree} (h : AddsFolders ls t t') :
    FoldersStay t t' := h.extends.foldersStay

theorem AddsFolders.file_iff {ls : List Location} {t t' : Tree} (h : AddsFolders ls t t')
    (k : Location) (c : Content) : t'.node? k = some (.file c) ↔ t.node? k = some (.file c) := by
  rcases h k with e | ⟨-, hn, hf⟩
  · rw [e]
  · simp [hn, hf]

theorem AddsFolders.of_not_mem {ls : List Location} {t t' : Tree} (h : AddsFolders ls t t')
    {k : Location} (hk : k ∉ ls) : t'.node? k = t.node? k := by
  rcases h k with e | ⟨hk', -, -⟩
  · exact e
  · exact absurd hk' hk

theorem addsFolders_insert {t : Tree} {l : Location} {ls : List Location} (hl : l ∈ ls)
    (h : t.node? l = none) : AddsFolders ls t (t.insert l .folder) := by
  intro k
  by_cases e : k = l
  · subst e
    have hne : k ≠ [] := by intro e; subst e; cases h
    exact .inr ⟨hl, h, node?_insert_self t hne _⟩
  · exact .inl (node?_insert_of_ne t e _)

/-- All folders stay, and the locations of new ones have at most so many names. -/
structure GrowsWithin (n : Nat) (t t' : Tree) : Prop where
  stay : FoldersStay t t'
  new : ∀ l, t'.node? l = some .folder → t.node? l = some .folder ∨ l.length ≤ n

namespace GrowsWithin

variable {n : Nat} {t t' t'' : Tree}

theorem refl (n : Nat) (t : Tree) : GrowsWithin n t t := ⟨fun _ hl => hl, fun _ hl => .inl hl⟩

theorem trans (h : GrowsWithin n t t') (h' : GrowsWithin n t' t'') : GrowsWithin n t t'' :=
  ⟨fun l hl => h'.stay l (h.stay l hl), fun l hl => (h'.new l hl).elim (h.new l) .inr⟩

theorem mono {m : Nat} (h : GrowsWithin n t t') (hle : n ≤ m) : GrowsWithin m t t' :=
  ⟨h.stay, fun l hl => (h.new l hl).imp_right fun hn => Nat.le_trans hn hle⟩

theorem insert_file {l : Location} (hl : l ≠ []) (hfree : t.node? l ≠ some .folder) (n : Nat)
    (c : Content) : GrowsWithin n t (t.insert l (.file c)) := by
  refine ⟨foldersStay_insert t _ hfree, fun k hk => .inl ?_⟩
  rw [node?_insert t hl] at hk
  split at hk
  · cases hk
  · exact hk

end GrowsWithin

/-- Folders on the way to a path are no deeper than it has names. -/
theorem AddsFolders.growsWithin {n : Nat} {t t' : Tree} {parts : List Name}
    (h : AddsFolders (visited [] parts) t t') (hle : parts.length ≤ n) : GrowsWithin n t t' := by
  refine ⟨h.foldersStay, fun l hl => ?_⟩
  rcases h l with e | ⟨hvisited, -, -⟩
  · exact .inl (e ▸ hl)
  · have hlength := length_visited_le hvisited
    rw [List.length_nil, Nat.zero_add] at hlength
    exact .inr (Nat.le_trans hlength hle)

/-! ## Going down -/

/-- What going down from a folder leaves, and where it arrives when nothing stops it. -/
theorem descend_spec {t : Tree} (hw : t.WellFormed) (made : Bool) {l : Location}
    {parts : List Name} (hl : t.node? l = some .folder) (hnul : ∀ n ∈ parts, '\x00' ∉ n) :
    (t.descend made l parts).1.WellFormed ∧
      AddsFolders (visited l parts) t (t.descend made l parts).1 ∧
      ((t.descend made l parts).2 = none →
        (t.descend made l parts).1.follow l parts = .ok (lead l parts) ∧
        (t.descend made l parts).1.node? (lead l parts) = some .folder) := by
  induction parts generalizing t l made with
  | nil => exact ⟨hw, AddsFolders.refl _ _, fun _ => ⟨rfl, hl⟩⟩
  | cons n parts ih =>
    have hrest : ∀ m ∈ parts, '\x00' ∉ m := fun m hm => hnul m (List.mem_cons_of_mem _ hm)
    simp only [descend, visited, lead]
    split
    · next hn =>
      subst hn
      obtain ⟨h1, h2, h3⟩ := ih hw made (hw.folder_above hl) hrest
      refine ⟨h1, h2, fun h => ?_⟩
      obtain ⟨hf, hd⟩ := h3 h
      exact ⟨by simp only [follow, h2.foldersStay l hl, if_pos, hf], hd⟩
    · next hn =>
      split
      · exact ⟨hw, AddsFolders.refl _ _, fun h => by cases h⟩
      · next hs =>
        have hstep : ∀ {t' : Tree}, t'.node? l = some .folder →
            t'.follow l (n :: parts) = t'.follow (l ++ [n]) parts := by
          intro t' h'
          simp only [follow, h', if_neg hn, if_neg hs]
        split
        · next hfold =>
          obtain ⟨h1, h2, h3⟩ := ih hw made hfold hrest
          refine ⟨h1, h2.mono fun k hk => List.mem_cons_of_mem _ hk, fun h => ?_⟩
          obtain ⟨hf, hd⟩ := h3 h
          exact ⟨by rw [hstep (h2.foldersStay l hl), hf], hd⟩
        · exact ⟨hw, AddsFolders.refl _ _, fun h => by cases h⟩
        · next hnone =>
          split
          · exact ⟨hw, AddsFolders.refl _ _, fun h => by cases h⟩
          · have hne : l ++ [n] ≠ [] := by simp
            have hname : IsName n := ⟨hn, hnul n List.mem_cons_self, Nat.le_of_not_lt hs⟩
            have hold : t.CanHold (l ++ [n]) :=
              .inr ⟨by rwa [List.dropLast_concat], fun m hm => by
                rw [List.getLast?_append] at hm; cases hm; exact hname⟩
            have hadd : AddsFolders (visited l (n :: parts)) t (t.insert (l ++ [n]) .folder) :=
              addsFolders_insert (by simp [visited, hn]) hnone
            obtain ⟨h1, h2, h3⟩ := ih (hw.insert hne hold fun _ => rfl) true
              (node?_insert_self t hne _) hrest
            have hsub : ∀ k ∈ visited (l ++ [n]) parts, k ∈ visited l (n :: parts) :=
              fun k hk => by simp [visited, hn, hk]
            have hadd' := hadd.trans (h2.mono hsub)
            simp only [visited, if_neg hn] at hadd'
            refine ⟨h1, hadd', fun h => ?_⟩
            obtain ⟨hf, hd⟩ := h3 h
            exact ⟨by rw [hstep (hadd'.foldersStay l hl), hf], hd⟩

theorem descend_succeeds {t : Tree} (made : Bool) {l : Location} {parts : List Name}
    (hfree : ∀ k ∈ visited l parts, t.node? k = none ∨ t.node? k = some .folder)
    (hshort : ∀ n ∈ parts, Utf8.size n ≤ Disk.longestName) (hdeep : parts.length ≤ deepest) :
    (t.descend made l parts).2 = none := by
  induction parts generalizing t l made with
  | nil => rfl
  | cons n parts ih =>
    have hshort' : ∀ m ∈ parts, Utf8.size m ≤ Disk.longestName :=
      fun m hm => hshort m (List.mem_cons_of_mem _ hm)
    have hdeep' : parts.length + 1 ≤ deepest := by simpa using hdeep
    simp only [descend]
    split
    · next hn =>
      rw [visited, if_pos hn] at hfree
      exact ih made hfree hshort' (by omega)
    · next hn =>
      rw [visited, if_neg hn] at hfree
      rw [if_neg (Nat.not_lt.mpr (hshort n List.mem_cons_self))]
      have hrest : ∀ k ∈ visited (l ++ [n]) parts, t.node? k = none ∨ t.node? k = some .folder :=
        fun k hk => hfree k (List.mem_cons_of_mem _ hk)
      split
      · exact ih made hrest hshort' (by omega)
      · next c hc =>
        rcases hfree (l ++ [n]) List.mem_cons_self with h | h <;> rw [hc] at h <;> cases h
      · rw [if_neg (Nat.not_lt.mpr hdeep')]
        refine ih true (fun k hk => ?_) hshort' (by omega)
        by_cases e : k = l ++ [n]
        · subst e; exact .inr (node?_insert_self t (by simp) _)
        · rw [node?_insert_of_ne t e]; exact hrest k hk

/-- Who follows names to a folder starts in a folder. -/
theorem folder_of_follow {t : Tree} {l k : Location} {parts : List Name}
    (h : t.follow l parts = .ok k) (hk : t.node? k = some .folder) : t.node? l = some .folder := by
  cases parts with
  | nil =>
    cases h
    exact hk
  | cons n parts =>
    rw [follow] at h
    split at h
    · cases h
    · cases h
    · next hl => exact hl

/-- Who follows more names stopped at a folder before them. -/
theorem folder_of_follow_append {t : Tree} {l k : Location} {xs ys : List Name}
    (h : t.follow l (xs ++ ys) = .ok k) (hys : ys ≠ []) :
    ∃ m, t.follow l xs = .ok m ∧ t.node? m = some .folder := by
  rw [follow_append] at h
  cases hx : t.follow l xs with
  | error f =>
    rw [hx] at h
    cases h
  | ok m =>
    rw [hx] at h
    obtain ⟨n, rest, rfl⟩ := List.exists_cons_of_ne_nil hys
    have h : t.follow m (n :: rest) = .ok k := h
    refine ⟨m, rfl, ?_⟩
    rw [follow] at h
    split at h
    · cases h
    · cases h
    · next hm => exact hm

/-- All that is visited on the way to a folder are folders. -/
theorem folder_of_visited {t : Tree} {l k m : Location} {parts : List Name}
    (h : t.follow l parts = .ok k) (hk : t.node? k = some .folder) (hm : m ∈ visited l parts) :
    t.node? m = some .folder := by
  induction parts generalizing l with
  | nil => cases hm
  | cons n parts ih =>
    have hl := folder_of_follow h hk
    rw [visited] at hm
    simp only [follow, hl] at h
    split at hm
    · next hn =>
      rw [if_pos hn] at h
      exact ih h hm
    · next hn =>
      rw [if_neg hn] at h
      split at h
      · cases h
      · rcases List.mem_cons.mp hm with rfl | hm
        · exact folder_of_follow h hk
        · exact ih h hm

/-- Going down to a folder that is there makes nothing. -/
theorem descend_there {t : Tree} (made : Bool) {l k : Location} {parts : List Name}
    (h : t.follow l parts = .ok k) (hk : t.node? k = some .folder) :
    t.descend made l parts = (t, none) := by
  induction parts generalizing l with
  | nil => rfl
  | cons n parts ih =>
    have hl := folder_of_follow h hk
    simp only [follow, hl] at h
    rw [descend]
    split
    · next hn =>
      rw [if_pos hn] at h
      exact ih h
    · next hn =>
      rw [if_neg hn] at h
      split at h
      · cases h
      · next hs => simp only [if_neg hs, folder_of_follow h hk, ih h]

/-! ## Making the folders of a path -/

theorem makeFolders_adds {t : Tree} (hw : t.WellFormed) (p : Path) :
    (t.makeFolders p).1.WellFormed ∧ AddsFolders (visited [] p.parts) t (t.makeFolders p).1 := by
  unfold makeFolders
  split
  · exact ⟨hw, AddsFolders.refl _ _⟩
  · next hnul =>
    split
    · exact ⟨hw, AddsFolders.refl _ _⟩
    · have hnul : p.hasNul = false := by simpa using hnul
      obtain ⟨h1, h2, -⟩ := descend_spec hw false (l := []) rfl
        fun n hn => Path.no_nul_of_hasNul hnul hn
      exact ⟨h1, h2⟩

theorem makeFolders_ok {t : Tree} (hw : t.WellFormed) {p : Path}
    (h : (t.makeFolders p).2 = none) :
    (t.makeFolders p).1.resolve p = .ok (lead [] p.parts) ∧
      (t.makeFolders p).1.node? (lead [] p.parts) = some .folder := by
  unfold makeFolders at h ⊢
  split at h
  · cases h
  · next hnul =>
    rw [if_neg hnul]
    split at h
    · cases h
    · next hs =>
      rw [if_neg hs]
      have hnul : p.hasNul = false := by simpa using hnul
      obtain ⟨-, -, h3⟩ := descend_spec hw false (l := []) rfl
        fun n hn => Path.no_nul_of_hasNul hnul hn
      obtain ⟨hf, hd⟩ := h3 h
      exact ⟨resolve_eq_ok_iff.mpr ⟨hnul, Nat.le_of_not_lt hs, hf⟩, hd⟩

theorem makeFolders_there {t : Tree} {p : Path} (h : t.isFolder p = .ok true) :
    t.makeFolders p = (t, none) := by
  obtain ⟨l, hr, hl⟩ := isFolder_eq_true_iff.mp h
  obtain ⟨hnul, hshort, hfollow⟩ := resolve_eq_ok_iff.mp hr
  rw [makeFolders, if_neg (by simp [hnul]), if_neg (by omega), descend_there false hfollow hl]

/-- A path that the system takes: no name is too long or has a NUL, and there is room for `k` more
bytes behind it. -/
structure Fits (p : Path) (k : Nat) : Prop where
  no_nul : p.hasNul = false
  names : ∀ n ∈ p.parts, Utf8.size n ≤ Disk.longestName
  short : Utf8.size p.text + k ≤ Disk.longestPath

/-- A path to the top that leaves little room behind it: it has 3885 bytes. -/
def longRoot : Path := { slashes := 1, parts := List.replicate 1295 Path.above }

theorem Fits.mono {p : Path} {j k : Nat} (hp : Fits p k) (h : j ≤ k) : Fits p j := by
  have hshort := hp.short
  exact ⟨hp.no_nul, hp.names, by omega⟩

theorem makeFolders_succeeds {t : Tree} {p : Path} {k : Nat} (hp : Fits p k)
    (hshallow : p.parts.length ≤ deepest)
    (hfree : ∀ k ∈ visited [] p.parts, t.node? k = none ∨ t.node? k = some .folder) :
    (t.makeFolders p).2 = none := by
  have hs := hp.short
  unfold makeFolders
  rw [if_neg (by simp [hp.no_nul]), if_neg (by omega)]
  exact descend_succeeds false hfree hp.names hshallow

theorem Fits.child {p : Path} {j k : Nat} {n : Name} (hp : Fits p k) (hn : IsName n)
    (hroom : Utf8.size n + 1 + j ≤ k) : Fits (p.child n) j := by
  refine ⟨?_, ?_, ?_⟩
  · have := hn.no_nul
    simp [Path.hasNul_child, hp.no_nul, this]
  · intro m hm
    rw [Path.child_parts, List.mem_append, List.mem_singleton] at hm
    rcases hm with hm | rfl
    · exact hp.names m hm
    · exact hn.short
  · have h1 := hp.short
    have h2 := p.size_text_child n
    omega

/-- Below a path with room for any name there is the rest of the room. -/
theorem Fits.inside {p : Path} {k : Nat} {n : Name} (hp : Fits p (k + 256)) (hn : IsName n) :
    Fits (p.child n) k := by
  have hshort := hn.short
  rw [Disk.longestName] at hshort
  exact hp.child hn (by omega)

/-- Whether a file or a folder is at a path that the system takes can be told. -/
theorem Fits.holds {p : Path} {k : Nat} (hp : Fits p k) (t : Tree) (kind : Node → Bool) :
    ∃ b, t.holds kind p = .ok b := by
  have hfollow : ∀ l parts, (∀ n ∈ parts, Utf8.size n ≤ Disk.longestName) →
      t.follow l parts ≠ .error .nameTooLong := by
    intro l parts hshort
    induction parts generalizing l with
    | nil => simp [follow]
    | cons n parts ih =>
      have hrest : ∀ m ∈ parts, Utf8.size m ≤ Disk.longestName :=
        fun m hm => hshort m (List.mem_cons_of_mem _ hm)
      simp only [follow]
      split
      · simp
      · simp
      · split
        · exact ih _ hrest
        · rw [if_neg (Nat.not_lt.mpr (hshort n List.mem_cons_self))]
          exact ih _ hrest
  have hs := hp.short
  have hr : t.resolve p = t.follow [] p.parts := by
    rw [resolve_eq, hp.no_nul, if_neg (by simp), if_neg (by omega)]
  have hf := hfollow [] p.parts hp.names
  unfold Tree.holds stat
  rw [hr]
  cases hres : t.follow [] p.parts with
  | error f =>
    rw [hres] at hf
    cases f with
    | nameTooLong => exact absurd rfl hf
    | _ => exact ⟨false, rfl⟩
  | ok l =>
    cases hn : t.node? l with
    | none => exact ⟨false, by simp [hn]⟩
    | some n => exact ⟨kind n, by simp [hn]⟩

theorem Fits.resolve_child {t : Tree} {p : Path} {j k : Nat} {l : Location} {n : Name}
    (hp : Fits p k) (hn : IsName n) (hroom : Utf8.size n + 1 + j ≤ k)
    (hr : t.resolve p = .ok l) (hl : t.node? l = some .folder) :
    t.resolve (p.child n) = .ok (l ++ [n]) := by
  have hs := (hp.child hn hroom).short
  rw [Tree.resolve_child hr hl hn, if_neg (by omega)]

theorem Fits.resolve_inside {t : Tree} {p : Path} {k : Nat} {l : Location} {n : Name}
    (hp : Fits p (k + 256)) (hn : IsName n) (hr : t.resolve p = .ok l)
    (hl : t.node? l = some .folder) : t.resolve (p.child n) = .ok (l ++ [n]) := by
  have hshort := hn.short
  rw [Disk.longestName] at hshort
  exact hp.resolve_child (j := 0) hn (by omega) hr hl

/-- What has something in it is a folder. -/
theorem Fits.isFolder_of_resolve {t : Tree} {p : Path} {k : Nat} {n : Name} {l : Location}
    (hp : Fits p k) (h : t.resolve (p.child n) = .ok l) : t.isFolder p = .ok true := by
  obtain ⟨-, -, hfollow⟩ := resolve_eq_ok_iff.mp h
  obtain ⟨m, hup, hm⟩ := folder_of_follow_append hfollow (List.cons_ne_nil n [])
  have hshort := hp.short
  exact isFolder_eq_true_iff.mpr ⟨m, resolve_eq_ok_iff.mpr ⟨hp.no_nul, by omega, hup⟩, hm⟩

theorem Fits.isFolder_of_child {t : Tree} {p : Path} {k : Nat} {n : Name} (hp : Fits p k)
    (h : t.isFolder (p.child n) = .ok true) : t.isFolder p = .ok true := by
  obtain ⟨l, hr, -⟩ := isFolder_eq_true_iff.mp h
  exact hp.isFolder_of_resolve hr

/-! ## What is in a folder -/

/-- The names of what is of a kind in a folder, ascending. -/
def namesOf (t : Tree) (kind : Node → Bool) (l : Location) : List Name :=
  ((t.children l).filter fun e => kind e.2).map Prod.fst

/-- The names of the folders in a folder. -/
def folderNames (t : Tree) (l : Location) : List Name := t.namesOf (· == .folder) l

/-- The names of the files in a folder. -/
def fileNames (t : Tree) (l : Location) : List Name := t.namesOf (· != .folder) l

section Names

variable {t : Tree} {p : Path} {l : Location} {kind : Node → Bool} {name : Name} {names : List Name}

theorem WellFormed.mem_namesOf (hw : t.WellFormed) :
    name ∈ t.namesOf kind l ↔ ∃ n, t.node? (l ++ [name]) = some n ∧ kind n = true := by
  simp only [namesOf, List.mem_map, List.mem_filter, Prod.exists, exists_and_right, exists_eq_right,
    ← hw.mem_children_iff]

theorem WellFormed.mem_folderNames (hw : t.WellFormed) :
    name ∈ t.folderNames l ↔ t.node? (l ++ [name]) = some .folder := by
  simp [folderNames, hw.mem_namesOf]

theorem WellFormed.mem_fileNames (hw : t.WellFormed) :
    name ∈ t.fileNames l ↔ ∃ c, t.node? (l ++ [name]) = some (.file c) := by
  rw [fileNames, hw.mem_namesOf]
  constructor
  · rintro ⟨_ | c, hn, hkind⟩
    · cases hkind
    · exact ⟨c, hn⟩
  · rintro ⟨c, hc⟩
    exact ⟨_, hc, rfl⟩

/-- The answer about an entry of a folder is its kind, unless its path is too long. -/
theorem WellFormed.holds_child (hw : t.WellFormed) (hr : t.resolve p = .ok l)
    (hl : t.node? l = some .folder) {n : Node} (hn : t.node? (l ++ [name]) = some n) :
    t.holds kind (p.child name) =
      if Disk.longestPath < Utf8.size (p.child name).text then .error .nameTooLong
      else .ok (kind n) := by
  unfold holds stat
  rw [resolve_child hr hl (hw.canHold hn).isName]
  by_cases hlong : Disk.longestPath < Utf8.size (p.child name).text
  · simp only [if_pos hlong]
  · simp only [if_neg hlong, hn]

/-- Of what is in a folder those of a kind are selected when no path is too long, and else none. -/
theorem WellFormed.select_children (hw : t.WellFormed) (hr : t.resolve p = .ok l)
    (hl : t.node? l = some .folder) :
    select (t.holds kind) p ((t.children l).map Prod.fst) =
      if ∀ e ∈ t.children l, Utf8.size (p.child e.1).text ≤ Disk.longestPath then
        .ok (t.namesOf kind l)
      else .error .nameTooLong := by
  have hall : ∀ es : List (Name × Node), (∀ e ∈ es, t.node? (l ++ [e.1]) = some e.2) →
      select (t.holds kind) p (es.map Prod.fst) =
        if ∀ e ∈ es, Utf8.size (p.child e.1).text ≤ Disk.longestPath then
          .ok ((es.filter fun e => kind e.2).map Prod.fst)
        else .error .nameTooLong := by
    intro es hes
    induction es with
    | nil => simp [select]
    | cons e es ih =>
      have hrest := ih fun e' he' => hes e' (List.mem_cons_of_mem _ he')
      rw [List.map_cons, select, hw.holds_child hr hl (hes e List.mem_cons_self), hrest]
      simp only [List.forall_mem_cons]
      by_cases hlong : Disk.longestPath < Utf8.size (p.child e.1).text
      · have hnot : ¬(Utf8.size (p.child e.1).text ≤ Disk.longestPath ∧
            ∀ e ∈ es, Utf8.size (p.child e.1).text ≤ Disk.longestPath) :=
          fun h => Nat.not_lt.mpr h.1 hlong
        rw [if_pos hlong, if_neg hnot]
        rfl
      have hfirst : Utf8.size (p.child e.1).text ≤ Disk.longestPath := Nat.le_of_not_lt hlong
      by_cases hshort : ∀ e ∈ es, Utf8.size (p.child e.1).text ≤ Disk.longestPath
      · rw [if_neg hlong, if_pos hshort, if_pos (And.intro hfirst hshort), List.filter_cons]
        cases kind e.2 <;> rfl
      · rw [if_neg hlong, if_neg hshort, if_neg (mt And.right hshort)]
        cases kind e.2 <;> rfl
  exact hall _ fun e he => hw.mem_children_iff.mp he

theorem listing_of_resolve (hr : t.resolve p = .ok l) (hl : t.node? l = some .folder) :
    t.listing p = .ok (t.children l) := by
  simp only [listing, hr, hl]

theorem listing_eq_ok {es : List (Name × Node)} (h : t.listing p = .ok es) :
    ∃ k, t.resolve p = .ok k ∧ t.node? k = some .folder := by
  unfold listing at h
  cases hr : t.resolve p with
  | error e => rw [hr] at h; cases h
  | ok k =>
    rw [hr] at h
    refine ⟨k, rfl, ?_⟩
    cases hn : t.node? k with
    | none => simp [hn] at h
    | some n =>
      cases n with
      | folder => rfl
      | file c => simp [hn] at h

/-- The names of a kind in the folder at a path. Both kinds of questions are of this shape. -/
theorem WellFormed.select_listing (hw : t.WellFormed) (hr : t.resolve p = .ok l)
    (hl : t.node? l = some .folder) :
    ((t.listing p).bind fun es => select (t.holds kind) p (es.map Prod.fst)) =
      if ∀ e ∈ t.children l, Utf8.size (p.child e.1).text ≤ Disk.longestPath then
        .ok (t.namesOf kind l)
      else .error .nameTooLong := by
  rw [listing_of_resolve hr hl, ← hw.select_children hr hl]
  rfl

/-- In a folder with room for any name everything is answered for. -/
theorem Fits.children {k : Nat} (hp : Fits p (k + 256)) (hw : t.WellFormed) :
    ∀ e ∈ t.children l, Utf8.size (p.child e.1).text ≤ Disk.longestPath := by
  rintro ⟨name, n⟩ he
  have hfits := (hp.inside (hw.canHold (hw.mem_children_iff.mp he)).isName).short
  exact Nat.le_trans (Nat.le_add_right _ _) hfits

theorem WellFormed.filesIn_of_resolve {k : Nat} (hw : t.WellFormed) (hp : Fits p (k + 256))
    (hr : t.resolve p = .ok l) (hl : t.node? l = some .folder) :
    t.filesIn p = .ok (t.fileNames l) :=
  (hw.select_listing hr hl).trans (if_pos (hp.children hw))

theorem WellFormed.foldersIn_of_resolve {k : Nat} (hw : t.WellFormed) (hp : Fits p (k + 256))
    (hr : t.resolve p = .ok l) (hl : t.node? l = some .folder) :
    t.foldersIn p = .ok (t.folderNames l) :=
  (hw.select_listing hr hl).trans (if_pos (hp.children hw))

theorem WellFormed.select_listing_eq_ok (hw : t.WellFormed)
    (h : ((t.listing p).bind fun es => select (t.holds kind) p (es.map Prod.fst)) = .ok names) :
    ∃ l, t.resolve p = .ok l ∧ t.node? l = some .folder ∧ names = t.namesOf kind l := by
  cases hes : t.listing p with
  | error e => rw [hes] at h; cases h
  | ok es =>
    obtain ⟨l, hr, hl⟩ := listing_eq_ok hes
    rw [hw.select_listing hr hl] at h
    split at h
    · exact ⟨l, hr, hl, (Except.ok.inj h).symm⟩
    · cases h

theorem WellFormed.filesIn_eq_ok (hw : t.WellFormed) (h : t.filesIn p = .ok names) :
    ∃ l, t.resolve p = .ok l ∧ t.node? l = some .folder ∧ names = t.fileNames l :=
  hw.select_listing_eq_ok h

theorem WellFormed.foldersIn_eq_ok (hw : t.WellFormed) (h : t.foldersIn p = .ok names) :
    ∃ l, t.resolve p = .ok l ∧ t.node? l = some .folder ∧ names = t.folderNames l :=
  hw.select_listing_eq_ok h

end Names

end Tree

end Marginalia
