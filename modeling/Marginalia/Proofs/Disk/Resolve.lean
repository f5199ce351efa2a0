import Marginalia.Proofs.Disk.Lookup

/-!
# Where paths lead

`lead` is the location that names lead to when all folders on the way exist; `Tree.follow` gives no
other. What is asked of a path comes down to the node at its location: `isFile`, `isFolder`,
`readText`. A file that was written reads back (`readText_write`).
-/

namespace Marginalia

/-- The location that names lead to, however the tree looks. -/
def lead : Location → List Name → Location
  | l, [] => l
  | l, n :: rest => if n = Path.above then lead l.dropLast rest else lead (l ++ [n]) rest

theorem lead_append (l : Location) (xs ys : List Name) : lead l (xs ++ ys) = lead (lead l xs) ys := by
  induction xs generalizing l with
  | nil => rfl
  | cons n xs ih => simp only [List.cons_append, lead]; split <;> exact ih _

theorem lead_of_plain {l : Location} {parts : List Name} (h : Path.above ∉ parts) :
    lead l parts = l ++ parts := by
  induction parts generalizing l with
  | nil => simp [lead]
  | cons n parts ih =>
    rw [List.mem_cons, not_or] at h
    obtain ⟨hn, h⟩ := h
    rw [lead, if_neg (Ne.symm hn), ih h]
    simp

theorem lead_child (p : Path) {n : Name} (hn : n ≠ Path.above) :
    lead [] (p.child n).parts = lead [] p.parts ++ [n] :=
  (lead_append ..).trans (lead_of_plain fun e => hn (List.mem_singleton.mp e).symm)

namespace Path

@[simp] theorem child_parts (p : Path) (n : Name) : (p.child n).parts = p.parts ++ [n] := rfl

@[simp] theorem name_child (p : Path) (n : Name) : (p.child n).name = n := by
  simp [name, child]

@[simp] theorem parent_child (p : Path) (n : Name) : (p.child n).parent = p := by
  simp [parent, child]

theorem hasNul_child (p : Path) (n : Name) : (p.child n).hasNul = (p.hasNul || n.contains '\x00') := by
  simp [hasNul, child]

theorem no_nul_of_hasNul {p : Path} (h : p.hasNul = false) {n : Name} (hn : n ∈ p.parts) :
    '\x00' ∉ n := by
  simp only [hasNul, List.any_eq_false] at h
  simpa using h n hn

end Path

namespace Tree

open Disk (Fault)

/-! ## Following names -/

theorem follow_append (t : Tree) (l : Location) (xs ys : List Name) :
    t.follow l (xs ++ ys) = (t.follow l xs).bind fun k => t.follow k ys := by
  induction xs generalizing l with
  | nil => rfl
  | cons n xs ih =>
    simp only [List.cons_append, follow]
    split
    · rfl
    · rfl
    · split
      · exact ih _
      · split
        · rfl
        · exact ih _

theorem follow_eq_lead {t : Tree} {l k : Location} {parts : List Name}
    (h : t.follow l parts = .ok k) : k = lead l parts := by
  induction parts generalizing l with
  | nil => cases h; rfl
  | cons n parts ih =>
    simp only [follow] at h
    split at h
    · cases h
    · cases h
    · simp only [lead]
      split at h
      · next hn => rw [if_pos hn]; exact ih h
      · next hn =>
        split at h
        · cases h
        · rw [if_neg hn]; exact ih h

/-- Every folder of the first tree is one in the second. -/
def FoldersStay (t t' : Tree) : Prop := ∀ l, t.node? l = some .folder → t'.node? l = some .folder

theorem FoldersStay.follow {t t' : Tree} (h : FoldersStay t t') {l k : Location}
    {parts : List Name} (hf : t.follow l parts = .ok k) : t'.follow l parts = .ok k := by
  induction parts generalizing l with
  | nil => exact hf
  | cons n parts ih =>
    simp only [Tree.follow] at hf ⊢
    split at hf
    · cases hf
    · cases hf
    · next hl =>
      rw [h l hl]
      simp only
      split at hf
      · next hn => rw [if_pos hn]; exact ih hf
      · next hn =>
        rw [if_neg hn]
        split at hf
        · cases hf
        · next hs => rw [if_neg hs]; exact ih hf

theorem WellFormed.follow_canHold {t : Tree} (hw : t.WellFormed) {l k : Location}
    {parts : List Name} (hnul : ∀ n ∈ parts, '\x00' ∉ n) (h : t.follow l parts = .ok k)
    (hl : t.CanHold l) : t.CanHold k := by
  induction parts generalizing l with
  | nil => cases h; exact hl
  | cons n parts ih =>
    have hrest : ∀ m ∈ parts, '\x00' ∉ m := fun m hm => hnul m (List.mem_cons_of_mem _ hm)
    simp only [Tree.follow] at h
    split at h
    · cases h
    · cases h
    · next hfold =>
      split at h
      · exact ih hrest h (hw.canHold hl.folder_above)
      · next hn =>
        split at h
        · cases h
        · next hs =>
          refine ih hrest h (.inr ⟨by rwa [List.dropLast_concat], ?_⟩)
          intro m hm
          rw [List.getLast?_append] at hm
          cases hm
          exact ⟨hn, hnul n List.mem_cons_self, Nat.le_of_not_lt hs⟩

theorem follow_single {t : Tree} {l : Location} {n : Name} (hl : t.node? l = some .folder)
    (hn : IsName n) : t.follow l [n] = .ok (l ++ [n]) := by
  simp only [follow, hl, if_neg hn.not_above, if_neg (Nat.not_lt.mpr hn.short)]

/-- The names of what is in a well-formed tree lead to it. -/
theorem WellFormed.follow_of_node {t : Tree} (hw : t.WellFormed) {l : Location}
    {parts : List Name} {n : Node} (h : t.node? (l ++ parts) = some n) :
    t.follow l parts = .ok (l ++ parts) := by
  induction parts using List.reverseRecOn generalizing n with
  | nil => simp [follow]
  | append_singleton parts m ih =>
    rw [← List.append_assoc] at h ⊢
    have hup : t.node? (l ++ parts) = some .folder := by simpa using hw.folder_above h
    rw [follow_append, ih hup]
    exact follow_single hup (hw.canHold h).isName

/-! ## Resolving paths -/

theorem resolve_eq (t : Tree) (p : Path) :
    t.resolve p = if p.hasNul then .error .nulInName
      else if Disk.longestPath < Utf8.size p.text then .error .nameTooLong
      else t.follow [] p.parts := by
  simp [resolve, resolveFrom]

theorem resolve_eq_ok_iff {t : Tree} {p : Path} {l : Location} :
    t.resolve p = .ok l ↔ p.hasNul = false ∧ Utf8.size p.text ≤ Disk.longestPath ∧
      t.follow [] p.parts = .ok l := by
  rw [resolve_eq]
  cases p.hasNul with
  | true => simp
  | false =>
    by_cases h : Disk.longestPath < Utf8.size p.text
    · simp [h, Nat.not_le.mpr h]
    · simp [h, Nat.le_of_not_lt h]

theorem FoldersStay.resolve {t t' : Tree} (h : FoldersStay t t') {p : Path} {l : Location}
    (hp : t.resolve p = .ok l) : t'.resolve p = .ok l := by
  obtain ⟨h1, h2, h3⟩ := resolve_eq_ok_iff.mp hp
  exact resolve_eq_ok_iff.mpr ⟨h1, h2, h.follow h3⟩

theorem resolve_eq_lead {t : Tree} {p : Path} {l : Location} (h : t.resolve p = .ok l) :
    l = lead [] p.parts :=
  follow_eq_lead (resolve_eq_ok_iff.mp h).2.2

theorem WellFormed.resolve_canHold {t : Tree} (hw : t.WellFormed) {p : Path} {l : Location}
    (h : t.resolve p = .ok l) : t.CanHold l := by
  obtain ⟨hnul, -, hf⟩ := resolve_eq_ok_iff.mp h
  exact hw.follow_canHold (fun n hn => Path.no_nul_of_hasNul hnul hn) hf (.inl rfl)

/-- A name in a folder that a path leads to resolves, unless the path gets too long. -/
theorem resolve_child {t : Tree} {p : Path} {l : Location} {n : Name} (hp : t.resolve p = .ok l)
    (hl : t.node? l = some .folder) (hn : IsName n) :
    t.resolve (p.child n) = if Disk.longestPath < Utf8.size (p.child n).text then .error .nameTooLong
      else .ok (l ++ [n]) := by
  obtain ⟨hnul, -, hf⟩ := resolve_eq_ok_iff.mp hp
  have hc : (p.child n).hasNul = false := by
    have := hn.no_nul
    simp [Path.hasNul_child, hnul, this]
  have hfc : t.follow [] (p.child n).parts = .ok (l ++ [n]) := by
    rw [Path.child_parts, follow_append, hf]
    exact follow_single hl hn
  rw [resolve_eq, hc, hfc]
  simp

/-! ## Asking what is at a path -/

theorem holds_eq_true_iff {t : Tree} {kind : Node → Bool} {p : Path} :
    t.holds kind p = .ok true ↔ ∃ l n, t.resolve p = .ok l ∧ t.node? l = some n ∧ kind n = true := by
  unfold holds stat
  cases hr : t.resolve p with
  | error f => cases f <;> simp
  | ok l =>
    cases hn : t.node? l with
    | none => simp [hn]
    | some n => simp [hn]

theorem isFolder_eq_true_iff {t : Tree} {p : Path} :
    t.isFolder p = .ok true ↔ ∃ l, t.resolve p = .ok l ∧ t.node? l = some .folder := by
  simp [isFolder, holds_eq_true_iff]

theorem isFile_eq_true_iff {t : Tree} {p : Path} :
    t.isFile p = .ok true ↔ ∃ l c, t.resolve p = .ok l ∧ t.node? l = some (.file c) := by
  rw [isFile, holds_eq_true_iff]
  constructor
  · rintro ⟨l, n, hr, hn, hk⟩
    cases n with
    | folder => simp at hk
    | file c => exact ⟨l, c, hr, hn⟩
  · rintro ⟨l, c, hr, hn⟩
    exact ⟨l, .file c, hr, hn, by simp⟩

theorem isFile_of_resolve {t : Tree} {p : Path} {l : Location} (h : t.resolve p = .ok l) :
    t.isFile p = .ok (match t.node? l with | some (.file _) => true | _ => false) := by
  unfold isFile holds stat
  simp only [h]
  cases t.node? l with
  | none => rfl
  | some n => cases n <;> rfl

/-! ## Reading and writing -/

theorem readText_of_resolve {t : Tree} {p : Path} {l : Location} {c : Content}
    (h : t.resolve p = .ok l) (hn : t.node? l = some (.file c)) :
    t.readText p = c.unified.mapError .undecodable := by
  simp [readText, h, contentAt, hn, bind, Except.bind]

theorem node_of_readText {t : Tree} {p : Path} {s : Text} (h : t.readText p = .ok s) :
    ∃ l c, t.resolve p = .ok l ∧ t.node? l = some (.file c) := by
  cases hp : t.resolve p with
  | error f => simp [Tree.readText, hp, bind, Except.bind] at h
  | ok l =>
    cases hn : t.node? l with
    | none => simp [Tree.readText, hp, contentAt, hn, bind, Except.bind] at h
    | some n =>
      cases n with
      | folder => simp [Tree.readText, hp, contentAt, hn, bind, Except.bind] at h
      | file c => exact ⟨l, c, rfl, hn⟩

theorem write_eq_ok {t t' : Tree} {p : Path} {s : Text} (h : t.write p s = .ok t') :
    ∃ l, t.resolve p = .ok l ∧ l ≠ [] ∧ t.node? l ≠ some .folder ∧
      t' = t.insert l (.file (.text s)) := by
  unfold write at h
  cases hr : t.resolve p with
  | error f => simp [hr] at h
  | ok l =>
    simp only [hr, writeAt] at h
    split at h
    · cases h
    · next hl =>
      cases h
      exact ⟨l, rfl, fun e => hl (by rw [e]; rfl), hl, rfl⟩

theorem write_of_resolve {t : Tree} {p : Path} {l : Location} (s : Text) (h : t.resolve p = .ok l)
    (hl : t.node? l ≠ some .folder) : t.write p s = .ok (t.insert l (.file (.text s))) := by
  simp [write, h, writeAt, hl]

theorem create_eq_ok {t t' : Tree} {p : Path} {s : Text} (h : t.create p s = .ok t') :
    ∃ l, t.resolve p = .ok l ∧ l ≠ [] ∧ t.node? l = none ∧
      t' = t.insert l (.file (.text s)) := by
  unfold create at h
  cases hr : t.resolve p with
  | error f => simp [hr] at h
  | ok l =>
    simp only [hr] at h
    split at h
    · cases h
    · next hl =>
      cases h
      have hnone : t.node? l = none := by simpa using hl
      exact ⟨l, rfl, fun e => by subst e; simp at hl, hnone, rfl⟩

/-- Nothing on the way is occupied. -/
theorem follow_ne_occupied (t : Tree) (l : Location) (parts : List Name) :
    t.follow l parts ≠ .error .occupied := by
  induction parts generalizing l with
  | nil => nofun
  | cons n parts ih =>
    rw [follow]
    split
    · nofun
    · nofun
    · split
      · exact ih _
      · split
        · nofun
        · exact ih _

theorem create_eq_occupied {t : Tree} {p : Path} {s : Text}
    (h : t.create p s = .error .occupied) : ∃ l n, t.resolve p = .ok l ∧ t.node? l = some n := by
  unfold create at h
  cases hr : t.resolve p with
  | error e =>
    rw [hr] at h
    cases h
    rw [resolve_eq] at hr
    split at hr
    · cases hr
    · split at hr
      · cases hr
      · exact absurd hr (t.follow_ne_occupied [] p.parts)
  | ok l =>
    rw [hr] at h
    simp only at h
    split at h
    · next hsome =>
      obtain ⟨n, hn⟩ := Option.isSome_iff_exists.mp hsome
      exact ⟨l, n, rfl, hn⟩
    · cases h

/-- Putting a file where no folder is leaves all folders in place. -/
theorem foldersStay_insert (t : Tree) {l : Location} (n : Node) (h : t.node? l ≠ some .folder) :
    FoldersStay t (t.insert l n) := by
  intro k hk
  have hne : k ≠ l := fun e => h (by rw [← e]; exact hk)
  rw [node?_insert_of_ne t hne, hk]

theorem WellFormed.insert_file {t : Tree} (hw : t.WellFormed) {p : Path} {l : Location}
    (hp : t.resolve p = .ok l) (hl : t.node? l ≠ some .folder) (c : Content) :
    (t.insert l (.file c)).WellFormed :=
  hw.insert (fun e => hl (by rw [e]; rfl)) (hw.resolve_canHold hp) fun h => absurd h hl

/-! ## Trees that grow -/

/-- Whatever is in the first tree is in the second, as it was. -/
def Extends (t t' : Tree) : Prop := ∀ l n, t.node? l = some n → t'.node? l = some n

theorem Extends.refl (t : Tree) : Extends t t := fun _ _ h => h

theorem Extends.trans {t t' t'' : Tree} (h : Extends t t') (h' : Extends t' t'') :
    Extends t t'' := fun l n hn => h' l n (h l n hn)

theorem Extends.foldersStay {t t' : Tree} (h : Extends t t') : FoldersStay t t' :=
  fun l hl => h l _ hl

theorem extends_insert {t : Tree} {l : Location} (h : t.node? l = none) (n : Node) :
    Extends t (t.insert l n) := by
  intro k m hk
  have hne : k ≠ l := fun e => by rw [e, h] at hk; cases hk
  rw [node?_insert_of_ne t hne, hk]

theorem Extends.readText {t t' : Tree} (h : Extends t t') {p : Path} {s : Text}
    (hr : t.readText p = .ok s) : t'.readText p = .ok s := by
  obtain ⟨l, c, hp, hn⟩ := node_of_readText hr
  rw [readText_of_resolve hp hn] at hr
  rw [readText_of_resolve (h.foldersStay.resolve hp) (h l _ hn), hr]

/-- Why a path without a NUL leads nowhere. -/
theorem resolve_error {t : Tree} {p : Path} (hp : p.hasNul = false) {f : Fault}
    (h : t.resolve p = .error f) : f ≠ .nulInName ∧ f ≠ .tooDeep := by
  have hfollow : ∀ l parts, t.follow l parts = .error f → f ≠ .nulInName ∧ f ≠ .tooDeep := by
    intro l parts hf
    induction parts generalizing l with
    | nil => cases hf
    | cons n parts ih =>
      simp only [follow] at hf
      split at hf
      · cases hf; simp
      · cases hf; simp
      · split at hf
        · exact ih _ hf
        · split at hf
          · cases hf; simp
          · exact ih _ hf
  rw [resolve_eq, hp, if_neg Bool.false_ne_true] at h
  split at h
  · cases h; simp
  · exact hfollow _ _ h

/-- Why a path without a NUL cannot be read. -/
theorem readText_error {t : Tree} {p : Path} (hp : p.hasNul = false) {f : Fault}
    (h : t.readText p = .error f) : f ≠ .nulInName ∧ f ≠ .tooDeep := by
  cases hr : t.resolve p with
  | error e =>
    simp only [Tree.readText, hr, bind, Except.bind, Except.error.injEq] at h
    subst h
    exact resolve_error hp hr
  | ok l =>
    cases hn : t.node? l with
    | none => simp [Tree.readText, hr, contentAt, hn, bind, Except.bind] at h; subst h; simp
    | some n =>
      cases n with
      | folder => simp [Tree.readText, hr, contentAt, hn, bind, Except.bind] at h; subst h; simp
      | file c =>
        rw [readText_of_resolve hr hn] at h
        cases hu : c.unified with
        | ok s => rw [hu] at h; cases h
        | error e => rw [hu] at h; cases h; simp

theorem readText_of_hasNul (t : Tree) {p : Path} (hp : p.hasNul = true) :
    t.readText p = .error .nulInName := by
  simp [Tree.readText, resolve_eq, hp, bind, Except.bind]

/-- What was written at a path is read there. -/
theorem readText_insert {t : Tree} {p : Path} {l : Location} (hp : t.resolve p = .ok l)
    (hl : t.node? l ≠ some .folder) (s : Text) :
    (t.insert l (.file (.text s))).readText p = .ok (Text.unifyNewlines s) := by
  have hne : l ≠ [] := fun e => hl (by rw [e]; rfl)
  rw [readText_of_resolve ((foldersStay_insert t _ hl).resolve hp) (node?_insert_self t hne _)]
  rfl

end Tree

end Marginalia
