import Marginalia.Proofs.Text.Runs
import Marginalia.Proofs.Toml.Values

/-!
# Documents that are written line by line

`Means text f` says that reading the text does to a draft what `f` does, whatever text follows.
Every written line has a meaning, and texts one after the other mean one change after the other
(`Means.append`, `Means.flatMap`), so that a document is read as its meaning has it
(`read_of_means`). What the changes do to the table is said for drafts in which nothing is closed
(`Draft.Is`).
-/

namespace Marginalia.Toml

/-! ## Meanings -/

def Means (text : Text) (f : Draft → Except Fault Draft) : Prop :=
  ∃ k ≤ text.length, ∀ fuel d rest,
    statements (fuel + k) d (text ++ rest) = f d >>= fun d => statements fuel d rest

theorem Means.append {a b : Text} {f g : Draft → Except Fault Draft} (ha : Means a f)
    (hb : Means b g) : Means (a ++ b) (fun d => f d >>= g) := by
  obtain ⟨m, hm, ha⟩ := ha
  obtain ⟨n, hn, hb⟩ := hb
  refine ⟨m + n, by rw [List.length_append]; omega, fun fuel d rest => ?_⟩
  rw [List.append_assoc, show fuel + (m + n) = (fuel + n) + m by omega, ha]
  simp only [bind_assoc, hb]

theorem Means.flatMap {α : Type} (xs : List α) {text : α → Text}
    {f : α → Draft → Except Fault Draft} (h : ∀ x ∈ xs, Means (text x) (f x)) :
    Means (xs.flatMap text) (fun d => xs.foldlM (fun d x => f x d) d) := by
  induction xs with
  | nil => exact ⟨0, Nat.le_refl 0, fun _ _ _ => rfl⟩
  | cons x xs ih =>
    have := (h x (List.mem_cons_self ..)).append (ih fun y hy => h y (List.mem_cons_of_mem _ hy))
    simpa only [List.flatMap_cons, List.foldlM_cons] using this

theorem dropReturns_of_not_mem {s : Text} (h : '\r' ∉ s) : dropReturns s = s := by
  fun_induction dropReturns s with
  | case1 => rfl
  | case2 r ih => exact absurd (List.mem_cons_self ..) h
  | case3 c r _ ih => rw [ih fun hr => h (List.mem_cons_of_mem _ hr)]

theorem read_of_means {text : Text} {f : Draft → Except Fault Draft} (h : Means text f)
    (hreturn : '\r' ∉ text) : read text = (f {}).map (·.table) := by
  obtain ⟨k, hk, h⟩ := h
  have hread := h (text.length - k + 1) {} []
  rw [List.append_nil, show text.length - k + 1 + k = text.length + 1 by omega] at hread
  simp only [read, dropReturns_of_not_mem hreturn, hread]
  cases f {} <;> rfl

/-! ## Lines -/

/-- A line is read by one statement, up to the line feed. -/
theorem means_line {l : Text} {f : Draft → Except Fault Draft}
    (h : ∀ d rest, statement d (skipSpace (l ++ '\n' :: rest)) =
      (f d).map fun d => (d, '\n' :: rest)) :
    Means (l ++ ['\n']) f := by
  refine ⟨1, by simp, fun fuel d rest => ?_⟩
  have hskip : skipSpace ('\n' :: rest) = '\n' :: rest := rfl
  have hcomment : skipComment ('\n' :: rest) = .ok ('\n' :: rest) := rfl
  rw [List.append_assoc, List.singleton_append, statements, h]
  cases f d with
  | error e => rfl
  | ok d => simp [Except.map, hskip, hcomment, bind, Except.bind]

theorem means_blank : Means ['\n'] pure :=
  means_line (l := []) fun _ _ => rfl

/-- A text that may stand as a key without quotation marks. -/
def IsBare (k : Text) : Prop := k ≠ [] ∧ k.all isBareKey = true

instance (k : Text) : Decidable (IsBare k) := inferInstanceAs (Decidable (_ ∧ _))

theorem keyPart_bare {k : Text} (h : IsBare k) {c : Char} (hc : isBareKey c = false) (rest : Text) :
    keyPart (k ++ c :: rest) = .ok (k, c :: rest) := by
  obtain ⟨hne, hall⟩ := h
  rw [List.all_eq_true] at hall
  have hrun : (k ++ c :: rest).takeWhile isBareKey = k :=
    Text.takeWhile_append_stop hall fun d hd => by cases hd; exact hc
  obtain ⟨d, r, rfl⟩ := List.exists_cons_of_ne_nil hne
  rw [List.cons_append] at hrun ⊢
  simp only [keyPart, hall d (List.mem_cons_self ..), if_true, hrun]
  simp

theorem skipSpace_of_head {s : Text} {c : Char} (h : s.head? = some c) (hc : isSpace c = false) :
    skipSpace s = s := by
  obtain ⟨r, rfl⟩ := List.head?_eq_some_iff.mp h
  simp [skipSpace, hc]

theorem isSpace_of_isBareKey {c : Char} (h : isBareKey c = true) : isSpace c = false := by
  cases hc : isSpace c with
  | false => rfl
  | true =>
    simp only [isSpace, Bool.or_eq_true, beq_iff_eq] at hc
    rcases hc with rfl | rfl <;> exact absurd h (by decide)

theorem IsBare.head {k : Text} (h : IsBare k) : ∃ c r, k = c :: r ∧ isBareKey c = true := by
  obtain ⟨c, r, rfl⟩ := List.exists_cons_of_ne_nil h.1
  exact ⟨c, r, rfl, List.all_eq_true.mp h.2 c (List.mem_cons_self ..)⟩

theorem skipSpace_join {k : Text} (h : IsBare k) (ks : Key) (rest : Text) :
    skipSpace (Text.join ['.'] (k :: ks) ++ rest) = Text.join ['.'] (k :: ks) ++ rest := by
  obtain ⟨c, r, rfl, hc⟩ := h.head
  exact skipSpace_of_head (by cases ks <;> rfl) (isSpace_of_isBareKey hc)

/-- The parts of a dotted key up to the brackets after them. -/
theorem keyParts_join {ks : Key} (hne : ks ≠ []) (h : ∀ k ∈ ks, IsBare k) {fuel : Nat}
    (hfuel : ks.length ≤ fuel) (rest : Text) :
    keyParts fuel (Text.join ['.'] ks ++ ']' :: rest) = .ok (ks, ']' :: rest) := by
  induction ks generalizing fuel with
  | nil => exact absurd rfl hne
  | cons k ks ih =>
    have hk := h k (List.mem_cons_self ..)
    obtain ⟨fuel, rfl⟩ := Nat.exists_eq_succ_of_ne_zero (Nat.ne_zero_of_lt hfuel)
    cases ks with
    | nil =>
      have hpart := keyPart_bare hk (c := ']') (by decide) rest
      have hskip : skipSpace (']' :: rest) = ']' :: rest := rfl
      simp only [Text.join, keyParts, hpart, hskip]
      rfl
    | cons k' ks =>
      have hjoin : Text.join ['.'] (k :: k' :: ks) ++ ']' :: rest =
          k ++ '.' :: (Text.join ['.'] (k' :: ks) ++ ']' :: rest) := by
        rw [Text.join, List.append_assoc, List.append_assoc, List.singleton_append]
        simp
      have hpart := keyPart_bare hk (c := '.') (by decide)
        (Text.join ['.'] (k' :: ks) ++ ']' :: rest)
      have hdot (r : Text) : skipSpace ('.' :: r) = '.' :: r := rfl
      have hskip := skipSpace_join (h k' (by simp)) ks (']' :: rest)
      have hmore := ih (by simp) (fun j hj => h j (List.mem_cons_of_mem _ hj))
        (Nat.le_of_succ_le_succ hfuel)
      simp only [hjoin, keyParts, hpart, hdot, hskip, hmore]
      rfl

/-- The header of an item in a list of tables. -/
def headerLine (ks : Key) : Text := ['[', '['] ++ Text.join ['.'] ks ++ [']', ']']

theorem length_le_join {ks : Key} (h : ∀ k ∈ ks, IsBare k) :
    ks.length ≤ (Text.join ['.'] ks).length := by
  induction ks with
  | nil => simp
  | cons k ks ih =>
    have hk := List.length_pos_iff.mpr (h k (List.mem_cons_self ..)).1
    have ih := ih fun j hj => h j (List.mem_cons_of_mem _ hj)
    cases ks with
    | nil => exact hk
    | cons k' ks =>
      simp only [Text.join, List.length_append, List.length_cons] at ih ⊢
      omega

theorem means_headerLine (ks : Key) (hne : ks ≠ []) (h : ∀ k ∈ ks, IsBare k) :
    Means (headerLine ks ++ ['\n']) (fun d => d.settle.openItem ks) := by
  refine means_line fun d rest => ?_
  obtain ⟨k, ks, rfl⟩ := List.exists_cons_of_ne_nil hne
  have hline : headerLine (k :: ks) ++ '\n' :: rest =
      '[' :: '[' :: (Text.join ['.'] (k :: ks) ++ ']' :: ']' :: '\n' :: rest) := by
    simp [headerLine]
  have hskip := skipSpace_join (h k (by simp)) ks (']' :: ']' :: '\n' :: rest)
  have hkey : key (Text.join ['.'] (k :: ks) ++ ']' :: ']' :: '\n' :: rest) =
      .ok (k :: ks, ']' :: ']' :: '\n' :: rest) :=
    keyParts_join hne h (by have := length_le_join h; rw [List.length_append]; omega) _
  have hstart : skipSpace (headerLine (k :: ks) ++ '\n' :: rest) = _ :=
    skipSpace_of_head (c := '[') (by rw [hline]; rfl) (by decide)
  have hstatement (r : Text) : statement d ('[' :: r) = header d r := rfl
  rw [hstart, hline, hstatement]
  simp only [header, hskip, hkey, bind, Except.bind]
  cases d.settle.openItem (k :: ks) <;> rfl

/-- A value is read, if it can be, and entered under a key of the section. -/
def assign (key : Text) (r : Except Fault Value) (d : Draft) : Except Fault Draft :=
  r >>= d.addValue [key]

theorem means_statementLine {k : String} {v : Text} {r : Except Fault Value}
    (hk : IsBare k.toList) (hv : Spells v r) :
    Means (statementLine k v) (assign k.toList r) := by
  refine means_line fun d rest => ?_
  obtain ⟨c, s, hc, hspace⟩ := hv.start
  obtain ⟨e, t, he, hbare⟩ := hk.head
  have hline : k.toList ++ " = ".toList ++ v ++ '\n' :: rest =
      k.toList ++ ' ' :: ('=' :: ' ' :: (v ++ '\n' :: rest)) := by
    simp
  have hstart : skipSpace (k.toList ++ ' ' :: ('=' :: ' ' :: (v ++ '\n' :: rest))) = _ :=
    skipSpace_of_head (c := e) (by rw [he]; rfl) (isSpace_of_isBareKey hbare)
  have hkey : key (k.toList ++ ' ' :: ('=' :: ' ' :: (v ++ '\n' :: rest))) =
      .ok ([k.toList], '=' :: ' ' :: (v ++ '\n' :: rest)) := by
    have hpart := keyPart_bare hk (c := ' ') (by decide) ('=' :: ' ' :: (v ++ '\n' :: rest))
    have hskip (r : Text) : skipSpace (' ' :: '=' :: r) = '=' :: r := rfl
    simp only [key, keyParts, hpart, hskip]
    rfl
  have hequals : equals ('=' :: ' ' :: (v ++ '\n' :: rest)) = .ok (v ++ '\n' :: rest) := by
    have : skipSpace (' ' :: (v ++ '\n' :: rest)) = v ++ '\n' :: rest := by
      rw [hc]
      simp [skipSpace, hspace, show isSpace ' ' = true by decide]
    simp [equals, this]
  have hkeyStart : isKeyStart e = true := by simp [isKeyStart, hbare]
  rw [hline, hstart]
  generalize hbody : v ++ '\n' :: rest = body at hkey hequals ⊢
  have hvalue := hv.reads deepest (2 * body.length) rest
  rw [hbody] at hvalue
  rw [he] at hkey ⊢
  rw [List.cons_append] at hkey ⊢
  simp only [statement, hkeyStart, if_true, hkey, assign, bind, Except.bind, hequals, hvalue]
  cases r with
  | error e => rfl
  | ok x => cases d.addValue [e :: t] x <;> rfl

/-! ## Tables -/

/-- An entry for a list of items, which is there only when the list has some. -/
def listed (key : Text) (items : List Value) : Table :=
  if items.isEmpty then [] else [(key, .array items)]

theorem append_listed_nil (t : Table) (key : Text) : t ++ listed key [] = t := List.append_nil t

section Tables

variable {k : Text} {t sub sub' : Table} {items : List Value}

theorem addEntry_new (h : t.lookup k = none) (v : Value) :
    addEntry k v t = .ok (t ++ [(k, v)]) := by
  simp [addEntry, h]

theorem lookup_append_last (h : t.lookup k = none) (v : Value) :
    (t ++ [(k, v)]).lookup k = some v := by
  simp [List.lookup_append, h]

theorem replace_append_last (h : t.lookup k = none) (v w : Value) :
    Table.replace (t ++ [(k, v)]) k w = t ++ [(k, w)] := by
  have hsame : t.map (fun e => if e.1 = k then (e.1, w) else (e.1, e.2)) = t.map id := by
    refine List.map_congr_left fun e he => ?_
    have hne := List.lookup_eq_none_iff.mp h e he
    rw [if_neg (bne_iff_ne.mp hne).symm, id]
  simp [Table.replace, hsame]

theorem addItem_listed (h : t.lookup k = none) (items : List Value) :
    addItem k (t ++ listed k items) = .ok (t ++ listed k (items ++ [.table []])) := by
  cases items with
  | nil => simp [addItem, listed, h]
  | cons v vs => simp [addItem, listed, lookup_append_last h, replace_append_last h]

/-- A change in the last table of a list at the end of the table. -/
theorem within_listed (h : t.lookup k = none) {p : Key} {change : Table → Except Fault Table}
    (hsub : within true change p sub = .ok sub') :
    within true change (k :: p) (t ++ listed k (items ++ [.table sub])) =
      .ok (t ++ listed k (items ++ [.table sub'])) := by
  simp [within, listed, lookup_append_last h, replace_append_last h, hsub, Except.map]

end Tables

/-! ## Drafts -/

/-- A draft of a table in a section, with nothing closed and no table waiting to count as opened. -/
structure Draft.Is (d : Draft) (section_ : Key) (t : Table) : Prop where
  section_eq : d.section_ = section_
  table : d.table = t
  closed : d.closed = []
  pending : d.pending = []

theorem assign_ok {d : Draft} {s : Key} {k : Text} {t t' : Table} {v : Value} (h : d.Is s t)
    (hv : v.isNested = false) (ht : within true (addEntry k v) s t = .ok t') :
    ∃ d', assign k (.ok v) d = .ok d' ∧ d'.Is s t' := by
  obtain ⟨rfl, rfl, hclosed, hpending⟩ := h
  have hat : atKey true (d.section_ ++ [k]) (addEntry · v) d.table = .ok t' := by
    simp [atKey, ht]
  have hmade : Draft.madeBy d.section_ [k] = [] := rfl
  exact ⟨{ d with table := t' },
    by simp [assign, Draft.addValue, Draft.isClosed, hat, hmade, hclosed, hv, Except.map, bind,
      Except.bind], rfl, rfl, hclosed, hpending⟩

theorem openItem_ok {d : Draft} {s p : Key} {k : Text} {t t' : Table} (h : d.Is s t)
    (ht : within true (addItem k) p t = .ok t') :
    ∃ d', d.settle.openItem (p ++ [k]) = .ok d' ∧ d'.Is (p ++ [k]) t' := by
  obtain ⟨rfl, rfl, hclosed, hpending⟩ := h
  have hat : atKey true (p ++ [k]) addItem d.table = .ok t' := by simp [atKey, ht]
  refine ⟨_, by simp only [Draft.openItem, Draft.settle, Draft.isClosed, hclosed, hat]; rfl,
    rfl, rfl, rfl, rfl⟩

end Marginalia.Toml
