import Marginalia.Fragment.Refs
import Mathlib.Data.Char
import Mathlib.Data.List.Induction
import Mathlib.Data.List.Lex

/-!
# Reference counts

What each change does to every lookup, and that the paths stay in ascending order
(`Refs.Ascending`). Entries in that order that are merged one after the other give the counts they
were taken from (`foldl_merge`).
-/

namespace Marginalia.Refs

/-! ## Looking up -/

theorem lookup_cons_ite (p : Text) (n : Int) (es : List (Text × Int)) (q : Text) :
    ((p, n) :: es).lookup q = if q = p then some n else es.lookup q := by
  rw [List.lookup_cons]
  by_cases h : q = p
  · simp [h]
  · have hb : (q == p) = false := by simpa using h
    rw [hb, if_neg h]

theorem lookup_putEntry (path : Text) (n : Int) (es : List (Text × Int)) (q : Text) :
    (putEntry path n es).lookup q = if q = path then some n else es.lookup q := by
  induction es with
  | nil => exact lookup_cons_ite ..
  | cons e es ih =>
    obtain ⟨p, m⟩ := e
    unfold putEntry
    split
    · next hp =>
      subst hp
      simp only [lookup_cons_ite]
      split <;> rfl
    · next hp =>
      split
      · exact lookup_cons_ite ..
      · rw [lookup_cons_ite, lookup_cons_ite, ih]
        by_cases h : q = path
        · rw [if_pos h, if_pos h, if_neg (by rw [h]; exact hp)]
        · rw [if_neg h, if_neg h]

theorem lookup_filter_ne (path q : Text) (es : List (Text × Int)) :
    (es.filter fun e => e.1 != path).lookup q = if q = path then none else es.lookup q := by
  induction es with
  | nil => simp
  | cons e es ih =>
    obtain ⟨p, m⟩ := e
    by_cases hp : p = path
    · rw [List.filter_cons_of_neg (by simp [hp]), ih, lookup_cons_ite, hp]
      split <;> rfl
    · rw [List.filter_cons_of_pos (by simpa using hp), lookup_cons_ite, lookup_cons_ite, ih]
      by_cases h : q = path
      · rw [if_pos h, if_pos h, if_neg (by rw [h]; exact Ne.symm hp)]
      · rw [if_neg h, if_neg h]

theorem get?_put (r : Refs) (path : Text) (n : Int) (q : Text) :
    (r.put path n).get? q = if q = path then some n else r.get? q :=
  lookup_putEntry ..

theorem get?_merge (r : Refs) (path : Text) (n : Int) (q : Text) :
    (r.merge path n).get? q =
      if q = path then (if 0 < n then some n else none) else r.get? q := by
  unfold merge
  split
  · exact get?_put ..
  · exact lookup_filter_ne ..

/-- Taking out a count that is not there changes nothing. -/
theorem merge_of_get? {r : Refs} {path : Text} {n : Int} (hn : ¬0 < n)
    (h : r.get? path = none) : r.merge path n = r := by
  have hne : ∀ e ∈ r.entries, e.1 ≠ path := fun e he hp => by
    have := List.lookup_eq_none_iff.mp h e he
    simp [hp] at this
  rw [merge, if_neg hn, erase, List.filter_eq_self.mpr fun e he => by simpa using hne e he]

theorem mem_entries_of_get? {r : Refs} {path : Text} {n : Int} (h : r.get? path = some n) :
    (path, n) ∈ r.entries := by
  obtain ⟨xs, ys, e, -⟩ := List.lookup_eq_some_iff.mp h
  rw [e]
  simp

/-- Merging the counts of some paths one after the other sets the count of each of them. -/
theorem get?_foldl_merge {α : Type} (path : α → Text) (n : α → Int) {xs : List α} {x : α}
    (hx : x ∈ xs) (hsame : ∀ y ∈ xs, path y = path x → n y = n x) (r : Refs) :
    (xs.foldl (fun r y => r.merge (path y) (n y)) r).get? (path x) =
      if 0 < n x then some (n x) else none := by
  induction xs using List.reverseRecOn with
  | nil => cases hx
  | append_singleton xs y ih =>
    rw [List.foldl_append, List.foldl_cons, List.foldl_nil, get?_merge]
    split
    · next h => rw [hsame y (by simp) h.symm]
    · next h =>
      have hx' : x ∈ xs := by
        rcases List.mem_append.mp hx with hx | hx
        · exact hx
        · exact absurd (by rw [List.mem_singleton.mp hx]) h
      exact ih hx' fun z hz => hsame z (List.mem_append_left _ hz)

theorem get?_foldl_merge_of_ne {α : Type} (path : α → Text) (n : α → Int) {xs : List α} {q : Text}
    (hq : ∀ y ∈ xs, path y ≠ q) (r : Refs) :
    (xs.foldl (fun r y => r.merge (path y) (n y)) r).get? q = r.get? q := by
  induction xs generalizing r with
  | nil => rfl
  | cons y xs ih =>
    rw [List.foldl_cons, ih fun z hz => hq z (List.mem_cons_of_mem _ hz), get?_merge,
      if_neg (hq y List.mem_cons_self).symm]

/-! ## Ascending paths -/

def Ascending (r : Refs) : Prop := r.entries.Pairwise fun a b => a.1 < b.1

theorem Ascending.get?_of_mem {r : Refs} (h : r.Ascending) {e : Text × Int} (he : e ∈ r.entries) :
    r.get? e.1 = some e.2 := by
  obtain ⟨before, after, hr⟩ := List.append_of_mem he
  rw [Ascending, hr] at h
  obtain ⟨-, -, hbefore⟩ := List.pairwise_append.mp h
  rw [get?, List.lookup_eq_some_iff]
  refine ⟨before, after, hr, fun x hx => ?_⟩
  have hlt : x.1 < e.1 := hbefore x hx e List.mem_cons_self
  simpa using ne_of_gt hlt

/-- Counts in order are told by their lookups. -/
theorem Ascending.ext {r r' : Refs} (h : r.Ascending) (h' : r'.Ascending)
    (hget : ∀ path, r.get? path = r'.get? path) : r = r' := by
  have hnodup : ∀ {r : Refs}, r.Ascending → r.entries.Nodup := fun hr =>
    hr.imp fun hlt e => absurd hlt (by rw [e]; exact lt_irrefl _)
  have hmem : ∀ {r r' : Refs}, r.Ascending → (∀ path, r.get? path = r'.get? path) →
      ∀ e ∈ r.entries, e ∈ r'.entries := fun hr hget e he =>
    mem_entries_of_get? ((hget e.1).symm.trans (hr.get?_of_mem he))
  have hperm : r.entries.Perm r'.entries :=
    (List.perm_ext_iff_of_nodup (hnodup h) (hnodup h')).mpr fun e =>
      ⟨hmem h hget e, hmem h' (fun path => (hget path).symm) e⟩
  have hentries := hperm.eq_of_pairwise (fun a b _ _ hab hba => absurd hba (lt_asymm hab)) h h'
  exact congrArg Refs.mk hentries

theorem mem_putEntry {path : Text} {n : Int} {es : List (Text × Int)} {e : Text × Int}
    (h : e ∈ putEntry path n es) : e = (path, n) ∨ e ∈ es := by
  induction es with
  | nil => exact .inl (List.mem_singleton.mp h)
  | cons x es ih =>
    obtain ⟨p, m⟩ := x
    unfold putEntry at h
    split at h
    · rcases List.mem_cons.mp h with h | h
      · exact .inl h
      · exact .inr (List.mem_cons_of_mem _ h)
    · split at h
      · rcases List.mem_cons.mp h with h | h
        · exact .inl h
        · exact .inr h
      · rcases List.mem_cons.mp h with rfl | h
        · exact .inr List.mem_cons_self
        · exact (ih h).imp_right (List.mem_cons_of_mem _)

theorem mem_merge {r : Refs} {path : Text} {n : Int} {e : Text × Int}
    (h : e ∈ (r.merge path n).entries) : (e = (path, n) ∧ 0 < n) ∨ e ∈ r.entries := by
  unfold merge at h
  split at h
  · next hn => exact (mem_putEntry h).imp_left fun he => ⟨he, hn⟩
  · exact .inr (List.mem_filter.mp h).1

theorem ascending_putEntry {path : Text} {n : Int} {es : List (Text × Int)}
    (h : es.Pairwise fun a b => a.1 < b.1) :
    (putEntry path n es).Pairwise fun a b => a.1 < b.1 := by
  induction es with
  | nil => simp [putEntry]
  | cons x es ih =>
    obtain ⟨p, m⟩ := x
    obtain ⟨hx, hes⟩ := List.pairwise_cons.mp h
    unfold putEntry
    split
    · next e => subst e; exact List.pairwise_cons.mpr ⟨hx, hes⟩
    · next hne =>
      split
      · next hlt =>
        refine List.pairwise_cons.mpr ⟨fun y hy => ?_, h⟩
        rcases List.mem_cons.mp hy with rfl | hy
        · exact hlt
        · exact lt_trans hlt (hx y hy)
      · next hlt =>
        refine List.pairwise_cons.mpr ⟨fun y hy => ?_, ih hes⟩
        rcases mem_putEntry hy with rfl | hy
        · exact lt_of_le_of_ne (not_lt.mp hlt) (Ne.symm hne)
        · exact hx y hy

theorem Ascending.merge {r : Refs} (h : r.Ascending) (path : Text) (n : Int) :
    (r.merge path n).Ascending := by
  unfold Refs.merge
  split
  · exact ascending_putEntry h
  · exact List.Pairwise.filter _ h

/-- A path beyond all others goes to the end. -/
theorem putEntry_of_above {path : Text} {n : Int} {es : List (Text × Int)}
    (h : ∀ e ∈ es, e.1 < path) : putEntry path n es = es ++ [(path, n)] := by
  induction es with
  | nil => rfl
  | cons x es ih =>
    obtain ⟨p, m⟩ := x
    obtain ⟨hp, hes⟩ := List.forall_mem_cons.mp h
    rw [putEntry, if_neg (ne_of_gt hp), if_neg (not_lt_of_gt hp), ih hes]
    rfl

/-- Merging ascending entries one after the other gives them back. -/
theorem foldl_merge {r : Refs} (h : r.Ascending) (hpos : ∀ e ∈ r.entries, 0 < e.2) :
    r.entries.foldl (fun r e => r.merge e.1 e.2) {} = r := by
  obtain ⟨es⟩ := r
  simp only [Ascending] at h hpos ⊢
  induction es using List.reverseRecOn with
  | nil => rfl
  | append_singleton es e ih =>
    obtain ⟨h1, -, h2⟩ := List.pairwise_append.mp h
    rw [List.foldl_append, ih h1 fun x hx => hpos x (List.mem_append_left _ hx)]
    simp only [List.foldl_cons, List.foldl_nil]
    rw [merge, if_pos (hpos e (by simp)), put,
      putEntry_of_above fun x hx => h2 x hx e (by simp)]

theorem putEntry_putEntry (path : Text) (n : Int) (es : List (Text × Int)) :
    putEntry path n (putEntry path n es) = putEntry path n es := by
  induction es with
  | nil => simp [putEntry]
  | cons e es ih =>
    obtain ⟨q, m⟩ := e
    unfold putEntry
    by_cases hq : path = q
    · simp [hq, putEntry]
    · by_cases hlt : path < q
      · simp [hq, hlt, putEntry]
      · simp [hq, hlt, putEntry, ih]

/-- The same observation twice is as good as once. -/
theorem merge_merge (r : Refs) (path : Text) (n : Int) :
    (r.merge path n).merge path n = r.merge path n := by
  unfold merge
  by_cases hn : 0 < n
  · simp only [if_pos hn, put, putEntry_putEntry]
  · simp [if_neg hn, erase]

/-- Counts noted for two paths do not depend on which comes first. -/
theorem Ascending.merge_comm {r : Refs} (h : r.Ascending) {p q : Text} (hne : p ≠ q) (n m : Int) :
    (r.merge p n).merge q m = (r.merge q m).merge p n := by
  refine ((h.merge p n).merge q m).ext ((h.merge q m).merge p n) fun x => ?_
  simp only [get?_merge]
  by_cases hq : x = q
  · have hp : x ≠ p := fun e => hne (e.symm.trans hq)
    simp only [if_pos hq, if_neg hp]
  · simp only [if_neg hq]

/-! ## Tallies -/

theorem tally_concat (paths : List Text) (path : Text) :
    tally (paths ++ [path]) =
      (tally paths).put path (((tally paths).get? path).getD 0 + 1) := by
  unfold tally
  rw [List.foldl_append]
  rfl

theorem ascending_tally (paths : List Text) : (tally paths).Ascending := by
  induction paths using List.reverseRecOn with
  | nil => exact List.Pairwise.nil
  | append_singleton paths path ih =>
    rw [tally_concat]
    exact ascending_putEntry ih

theorem mem_tally {paths : List Text} {e : Text × Int} (h : e ∈ (tally paths).entries) :
    e.1 ∈ paths ∧ 0 < e.2 ∧ e.2 ≤ paths.length := by
  induction paths using List.reverseRecOn generalizing e with
  | nil => cases h
  | append_singleton paths path ih =>
    rw [tally_concat] at h
    rw [List.length_append, List.length_singleton]
    rcases mem_putEntry h with rfl | h
    · cases hget : (tally paths).get? path with
      | none =>
        refine ⟨by simp, by simp, ?_⟩
        rw [Option.getD_none]
        push_cast
        omega
      | some m =>
        obtain ⟨-, hpos, hle⟩ := ih (mem_entries_of_get? hget)
        simp only [Option.getD_some, List.mem_append, List.mem_singleton, or_true, true_and]
        push_cast
        omega
    · obtain ⟨hmem, hpos, hle⟩ := ih h
      refine ⟨List.mem_append_left _ hmem, hpos, ?_⟩
      push_cast
      omega

/-- A tally has each path that occurs, with the number of its occurrences. -/
theorem get?_tally (paths : List Text) (path : Text) :
    (tally paths).get? path = if path ∈ paths then some (paths.count path : Int) else none := by
  induction paths using List.reverseRecOn with
  | nil => rfl
  | append_singleton paths q ih =>
    rw [tally_concat, get?_put]
    by_cases hq : path = q
    · subst hq
      rw [if_pos rfl, if_pos (by simp), ih, List.count_append, List.count_singleton_self]
      by_cases hmem : path ∈ paths
      · simp [hmem]
      · simp [hmem, List.count_eq_zero_of_not_mem hmem]
    · rw [if_neg hq, ih]
      simp [hq, List.count_append, Ne.symm hq]

end Marginalia.Refs
