import Marginalia.Proofs.Disk.Folders
import Marginalia.Proofs.Marker.Site
import Marginalia.Proofs.Session.Occurrences

/-!
# The scan after a binding

When the marker of a site is bound in a file that the scan reads, and no other file that it reads is
touched (`Rebound`), the scan finds what it found before and one occurrence more
(`Rebound.finds_iff`): the references of the id are those before with this one among them, and those
of other ids are the same (`Rebound.gains`).
-/

namespace Marginalia

open Marker (Site)

theorem Marker.Site.getElem?_bind {text id : Text} (σ : Site text)
    (hid : ∀ c ∈ id, isAsciiDigit c = true) (k : Nat) :
    (Text.atNewlines (σ.bind id))[k]? =
      if k = σ.above.length then some (σ.boundLine id) else (Text.atNewlines text)[k]? := by
  have hset : Text.atNewlines (σ.bind id) =
      (Text.atNewlines text).set σ.above.length (σ.boundLine id) := by
    rw [σ.lines_bind hid, σ.lines, List.set_append_right _ _ (Nat.le_refl _)]
    simp
  rw [hset, List.getElem?_set, σ.lines]
  simp [eq_comm]

namespace Session

/-- A tree before and after the marker of a site was bound in a file below a root. -/
structure Rebound (s : Session) (root : Path) (l : Location) {text : Text} (σ : Site text) (id : Text)
    (t t' : Tree) : Prop where
  isId : isId id = true
  wellFormed : t'.WellFormed
  scanned : s.Scannable t root l text
  written : ∃ c, t'.node? (lead [] root.parts ++ l) = some (.file c) ∧
    c.bytes = Utf8.encode (σ.bind id)
  others : ∀ k, k ≠ l → k ≠ [] → (∀ n ∈ k.dropLast, n ∉ s.unscanned) → ∀ c,
    t'.node? (lead [] root.parts ++ k) = some (.file c) ↔
      t.node? (lead [] root.parts ++ k) = some (.file c)
  grows : Tree.GrowsWithin scanLevels t t'

/-- The occurrence of the marker that is bound. -/
def boundOccurrence (root : Path) (l : Location) {text : Text} (σ : Site text) (id : Text) :
    Occurrence where
  file := Path.relativeText l
  line := (σ.above.length : Int) + 1
  id := id
  path := root.under l

/-- Whether the references of an id are those before and one more, and those of other ids stay. -/
def Gains (s : Session) (t t' : Tree) (id : Text) (o : Occurrence) : Prop :=
  (∃ os os', s.findReferences t id = .ok (os ++ os') ∧
    s.findReferences t' id = .ok (os ++ o :: os')) ∧
  ∀ i, i ≠ id → s.findReferences t' i = s.findReferences t i

namespace Rebound

variable {s : Session} {root : Path} {l : Location} {text : Text} {σ : Site text} {id : Text}
variable {t t' : Tree}

theorem digits (h : s.Rebound root l σ id t t') : ∀ c ∈ id, isAsciiDigit c = true :=
  (isId_iff.mp h.isId).2.2

theorem there (h : s.Rebound root l σ id t t') : t'.resolve root = .ok (lead [] root.parts) :=
  h.grows.stay.resolve h.scanned.there

theorem after (h : s.Rebound root l σ id t t') : s.Scannable t' root l (σ.bind id) := by
  obtain ⟨c, hc, hbytes⟩ := h.written
  obtain ⟨c', -, hnul, hbytes'⟩ := h.scanned.file
  refine ⟨h.scanned.below, h.scanned.allowed, h.scanned.entered, h.there, c, hc, ?_, hbytes⟩
  rw [hbytes'] at hnul
  rw [hbytes]
  exact σ.no_nul_within h.digits hnul

theorem scannable_iff (h : s.Rebound root l σ id t t') {k : Location} (hk : k ≠ l) (text' : Text) :
    s.Scannable t' root k text' ↔ s.Scannable t root k text' := by
  have hsame (hne : k ≠ []) (hallowed : ∀ n ∈ k.dropLast,
      n ∉ s.config.excluded ∧ n ≠ (Path.ofText s.config.folder).name) (c : Content) :=
    h.others k hk hne (fun n hn => mem_unscanned.mpr (hallowed n hn)) c
  constructor
  · rintro ⟨hne, hallowed, hentered, -, c, hc, hbytes⟩
    exact ⟨hne, hallowed, hentered, h.scanned.there, c, (hsame hne hallowed c).mp hc, hbytes⟩
  · rintro ⟨hne, hallowed, hentered, -, c, hc, hbytes⟩
    exact ⟨hne, hallowed, hentered, h.there, c, (hsame hne hallowed c).mpr hc, hbytes⟩

/-- The files that the walk comes to were there, and new folders are not too deep for it. -/
theorem walkable (h : s.Rebound root l σ id t t') (hwalk : s.Walkable t root) :
    s.Walkable t' root := by
  refine ⟨hwalk.nameable, fun base k c hbase hc hne hfree hentered => ?_,
    fun base k hbase hk hfree hentered => ?_⟩ <;>
    obtain rfl : lead [] root.parts = base := Except.ok.inj (h.there.symm.trans hbase)
  · by_cases hkl : k = l
    · obtain ⟨c', hc', -⟩ := h.scanned.file
      exact hwalk.short _ k c' h.scanned.there (hkl ▸ hc') hne hfree hentered
    · exact hwalk.short _ k c h.scanned.there ((h.others k hkl hne hfree c).mp hc) hne hfree hentered
  · rcases h.grows.new _ hk with hold | hle
    · exact hwalk.shallow _ k h.scanned.there hold hfree hentered
    · rw [List.length_append] at hle
      omega

theorem finds_iff (h : s.Rebound root l σ id t t') {i : Text} {o : Occurrence} :
    s.Finds t' root i o ↔ s.Finds t root i o ∨ (i = id ∧ o = boundOccurrence root l σ id) := by
  constructor
  · rintro ⟨k, text', j, line, hk, hj, hid, ho⟩
    by_cases hkl : k = l
    · subst hkl
      obtain rfl := hk.text_unique h.after
      rw [σ.getElem?_bind h.digits] at hj
      by_cases hjk : j = σ.above.length
      · rw [if_pos hjk, Option.some.injEq] at hj
        subst hj
        rw [σ.scan_boundLine h.isId, Option.some.injEq] at hid
        subst hid
        exact .inr ⟨rfl, by rw [ho, hjk, boundOccurrence]⟩
      · rw [if_neg hjk] at hj
        exact .inl ⟨k, text, j, line, h.scanned, hj, hid, ho⟩
    · exact .inl ⟨k, text', j, line, (h.scannable_iff hkl text').mp hk, hj, hid, ho⟩
  · rintro (⟨k, text', j, line, hk, hj, hid, ho⟩ | ⟨rfl, rfl⟩)
    · by_cases hkl : k = l
      · subst hkl
        obtain rfl := hk.text_unique h.scanned
        have hjk : j ≠ σ.above.length := by
          rintro rfl
          have hline : σ.line = line := by simpa [σ.lines] using hj
          rw [← hline, σ.scan_line] at hid
          cases hid
        exact ⟨k, _, j, line, h.after, by rw [σ.getElem?_bind h.digits, if_neg hjk, hj], hid, ho⟩
      · exact ⟨k, text', j, line, (h.scannable_iff hkl text').mpr hk, hj, hid, ho⟩
    · exact ⟨l, _, σ.above.length, _, h.after, by rw [σ.getElem?_bind h.digits, if_pos rfl],
        σ.scan_boundLine h.isId, rfl⟩

theorem not_finds (h : s.Rebound root l σ id t t') :
    ¬ s.Finds t root id (boundOccurrence root l σ id) := by
  rintro ⟨k, text', j, line, hk, hj, hid, ho⟩
  have hpath := congrArg (fun o : Occurrence => o.path.parts) ho
  obtain rfl : l = k := List.append_cancel_left hpath
  obtain rfl := hk.text_unique h.scanned
  have hline := congrArg Occurrence.line ho
  have hjk : j = σ.above.length := by simp only [boundOccurrence] at hline; omega
  subst hjk
  have hline : σ.line = line := by simpa [σ.lines] using hj
  rw [← hline, σ.scan_line] at hid
  cases hid

theorem plainWalk (h : s.Rebound root l σ id t t') (hs : t.NoSlash) :
    t'.PlainWalk root s.unscanned := by
  intro f hf n hn
  obtain ⟨base, hbase, hnode, hne, hallowed, -⟩ := h.wellFormed.mem_reached.mp hf
  obtain rfl : lead [] root.parts = base := Except.ok.inj (h.there.symm.trans hbase)
  have hthere : ∃ c, t.node? (lead [] root.parts ++ f.location) = some (.file c) := by
    by_cases hl : f.location = l
    · obtain ⟨c, hc, -⟩ := h.scanned.file
      exact ⟨c, hl ▸ hc⟩
    · exact ⟨_, (h.others _ hl hne hallowed _).mp hnode⟩
  obtain ⟨c, hc⟩ := hthere
  exact hs.of_node hc n (List.mem_append_right _ hn)

/-- The occurrences after the binding are those before with the new one in its place. -/
theorem occurrences (h : s.Rebound root l σ id t t') (hw : t.WellFormed) (hs : t.NoSlash) :
    ∃ os os', s.occurrences t root = os ++ os' ∧
      s.occurrences t' root = os ++ boundOccurrence root l σ id :: os' := by
  have hascending : (s.occurrences t' root).Pairwise Occurrence.Before :=
    ascending_of_plainWalk h.wellFormed (h.plainWalk hs)
  have hmem : ∀ o, o ∈ s.occurrences t' root ↔
      o ∈ s.occurrences t root ∨ o = boundOccurrence root l σ id := by
    intro o
    rw [mem_occurrences h.wellFormed, mem_occurrences hw, h.finds_iff]
    exact or_congr_right ⟨fun e => e.2, fun e => ⟨by rw [e]; rfl, e⟩⟩
  obtain ⟨os, os', e⟩ := List.append_of_mem ((hmem _).mpr (.inr rfl))
  rw [e] at hascending
  have hnodup := List.nodup_middle.mp (Occurrence.nodup_of_ascending hascending)
  refine ⟨os, os', Occurrence.eq_of_ascending (ascending_occurrences hw hs)
    (hascending.sublist ((List.sublist_cons_self ..).append_left os)) fun o => ?_, e⟩
  have hold : o ∈ s.occurrences t root → o ≠ boundOccurrence root l σ id := by
    rintro ho rfl
    exact h.not_finds ((mem_occurrences hw).mp ho)
  have hnew : o ∈ os ++ os' → o ≠ boundOccurrence root l σ id := by
    rintro ho rfl
    exact (List.nodup_cons.mp hnodup).1 ho
  have hall := hmem o
  rw [e, List.mem_append, List.mem_cons] at hall
  rw [List.mem_append] at hnew ⊢
  tauto

theorem gains (h : s.Rebound root l σ id t t') (hroot : s.root = some root) (hw : t.WellFormed)
    (hs : t.NoSlash) (hwalk : s.Walkable t root) : s.Gains t t' id (boundOccurrence root l σ id) := by
  obtain ⟨os, os', hold, hnew⟩ := h.occurrences hw hs
  simp only [Gains, findReferences_eq hw hroot hwalk,
    findReferences_eq h.wellFormed hroot (h.walkable hwalk), hold, hnew, List.filter_append]
  refine ⟨⟨os.filter (·.id == id), os'.filter (·.id == id), rfl, ?_⟩, fun i hi => ?_⟩
  · rw [List.filter_cons_of_pos (by simp [boundOccurrence])]
  · rw [List.filter_cons_of_neg (by simpa [boundOccurrence] using Ne.symm hi)]

end Rebound

end Session

end Marginalia
