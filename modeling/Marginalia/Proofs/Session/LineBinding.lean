import Marginalia.Proofs.Marker.Site
import Marginalia.Proofs.Session.Tidy

/-!
# Binding the marker of a line

When the marker of a line is bound, the text of the document becomes the one with the site's marker
bound (`text_of_bindMarker`); only where no site is, nothing is bound without a fault
(`no_site_of_bindMarker`). In an `Orderly` workspace, of all files the one of the cursor changes and
the record comes in, or was there (`record_of_bindMarker`). When nothing is bound, the file of the
document stays as it is (`file_stays`).
-/

namespace Marginalia

open Marker (Site)

namespace Marker

/-- A line with an unbound marker is a site. -/
theorem Site.of_line {text line : Text} {k : Nat} {number : Int} {m : Marker}
    (hline : (Text.atNewlines text)[k]? = some line) (hm : scan number line = some m)
    (hb : m.binding = none) :
    ∃ σ : Site text, σ.above.length = k ∧ σ.line = line ∧ { σ.marker with line := number } = m := by
  obtain ⟨hk, rfl⟩ := List.getElem?_eq_some_iff.mp hline
  rw [scan_number] at hm
  obtain ⟨m', hm', rfl⟩ := Option.map_eq_some_iff.mp hm
  have hlines : Text.atNewlines text = (Text.atNewlines text).take k ++
      (Text.atNewlines text)[k] :: (Text.atNewlines text).drop (k + 1) := by
    rw [List.getElem_cons_drop, List.take_append_drop]
  exact ⟨⟨_, _, _, m', hlines, hm', hb⟩, by simp; omega, rfl, rfl⟩

/-! ## The document -/

/-- What the edit of a binding makes of a text. -/
theorem Site.text_of_apply {text id : Text} {σ : Site text} {document document' : Document}
    {number : Int} {observed : Bool} (hlines : document.lines = Text.atNewlines text)
    (hnumber : Document.index? document.lines.length number = some σ.above.length)
    (h : document.apply ⟨number, σ.marker.start, σ.marker.stop,
      canonicalText σ.marker.token id⟩ observed = .ok (document', true)) :
    document'.text = σ.bind id := by
  have hline : document.lines[σ.above.length]? = some σ.line := by rw [hlines, σ.lines]; simp
  have htext := Document.lineText_eq_ok_iff.mpr ⟨_, hnumber, hline⟩
  obtain ⟨line, k, htext', hk, hedited⟩ := Document.lines_of_apply h
  cases htext.symm.trans htext'
  cases hnumber.symm.trans hk
  rw [Document.text, σ.bind_eq, hedited, hlines, σ.lines, List.set_append_right _ _ (Nat.le_refl _),
    Text.before_of_nat, Text.after_of_nat, List.append_assoc]
  simp [Site.boundLine]

end Marker

namespace Session

variable {s : Session} {home : Path} {t t' : Tree} {id text : Text} {now : Int} {d d' : Desk}

/-- A marker is bound at a site of the text, and its token is all that changes. -/
theorem text_of_bindMarker {name : Text} {number : Int} {b : Bound}
    (hdocument : d.document = .ofText name text) (hnumber : 0 ≤ number)
    (h : (s.bindMarker now number).run d = (.ok (some b), d')) :
    ∃ σ : Site text, (σ.above.length : Int) = number ∧ d'.document.text = σ.bind b.id := by
  obtain ⟨line, m, t₁, made, hline, hm, hb, -, hedit, -, -⟩ := bindFrom_eq_some h
  obtain ⟨k, hk, hline⟩ := Document.lineText_eq_ok_iff.mp hline
  have hlines : d.document.lines = Text.atNewlines text := by rw [hdocument]; rfl
  obtain ⟨σ, rfl, rfl, rfl⟩ := Site.of_line (hlines ▸ hline) hm hb
  have hcount := Document.index?_lt hk
  have habove : (σ.above.length : Int) = number := by
    simp only [Document.index?, Option.ite_none_right_eq_some, Option.some.injEq] at hk
    split at hk <;> omega
  obtain ⟨-, -, hstop⟩ := Marker.scan_split σ.scanned
  have hmin : min (σ.line.length : Int) (σ.marker.stop + (0 : Nat)) = σ.marker.stop := by omega
  exact ⟨σ, habove, Marker.Site.text_of_apply hlines hk (hmin ▸ hedit)⟩

/-- Only where no site is, nothing is bound. -/
theorem no_site_of_bindMarker {name : Text} {number : Int} (hdocument : d.document = .ofText name text)
    (h : (s.bindMarker now number).run d = (.ok none, d')) (σ : Site text) :
    (σ.above.length : Int) ≠ number := by
  rintro rfl
  have hlines : d.document.lines = Text.atNewlines text := by rw [hdocument]; rfl
  have hline : d.document.lines[σ.above.length]? = some σ.line := by rw [hlines, σ.lines]; simp
  obtain ⟨habove, -⟩ := List.getElem?_eq_some_iff.mp hline
  have hindex : Document.index? d.document.lines.length σ.above.length = some σ.above.length := by
    have hnat : ¬ (σ.above.length : Int) < 0 := by omega
    simp [Document.index?, hnat, habove]
  have hscan : Marker.scan σ.above.length σ.line =
      some { σ.marker with line := σ.above.length } := by
    rw [Marker.scan_number, σ.scanned]
    rfl
  obtain ⟨-, hstart, -⟩ := Marker.scan_split σ.scanned
  have hopen : d.document.readOnly = false := by rw [hdocument]; rfl
  have htext := Document.lineText_eq_ok_iff.mpr ⟨_, hindex, hline⟩
  refine absurd h (bindFrom_ne_none htext hscan σ.unbound fun id =>
    ⟨_, Document.apply_eq hopen hindex hline ?_ ?_ _⟩)
  · exact Int.min_le_left ..
  · simp [Marker.stop, hstart]

/-! ## The files -/

/-- A workspace as sessions leave it: no folder is or gets in the place of a record, and no unbound
marker is in the cursor file. -/
structure Orderly (home : Path) (t : Tree) : Prop extends Passable home t where
  free : ∀ set id, IsNumeral id → t.node? (recordPlace home set id) ≠ some .folder
  cursor : ∀ c text, t.node? (cursorPlace home) = some (.file c) → c.bytes = Utf8.encode text →
    IsEmpty (Site text)

theorem Orderly.quiet (h : Orderly home t) (hq : Quiet home t t') (hs : Tree.SameFiles [] t t') :
    Orderly home t' where
  toPassable := h.toPassable.quiet hq
  free := fun set id hid hf => h.free set id hid (hq.free set id hid hf)
  cursor := fun c text hc hbytes =>
    h.cursor c text ((hs (cursorPlace home) List.not_mem_nil c).mp hc) hbytes

/-- No marker is in a cursor file that a session wrote. -/
theorem no_site_cursorText (n : Nat) : IsEmpty (Site (cursorText n)) := by
  refine ⟨fun σ => ?_⟩
  have hfirst : ∀ o ∈ openers, o.any ['/', '#', '<'].contains = true := by decide
  have hother : ['/', '#', '<'].all (fun c =>
      !"\x7b\"nextId\": \x7d".toList.contains c && !isAsciiDigit c) = true := by decide
  obtain ⟨c, hc, hmem⟩ := List.any_eq_true.mp (hfirst _ (Marker.opener_mem σ.scanned).1)
  have hout := List.all_eq_true.mp hother c (List.contains_iff_mem.mp hmem)
  rw [Bool.and_eq_true, Bool.not_eq_true', Bool.not_eq_true'] at hout
  rcases mem_cursorText (σ.opener_subset hc) with h | h
  · exact absurd (List.contains_iff_mem.mpr h) (by rw [hout.1]; nofun)
  · exact absurd h (by rw [hout.2]; nofun)

/-- The folder of sets is given by names alone, and the cursor file, if any, is a session's own. -/
theorem Orderly.of_plain (hw : t.WellFormed) (hplain : Path.above ∉ home.parts)
    (hfree : ∀ set id, IsNumeral id → t.node? (recordPlace home set id) ≠ some .folder)
    (hcursor : ∀ c, t.node? (cursorPlace home) = some (.file c) →
      ∃ n, c.bytes = Utf8.encode (cursorText n)) : Orderly home t where
  toPassable := .of_plain hw hplain
  free := hfree
  cursor := fun c text hc hbytes => by
    obtain ⟨n, hn⟩ := hcursor c hc
    rw [← Utf8.encode_injective (hn.symm.trans hbytes)]
    exact no_site_cursorText n

/-- A file in which a marker can be bound is not the cursor file. -/
theorem Orderly.ne_cursor (h : Orderly home t) (σ : Site text) {l : Location} {c : Content}
    (hc : t.node? l = some (.file c)) (hbytes : c.bytes = Utf8.encode text) :
    l ≠ cursorPlace home := by
  rintro rfl
  exact (h.cursor c text hc hbytes).false σ

theorem Advanced.sameFiles {n : Nat} (hw : t.WellFormed) (h : Advanced home t n t') :
    Tree.SameFiles [cursorPlace home] t t' := by
  obtain ⟨-, hadds⟩ := Tree.makeFolders_adds hw home
  rw [h.eq]
  exact hadds.more.sameFiles.trans (Tree.sameFiles_insert _ _ _)

theorem Advanced.growsWithin {n : Nat} (hw : t.WellFormed) (h : Advanced home t n t') :
    Tree.GrowsWithin (home.parts.length + 1) t t' := by
  obtain ⟨-, hadds⟩ := Tree.makeFolders_adds hw home
  rw [h.eq]
  exact (hadds.growsWithin (Nat.le_succ _)).trans
    (.insert_file (by simp) h.noFolder _ _)

/-- When nothing is bound, no file but that of the cursor changes. -/
theorem Binds.sameFiles {r : Except Fault (Option Bound)} (hw : d.tree.WellFormed)
    (hs : s.folder? = some home) (h : Binds s now d r d') (hr : ∀ b, r ≠ .ok (some b)) :
    d'.tree.WellFormed ∧ Tree.SameFiles [cursorPlace home] d.tree d'.tree := by
  have hissued {id : Text} {d₁ : Desk}
      (hid : (Editing.onTree s.allocate).run d = (.ok id, d₁)) :
      d₁.tree.WellFormed ∧ Tree.SameFiles [cursorPlace home] d.tree d₁.tree := by
    rcases allocate_cases hw (Editing.onTree_eq hid).1 with
      ⟨e, he, -⟩ | ⟨home', _, _, hs', -, -, -, -, hadv, -⟩
    · cases he
    · cases hs.symm.trans hs'
      exact ⟨hadv.wellFormed hw, hadv.sameFiles hw⟩
  cases h with
  | idle => exact ⟨hw, .refl _ _⟩
  | refused hid =>
    rcases allocate_cases hw (Editing.onTree_eq hid).1 with
      ⟨e, -, hw', hmore⟩ | ⟨_, _, _, _, _, _, _, _, _, he⟩
    · exact ⟨hw', hmore.sameFiles.trans (.refl [cursorPlace home] _)⟩
    · cases he
  | unedited hid hedit =>
    rw [Editing.apply_tree hedit]
    exact hissued hid
  | unrecorded hid hedit hmade =>
    obtain ⟨hw₁, hsame⟩ := hissued hid
    rw [← Editing.apply_tree hedit] at hw₁ hsame
    obtain ⟨hw₂, hmore, -⟩ := ensure_spec hw₁ (Editing.onTree_eq hmade).1
    exact ⟨hw₂, by simpa using hsame.trans (hmore _ rfl).sameFiles⟩
  | recorded => exact absurd rfl (hr _)

/-- When nothing is bound, the file of the document stays as it is. -/
theorem file_stays {name : Text} {number : Int} {q : Except Fault (Option Bound)} {l : Location}
    {c : Content} (h : Orderly home d.tree) (hs : s.folder? = some home)
    (hdocument : d.document = .ofText name text) (hc : d.tree.node? l = some (.file c))
    (hbytes : c.bytes = Utf8.encode text) (hrun : (s.bindMarker now number).run d = (q, d'))
    (hq : ∀ b, q ≠ .ok (some b)) : d'.tree.node? l = some (.file c) := by
  by_cases hsites : IsEmpty (Site text)
  · have hnone : ∀ line m, d.document.lineText number = .ok line →
        Marker.scan number (none.getD line) = some m → m.binding ≠ none := by
      intro line m hline hm hb
      obtain ⟨k, -, hline⟩ := Document.lineText_eq_ok_iff.mp hline
      have hlines : d.document.lines = Text.atNewlines text := by rw [hdocument]; rfl
      obtain ⟨σ, -⟩ := Site.of_line (hlines ▸ hline) hm hb
      exact hsites.false σ
    obtain ⟨rfl, -⟩ := bindFrom_idle hnone hrun
    exact hc
  · -- A file with a site is not the cursor file, and no other one changes.
    obtain ⟨σ⟩ := not_isEmpty_iff.mp hsites
    have hne := h.ne_cursor σ hc hbytes
    obtain ⟨-, hsame⟩ := (bindFrom_cases hrun).sameFiles h.wellFormed hs hq
    exact (hsame l (by simpa using hne) c).mpr hc

/-- The record of a marker that is bound is there, no other file changes but that of the cursor, and
new folders are no deeper than those of sets. -/
theorem record_of_bindMarker {number : Int} {b : Bound} (h : Orderly home d.tree)
    (hs : s.folder? = some home) (hactive : IsSetName s.activeSet)
    (hrun : (s.bindMarker now number).run d = (.ok (some b), d')) :
    d'.tree.WellFormed ∧ IsNumeral b.id ∧ ∃ set, b.path = (home.child set).fragment b.id ∧
      (∃ c, d'.tree.node? (recordPlace home set b.id) = some (.file c)) ∧
      Tree.SameFiles [cursorPlace home, recordPlace home set b.id] d.tree d'.tree ∧
      Tree.GrowsWithin (home.parts.length + 1) d.tree d'.tree := by
  obtain ⟨-, -, t₁, made, -, -, -, hid, -, hmade, hpath⟩ := bindFrom_eq_some hrun
  have hquiet := Calm.allocate hs d.tree h.toPassable
  rw [hid] at hquiet
  rcases allocate_cases h.wellFormed hid with ⟨e, he, -⟩ | ⟨home', _, n, hs', -, -, -, -, hadv, he⟩
  · cases he
  · cases hs.symm.trans hs'
    have hnumeral : IsNumeral b.id := by
      rw [Except.ok.inj he]
      exact ⟨Numeral.ofNat_ne_nil n, fun _ => Numeral.isAsciiDigit_of_mem_ofNat⟩
    obtain ⟨set, hset, hplace, t₂, hw₂, hadds, hcases⟩ :=
      ensure_place hquiet.wellFormed hs hactive hnumeral.2 hmade
    have hquiet' := hquiet.trans ((h.toPassable.quiet hquiet).folders hset hw₂ hadds)
    have hsame : Tree.SameFiles [cursorPlace home] d.tree t₂ := by
      simpa using (hadv.sameFiles h.wellFormed).trans hadds.more.sameFiles
    have hgrows : Tree.GrowsWithin (home.parts.length + 1) d.tree t₂ :=
      (hadv.growsWithin h.wellFormed).trans (hadds.growsWithin (by simp))
    have hne : recordPlace home set b.id ≠ [] := by simp [recordPlace]
    refine ⟨(ensure_spec hquiet.wellFormed hmade).1, hnumeral, set, hpath.trans hplace, ?_⟩
    rcases hcases with ⟨-, hnone, c, e⟩ | ⟨-, hthere, e⟩
    · rw [e]
      exact ⟨⟨c, Tree.node?_insert_self _ hne _⟩, hsame.trans (Tree.sameFiles_insert _ _ _),
        hgrows.trans (.insert_file hne (by simp [hnone]) _ _)⟩
    · obtain ⟨n, hn⟩ := Option.ne_none_iff_exists'.mp hthere
      rw [e]
      refine ⟨?_, hsame.trans (.refl [recordPlace home set b.id] _), hgrows⟩
      cases n with
      | folder => exact absurd (hquiet'.free set b.id hnumeral hn) (h.free set b.id hnumeral)
      | file c => exact ⟨c, hn⟩

end Session

end Marginalia
