import Marginalia.Decoration
import Marginalia.Proofs.Fragment.Recovery
import Marginalia.Proofs.Marker.Agreement
import Marginalia.Proofs.Session.Counts
import Marginalia.Proofs.Work
import Marginalia.Session.Counts

/-!
# Decorations and counts follow the markers

A decoration stands for a bound marker, and there is one for each (`decorations_eq_ok`): lines are
decorated as they are scanned, and only a preview can keep them from it. An observation counts the
same markers (`counts_of_observe`). So all that look at a text see the same markers on the same
lines, whether a carriage return is before each line feed or none is (`markers_agree`).
-/

namespace Marginalia

/-- Where a bound marker is, and its id. -/
structure Pin where
  line : Nat
  start : Nat
  stop : Nat
  id : Text
  deriving DecidableEq, Repr

namespace Marker

def pin? (m : Marker) : Option Pin :=
  m.binding.map fun b => { line := m.line.toNat, start := m.start, stop := m.stop, id := b.id }

/-- The bound markers of lines, the first line numbered zero. -/
def pins (lines : List Text) : List Pin :=
  lines.zipIdx.filterMap fun (line, number) => (scan number line).bind pin?

theorem pins_atNewlines (text : Text) :
    pins (Text.atNewlines text) = (scanText text).filterMap pin? := by
  rw [scanText_eq, List.filterMap_filterMap]
  simp only [scan_dropReturn]
  rfl

theorem id_of_pin? (m : Marker) : m.pin?.map Pin.id = m.id? := by
  rw [pin?, Option.map_map]
  rfl

theorem map_id_pins (text : Text) :
    (pins (Text.atNewlines text)).map Pin.id = Session.boundIds text := by
  rw [pins_atNewlines, List.map_filterMap]
  simp only [id_of_pin?]
  rfl

/-- A line's marker is where it is scanned, with or without a carriage return behind it. -/
theorem pins_dropReturn (lines : List Text) : pins (lines.map Text.dropReturn) = pins lines := by
  rw [pins, List.zipIdx_map, List.filterMap_map, pins]
  simp only [Function.comp_def, Prod.map, scan_dropReturn, id_eq]

theorem mem_pins {text : Text} {p : Pin} : p ∈ pins (Text.atNewlines text) ↔
    ∃ m, onLine? text p.line = some m ∧ m.id? = some p.id ∧ m.start = p.start ∧ m.stop = p.stop := by
  rw [pins_atNewlines, List.mem_filterMap]
  constructor
  · rintro ⟨m, hm, hp⟩
    obtain ⟨b, hb, rfl⟩ := Option.map_eq_some_iff.mp hp
    obtain ⟨n, hn⟩ := mem_scanText_iff.mp hm
    have hline : m.line = n := by simpa using List.find?_some hn
    exact ⟨m, by simpa [hline] using hn, by simp [id?, hb], rfl, rfl⟩
  · rintro ⟨m, hm, hid, hstart, hstop⟩
    have hline : m.line = p.line := by simpa using List.find?_some hm
    obtain ⟨b, hb, hb'⟩ := Option.map_eq_some_iff.mp hid
    refine ⟨m, mem_scanText_iff.mpr ⟨_, hm⟩, ?_⟩
    simp [pin?, hb, hb', hline, hstart, hstop]

theorem isId_of_mem_pins {lines : List Text} {p : Pin} (h : p ∈ pins lines) : isId p.id = true := by
  obtain ⟨⟨line, number⟩, -, hp⟩ := List.mem_filterMap.mp h
  obtain ⟨m, hm, hp⟩ := Option.bind_eq_some_iff.mp hp
  obtain ⟨b, hb, rfl⟩ := Option.map_eq_some_iff.mp hp
  exact isId_of_scan hm hb

end Marker

open Marker (pins onLine? rewrite scanText migrateText)

def Decoration.pin (d : Decoration) : Pin :=
  { line := d.line, start := d.start, stop := d.stop, id := d.id }

/-- The decoration that stands for a bound marker. -/
def Pin.decoration (p : Pin) (preview : Preview) : Decoration :=
  { line := p.line, start := p.start, stop := p.stop, id := p.id, preview }

namespace Session

variable {s : Session} {t : Tree} {lines : List Text} {ds : List Decoration}

/-! ## Decorations -/

theorem decorate_eq (s : Session) (t : Tree) (number : Nat) (line : Text) :
    s.decorate t number line = ((Marker.scan number line).bind Marker.pin?).elim (.ok none)
      fun p => ((s.preview t p.id).map p.decoration).map some := by
  unfold decorate
  cases hm : Marker.scan number line with
  | none => rfl
  | some m =>
    cases hb : m.binding with
    | none => simp [Marker.pin?, hb]
    | some b =>
      have hline : m.line.toNat = number := by simp [Marker.line_of_scan hm]
      simp only [Option.bind_some, Marker.pin?, hb, Option.map_some, hline, Option.elim_some]
      cases s.preview t b.id <;> rfl

/-- Steps of which some have nothing to do come to those that have. -/
theorem mapM_filterMap {ε α β γ : Type} {f : α → Except ε (Option β)} {g : α → Option γ}
    {h : γ → Except ε β}
    (hf : ∀ x, f x = (g x).elim (.ok none) fun y => (h y).map some) (xs : List α) :
    (xs.mapM f).map (List.filterMap id) = (xs.filterMap g).mapM h := by
  induction xs with
  | nil => rfl
  | cons x xs ih =>
    rw [List.mapM_cons, hf]
    cases hx : g x with
    | none =>
      rw [List.filterMap_cons_none hx, ← ih]
      cases xs.mapM f <;> rfl
    | some y =>
      rw [List.filterMap_cons_some hx, List.mapM_cons, ← ih]
      rw [Option.elim_some]
      cases h y with
      | error e => rfl
      | ok z => cases xs.mapM f <;> rfl

/-- Only lines with a bound marker have anything to be worked out. -/
theorem decorations_eq (s : Session) (t : Tree) (lines : List Text) :
    s.decorations t lines = (pins lines).mapM fun p => (s.preview t p.id).map p.decoration :=
  mapM_filterMap (fun (line, number) => decorate_eq s t number line) lines.zipIdx

/-- Decorations stand for the bound markers, one for each. -/
theorem decorations_eq_ok (h : s.decorations t lines = .ok ds) :
    ds.map Decoration.pin = pins lines := by
  rw [decorations_eq, mapM_eq_ok_iff] at h
  generalize pins lines = ps at h ⊢
  induction h with
  | nil => rfl
  | cons hd _ ih =>
    rw [List.map_cons, ih]
    cases hp : s.preview t _ with
    | error e => rw [hp] at hd; cases hd
    | ok preview => rw [hp] at hd; cases hd; rfl

/-- Lines are decorated as soon as there is a preview for each of their ids. -/
theorem decorations_succeed_iff : (∃ ds, s.decorations t lines = .ok ds) ↔
    ∀ p ∈ pins lines, ∃ preview, s.preview t p.id = .ok preview := by
  rw [decorations_eq, mapM_succeeds_iff]
  refine forall₂_congr fun p _ => ?_
  cases s.preview t p.id <;> simp [Except.map]

theorem decorations_dropReturn (s : Session) (t : Tree) (lines : List Text) :
    s.decorations t (lines.map Text.dropReturn) = s.decorations t lines := by
  rw [decorations_eq, Marker.pins_dropReturn, ← decorations_eq]

/-! ## Previews -/

theorem tolerate_map {α β : Type} (f : α → β) (r : Except Fault α) :
    tolerate (r.map f) = (tolerate r).map (Option.map f) := by
  cases r with
  | ok a => rfl
  | error e =>
    unfold tolerate Except.map
    cases h : e.isUnreadable <;> simp [h]

/-- What is shown of the page in a file, if there is one that can be read. -/
def previewOf (s : Session) : Option Page → Preview
  | none => { category := s.config.defaultCategory }
  | some page => previewBody (page.header.category s.config.defaultCategory) page.body

/-- A preview shows the page that the id leads to. -/
theorem preview_eq {id : Text} {found : Option Path} (h : s.locate t id = .ok found) :
    s.preview t id =
      (found.elim (.ok none) fun file => tolerate (readPage t file)).map s.previewOf := by
  unfold preview
  rw [h]
  cases found with
  | none => rfl
  | some file =>
    simp only [bind, Except.bind, read, tolerate_map, Option.elim_some]
    cases tolerate (readPage t file) with
    | error e => rfl
    | ok page => cases page <;> rfl

/-- A page with a count that has too many digits can neither be read nor passed over. -/
theorem readPage_counting {path : Text} {n : Nat} (hp : Header.IsPath path)
    (hn : 10 ^ Numeral.limit ≤ n) {file : Path} {l : Location} (hr : t.resolve file = .ok l)
    (hc : t.node? l = some (.file (.text (Page.counting path n)))) :
    readPage t file = .error (.excess (.digits (Numeral.ofNat n).length)) := by
  have hplain := Text.unifyNewlines_of_no_return (Page.no_return_counting hp n)
  have htext : t.readText file = .ok (Page.counting path n) := by
    rw [Tree.readText_of_resolve hr hc, Content.unified, Content.verbatim, Except.map, hplain,
      Except.mapError]
  simp only [readPage, htext, ask, Except.mapError, bind, Except.bind, Page.parse_counting hp hn]

/-! ## Counts -/

/-- What an observation returns, when it does. -/
theorem counts_of_observe {path text : Text} {u : Tree} {counts : List (Text × Nat)}
    (h : (s.observe path text).run t = (.ok counts, u)) : counts = idCounts (boundIds text) := by
  unfold observe at h
  simp only [] at h
  rcases hall : (s.recordAll path (idCounts (boundIds text))).run t with ⟨_ | _, t₁⟩
  · rw [Work.run_bind_of_error hall] at h
    cases h
  · rw [Work.run_bind_of_ok hall] at h
    cases hfiles : s.fragmentPaths t₁ with
    | error f =>
      rw [Work.run_bind_of_error (by rw [Work.run_inspect, hfiles])] at h
      cases h
    | ok files =>
      rw [Work.run_bind_of_ok (by rw [Work.run_inspect, hfiles])] at h
      rcases hforget : (forget path ((idCounts (boundIds text)).map Prod.fst) files).run t₁ with
        ⟨_ | _, t₂⟩
      · rw [Work.run_bind_of_error hforget] at h
        cases h
      · rw [Work.run_bind_of_ok hforget] at h
        cases h
        rfl

theorem lookup_idCounts (ids : List Text) (id : Text) :
    ((idCounts ids).lookup id).getD 0 = ids.count id := by
  have hlookup : ∀ es : List Text, (es.map fun id => (id, ids.count id)).lookup id =
      if id ∈ es then some (ids.count id) else none := fun es => by
    induction es with
    | nil => rfl
    | cons e es ih =>
      by_cases he : id = e
      · subst he
        simp
      · have hne : (id == e) = false := by simpa using he
        rw [List.map_cons, List.lookup_cons, hne, ih]
        simp [he]
  rw [idCounts, hlookup]
  by_cases hm : id ∈ ids
  · simp [hm]
  · simp [hm, List.count_eq_zero_of_not_mem hm]

theorem count_decorations {text : Text} (h : ds.map Decoration.pin = pins (Text.atNewlines text))
    (id : Text) : ds.countP (·.id == id) = (boundIds text).count id := by
  rw [← Marker.map_id_pins, ← h, List.map_map, List.count_eq_countP, List.countP_map]
  rfl

/-! ## All that look at a text -/

/-- Carriage returns before the line feeds of a text change nothing for those that look at it. -/
structure IgnoresReturns (s : Session) (t : Tree) (name text : Text) : Prop where
  scanned : scanText (Text.withReturns text) = scanText text
  document : ∀ n : Nat,
    ((Document.ofText name (Text.withReturns text)).line? n).bind (Marker.scan n) =
      ((Document.ofText name text).line? n).bind (Marker.scan n)
  migrated : migrateText (Text.withReturns text) =
    { text := Text.withReturns (migrateText text).text, count := (migrateText text).count }
  decorated : s.decorations t (Text.atNewlines (Text.withReturns text)) =
    s.decorations t (Text.atNewlines text)
  observed : ∀ path, s.observe path (Text.withReturns text) = s.observe path text

/-- All that look at a text find the same markers on the same lines: its scan, the document,
migration, decorations and counts. -/
structure SeenAlike (s : Session) (t : Tree) (name text : Text) : Prop where
  document : ∀ n : Nat,
    onLine? text n = ((Document.ofText name text).line? n).bind (Marker.scan n)
  ascending : (scanText text).Pairwise fun m m' => m.line < m'.line
  migrated : ∀ (n : Nat) (line : Text), (Text.atNewlines text)[n]? = some line →
    Marker.scan n (Text.dropReturn line) = onLine? text n ∧
      (Text.atNewlines (migrateText text).text)[n]? = some (rewrite (onLine? text n) line)
  /-- Decorations are there when there is a preview for each of the ids. -/
  previewed : (∃ ds, s.decorations t (Text.atNewlines text) = .ok ds) ↔
    ∀ id ∈ boundIds text, ∃ preview, s.preview t id = .ok preview
  decorated : ∀ ds, s.decorations t (Text.atNewlines text) = .ok ds → ∀ n id start stop,
    (∃ d ∈ ds, d.line = n ∧ d.id = id ∧ d.start = start ∧ d.stop = stop) ↔
      ∃ m, onLine? text n = some m ∧ m.id? = some id ∧ m.start = start ∧ m.stop = stop
  counted : ∀ ds, s.decorations t (Text.atNewlines text) = .ok ds → ∀ path counts u,
    (s.observe path text).run t = (.ok counts, u) →
      ∀ id, ds.countP (·.id == id) = (counts.lookup id).getD 0
  returns : '\r' ∉ text → s.IgnoresReturns t name text

theorem ignoresReturns (s : Session) (t : Tree) (name : Text) {text : Text} (hr : '\r' ∉ text) :
    s.IgnoresReturns t name text := by
  have hscan := Marker.scanText_withReturns hr
  have hline : ∀ n : Nat, onLine? (Text.withReturns text) n = onLine? text n := fun n => by
    rw [onLine?, hscan, onLine?]
  have hids : boundIds (Text.withReturns text) = boundIds text := by
    rw [boundIds, hscan, boundIds]
  refine ⟨hscan, fun n => ?_, Marker.migrateText_withReturns hr, ?_, fun path => ?_⟩
  · rw [← Marker.onLine?_eq_line, ← Marker.onLine?_eq_line, hline]
  · rw [← decorations_dropReturn, ← decorations_dropReturn s t (Text.atNewlines text)]
    exact congrArg (s.decorations t) (Text.editorLines_withReturns hr)
  · rw [observe, hids, observe]

theorem markers_agree (s : Session) (t : Tree) (name text : Text) : s.SeenAlike t name text := by
  refine ⟨Marker.onLine?_eq_line name text, Marker.ascending_scanText text, fun n line hline => ?_,
    ?_, fun ds hds n id start stop => ?_, fun ds hds path counts u hrun id => ?_,
    ignoresReturns s t name⟩
  · refine ⟨?_, ?_⟩
    · rw [Marker.scan_dropReturn, Marker.onLine?_eq, hline]
      rfl
    · rw [Marker.migrateText_line, hline]
      rfl
  · rw [decorations_succeed_iff, ← Marker.map_id_pins]
    simp only [List.mem_map, forall_exists_index, and_imp, forall_apply_eq_imp_iff₂]
  · have hpins := decorations_eq_ok hds
    rw [← Marker.mem_pins (p := ⟨n, start, stop, id⟩), ← hpins, List.mem_map]
    refine exists_congr fun d => and_congr_right fun _ => ?_
    rw [Decoration.pin, Pin.mk.injEq]
    tauto
  · rw [count_decorations (decorations_eq_ok hds), counts_of_observe hrun, lookup_idCounts]

/-- A bound marker and an unbound one. -/
def twoLines : Text := "//codemeta[5]\n#codemeta".toList

/-- The bound one. -/
def boundMarker : Marker :=
  { line := 0, start := 0, token := ⟨['/', '/'], [], .full⟩
    binding := some ⟨['5'], .canonical, 13, none⟩ }

theorem markers_agree_twoLines :
    onLine? twoLines 0 = some boundMarker ∧ '\r' ∉ twoLines ∧
    ∃ ds counts u, decorations { root := some { slashes := 1 } }
        (oneRecord "---\nid: 5\n---\n\nx".toList) (Text.atNewlines twoLines) = .ok ds ∧
      (observe { root := some { slashes := 1 } } ['a'] twoLines).run
        (oneRecord "---\nid: 5\n---\n\nx".toList) = (.ok counts, u) ∧
      (∃ d ∈ ds, d.line = 0 ∧ d.id = ['5'] ∧ d.start = 0 ∧ d.stop = 10) ∧
      ds.countP (·.id == ['5']) = (counts.lookup ['5']).getD 0 ∧
      scanText (Text.withReturns twoLines) = scanText twoLines := by
  have hm : onLine? twoLines 0 = some boundMarker := by decide +kernel
  have hr : '\r' ∉ twoLines := by decide
  have hseen :=
    markers_agree { root := some { slashes := 1 } } (oneRecord "---\nid: 5\n---\n\nx".toList) []
      twoLines
  obtain ⟨ds, hds⟩ := hseen.previewed.mpr fun id hid => by
    have hids : boundIds twoLines = [['5']] := by decide +kernel
    obtain rfl := List.mem_singleton.mp (hids ▸ hid)
    exact ⟨{ category := "INFO".toList, preview := some ['x'], inline := some ['x'] },
      by decide +kernel⟩
  have hobserve : (observe { root := some { slashes := 1 } } ['a'] twoLines).run
      (oneRecord "---\nid: 5\n---\n\nx".toList) = (.ok [(['5'], 1)], _) :=
    Work.run_eq_of_fst (by decide +kernel)
  exact ⟨hm, hr, ds, _, _, hds, hobserve,
    (hseen.decorated ds hds 0 _ 0 10).mpr ⟨_, hm, rfl, rfl, rfl⟩,
    hseen.counted ds hds _ _ _ hobserve _, (hseen.returns hr).scanned⟩

/-- A marker whose record has a count with one digit too many is seen by a scan, but the lines are
not decorated. -/
theorem bound_marker_undecorated :
    onLine? twoLines 0 = some boundMarker ∧ boundMarker.id? = some ['5'] ∧
    decorations { root := some { slashes := 1 } }
        (oneRecord (Page.counting ['a'] (10 ^ Numeral.limit))) (Text.atNewlines twoLines) =
      .error (.excess (.digits (Numeral.ofNat (10 ^ Numeral.limit)).length)) := by
  have hpins : pins (Text.atNewlines twoLines) = [⟨0, 0, 10, ['5']⟩] := by decide +kernel
  have hlocate : locate { root := some { slashes := 1 } }
      (oneRecord (Page.counting ['a'] (10 ^ Numeral.limit))) ['5'] =
        .ok (some { slashes := 1, parts := [".cms".toList, "default".toList, "5.md".toList] }) := by
    decide +kernel
  have hpath : Header.IsPath ['a'] := ⟨by decide, by decide, by decide⟩
  have hfile : (oneRecord (Page.counting ['a'] (10 ^ Numeral.limit))).resolve
      { slashes := 1, parts := [".cms".toList, "default".toList, "5.md".toList] } =
        .ok [".cms".toList, "default".toList, "5.md".toList] := by decide +kernel
  have hpage := readPage_counting hpath (Nat.le_refl _) hfile rfl
  refine ⟨by decide +kernel, rfl, ?_⟩
  rw [decorations_eq, hpins, List.mapM_cons, preview_eq hlocate, Option.elim_some, hpage]
  rfl

end Session

end Marginalia
