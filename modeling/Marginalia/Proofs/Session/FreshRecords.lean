import Marginalia.Config.Load
import Marginalia.Proofs.Session.Making
import Marginalia.Session.Unencodable

/-!
# Records as they are made

A record is made where its set has room for it (`Vacant`), with the default category of the settings
put into its header as it is. What is read there is what the value of that field shows
(`shownCategory`): when it is a value that a header can have, nothing else of the record is touched
by it (`read_fresh`), and it is read as the category that was set, by whatever session, exactly when
it is one line without blanks or quotation marks at its ends (`shows_default_iff`). Once a record is
there it stays as it is whenever it is to be made again (`ensure_there`).
-/

namespace Marginalia

open Header (IsValue)
open Session (recordPlace)

/-! ## Categories that are shown -/

/-- The category that the value of a field shows, if it shows one, or else the one to fall back to. -/
def shownCategory (value fallback : Text) : Text :=
  let label := Text.trim (Text.dropEndsWhile Header.isQuotationMark (Text.trim value))
  if label.isEmpty || label.contains '\n' then fallback else label

theorem shownCategory_of_isLabel {label : Text} (h : IsLabel label) (fallback : Text) :
    shownCategory label fallback = label :=
  category_recordFields h [] [] fallback {} none

/-- The characters of a value are those of its lines, with line feeds between them. -/
theorem lineEnd_of_mem_value {value : Text} (h : IsValue value) {c : Char} (hc : c ∈ value) :
    c = '\n' ∨ Text.isLineEnd c = false := by
  obtain ⟨first, more, rfl, -, hfirst, hmore⟩ := h
  rcases List.mem_append.mp hc with hc | hc
  · exact .inr (hfirst c hc)
  · obtain ⟨l, hl, hc⟩ := List.mem_flatMap.mp hc
    rcases List.mem_cons.mp hc with rfl | hc
    · exact .inl rfl
    · exact .inr ((hmore l hl).oneLine c hc)

/-- What a value shows in place of the category to fall back to is a line without blank ends. -/
theorem line_of_shownCategory {value fallback category : Text} (hvalue : IsValue value)
    (h : shownCategory value fallback = category) (hne : fallback ≠ category) :
    category ≠ [] ∧ Text.trim category = category ∧ Text.OneLine category := by
  unfold shownCategory at h
  simp only at h
  split at h
  · exact absurd h hne
  next hshown =>
    simp only [Bool.or_eq_true, List.isEmpty_iff, List.contains_iff_mem, not_or] at hshown
    rw [h] at hshown
    refine ⟨hshown.1, by rw [← h, Text.trim_trim], fun c hc => ?_⟩
    have hmem : c ∈ value := by
      rw [← h] at hc
      exact Text.trim_subset _ ((Text.isInfix_dropEndsWhile _ _).subset (Text.trim_subset _ hc))
    exact (lineEnd_of_mem_value hvalue hmem).resolve_left fun e => hshown.2 (e ▸ hc)

/-- A category that shows itself has no quotation marks at its ends. -/
theorem unquoted_of_shownCategory {category fallback : Text} (htrim : Text.trim category = category)
    (h : shownCategory category fallback = category) (hne : fallback ≠ category) (c : Char)
    (hc : category.head? = some c ∨ category.getLast? = some c) :
    Header.isQuotationMark c = false := by
  have hdrop : Text.dropEndsWhile Header.isQuotationMark category = category := by
    unfold shownCategory at h
    simp only [htrim] at h
    split at h
    · exact absurd h hne
    · -- neither of the two steps may take anything away
      have hlen := (Text.isInfix_dropEndsWhile isBlank
        (Text.dropEndsWhile Header.isQuotationMark category)).length_le
      rw [← Text.trim, h] at hlen
      exact (Text.isInfix_dropEndsWhile _ _).eq_of_length_le hlen
  obtain ⟨hhead, hlast⟩ := Text.dropEndsWhile_eq_self_iff.mp hdrop
  exact hc.elim (hhead c) (hlast c)

namespace Session

variable {s s₂ : Session} {home : Path} {t : Tree} {set : Option Text} {n : Name} {id : Text}
  {now : Int}

/-! ## Making a record -/

/-- There is room for a record in a set: folders or nothing on the way to it, nothing in its place,
and paths that are not too long or too deep. -/
structure Vacant (home : Path) (n : Name) (id : Text) (t : Tree) : Prop where
  wellFormed : t.WellFormed
  fits : Tree.Fits home 300
  shallow : home.parts.length < deepest
  name : Tree.IsName n
  way : ∀ l ∈ visited [] (home.child n).parts, t.node? l = none ∨ t.node? l = some .folder
  apart : recordPlace home n id ∉ visited [] (home.child n).parts
  place : t.node? (recordPlace home n id) = none

theorem makeRecord_vacant (hs : s.folder? = some home) (hset : s.setFolder set = .ok (home.child n))
    (hid : isId id = true) (h : Vacant home n id t) (text : Text) :
    ∃ t', (s.makeRecord set id text).run t =
        (.ok { path := (home.child n).fragment id, created := true }, t') ∧
      t'.isFile ((home.child n).fragment id) = .ok true ∧
      t'.readText ((home.child n).fragment id) = .ok (Text.unifyNewlines text) := by
  have hfits := h.fits.inside h.name
  have hmade : (t.makeFolders (home.child n)).2 = none := by
    refine Tree.makeFolders_succeeds hfits ?_ h.way
    rw [Path.child_parts, List.length_append]
    exact h.shallow
  obtain ⟨hr, hfold⟩ := Tree.makeFolders_ok h.wellFormed hmade
  obtain ⟨-, hadd⟩ := Tree.makeFolders_adds h.wellFormed (home.child n)
  have hplace : lead [] (home.child n).parts ++ [id ++ ending] = recordPlace home n id := by
    rw [lead_child _ h.name.not_above, recordPlace, List.append_assoc]
    rfl
  have hres := hfits.resolve_record (k := 8) hid hr hfold
  rw [hplace, ← Path.fragment_eq_child _ (digits_of_isId hid)] at hres
  have hnone : (t.makeFolders (home.child n)).1.node? (recordPlace home n id) = none := by
    rw [hadd.of_not_mem h.apart, h.place]
  have hnofold : (t.makeFolders (home.child n)).1.node? (recordPlace home n id) ≠ some .folder := by
    simp [hnone]
  have hrun := run_makeRecord text hs hset hmade hres
  rw [hnone, if_neg (by simp)] at hrun
  have hne : recordPlace home n id ≠ [] := by simp [recordPlace]
  exact ⟨_, hrun, Tree.isFile_eq_true_iff.mpr ⟨_, _, (Tree.foldersStay_insert _ _ hnofold).resolve hres,
    Tree.node?_insert_self _ hne _⟩, Tree.readText_insert hres hnofold _⟩

/-- A record that is there is not made again. -/
theorem makeRecord_there {k : Nat} (hs : s.folder? = some home)
    (hset : s.setFolder set = .ok (home.child n)) (hfits : Tree.Fits (home.child n) k)
    (hid : isId id = true) (hfile : t.isFile ((home.child n).fragment id) = .ok true) (text : Text) :
    (s.makeRecord set id text).run t =
      (.ok { path := (home.child n).fragment id, created := false }, t) := by
  obtain ⟨l, c, hl, hc⟩ := Tree.isFile_eq_true_iff.mp hfile
  have hfolder : t.isFolder (home.child n) = .ok true := by
    rw [Path.fragment_eq_child _ (digits_of_isId hid)] at hl
    exact hfits.isFolder_of_resolve hl
  have hmade := Tree.makeFolders_there hfolder
  have hrun := run_makeRecord (t := t) text hs hset (congrArg Prod.snd hmade)
    (by rw [hmade]; exact hl)
  rwa [hmade, hc, if_pos (by simp)] at hrun

/-- A category that has no text leaves an empty file, and none when the record is there. -/
theorem ensurePassed_unencodable {category : Passed} (hcategory : category.text? = none)
    (now : Int) {u : Tree} {m : Created} (hrun : (s.makeRecord set id []).run t = (.ok m, u)) :
    (s.ensurePassed category now set id).run t =
      (if m.created then .error .unencodable else .ok m, u) := by
  unfold ensurePassed
  simp only [hcategory]
  rw [Work.run_bind_of_ok hrun]
  cases m.created <;> rfl

theorem ensurePassed_there {k : Nat} (hs : s.folder? = some home)
    (hset : s.setFolder set = .ok (home.child n)) (hfits : Tree.Fits (home.child n) k)
    (hid : isId id = true) (hfile : t.isFile ((home.child n).fragment id) = .ok true)
    (category : Passed) (now : Int) :
    (s.ensurePassed category now set id).run t =
      (.ok { path := (home.child n).fragment id, created := false }, t) := by
  have hthere := makeRecord_there hs hset hfits hid hfile
  cases hcategory : category.text? with
  | none => rw [ensurePassed_unencodable hcategory now (hthere []), if_neg (by simp)]
  | some label =>
    unfold ensurePassed
    rw [hcategory]
    exact hthere _

/-! ## Reading it -/

/-- The fragment of a new record, with the category that it shows to a session. -/
def freshFragment (home : Path) (n : Name) (id : Text) (now : Int) (category : Text) : Fragment :=
  { id, path := (home.child n).fragment id, set := some n, category,
    created := some (Time.stamp now), body := [], refs := {} }

/-- A default category that is a value is all that can be shown of the record in another way. -/
theorem read_fresh (hs₂ : s₂.folder? = some home) (hid : isId id = true)
    (hvalue : IsValue s.config.defaultCategory)
    (htext : t.readText ((home.child n).fragment id) =
      .ok (Text.unifyNewlines (Page.fresh s.config now id).render)) :
    s₂.read t ((home.child n).fragment id) = .ok (freshFragment home n id now
      (shownCategory s.config.defaultCategory s₂.config.defaultCategory)) := by
  have hread := readable_fresh hvalue now hid
  have hplain : Text.unifyNewlines (Page.fresh s.config now id).render =
      (Page.fresh s.config now id).render :=
    Text.unifyNewlines_of_no_return (Page.no_return_render hread (by simp))
  have hpage : readPage t ((home.child n).fragment id) =
      .ok ⟨(Page.fresh s.config now id).header.settled, []⟩ :=
    readPage_eq_ok_iff.mpr ⟨_, htext.trans (congrArg _ hplain), Page.parse_render hread []⟩
  have hpath := Path.fragment_eq_child (home.child n) (digits_of_isId hid)
  have hname : fileId? ((home.child n).fragment id).name = some id := by
    rw [hpath, Path.name_child, fileId?_ending hid]
  have hparent : ((home.child n).fragment id).parent = home.child n := by
    rw [hpath, Path.parent_child]
  have hbelow : home.child n ≠ home := fun e => by
    have := congrArg (fun p : Path => p.parts.length) e
    simp at this
  simp only [read, hpage, Except.map, recordId, hname, hs₂, Option.bind_some, hparent, hbelow,
    if_false, Path.name_child]
  rfl

theorem shows_default_iff (hs : s.folder? = some home) (hid : isId id = true)
    (htext : t.readText ((home.child n).fragment id) =
      .ok (Text.unifyNewlines (Page.fresh s.config now id).render)) :
    (∀ s₂ : Session, s₂.folder? = some home →
      ∃ f, s₂.read t ((home.child n).fragment id) = .ok f ∧
        f.category = s.config.defaultCategory) ↔ IsLabel s.config.defaultCategory := by
  constructor
  · intro hshown
    -- a session with another default category tells what is read from what is put in its place
    let other : Session :=
      { s with config := { s.config with defaultCategory := s.config.defaultCategory ++ ['x'] } }
    have hne : other.config.defaultCategory ≠ s.config.defaultCategory := by simp [other]
    obtain ⟨f, hf, hcategory⟩ := hshown other hs
    obtain ⟨page, hpage, rfl⟩ := map_eq_ok_iff.mp hf
    have hvalue : IsValue ((page.header.get? Header.categoryKey).getD []) := by
      cases hget : page.header.get? Header.categoryKey with
      | none => exact IsValue.of_line rfl (by decide)
      | some v =>
        obtain ⟨before, behind, hfields, -⟩ := List.lookup_eq_some_iff.mp hget
        have hmem : (Header.categoryKey, v) ∈ page.header.fields := by rw [hfields]; simp
        exact ((readable_of_readPage hpage).fields _ hmem).2
    obtain ⟨hempty, htrim, hline⟩ := line_of_shownCategory hvalue hcategory hne
    have hother : other.folder? = some home := hs
    have hread := read_fresh hother hid (IsValue.of_line htrim hline) htext
    rw [hf] at hread
    have hself := congrArg Fragment.category (Except.ok.inj hread)
    exact ⟨hempty, htrim, hline, unquoted_of_shownCategory htrim (hself.symm.trans hcategory) hne⟩
  · intro hlabel s₂ hs₂
    have hvalue := IsValue.of_line hlabel.trimmed hlabel.oneLine
    exact ⟨_, read_fresh hs₂ hid hvalue htext, shownCategory_of_isLabel hlabel _⟩

/-! ## Records that read back -/

/-- What has come of making a record with a default category from outside. -/
structure ReadsBack (home : Path) (n : Name) (id : Text) (now : Int) (category : Passed)
    (r : Except Fault Created) (t' : Tree) : Prop where
  there : t'.isFile ((home.child n).fragment id) = .ok true
  made : ∀ label, category = .ofText label →
    r = .ok { path := (home.child n).fragment id, created := true }
  /-- A category that is a value is all that can be shown in another way. -/
  value : ∀ label, category = .ofText label → IsValue label →
    ∀ s₂ : Session, s₂.folder? = some home → s₂.read t' ((home.child n).fragment id) =
      .ok (freshFragment home n id now (shownCategory label s₂.config.defaultCategory))
  /-- The record is read as it was made exactly when the category is a label. -/
  exact : ∀ label, category = .ofText label →
    ((∀ s₂ : Session, s₂.folder? = some home → s₂.read t' ((home.child n).fragment id) =
      .ok (freshFragment home n id now label)) ↔ IsLabel label)
  /-- A category with a surrogate leaves an empty record. -/
  spoiled : ∀ u, .inr u ∈ category →
    r = .error .unencodable ∧ t'.readText ((home.child n).fragment id) = .ok []

theorem readsBack_ofText (hs : s.folder? = some home) (hid : isId id = true)
    (hfile : t.isFile ((home.child n).fragment id) = .ok true)
    (htext : t.readText ((home.child n).fragment id) =
      .ok (Text.unifyNewlines (Page.fresh s.config now id).render)) :
    ReadsBack home n id now (.ofText s.config.defaultCategory)
      (.ok { path := (home.child n).fragment id, created := true }) t where
  there := hfile
  made _ _ := rfl
  value label e hvalue s₂ hs₂ := by
    obtain rfl := Passed.ofText_inj.mp e
    exact read_fresh hs₂ hid hvalue htext
  exact label e := by
    obtain rfl := Passed.ofText_inj.mp e
    refine ⟨fun hread => ?_, fun hlabel s₂ hs₂ => ?_⟩
    · exact (shows_default_iff hs hid htext).mp fun s₂ hs₂ => ⟨_, hread s₂ hs₂, rfl⟩
    · rw [read_fresh hs₂ hid (IsValue.of_line hlabel.trimmed hlabel.oneLine) htext,
        shownCategory_of_isLabel hlabel]
  spoiled u hu := by
    have hnone := Passed.text?_eq_none_iff.mpr ⟨u, hu⟩
    rw [Passed.text?_ofText] at hnone
    cases hnone

theorem readsBack_unencodable {category : Passed} (hcategory : category.text? = none)
    (hfile : t.isFile ((home.child n).fragment id) = .ok true)
    (htext : t.readText ((home.child n).fragment id) = .ok []) :
    ReadsBack home n id now category (.error .unencodable) t := by
  have hnolabel : ∀ label, category ≠ .ofText label := fun label e => by
    rw [e, Passed.text?_ofText] at hcategory
    cases hcategory
  exact
    { there := hfile
      made := fun label e => absurd e (hnolabel label)
      value := fun label e => absurd e (hnolabel label)
      exact := fun label e => absurd e (hnolabel label)
      spoiled := fun _ _ => ⟨rfl, htext⟩ }

/-- A record is made where there is room for it, and is read as it was made, but for the category,
which is read as the one that was set exactly when that is one line without blanks or quotation marks
at its ends. It stays as it is when it is to be made again. -/
theorem fresh_record_reads_back (hs : s.folder? = some home) {name : Text}
    (hname : SetName.sanitize (some name) = .ok n) (hid : isId id = true)
    (h : Vacant home n id t) (category : Passed) (now : Int) :
    ∃ r t', (s.ensurePassed category now (some name) id).run t = (r, t') ∧
      ReadsBack home n id now category r t' ∧
      ∀ (s₂ : Session) (category₂ : Passed) (now₂ : Int) (set₂ : Option Text) (t₂ : Tree),
        s₂.folder? = some home → s₂.setFolder set₂ = s₂.setFolder (some name) →
        t₂.isFile ((home.child n).fragment id) = .ok true →
        (s₂.ensurePassed category₂ now₂ set₂ id).run t₂ =
          (.ok { path := (home.child n).fragment id, created := false }, t₂) := by
  have hset : ∀ {s₂ : Session}, s₂.folder? = some home →
      s₂.setFolder (some name) = .ok (home.child n) := fun {s₂} hs₂ => by
    have hne : name ≠ [] := fun e => by
      rw [e] at hname
      cases hname
    rw [setFolder_some hs₂ hne, hname]
    rfl
  have hagain (s₂ : Session) (category₂ : Passed) (now₂ : Int) (set₂ : Option Text) (t₂ : Tree)
      (hs₂ : s₂.folder? = some home) (hset₂ : s₂.setFolder set₂ = s₂.setFolder (some name))
      (hfile₂ : t₂.isFile ((home.child n).fragment id) = .ok true) :=
    ensurePassed_there hs₂ (hset₂.trans (hset hs₂)) (h.fits.inside h.name) hid hfile₂ category₂ now₂
  cases hcategory : category.text? with
  | none =>
    obtain ⟨t', hrun, hfile, htext⟩ := makeRecord_vacant hs (hset hs) hid h []
    exact ⟨.error .unencodable, t', by rw [ensurePassed_unencodable hcategory now hrun, if_pos rfl],
      readsBack_unencodable hcategory hfile htext, hagain⟩
  | some label =>
    obtain rfl := Passed.text?_eq_some_iff.mp hcategory
    let s' : Session := { s with config.defaultCategory := label }
    have hs' : s'.folder? = some home := hs
    obtain ⟨t', hrun, hfile, htext⟩ :=
      makeRecord_vacant hs' (hset hs') hid h (Page.fresh s'.config now id).render
    refine ⟨_, t', ?_, readsBack_ofText hs' hid hfile htext, hagain⟩
    unfold ensurePassed
    rw [hcategory]
    exact hrun

/-- The record of an id with a zero in front, in a set whose name has a blank. -/
theorem fresh_record_reads_back_spaced :
    let s : Session := { root := some { slashes := 1 } }
    let path : Path := { slashes := 1, parts := [".cms".toList, "code-review".toList,
      "07.md".toList] }
    ∃ t', (s.ensure 0 (some "code review".toList) "07".toList).run {} =
        (.ok { path, created := true }, t') ∧
      s.read t' path = .ok
        { id := "07".toList, path, set := some "code-review".toList, category := "INFO".toList
          created := some "1970-01-01T00:00:00.000Z".toList, body := [], refs := {} } ∧
      (s.ensure 1 (some "code-review".toList) "07".toList).run t' =
        (.ok { path, created := false }, t') := by
  intro s path
  have hvacant : Vacant { slashes := 1, parts := [".cms".toList] } "code-review".toList
      "07".toList {} :=
    { wellFormed := by decide
      fits := ⟨by decide, by decide, by decide⟩
      shallow := by decide
      name := by decide
      way := by decide
      apart := by decide
      place := by decide }
  have hlabel : IsLabel s.config.defaultCategory :=
    ⟨by decide, by decide +kernel, by decide, fun c hc => by rcases hc with hc | hc <;> cases hc <;> rfl⟩
  have hname : SetName.sanitize (some "code review".toList) = .ok "code-review".toList := by
    decide +kernel
  obtain ⟨r, t', hrun, hback, hagain⟩ := fresh_record_reads_back (s := s) rfl hname (by decide)
    hvacant (.ofText s.config.defaultCategory) 0
  obtain rfl := hback.made _ rfl
  have hsecond := hagain s (.ofText s.config.defaultCategory) 1 (some "code-review".toList) t' rfl
    (by decide +kernel) hback.there
  rw [ensurePassed_ofText] at hrun hsecond
  exact ⟨t', hrun, (hback.exact _ rfl).mpr hlabel s rfl, hsecond⟩

/-- A default category of several lines, of which one is a boundary, ends the header of a new record
and gives it a body. -/
theorem fenced_category_lost :
    ∃ config made t', Config.load {} [("CODEMETA_DEFAULT_CATEGORY".toList, "a\n---\nb".toList)] none
        { slashes := 1 } { slashes := 1, parts := ["home".toList] } = .ok config ∧
      config.defaultCategory = "a\n---\nb".toList ∧
      (ensure { root := some { slashes := 1 }, config } 0 none ['7']).run {} = (.ok made, t') ∧
      made.created = true ∧
      (read { root := some { slashes := 1 }, config } t' made.path).map
        (fun f => (f.category, f.body)) = .ok (['a'], "b\n---\n\n".toList) :=
  ⟨{ defaultCategory := "a\n---\nb".toList }, _, _, rfl, rfl, rfl, rfl, by decide +kernel⟩

end Session

end Marginalia
