import Marginalia.Proofs.CommandLine.Runs
import Marginalia.Proofs.Session.LineBinding
import Marginalia.Proofs.Session.Rebinding

/-!
# The command that binds a marker in a file

The command opens a file at a line (`openFile_eq_ok`), binds the marker there and writes the file
back (`new_run`). Either it fails or there is no unbound marker on the line, and the file stays as
it is, or the token of the marker is all that changes in the file (`new_cases`). When the scan
leaves out the folder of sets and the id can be read in a marker, the references are as before with
the line among those of the id (`BoundIn.rebound`). All of it, for a run of the program, is
`new_exact`. A folder of sets without a name is scanned, and then the record that is made may be
among the references (`record_among_references`).
-/

namespace Marginalia.CommandLine

open Marker (Site)
open Session (recordPlace cursorPlace IsNumeral Orderly)

variable {e : Setting} {s : Session} {t t' t'' : Tree} {file line : Text} {now : Int}

/-! ## Opening a file -/

/-- Where a file is that is named in the working folder. -/
def Setting.place (e : Setting) (file : Text) : Location :=
  lead (if (Path.ofText file).isAbsolute then [] else e.cwd.parts) (Path.ofText file).parts

theorem resolveFrom_eq_place {l : Location}
    (h : t.resolveFrom e.cwd.parts (Path.ofText file) = .ok l) : l = e.place file := by
  unfold Tree.resolveFrom at h
  split at h
  · cases h
  · split at h
    · cases h
    · exact Tree.follow_eq_lead h

theorem file_of_verbatimAt {l : Location} {text : Text} (h : t.verbatimAt l = .ok text) :
    ∃ c, t.node? l = some (.file c) ∧ c.bytes = Utf8.encode text := by
  unfold Tree.verbatimAt Tree.contentAt at h
  rcases hn : t.node? l with _ | _ | c
  · rw [hn] at h
    cases h
  · rw [hn] at h
    cases h
  · rw [hn] at h
    refine ⟨c, rfl, Content.verbatim_eq_ok_iff.mp ?_⟩
    cases hc : c.verbatim with
    | error f => simp [hc, bind, Except.bind, Except.mapError] at h
    | ok text' => simpa [hc, bind, Except.bind, Except.mapError] using h

theorem openFile_eq_ok {opened : Opened} (h : openFile t e.cwd file line = .ok opened) :
    Numeral.readInt line = .ok (opened.line + 1) ∧ opened.location = e.place file ∧
      ∃ c, t.node? (e.place file) = some (.file c) ∧ c.bytes = Utf8.encode opened.text := by
  unfold openFile at h
  cases hnumber : Numeral.readInt line with
  | error f =>
    rw [hnumber] at h
    cases h
  | ok number =>
    rw [hnumber] at h
    cases hresolve : t.resolveFrom e.cwd.parts (Path.ofText file) with
    | error f => simp [hresolve, bind, Except.bind, Except.mapError] at h
    | ok l =>
      cases htext : t.verbatimAt l with
      | error f => simp [hresolve, htext, bind, Except.bind, Except.mapError] at h
      | ok text =>
        simp only [hresolve, htext, bind, Except.bind, Except.mapError, pure, Except.pure,
          Except.ok.injEq] at h
        subst h
        have hl := resolveFrom_eq_place hresolve
        exact ⟨by simp, hl, hl ▸ file_of_verbatimAt htext⟩

/-! ## Binding in a file -/

/-- What is printed when the line has no unbound marker. -/
def unmarked : Printed := { lines := ["No unbound marker on that line.".toList] }

/-- What is printed when a marker was bound. -/
def reply (b : Bound) : Printed :=
  { lines := [b.id ++ '\t' :: b.path.text ++
      '\t' :: (if b.created then "created" else "reused").toList] }

/-- A run on a line of a file is the binding of its marker and the writing of the file. -/
theorem new_run {opened : Opened} {name : Text} (hopen : openFile t e.cwd file line = .ok opened)
    (hname : s.relativePath (e.cwd.join (Path.ofText file)) = .ok name)
    (hnumber : 0 ≤ opened.line) (hshort : opened.line < (Text.atNewlines opened.text).length) :
    (new s now e.cwd file line).run t =
      match (s.bindMarker now opened.line).run
        { tree := t, document := .ofText name opened.text } with
      | (.error f, d) => (.error (.workspace f), d.tree)
      | (.ok none, d) => (.ok unmarked, d.tree)
      | (.ok (some b), d) =>
        match d.tree.writeAt opened.location (.text d.document.text) with
        | .ok t' => (.ok (reply b), t')
        | .error f => (.error (.workspace (.disk f)), d.tree) := by
  have hrange : (opened.line < 0 ||
      (Document.ofText name opened.text).lines.length ≤ opened.line) = false := by
    rw [Bool.or_eq_false_iff, decide_eq_false_iff_not, decide_eq_false_iff_not]
    exact ⟨not_lt.mpr hnumber, not_le.mpr hshort⟩
  unfold new
  rw [Work.run_bind_of_ok (Work.run_get t), hopen, Work.run_bind_of_ok (Run.run_ofExcept ..),
    Work.run_bind_of_ok (by rw [Run.run_inspect, hname]; rfl)]
  simp only [hrange, Bool.false_eq_true, if_false]
  rw [Work.run_bind_of_ok (Work.run_get t)]
  rcases (s.bindMarker now opened.line).run { tree := t, document := .ofText name opened.text }
    with ⟨f | _ | b, d⟩
  · rfl
  · rfl
  · simp only
    rw [Work.run_bind_of_ok (Work.run_set ..), Work.run_bind, Run.run_ofWork, Work.run_change]
    cases d.tree.writeAt opened.location (.text d.document.text) <;> rfl

/-- A run that does not come to the binding fails at once. -/
theorem new_opens {r : Except Fault Printed} (h : (new s now e.cwd file line).run t = (r, t')) :
    ((∃ f, r = .error f) ∧ t' = t) ∨ ∃ opened name, openFile t e.cwd file line = .ok opened ∧
      s.relativePath (e.cwd.join (Path.ofText file)) = .ok name ∧ 0 ≤ opened.line ∧
      opened.line < (Text.atNewlines opened.text).length := by
  unfold new at h
  rw [Work.run_bind_of_ok (Work.run_get t)] at h
  cases hopen : openFile t e.cwd file line with
  | error f =>
    rw [hopen, Work.run_bind_of_error (Run.run_ofExcept ..)] at h
    cases h
    exact .inl ⟨⟨_, rfl⟩, rfl⟩
  | ok opened =>
    rw [hopen, Work.run_bind_of_ok (Run.run_ofExcept ..)] at h
    cases hname : s.relativePath (e.cwd.join (Path.ofText file)) with
    | error f =>
      rw [Work.run_bind_of_error (by rw [Run.run_inspect, hname]; rfl)] at h
      cases h
      exact .inl ⟨⟨_, rfl⟩, rfl⟩
    | ok name =>
      rw [Work.run_bind_of_ok (by rw [Run.run_inspect, hname]; rfl)] at h
      by_cases hrange : 0 ≤ opened.line ∧ opened.line < (Text.atNewlines opened.text).length
      · exact .inr ⟨opened, name, rfl, rfl, hrange⟩
      · have hout : (opened.line < 0 ||
            (Document.ofText name opened.text).lines.length ≤ opened.line) = true := by
          rw [Bool.or_eq_true, decide_eq_true_iff, decide_eq_true_iff]
          rw [not_and_or, not_le, not_lt] at hrange
          exact hrange
        simp only [hout, if_true] at h
        cases h
        exact .inl ⟨⟨_, rfl⟩, rfl⟩

/-- Whether no unbound marker is on a line of a file. Lines count from one. -/
def NoMarker (t : Tree) (place : Location) (line : Text) : Prop :=
  ∀ c text, t.node? place = some (.file c) → c.bytes = Utf8.encode text →
    ∀ σ : Site text, Numeral.readInt line ≠ .ok (σ.above.length + 1)

/-- A tree before and after the marker on a line of a file was bound. -/
structure BoundIn (home : Path) (place : Location) (line : Text) (set : Name) (id : Text)
    {text : Text} (σ : Site text) (t t' : Tree) : Prop where
  wellFormed : t'.WellFormed
  numeral : IsNumeral id
  number : Numeral.readInt line = .ok (σ.above.length + 1)
  before : ∃ c, t.node? place = some (.file c) ∧ c.bytes = Utf8.encode σ.before ++
    (Utf8.encode σ.marker.token.text ++ Utf8.encode σ.after)
  after : ∃ c, t'.node? place = some (.file c) ∧ c.bytes = Utf8.encode σ.before ++
    (Utf8.encode (Marker.canonicalText σ.marker.token id) ++ Utf8.encode σ.after)
  record : ∃ c, t'.node? (recordPlace home set id) = some (.file c)
  others : Tree.SameFiles [cursorPlace home, recordPlace home set id, place] t t'
  grows : Tree.GrowsWithin (home.parts.length + 1) t t'

/-- Either the file stays as it is, as the run fails or the line has no unbound marker, or the
marker is bound. -/
theorem new_cases {folder : Text} {r : Except Fault Printed} (hs : s.Works e.cwd folder)
    (h : Orderly (e.cwd.join (Path.ofText folder)) t)
    (hrun : (new s now e.cwd file line).run t = (r, t')) :
    (((∃ f, r = .error f) ∨ (r = .ok unmarked ∧ NoMarker t (e.place file) line)) ∧
      ∀ c, t.node? (e.place file) = some (.file c) → t'.node? (e.place file) = some (.file c)) ∨
    ∃ text, ∃ σ : Site text, ∃ b set, r = .ok (reply b) ∧
      b.path = ((e.cwd.join (Path.ofText folder)).child set).fragment b.id ∧
      BoundIn (e.cwd.join (Path.ofText folder)) (e.place file) line set b.id σ t t' := by
  rcases new_opens hrun with ⟨hf, rfl⟩ | ⟨opened, name, hopen, hname, hnumber, hshort⟩
  · exact .inl ⟨.inl hf, fun _ hc => hc⟩
  obtain ⟨hread, hplace, c, hc, hbytes⟩ := openFile_eq_ok hopen
  rw [new_run hopen hname hnumber hshort] at hrun
  rcases hbind : (s.bindMarker now opened.line).run { tree := t, document := .ofText name opened.text }
    with ⟨f | _ | b, d⟩
  · rw [hbind] at hrun
    cases hrun
    refine .inl ⟨.inl ⟨_, rfl⟩, fun c' hc' => ?_⟩
    cases hc.symm.trans hc'
    exact Session.file_stays h hs.folder? rfl hc hbytes hbind (by simp)
  · rw [hbind] at hrun
    cases hrun
    refine .inl ⟨.inr ⟨rfl, fun c' text hc' hbytes' σ hσ => ?_⟩, fun c' hc' => ?_⟩
    · cases hc.symm.trans hc'
      obtain rfl := Utf8.encode_injective (hbytes.symm.trans hbytes')
      have hline := Except.ok.inj (hread.symm.trans hσ)
      exact Session.no_site_of_bindMarker rfl hbind σ (by omega)
    · cases hc.symm.trans hc'
      exact Session.file_stays h hs.folder? rfl hc hbytes hbind (by simp)
  · obtain ⟨σ, habove, htext⟩ := Session.text_of_bindMarker rfl hnumber hbind
    obtain ⟨hw, hnumeral, set, hpath, hrecord, hsame, hgrows⟩ :=
      Session.record_of_bindMarker h hs.folder? hs.set hbind
    have hcursor := h.ne_cursor σ hc hbytes
    obtain ⟨c', hc'⟩ : ∃ c', d.tree.node? (e.place file) = some (.file c') := by
      by_cases heq : e.place file = recordPlace (e.cwd.join (Path.ofText folder)) set b.id
      · exact heq ▸ hrecord
      · exact ⟨c, (hsame _ (by simp [hcursor, heq]) c).mpr hc⟩
    have hne : e.place file ≠ [] := fun e => by rw [e] at hc'; cases hc'
    have hwrite : d.tree.writeAt opened.location (.text d.document.text) =
        .ok (d.tree.insert (e.place file) (.file (.text d.document.text))) := by
      rw [hplace, Tree.writeAt, hc', if_neg (by simp)]
    rw [hbind] at hrun
    simp only [hwrite] at hrun
    cases hrun
    refine .inr ⟨opened.text, σ, b, set, rfl, hpath, ?_, hnumeral, ?_, ⟨c, hc, ?_⟩,
      ⟨_, Tree.node?_insert_self _ hne _, ?_⟩, ?_, ?_,
      hgrows.trans (.insert_file hne (by simp [hc']) _ _)⟩
    · exact hw.insert hne (hw.canHold hc') fun h => by rw [hc'] at h; cases h
    · rw [hread, habove]
    · rw [hbytes, ← Utf8.encode_append, ← Utf8.encode_append, ← σ.text_eq]
    · rw [Content.bytes, htext, Site.bind, Utf8.encode_append, Utf8.encode_append]
    · by_cases heq : recordPlace (e.cwd.join (Path.ofText folder)) set b.id = e.place file
      · rw [heq]
        exact ⟨_, Tree.node?_insert_self _ hne _⟩
      · rw [Tree.node?_insert_of_ne _ heq]
        exact hrecord
    · exact hsame.trans (Tree.sameFiles_insert _ _ _)

/-! ## The file among those that are scanned -/

namespace BoundIn

variable {home : Path} {place : Location} {set : Name} {id text : Text} {σ : Site text}

/-- No file changed before. -/
theorem trans (hs : Tree.SameFiles [] t t') (hg : Tree.GrowsWithin (home.parts.length + 1) t t')
    (h : BoundIn home place line set id σ t' t'') :
    BoundIn home place line set id σ t t'' where
  wellFormed := h.wellFormed
  numeral := h.numeral
  number := h.number
  before := by
    obtain ⟨c, hc, hbytes⟩ := h.before
    exact ⟨c, (hs place List.not_mem_nil c).mp hc, hbytes⟩
  after := h.after
  record := h.record
  others := hs.trans h.others
  grows := hg.trans h.grows

/-- When the scan leaves out the folder of sets, the file is the only one that is read and changed.
-/
theorem rebound (h : BoundIn home place line set id σ t t') (hid : isId id = true) {root : Path}
    (hhidden : s.Hidden root home) (hshallow : home.parts.length < Session.scanLevels)
    {l : Location} (hscanned : s.Scannable t root l text)
    (hplace : place = lead [] root.parts ++ l) : s.Rebound root l σ id t t' where
  isId := hid
  wellFormed := h.wellFormed
  scanned := hscanned
  written := by
    obtain ⟨c, hc, hbytes⟩ := h.after
    refine ⟨c, hplace ▸ hc, ?_⟩
    rw [hbytes, Site.bind, Utf8.encode_append, Utf8.encode_append]
  grows := h.grows.mono hshallow
  others := by
    intro k hkl hk hentered c
    have hwalked : Tree.isWalked (lead [] root.parts) s.unscanned (lead [] root.parts ++ k) = true :=
      Tree.isWalked_eq_true_iff.mpr ⟨k, rfl, hk, hentered⟩
    have hout : ∀ rest, rest ≠ [] → lead [] root.parts ++ k ≠ lead [] home.parts ++ rest := by
      intro rest hrest e
      rw [e, hhidden rest hrest] at hwalked
      cases hwalked
    refine h.others _ ?_ c
    simp only [List.mem_cons, List.not_mem_nil, or_false, not_or]
    refine ⟨hout _ (by simp), hout _ (by simp), fun e => hkl ?_⟩
    exact List.append_cancel_left (e.trans hplace)

end BoundIn

/-! ## The command -/

/-- The command for a line of a file in a workspace as sessions leave it. Either it binds nothing,
as it fails or as there is no unbound marker on the line, and the file stays as it is. Or it prints
an id, the token of the marker on the line gets its canonical form with the id and nothing else
changes in the file, and the record of the id is there. When the scan comes to its end, leaves out
the folder of sets and reads the file, and the id can be read in a marker, the references of the id
are those before and the line, and those of other ids stay. -/
theorem new_exact {args rest : List Text} {set : Option Text} {o : Outcome}
    (hargs : takeOption setOption args = .ok (set, file :: line :: rest))
    (hw : t.WellFormed) (hs : t.NoSlash)
    (hlaid : ∀ config, Config.load t e.env none e.cwd e.home = .ok config →
      Orderly (e.cwd.join (Path.ofText config.folder)) t)
    (hrun : run e ("new".toList :: args) t = (o, t')) :
    ((o.Failed ∨ (o = { exit := .ok 0, output := printed unmarked.lines } ∧
        NoMarker t (e.place file) line)) ∧
      ∀ c, t.node? (e.place file) = some (.file c) → t'.node? (e.place file) = some (.file c)) ∨
    ∃ config text id name state, ∃ σ : Site text,
      Config.load t e.env none e.cwd e.home = .ok config ∧
      o = { exit := .ok 0
            output := printed [id ++ '\t' ::
              (((e.cwd.join (Path.ofText config.folder)).child name).fragment id).text ++
              '\t' :: state] } ∧
      BoundIn (e.cwd.join (Path.ofText config.folder)) (e.place file) line name id σ t t' ∧
      (isId id = true → Session.Hidden { root := some e.cwd, config } e.cwd
          (e.cwd.join (Path.ofText config.folder)) →
        (e.cwd.join (Path.ofText config.folder)).parts.length < Session.scanLevels →
        Session.Walkable { root := some e.cwd, config } t e.cwd →
        ∀ l, Session.Scannable { root := some e.cwd, config } t e.cwd l text →
          e.place file = lead [] e.cwd.parts ++ l →
          Session.Gains { root := some e.cwd, config } t t' id
            (Session.boundOccurrence e.cwd l σ id)) := by
  obtain ⟨r, hcommand, hout⟩ := run_cases hrun
  rcases command_cases hw hcommand with ⟨⟨f, rfl⟩, hsame⟩ |
    ⟨config, set', rest', s, t₁, hload, htake, hactivate, hdispatch⟩
  · rcases hout with ⟨-, hfailed⟩ | ⟨p, hp, -⟩
    · exact .inl ⟨.inl hfailed, fun c hc => (hsame _ List.not_mem_nil c).mpr hc⟩
    · cases hp
  · cases hargs.symm.trans htake
    have hworks : Session.Works { root := some e.cwd, config } e.cwd config.folder :=
      Session.works_default e.cwd rfl
    obtain ⟨-, hsame, -⟩ := Session.activate_spec hworks.folder? hworks.set hw hactivate
    have hpassable := (hlaid config hload).toPassable
    have hquiet := Session.Calm.activate hworks.folder? hworks.set set t hpassable
    rw [hactivate] at hquiet
    have horderly := (hlaid config hload).quiet hquiet hsame
    have hnew : (new s e.now e.cwd file line).run t₁ = (r, t') := hdispatch
    rcases new_cases (hworks.activate hw hactivate) horderly hnew with ⟨hr, hfile⟩ | hbound
    · refine .inl ⟨?_, fun c hc => hfile c ((hsame _ List.not_mem_nil c).mpr hc)⟩
      rcases hr with ⟨f, rfl⟩ | ⟨rfl, hnone⟩
      · rcases hout with ⟨-, hfailed⟩ | ⟨p, hp, -⟩
        · exact .inl hfailed
        · cases hp
      · rcases hout with ⟨⟨f, hf⟩, -⟩ | ⟨p, hp, ho⟩
        · cases hf
        · cases hp
          exact .inr ⟨ho, fun c text hc => hnone c text ((hsame _ List.not_mem_nil c).mpr hc)⟩
    · obtain ⟨text, σ, b, name, rfl, hpath, hbound⟩ := hbound
      rcases hout with ⟨⟨f, hf⟩, -⟩ | ⟨p, hp, ho⟩
      · cases hf
      · cases hp
        have hgrows : Tree.GrowsWithin
            ((e.cwd.join (Path.ofText config.folder)).parts.length + 1) t t₁ := by
          have htouches : Session.Touches (e.cwd.join (Path.ofText config.folder))
              (defaultSet :: (SetName.sanitize set).toOption.toList) []
              (Session.activate { root := some e.cwd, config } set) :=
            .activate hworks.folder? hworks.set List.mem_cons_self (List.subset_cons_self _ _)
          have htouched := htouches t
          rw [hactivate] at htouched
          exact htouched.growsWithin hw
        have hbound := hbound.trans hsame hgrows
        refine .inr ⟨config, text, b.id, name, _, σ, hload, by rw [ho, reply, hpath], hbound,
          fun hid hhidden hshallow hwalk l hscanned hplace => ?_⟩
        exact (hbound.rebound hid hhidden hshallow hscanned hplace).gains rfl hw hs hwalk

/-- A workspace with a marker on the second line of a file and a reference in another one. -/
def oneUnbound : Tree :=
  ⟨[([['w']], .folder), ([['w'], "a.py".toList], .file (.text "x\r\n #cm here".toList)),
    ([['w'], "b.py".toList], .file (.text "//codemeta[0]".toList)),
    ([['w'], ".cms".toList], .folder), ([['w'], ".cms".toList, "default".toList], .folder)]⟩

/-- Runs in the folder of that workspace. -/
def inWorkspace : Setting :=
  { cwd := { slashes := 1, parts := [['w']] }, home := { slashes := 1, parts := [['h']] }, now := 0 }

theorem load_oneUnbound :
    Config.load oneUnbound inWorkspace.env none inWorkspace.cwd inWorkspace.home = .ok {} := rfl

theorem orderly_oneUnbound :
    Orderly (inWorkspace.cwd.join (Path.ofText ".cms".toList)) oneUnbound := by
  refine .of_plain (by decide) (by decide) (fun set id _ hf => ?_) fun c hc => ?_
  · have hshort : ∀ e ∈ oneUnbound.entries, e.1.length < 4 := by decide
    exact absurd (hshort _ (Tree.mem_entries (by simp [recordPlace]) hf)) (Nat.lt_irrefl 4)
  · have hnone : oneUnbound.node?
        (cursorPlace (inWorkspace.cwd.join (Path.ofText ".cms".toList))) = none := by decide
    rw [hnone] at hc
    cases hc

theorem new_exact_secondLine :
    oneUnbound.WellFormed ∧ oneUnbound.NoSlash ∧
      Orderly (inWorkspace.cwd.join (Path.ofText ".cms".toList)) oneUnbound ∧
      ∃ t', run inWorkspace ["new".toList, "a.py".toList, ['2']] oneUnbound =
          ({ exit := .ok 0, output := "0\t/w/.cms/default/0.md\tcreated\n".toList }, t') ∧
        t'.node? [['w'], "a.py".toList] = some (.file (.text "x\r\n #codemeta[0] here".toList)) ∧
        Session.Gains { root := some inWorkspace.cwd } oneUnbound t' ['0']
          ⟨"a.py".toList, 2, ['0'], { slashes := 1, parts := [['w'], "a.py".toList] }⟩ := by
  have hw : oneUnbound.WellFormed := by decide
  have hs : oneUnbound.NoSlash := by decide
  have htake : takeOption setOption ["a.py".toList, ['2']] = .ok (none, ["a.py".toList, ['2']]) := by
    decide
  have hactivate : (Session.activate { root := some inWorkspace.cwd } none).run oneUnbound =
      (.ok { root := some inWorkspace.cwd }, oneUnbound) := Prod.ext rfl (by decide +kernel)
  have hdispatch : ((dispatch { root := some inWorkspace.cwd } 0 inWorkspace.cwd none "new".toList
      ["a.py".toList, ['2']]).run oneUnbound).1 =
        .ok { lines := ["0\t/w/.cms/default/0.md\tcreated".toList] } := by decide +kernel
  have hwritten : ((dispatch { root := some inWorkspace.cwd } 0 inWorkspace.cwd none "new".toList
      ["a.py".toList, ['2']]).run oneUnbound).2.node? [['w'], "a.py".toList] =
        some (.file (.text "x\r\n #codemeta[0] here".toList)) := by decide +kernel
  have hrun := run_of_dispatch load_oneUnbound rfl htake hactivate (Work.run_eq_of_fst hdispatch)
  refine ⟨hw, hs, orderly_oneUnbound, _, hrun, hwritten, ?_⟩
  have hlaid : ∀ config, Config.load oneUnbound inWorkspace.env none inWorkspace.cwd inWorkspace.home =
      .ok config → Orderly (inWorkspace.cwd.join (Path.ofText config.folder)) oneUnbound := by
    intro config hload
    cases load_oneUnbound.symm.trans hload
    exact orderly_oneUnbound
  rcases new_exact htake hw hs hlaid hrun with
    ⟨hnone, -⟩ | ⟨config, text, id, name, state, σ, hload, ho, hbound, hgains⟩
  · rcases hnone with (hfailed | ⟨f, hf⟩) | ⟨ho, -⟩
    · exact absurd hfailed (by decide)
    · cases hf
    · exact absurd (congrArg Outcome.output ho) (by decide +kernel)
  · cases load_oneUnbound.symm.trans hload
    obtain rfl : id = ['0'] := by
      have hdigits := congrArg (fun o : Outcome => o.output.takeWhile isAsciiDigit) ho
      simp only [printed, List.flatMap_cons, List.append_assoc, List.cons_append] at hdigits
      rw [Text.takeWhile_append_stop hbound.numeral.2 (by simp; decide)] at hdigits
      exact hdigits.symm
    have hplace : inWorkspace.place "a.py".toList = [['w'], "a.py".toList] := by decide
    obtain rfl : text = "x\r\n #cm here".toList := by
      obtain ⟨c, hc, hbytes⟩ := hbound.before
      rw [hplace] at hc
      cases hc
      rw [← Utf8.encode_append, ← Utf8.encode_append, ← σ.text_eq] at hbytes
      exact (Utf8.encode_injective hbytes).symm
    have habove : σ.above.length = 1 := by
      have hread : Numeral.readInt ['2'] = .ok 2 := by decide
      have hline := Except.ok.inj (hread.symm.trans hbound.number)
      omega
    have hwalk : Session.Walkable { root := some inWorkspace.cwd } oneUnbound inWorkspace.cwd :=
      Tree.Walkable.of_entries [['w']] (by decide) (by decide)
    have hgains := hgains (by decide) (Session.hidden_of_plain (by decide) (by decide) (by decide))
      (by decide) hwalk ["a.py".toList]
      ⟨by decide, by decide, by decide, by decide, _, rfl, by decide +kernel, rfl⟩ hplace
    rw [Session.boundOccurrence, habove] at hgains
    exact hgains

/-! ## A record that is scanned -/

/-- A folder of sets whose path ends with a double dot, so that it has no name to be left out by,
and a category with the form of a marker. -/
def nameless : Config := { folder := "a/default/..".toList, defaultCategory := "#codemeta[0]".toList }

/-- Runs with these settings. -/
def inNameless : Setting :=
  { env := [("CODEMETA_CMS_FOLDER".toList, nameless.folder),
      ("CODEMETA_DEFAULT_CATEGORY".toList, nameless.defaultCategory)]
    cwd := { slashes := 1, parts := [['w']] }, home := { slashes := 1, parts := [['h']] }, now := 0 }

/-- A workspace with one unbound marker. -/
def loneMarker : Tree :=
  ⟨[([['w']], .folder), ([['w'], "x.py".toList], .file (.text "#codemeta\n".toList))]⟩

/-- The record that is made for it. -/
def countedRecord : Text :=
  "---\nid: 0\ncreated: 1970-01-01T00:00:00.000Z\ncategory: #codemeta[0]\n---\n\n".toList

/-- The workspace when the session is activated. -/
def loneActivated : Tree :=
  ⟨([['w'], ['a'], "default".toList], .folder) :: ([['w'], ['a']], .folder) :: loneMarker.entries⟩

/-- The workspace when the marker is bound. -/
def loneBound : Tree :=
  ⟨[([['w'], "x.py".toList], .file (.text "#codemeta[0]\n".toList)),
    ([['w'], ['a'], "default".toList, "0.md".toList], .file (.text countedRecord)),
    ([['w'], ['a'], "state.json".toList], .file (.text (cursorText 1))),
    ([['w'], ['a'], "default".toList], .folder), ([['w'], ['a']], .folder), ([['w']], .folder)]⟩

theorem run_inNameless : run inNameless ["new".toList, "x.py".toList, ['1']] loneMarker =
    ({ exit := .ok 0, output := "0\t/w/a/default/../default/0.md\tcreated\n".toList }, loneBound) := by
  have hload : Config.load loneMarker inNameless.env none inNameless.cwd inNameless.home =
      .ok nameless := rfl
  have htake : takeOption setOption ["x.py".toList, ['1']] = .ok (none, ["x.py".toList, ['1']]) := by
    decide
  have hactivate : (Session.activate { root := some inNameless.cwd, config := nameless } none).run
      loneMarker = (.ok { root := some inNameless.cwd, config := nameless }, loneActivated) :=
    Prod.ext rfl (by decide +kernel)
  have hdispatch : (dispatch { root := some inNameless.cwd, config := nameless } 0 inNameless.cwd none
      "new".toList ["x.py".toList, ['1']]).run loneActivated =
        (.ok { lines := ["0\t/w/a/default/../default/0.md\tcreated".toList] }, loneBound) :=
    Prod.ext (by decide +kernel) (by decide +kernel)
  exact run_of_dispatch hload rfl htake hactivate hdispatch

theorem orderly_loneMarker :
    Orderly (inNameless.cwd.join (Path.ofText nameless.folder)) loneMarker := by
  have hdeep : ∀ set id, recordPlace (inNameless.cwd.join (Path.ofText nameless.folder)) set id =
      [['w'], ['a'], set, id ++ ending] := fun _ _ => rfl
  refine ⟨⟨by decide, fun set id _ hl => ?_⟩, fun set id _ hf => ?_, fun c text hc => ?_⟩
  · have hshort : ∀ l ∈ visited [] (inNameless.cwd.join (Path.ofText nameless.folder)).parts,
        l.length < 4 := by decide
    exact absurd (hshort _ hl) (by rw [hdeep]; exact Nat.lt_irrefl 4)
  · have hshort : ∀ e ∈ loneMarker.entries, e.1.length < 4 := by decide
    rw [hdeep] at hf
    exact absurd (hshort _ (Tree.mem_entries (by simp) hf)) (Nat.lt_irrefl 4)
  · have hnone : loneMarker.node?
        (cursorPlace (inNameless.cwd.join (Path.ofText nameless.folder))) = none := by decide
    rw [hnone] at hc
    cases hc

/-- The file is not in the folder of sets and is scanned, yet the record that is made is found as
well, by its category. -/
theorem record_among_references :
    loneMarker.WellFormed ∧ loneMarker.NoSlash ∧
      Config.load loneMarker inNameless.env none inNameless.cwd inNameless.home = .ok nameless ∧
      Orderly (inNameless.cwd.join (Path.ofText nameless.folder)) loneMarker ∧
      Session.Scannable { root := some inNameless.cwd, config := nameless } loneMarker inNameless.cwd
        ["x.py".toList] "#codemeta\n".toList ∧
      (lead [] (inNameless.cwd.join (Path.ofText nameless.folder)).parts).isPrefixOf
        (inNameless.place "x.py".toList) = false ∧
      run inNameless ["new".toList, "x.py".toList, ['1']] loneMarker =
        ({ exit := .ok 0, output := "0\t/w/a/default/../default/0.md\tcreated\n".toList },
          loneBound) ∧
      ¬ Session.Gains { root := some inNameless.cwd, config := nameless } loneMarker loneBound ['0']
        ⟨"x.py".toList, 1, ['0'], { slashes := 1, parts := [['w'], "x.py".toList] }⟩ := by
  refine ⟨by decide, by decide, rfl, orderly_loneMarker, ?_, by decide, run_inNameless, ?_⟩
  · exact ⟨by decide, by decide, by decide, by decide, _, rfl, by decide +kernel, rfl⟩
  · rintro ⟨⟨os, os', hbefore, hafter⟩, -⟩
    have hwalk : Session.Walkable { root := some inNameless.cwd, config := nameless } loneMarker
        inNameless.cwd := Tree.Walkable.of_entries [['w']] (by decide) (by decide)
    have hnone : Session.occurrences { root := some inNameless.cwd, config := nameless } loneMarker
        inNameless.cwd = [] := by decide +kernel
    rw [Session.findReferences_eq (by decide) rfl hwalk, hnone] at hbefore
    obtain ⟨rfl, rfl⟩ := List.append_eq_nil_iff.mp (Except.ok.inj hbefore).symm
    have hw : loneBound.WellFormed := by decide
    have hrecord : Session.Scannable { root := some inNameless.cwd, config := nameless } loneBound
        inNameless.cwd [['a'], "default".toList, "0.md".toList] countedRecord :=
      ⟨by decide, by decide, by decide, by decide, _, rfl, by decide +kernel, rfl⟩
    have hwalk' : Session.Walkable { root := some inNameless.cwd, config := nameless } loneBound
        inNameless.cwd := Tree.Walkable.of_entries [['w']] (by decide) (by decide)
    have hfound : ⟨"a/default/0.md".toList, 4, ['0'],
          { slashes := 1, parts := [['w'], ['a'], "default".toList, "0.md".toList] }⟩ ∈
        Session.occurrences { root := some inNameless.cwd, config := nameless } loneBound
          inNameless.cwd :=
      (Session.mem_occurrences hw).mpr ⟨_, _, 3, "category: #codemeta[0]".toList, hrecord,
        by decide +kernel, by decide +kernel, rfl⟩
    rw [Session.findReferences_eq hw rfl hwalk', Except.ok.injEq] at hafter
    have hmem := (List.mem_filter (p := fun o => o.id == ['0'])).mpr ⟨hfound, beq_self_eq_true _⟩
    rw [hafter] at hmem
    exact absurd hmem (by decide)

end Marginalia.CommandLine
