import Marginalia.Config.Load
import Marginalia.Proofs.Text.Lines
import Marginalia.Proofs.Work

/-!
# Loading the settings

Each setting has its own notion of a valid value, and is `chosen` from its environment variable and
its entry in the settings file: the variable alone counts when it is set, else the entry, and the
default stands in for what is not valid. Of an environment and a table this makes the configuration
`intended`, all of whose settings are `InRange`. What is loaded is that configuration
(`load_intended`). Loading fails only on a file that is found but cannot be taken apart, which
`Found` leaves out, and on a value that a conversion does not get through, which `Convertible`
leaves out: an infinite number in place of a whole one, and a label or an excluded name without a
text.
-/

namespace Marginalia.Config

open Toml (Value Table)

/-! ## Valid values -/

/-- Whether an entry is an infinite number, which no conversion to a whole one gets through. -/
def IsInfinite (entry : Option Value) : Prop := ∃ b, entry = some (.float (.infinite b))

/-- The whole number that a value stands for. -/
def number? (v : Value) : Option Int :=
  match whole? v with
  | .ok n => n
  | .error _ => none

def idLength? (v : Value) : Option Int :=
  ((number? v).filter (0 < ·)).map fun n => max leastIdLength (min greatestIdLength n)

def atLeast? (least : Int) (v : Value) : Option Int := (number? v).filter (least ≤ ·)

def label? : Value → Option Text
  | .string s => if (Text.trim s).isEmpty then none else some (Text.trim s)
  | _ => none

/-- The text of a value, empty when it has none. -/
def textOf (v : Value) : Text := v.shown.toOption.getD []

def HasText (v : Value) : Prop := ∃ text, v.shown = .ok text

/-- The value that a style gives as its label, unless that is empty. -/
def labelValue? : Value → Option Value
  | .table entries => (entries.lookup "label".toList).filter fun v => !v.isVoid
  | _ => none

/-- The style that a table gives under a label, unless that is blank. -/
def labelled? (entries : Table) (text : Text) : Option Style :=
  let label := Text.trim text
  if label.isEmpty then none else
    some
      { label
        foreground := entries.lookup "foreground".toList
        background := entries.lookup "background".toList }

def validStyle? (v : Value) : Option Style :=
  match v with
  | .table entries => labelled? entries (((labelValue? v).map textOf).getD [])
  | _ => none

def styles? : Value → Option (List Style)
  | .array items => some (items.filterMap validStyle?)
  | _ => none

def excluded? : Value → Option (List Name)
  | .array items => some (items.map textOf)
  | _ => none

/-! ## The configuration of an environment and a table -/

/-- The value of a setting: its variable alone decides when it is set, else its entry in the file,
and the default stands in for what is not valid. -/
def chosen {α : Type} (valid : Value → Option α) (fallback : α) (var : Option Text)
    (entry : Option Value) : α :=
  match var with
  | some s => (valid (.string s)).getD fallback
  | none => (entry.bind valid).getD fallback

/-- The table of the settings for scans. -/
def scanTable (table : Table) : Table :=
  match table.lookup "scan".toList with
  | some (.table entries) => entries
  | _ => []

def intended (env : List (Text × Text)) (table : Table) : Config :=
  let var (name : String) := env.lookup name.toList
  let entry (key : String) := table.lookup key.toList
  let scan (key : String) := (scanTable table).lookup key.toList
  { idLength :=
      chosen idLength? ({} : Config).idLength (var "CODEMETA_ID_LENGTH") (entry "id_length")
    folder := chosen label? ({} : Config).folder (var "CODEMETA_CMS_FOLDER") (entry "cms_folder")
    defaultCategory :=
      chosen label? ({} : Config).defaultCategory (var "CODEMETA_DEFAULT_CATEGORY")
        (entry "default_category")
    styles := chosen styles? [] none (entry "category_styles")
    excluded := chosen excluded? ({} : Config).excluded none (scan "exclude_dirs")
    concurrency :=
      chosen (atLeast? 1) ({} : Config).concurrency (var "CODEMETA_SCAN_CONCURRENCY")
        (scan "concurrency")
    debounceMillis :=
      chosen (atLeast? 0) ({} : Config).debounceMillis none (entry "refresh_debounce_ms")
    logLevel :=
      chosen some ({} : Config).logLevel (var "CODEMETA_LOG_LEVEL") (entry "log_level") }

/-- A text that is not empty and has no blank ends. -/
def IsLabel (s : Text) : Prop := s ≠ [] ∧ Text.trim s = s

structure InRange (c : Config) : Prop where
  idLength : 6 ≤ c.idLength ∧ c.idLength ≤ 32
  folder : IsLabel c.folder
  defaultCategory : IsLabel c.defaultCategory
  concurrency : 1 ≤ c.concurrency
  debounceMillis : 0 ≤ c.debounceMillis
  styles : ∀ style ∈ c.styles, IsLabel style.label

/-- What valid values and the default have in common, the chosen value has. -/
theorem chosen_of {α : Type} {P : α → Prop} (valid : Value → Option α) {fallback : α}
    (hfallback : P fallback) (hvalid : ∀ v a, valid v = some a → P a) (var : Option Text)
    (entry : Option Value) : P (chosen valid fallback var entry) := by
  have hget : ∀ o : Option α, (∀ a, o = some a → P a) → P (o.getD fallback) := fun o ho => by
    cases o with
    | none => exact hfallback
    | some a => exact ho a rfl
  unfold chosen
  cases var with
  | some s => exact hget _ (hvalid _)
  | none =>
    refine hget _ fun a ha => ?_
    obtain ⟨v, -, hv⟩ := Option.bind_eq_some_iff.mp ha
    exact hvalid v a hv

theorem isLabel_trim {s : Text} (h : (Text.trim s).isEmpty = false) : IsLabel (Text.trim s) :=
  ⟨by simpa using h, Text.trim_trim s⟩

theorem isLabel_of_label? {v : Value} {s : Text} (h : label? v = some s) : IsLabel s := by
  unfold label? at h
  split at h
  · split at h
    · cases h
    · next hempty =>
      cases h
      exact isLabel_trim (by simpa using hempty)
  · cases h

theorem isLabel_of_validStyle? {v : Value} {style : Style} (h : validStyle? v = some style) :
    IsLabel style.label := by
  unfold validStyle? at h
  split at h
  · unfold labelled? at h
    simp only at h
    split at h
    · cases h
    · next hempty =>
      cases h
      exact isLabel_trim (by simpa using hempty)
  · cases h

theorem isLabel_of_styles? {v : Value} {styles : List Style} (h : styles? v = some styles) :
    ∀ style ∈ styles, IsLabel style.label := by
  unfold styles? at h
  split at h
  · cases h
    intro style hstyle
    obtain ⟨item, -, hitem⟩ := List.mem_filterMap.mp hstyle
    exact isLabel_of_validStyle? hitem
  · cases h

theorem idLength?_bounds {n : Int} {v : Value} (h : idLength? v = some n) : 6 ≤ n ∧ n ≤ 32 := by
  obtain ⟨m, -, rfl⟩ := Option.map_eq_some_iff.mp h
  simp only [leastIdLength, greatestIdLength]
  omega

theorem le_of_atLeast? {least n : Int} {v : Value} (h : atLeast? least v = some n) : least ≤ n := by
  simpa using (Option.filter_eq_some_iff.mp h).2

theorem intended_inRange (env : List (Text × Text)) (table : Table) :
    (intended env table).InRange where
  idLength := chosen_of (P := fun n : Int => 6 ≤ n ∧ n ≤ 32) idLength? (by decide)
    (fun _ _ => idLength?_bounds) _ _
  folder := chosen_of (P := IsLabel) label? ⟨by decide, by decide⟩
    (fun _ _ => isLabel_of_label?) _ _
  defaultCategory := chosen_of (P := IsLabel) label? ⟨by decide, by decide⟩
    (fun _ _ => isLabel_of_label?) _ _
  concurrency := chosen_of (P := fun n : Int => 1 ≤ n) (atLeast? 1) (by decide)
    (fun _ _ => le_of_atLeast?) _ _
  debounceMillis := chosen_of (P := fun n : Int => 0 ≤ n) (atLeast? 0) (by decide)
    (fun _ _ => le_of_atLeast?) none _
  styles := chosen_of (P := fun styles : List Style => ∀ style ∈ styles, IsLabel style.label)
    styles? (List.forall_mem_nil _) (fun _ _ => isLabel_of_styles?) none _

/-! ## Conversions -/

/-- The value that counts for a setting. -/
def source (var : Option Text) (entry : Option Value) : Option Value :=
  (var.map .string).or entry

theorem chosen_eq {α : Type} (valid : Value → Option α) (fallback : α) (var : Option Text)
    (entry : Option Value) :
    chosen valid fallback var entry = ((source var entry).bind valid).getD fallback := by
  cases var <;> rfl

theorem isInfinite_source {var : Option Text} {entry : Option Value} :
    IsInfinite (source var entry) ↔ var = none ∧ IsInfinite entry := by
  cases var <;> simp [IsInfinite, source]

theorem whole?_cases (v : Value) :
    (IsInfinite (some v) ∧ whole? v = .error .overflow) ∨
      (¬IsInfinite (some v) ∧ whole? v = .ok (number? v)) := by
  cases v with
  | float x => cases x <;> simp [IsInfinite, whole?, number?]
  | _ => simp [IsInfinite, whole?, number?]

theorem clamp_range (n : Int) : leastIdLength ≤ clamp n ∧ clamp n ≤ greatestIdLength := by
  unfold clamp leastIdLength greatestIdLength defaultIdLength
  split <;> omega

theorem clampIdLength_eq_ok_iff {v : Option Value} {n : Int} : clampIdLength v = .ok n ↔
    ¬IsInfinite v ∧ n = (v.bind idLength?).getD defaultIdLength := by
  cases v with
  | none => simp [clampIdLength, IsInfinite, eq_comm]
  | some v =>
    have hclamp : ∀ o : Option Int, (o.map clamp).getD defaultIdLength =
        (((o.filter (0 < ·)).map fun n => max leastIdLength (min greatestIdLength n)).getD
          defaultIdLength) := fun o => by
      cases o with
      | none => rfl
      | some m =>
        by_cases hm : 0 < m
        · simp [clamp, Option.filter, hm, Int.not_le.mpr hm]
        · simp [clamp, Option.filter, hm, Int.not_lt.mp hm]
    rcases whole?_cases v with ⟨hinf, hw⟩ | ⟨hfin, hw⟩
    · simp [clampIdLength, hw, hinf, Except.map]
    · simp only [clampIdLength, hw, Except.map, Except.ok.injEq, hclamp, hfin, not_false_eq_true,
        true_and, Option.bind_some, idLength?, eq_comm]

theorem wholeAtLeast_eq_ok_iff {least fallback : Int} {v : Option Value} {n : Int} :
    wholeAtLeast least fallback v = .ok n ↔
      ¬IsInfinite v ∧ n = (v.bind (atLeast? least)).getD fallback := by
  cases v with
  | none => simp [wholeAtLeast, IsInfinite, eq_comm]
  | some v =>
    rcases whole?_cases v with ⟨hinf, hw⟩ | ⟨hfin, hw⟩
    · simp [wholeAtLeast, hw, hinf, Except.map]
    · simp only [wholeAtLeast, hw, Except.map, Except.ok.injEq, hfin, not_false_eq_true,
        true_and, Option.bind_some, atLeast?, eq_comm]

theorem label_eq (fallback : Text) (v : Option Value) :
    label fallback v = (v.bind label?).getD fallback := by
  cases v with
  | none => rfl
  | some v =>
    cases v with
    | string s => by_cases h : (Text.trim s).isEmpty = true <;> simp [label, label?, h]
    | _ => rfl

theorem shown_eq_ok_iff {v : Value} {s : Text} : shown v = .ok s ↔ HasText v ∧ s = textOf v := by
  unfold shown HasText textOf
  rw [mapError_eq_ok_iff]
  cases v.shown <;> simp [Except.toOption, eq_comm]

theorem style?_table (entries : Table) : style? (.table entries) =
    match labelValue? (.table entries) with
    | none => .ok (labelled? entries [])
    | some l => (shown l).map (labelled? entries) := by
  unfold style? labelValue?
  simp only
  cases entries.lookup "label".toList with
  | none => rfl
  | some l =>
    cases hl : l.isVoid with
    | true =>
      have hnone : (some l).filter (fun v => !v.isVoid) = none := by simp [hl]
      rw [hnone]
      show (if l.isVoid = true then _ else _) = _
      rw [if_pos hl]
      rfl
    | false =>
      have hsome : (some l).filter (fun v => !v.isVoid) = some l := by simp [hl]
      rw [hsome]
      show (if l.isVoid = true then _ else _) = (shown l).map (labelled? entries)
      rw [if_neg (by simp [hl])]
      cases shown l <;> rfl

theorem style?_eq_ok_iff {v : Value} {o : Option Style} : style? v = .ok o ↔
    (∀ l, labelValue? v = some l → HasText l) ∧ o = validStyle? v := by
  cases v with
  | table entries =>
    rw [style?_table, validStyle?]
    cases labelValue? (.table entries) with
    | none => simp [eq_comm]
    | some l =>
      simp only [map_eq_ok_iff, shown_eq_ok_iff, Option.some.injEq, forall_eq', Option.map_some,
        Option.getD_some]
      constructor
      · rintro ⟨text, ⟨htext, rfl⟩, h⟩
        exact ⟨htext, h⟩
      · rintro ⟨htext, h⟩
        exact ⟨_, ⟨htext, rfl⟩, h⟩
  | _ => simp [style?, validStyle?, labelValue?, eq_comm]

/-- Whether the labels in a list of styles have texts. -/
def LabelsHaveText (entry : Option Value) : Prop :=
  ∀ items, entry = some (.array items) → ∀ v ∈ items, ∀ l, labelValue? v = some l → HasText l

def ItemsHaveText (entry : Option Value) : Prop :=
  ∀ items, entry = some (.array items) → ∀ v ∈ items, HasText v

theorem readStyles_eq_ok_iff {entry : Option Value} {styles : List Style} :
    readStyles entry = .ok styles ↔
      LabelsHaveText entry ∧ styles = (entry.bind styles?).getD [] := by
  unfold readStyles LabelsHaveText
  split
  · next items =>
    rw [map_eq_ok_iff]
    simp only [mapM_eq_ok_map_iff fun _ _ => style?_eq_ok_iff, Option.some.injEq,
      Value.array.injEq, forall_eq', Option.bind_some, styles?, Option.getD_some]
    constructor
    · rintro ⟨found, ⟨hall, rfl⟩, rfl⟩
      exact ⟨hall, by simp [List.filterMap_map]⟩
    · rintro ⟨hall, rfl⟩
      exact ⟨_, ⟨hall, rfl⟩, by simp [List.filterMap_map]⟩
  · next hother =>
    have hnone : (entry.bind styles?).getD [] = [] := by
      cases entry with
      | none => rfl
      | some v => cases v <;> first | rfl | exact absurd rfl (hother _)
    rw [hnone]
    constructor
    · intro h
      exact ⟨fun items hitems => absurd hitems (hother items), (Except.ok.inj h).symm⟩
    · rintro ⟨-, rfl⟩
      rfl

theorem readExcluded_eq_ok_iff {entry : Option Value} {names : List Name} :
    readExcluded entry = .ok names ↔
      ItemsHaveText entry ∧ names = (entry.bind excluded?).getD ({} : Config).excluded := by
  unfold readExcluded ItemsHaveText
  split
  · next items =>
    rw [mapM_eq_ok_map_iff fun _ _ => shown_eq_ok_iff]
    simp [excluded?]
  · next hother =>
    have hnone : (entry.bind excluded?).getD ({} : Config).excluded = ({} : Config).excluded := by
      cases entry with
      | none => rfl
      | some v => cases v <;> first | rfl | exact absurd rfl (hother _)
    rw [hnone]
    constructor
    · intro h
      exact ⟨fun items hitems => absurd hitems (hother items), (Except.ok.inj h).symm⟩
    · rintro ⟨-, rfl⟩
      rfl

/-! ## All settings -/

/-- An environment and a table in which the conversions get through all values that count. -/
structure Convertible (env : List (Text × Text)) (table : Table) : Prop where
  idLength : env.lookup "CODEMETA_ID_LENGTH".toList = none →
    ¬IsInfinite (table.lookup "id_length".toList)
  concurrency : env.lookup "CODEMETA_SCAN_CONCURRENCY".toList = none →
    ¬IsInfinite ((scanTable table).lookup "concurrency".toList)
  debounceMillis : ¬IsInfinite (table.lookup "refresh_debounce_ms".toList)
  styles : LabelsHaveText (table.lookup "category_styles".toList)
  excluded : ItemsHaveText ((scanTable table).lookup "exclude_dirs".toList)

theorem ofTable_eq_ok_iff {env : List (Text × Text)} {table : Table} {c : Config} :
    ofTable env table = .ok c ↔ Convertible env table ∧ c = intended env table := by
  have hnumber : ∀ {r : Except Overflow Int} {n : Int},
      (r.mapError fun _ => Fault.overflow) = .ok n ↔ r = .ok n := mapError_eq_ok_iff
  unfold ofTable
  simp only [bind_eq_ok_iff, hnumber, clampIdLength_eq_ok_iff, wholeAtLeast_eq_ok_iff,
    readStyles_eq_ok_iff, readExcluded_eq_ok_iff, label_eq]
  constructor
  · rintro ⟨_, ⟨hid, rfl⟩, _, ⟨hstyles, rfl⟩, _, ⟨hexcluded, rfl⟩, _, ⟨hscan, rfl⟩, _,
      ⟨hdebounce, rfl⟩, h⟩
    refine ⟨⟨fun hnone hinf => hid (isInfinite_source.mpr ⟨hnone, hinf⟩),
      fun hnone hinf => hscan (isInfinite_source.mpr ⟨hnone, hinf⟩), hdebounce, hstyles,
      hexcluded⟩, (Except.ok.inj h).symm.trans ?_⟩
    simp only [intended, chosen_eq, Option.bind_fun_some]
    rfl
  · rintro ⟨h, rfl⟩
    refine ⟨_, ⟨fun hinf => h.idLength (isInfinite_source.mp hinf).1 (isInfinite_source.mp hinf).2,
      rfl⟩, _, ⟨h.styles, rfl⟩, _, ⟨h.excluded, rfl⟩, _, ⟨fun hinf => h.concurrency
        (isInfinite_source.mp hinf).1 (isInfinite_source.mp hinf).2, rfl⟩, _,
      ⟨h.debounceMillis, rfl⟩, ?_⟩
    simp only [intended, chosen_eq, Option.bind_fun_some]
    rfl

/-! ## The settings file -/

/-- What a settings file comes to: its table, or an empty one when it is no TOML or cannot be
opened. A file that is not UTF-8, or that holds a numeral with too many digits or too deep a nesting,
comes to nothing. -/
inductive Reads (t : Tree) (path : Path) : Table → Prop
  | table {text : Text} {table : Table} (hread : t.readText path = .ok text)
      (h : Toml.read text = .ok table) : Reads t path table
  | malformed {text : Text} (hread : t.readText path = .ok text)
      (h : Toml.read text = .error .malformed) : Reads t path []
  | closed {fault : Disk.Fault} (hread : t.readText path = .error fault)
      (h : ∀ e, fault ≠ .undecodable e) : Reads t path []

/-- What the first settings file that exists comes to, an empty table when there is none. -/
inductive Found (t : Tree) : List Path → Table → Prop
  | nothing : Found t [] []
  | next {path : Path} {rest : List Path} {table : Table} (h : t.contains path = .ok false)
      (hrest : Found t rest table) : Found t (path :: rest) table
  | here {path : Path} {rest : List Path} {table : Table} (h : t.contains path = .ok true)
      (hread : Reads t path table) : Found t (path :: rest) table

variable {t : Tree}

theorem readFile_eq_ok_iff {path : Path} {table : Table} :
    readFile t path = .ok table ↔ Reads t path table := by
  unfold readFile
  constructor
  · intro h
    split at h
    · cases h
    · next fault hfault hread =>
      cases h
      exact .closed hread hfault
    · next text hread =>
      split at h
      · next table' htable =>
        cases h
        exact .table hread htable
      · next hmalformed =>
        cases h
        exact .malformed hread hmalformed
      · cases h
  · intro h
    cases h with
    | table hread h => simp only [hread, h]
    | malformed hread h => simp only [hread, h]
    | closed hread h =>
      rw [hread]
      split
      · next e he => exact absurd (Except.error.inj he) (h e)
      · rfl
      · next he => cases he

theorem readFirst_eq_ok_iff {paths : List Path} {table : Table} :
    readFirst t paths = .ok table ↔ Found t paths table := by
  induction paths with
  | nil =>
    constructor
    · rintro ⟨⟩
      exact .nothing
    · rintro ⟨⟩
      rfl
  | cons path rest ih =>
    simp only [readFirst, bind_eq_ok_iff, mapError_eq_ok_iff]
    constructor
    · rintro ⟨there, hthere, h⟩
      cases there with
      | false => exact .next hthere (ih.mp h)
      | true => exact .here hthere (readFile_eq_ok_iff.mp h)
    · intro h
      cases h with
      | next h hrest => exact ⟨false, h, ih.mpr hrest⟩
      | here h hread => exact ⟨true, h, readFile_eq_ok_iff.mpr hread⟩

/-- Loading gives the configuration intended of the environment and the settings file that is found,
exactly when the file can be taken apart and the conversions get through all values that count. That
configuration is in range, whatever the values. -/
theorem load_intended (t : Tree) (env : List (Text × Text)) (explicit : Option Path)
    (cwd home : Path) :
    (∀ c, load t env explicit cwd home = .ok c ↔
      ∃ table, Found t (candidates explicit cwd home) table ∧ Convertible env table ∧
        c = intended env table) ∧
    ∀ table, (intended env table).InRange := by
  refine ⟨fun c => ?_, intended_inRange env⟩
  unfold load
  simp only [bind_eq_ok_iff, readFirst_eq_ok_iff, ofTable_eq_ok_iff]

/-- A working folder with a settings file. -/
def settingsFile (c : Content) : Tree := ⟨[([fileName], .file c)]⟩

/-- What is loaded from it. -/
def loadFrom (c : Content) (env : List (Text × Text)) : Except Fault Config :=
  load (settingsFile c) env none { slashes := 1 } { slashes := 1, parts := ["home".toList] }

/-- Invalid values of several kinds among valid ones. -/
def partlyInvalid : Text :=
  "id_length = 7\ncms_folder = 5\nrefresh_debounce_ms = -1\n".toList ++
    "default_category = \" NOTE \"\n".toList ++
    "scan = \x7bconcurrency = nan, exclude_dirs = [1]\x7d\n".toList ++
    "category_styles = [2026-01-02, \x7blabel = \"\"\x7d, \x7blabel = true\x7d]\n".toList

theorem load_intended_partlyInvalid : ∃ c table,
    loadFrom (.text partlyInvalid) [("CODEMETA_ID_LENGTH".toList, "x".toList)] = .ok c ∧
      Found (settingsFile (.text partlyInvalid))
        (candidates none { slashes := 1 } { slashes := 1, parts := ["home".toList] }) table ∧
      Convertible [("CODEMETA_ID_LENGTH".toList, "x".toList)] table ∧ c.InRange ∧
      c.idLength = 10 ∧ c.folder = ".cms".toList ∧ c.defaultCategory = "NOTE".toList ∧
      c.concurrency = 8 ∧ c.debounceMillis = 150 ∧ c.excluded = [['1']] ∧
      c.styles.map (·.label) = ["True".toList] := by
  obtain ⟨hiff, hrange⟩ := load_intended (settingsFile (.text partlyInvalid))
    [("CODEMETA_ID_LENGTH".toList, "x".toList)] none { slashes := 1 }
    { slashes := 1, parts := ["home".toList] }
  have hfields : (loadFrom (.text partlyInvalid)
      [("CODEMETA_ID_LENGTH".toList, "x".toList)]).toOption.any (fun c =>
        decide (c.idLength = 10 ∧ c.folder = ".cms".toList ∧ c.defaultCategory = "NOTE".toList ∧
          c.concurrency = 8 ∧ c.debounceMillis = 150 ∧ c.excluded = [['1']] ∧
          c.styles.map (·.label) = ["True".toList])) = true := by decide +kernel
  cases hload : loadFrom (.text partlyInvalid) [("CODEMETA_ID_LENGTH".toList, "x".toList)] with
  | error f =>
    rw [hload] at hfields
    cases hfields
  | ok c =>
    obtain ⟨table, hfound, hconvertible, rfl⟩ := (hiff c).mp hload
    rw [hload] at hfields
    exact ⟨_, table, rfl, hfound, hconvertible, hrange table, of_decide_eq_true hfields⟩

/-- An infinite number, and bytes that are no UTF-8, keep the settings from being loaded. -/
theorem unloadable_settings :
    (∀ c, loadFrom (.text "id_length = inf".toList) [] ≠ .ok c) ∧
      ∀ c, loadFrom (.raw [0xff]) [] ≠ .ok c := by
  have hnone : ∀ {r : Except Fault Config}, r.toOption.isNone = true → ∀ c, r ≠ .ok c :=
    fun {r} hr c h => by
      rw [h] at hr
      cases hr
  exact ⟨hnone (by decide +kernel), hnone (by decide +kernel)⟩

end Marginalia.Config
