import Marginalia.Proofs.Toml.Documents
import Marginalia.Proofs.Work

/-!
# Summaries in TOML are read back

`Summary.enter` is what reading a summary in TOML does, statement by statement (`Summary.means`). It
succeeds exactly for a summary whose strings are plain and whose numbers have no more digits than a
numeral may have, and then gives the table of the summary (`Summary.read_eq_ok_iff`).
-/

namespace Marginalia

open Toml

/-! ## Tables -/

def Occurrence.table (o : Occurrence) : Toml.Table :=
  [("file".toList, .string o.file), ("line".toList, .integer o.line)]

def Entry.table (e : Entry) : Toml.Table :=
  [("id".toList, .string e.id), ("category".toList, .string e.category),
    ("file".toList, .string e.relativePath), ("content".toList, .string e.body)] ++
    listed "occurrences".toList (e.occurrences.map fun o => .table o.table)

/-- What a summary says, as a table. A list that has no items has no key. -/
def Summary.table (s : Summary) : Toml.Table :=
  [("set".toList, .string s.set), ("generated".toList, .string s.generated),
    ("count".toList, .integer s.entries.length)] ++
    listed "fragments".toList (s.entries.map fun e => .table e.table)

/-! ## What is read back -/

def Entry.isPlain (e : Entry) : Bool :=
  isLine e.id && isLine e.category && isLine e.relativePath && isBody e.body &&
    e.occurrences.all fun o => isLine o.file

/-- No string has a control character that would have to be escaped and is not. -/
def Summary.isPlain (s : Summary) : Bool :=
  isLine s.set && isLine s.generated && s.entries.all Entry.isPlain

def Summary.numbers (s : Summary) : List Int :=
  s.entries.length :: s.entries.flatMap fun e => e.occurrences.map (·.line)

/-! ## Meanings -/

def fragmentsKey : Text := "fragments".toList

def occurrencesKey : Text := "occurrences".toList

def Occurrence.enter (o : Occurrence) (d : Draft) : Except Toml.Fault Draft := do
  let d ← d.settle.openItem [fragmentsKey, occurrencesKey]
  let d ← assign "file".toList (readLine o.file) d
  assign "line".toList (readInteger o.line) d

def Entry.enter (e : Entry) (d : Draft) : Except Toml.Fault Draft := do
  let d ← d.settle.openItem [fragmentsKey]
  let d ← assign "id".toList (readLine e.id) d
  let d ← assign "category".toList (readLine e.category) d
  let d ← assign "file".toList (readLine e.relativePath) d
  let d ← assign "content".toList (readBody e.body) d
  e.occurrences.foldlM (fun d o => o.enter d) d

def Summary.enter (s : Summary) (d : Draft) : Except Toml.Fault Draft := do
  let d ← assign "set".toList (readLine s.set) d
  let d ← assign "generated".toList (readLine s.generated) d
  let d ← assign "count".toList (readInteger s.entries.length) d
  s.entries.foldlM (fun d e => e.enter d) d

theorem Occurrence.means (o : Occurrence) : Means o.toml o.enter := by
  have hheader : Means "[[fragments.occurrences]]\n".toList _ :=
    means_headerLine [fragmentsKey, occurrencesKey] (by simp) (by decide)
  have hfile := means_statementLine (k := "file") (by decide) (spells_quote o.file)
  have hline := means_statementLine (k := "line") (by decide) (spells_ofInt o.line)
  have h := (hheader.append hfile).append hline
  simp only [bind_assoc] at h
  exact h

theorem Entry.means (e : Entry) : Means e.toml e.enter := by
  have hheader : Means "[[fragments]]\n".toList _ :=
    means_headerLine [fragmentsKey] (by simp) (by decide)
  have hid := means_statementLine (k := "id") (by decide) (spells_quote e.id)
  have hcategory := means_statementLine (k := "category") (by decide) (spells_quote e.category)
  have hfile := means_statementLine (k := "file") (by decide) (spells_quote e.relativePath)
  have hcontent := means_statementLine (k := "content") (by decide) (spells_quoteLines e.body)
  have hitems := Means.flatMap e.occurrences fun o _ => o.means
  have h := (((((hheader.append hid).append hcategory).append hfile).append hcontent).append
    hitems).append means_blank
  simp only [bind_assoc, bind_pure] at h
  exact h

theorem Summary.means (s : Summary) : Means s.toml s.enter := by
  have hset := means_statementLine (k := "set") (by decide) (spells_quote s.set)
  have hgenerated := means_statementLine (k := "generated") (by decide) (spells_quote s.generated)
  have hcount : Means (statementLine "count" (Numeral.ofNat s.entries.length)) _ :=
    means_statementLine (by decide) (spells_ofInt s.entries.length)
  have hentries := Means.flatMap s.entries fun e _ => e.means
  have h := (((hset.append hgenerated).append hcount).append means_blank).append hentries
  simp only [bind_assoc, pure_bind] at h
  exact h

/-! ## Entering a summary -/

theorem Occurrence.enter_ok {o : Occurrence} (hfile : isLine o.file = true)
    (hline : o.line.natAbs < 10 ^ Numeral.limit) {d : Draft} {sec : Key} {t sub : Toml.Table}
    {es os : List Value} (ht : t.lookup fragmentsKey = none)
    (hsub : sub.lookup occurrencesKey = none)
    (h : d.Is sec (t ++ listed fragmentsKey (es ++ [.table (sub ++ listed occurrencesKey os)]))) :
    ∃ d', o.enter d = .ok d' ∧ d'.Is [fragmentsKey, occurrencesKey] (t ++ listed fragmentsKey
      (es ++ [.table (sub ++ listed occurrencesKey (os ++ [.table o.table]))])) := by
  obtain ⟨d₁, h₁, hd₁⟩ := openItem_ok h (within_listed (p := []) ht (addItem_listed hsub os))
  obtain ⟨d₂, h₂, hd₂⟩ := assign_ok hd₁ (k := "file".toList) (v := .string o.file) rfl
    (within_listed ht (within_listed (p := []) hsub (addEntry_new rfl _)))
  obtain ⟨d₃, h₃, hd₃⟩ := assign_ok hd₂ (k := "line".toList) (v := .integer o.line) rfl
    (within_listed ht (within_listed (p := []) hsub (addEntry_new rfl _)))
  refine ⟨d₃, ?_, hd₃⟩
  rw [List.singleton_append] at h₁
  simp only [enter, readLine, readInteger, hfile, hline, if_true, h₁, h₂, h₃, bind, Except.bind]

theorem enter_occurrences {xs : List Occurrence} (hfiles : ∀ o ∈ xs, isLine o.file = true)
    (hlines : ∀ o ∈ xs, o.line.natAbs < 10 ^ Numeral.limit) {d : Draft} {sec : Key}
    {t sub v : Toml.Table} {es os : List Value} (ht : t.lookup fragmentsKey = none)
    (hsub : sub.lookup occurrencesKey = none) (hv : v = sub ++ listed occurrencesKey os)
    (h : d.Is sec (t ++ listed fragmentsKey (es ++ [.table v]))) :
    ∃ d' sec', xs.foldlM (fun d o => o.enter d) d = .ok d' ∧ d'.Is sec' (t ++ listed fragmentsKey
      (es ++ [.table (sub ++ listed occurrencesKey (os ++ xs.map fun o => .table o.table))])) := by
  induction xs generalizing d sec v os with
  | nil => exact ⟨d, sec, rfl, by simpa [hv] using h⟩
  | cons o xs ih =>
    obtain ⟨hfile, hfiles⟩ := List.forall_mem_cons.mp hfiles
    obtain ⟨hline, hlines⟩ := List.forall_mem_cons.mp hlines
    obtain ⟨d₁, h₁, hd₁⟩ := o.enter_ok hfile hline ht hsub (hv ▸ h)
    obtain ⟨d₂, sec₂, h₂, hd₂⟩ := ih hfiles hlines rfl hd₁
    refine ⟨d₂, sec₂, ?_, by simpa using hd₂⟩
    rw [List.foldlM_cons, h₁]
    exact h₂

theorem Entry.enter_ok {e : Entry} (hplain : e.isPlain = true)
    (hlines : ∀ o ∈ e.occurrences, o.line.natAbs < 10 ^ Numeral.limit) {d : Draft} {sec : Key}
    {t : Toml.Table} {es : List Value} (ht : t.lookup fragmentsKey = none)
    (h : d.Is sec (t ++ listed fragmentsKey es)) :
    ∃ d' sec', e.enter d = .ok d' ∧
      d'.Is sec' (t ++ listed fragmentsKey (es ++ [.table e.table])) := by
  simp only [isPlain, Bool.and_eq_true, List.all_eq_true] at hplain
  obtain ⟨⟨⟨⟨hid, hcategory⟩, hfile⟩, hbody⟩, hfiles⟩ := hplain
  obtain ⟨d₁, h₁, hd₁⟩ := openItem_ok h (p := []) (addItem_listed ht es)
  obtain ⟨d₂, h₂, hd₂⟩ := assign_ok hd₁ (k := "id".toList) (v := .string e.id) rfl
    (within_listed (p := []) ht (addEntry_new rfl _))
  obtain ⟨d₃, h₃, hd₃⟩ := assign_ok hd₂ (k := "category".toList) (v := .string e.category) rfl
    (within_listed (p := []) ht (addEntry_new rfl _))
  obtain ⟨d₄, h₄, hd₄⟩ := assign_ok hd₃ (k := "file".toList) (v := .string e.relativePath) rfl
    (within_listed (p := []) ht (addEntry_new rfl _))
  obtain ⟨d₅, h₅, hd₅⟩ := assign_ok hd₄ (k := "content".toList) (v := .string e.body) rfl
    (within_listed (p := []) ht (addEntry_new rfl _))
  obtain ⟨d₆, sec, h₆, hd₆⟩ :=
    enter_occurrences hfiles hlines ht rfl (append_listed_nil _ _).symm hd₅
  refine ⟨d₆, sec, ?_, hd₆⟩
  rw [List.nil_append] at h₁
  simp only [enter, readLine, readBody, hid, hcategory, hfile, hbody, if_true, h₁, h₂, h₃, h₄, h₅,
    h₆, bind, Except.bind]

theorem enter_entries {xs : List Entry} (hplain : ∀ e ∈ xs, e.isPlain = true)
    (hlines : ∀ e ∈ xs, ∀ o ∈ e.occurrences, o.line.natAbs < 10 ^ Numeral.limit) {d : Draft}
    {sec : Key} {t u : Toml.Table} {es : List Value} (ht : t.lookup fragmentsKey = none)
    (hu : u = t ++ listed fragmentsKey es) (h : d.Is sec u) :
    ∃ d' sec', xs.foldlM (fun d e => e.enter d) d = .ok d' ∧
      d'.Is sec' (t ++ listed fragmentsKey (es ++ xs.map fun e => .table e.table)) := by
  induction xs generalizing d sec u es with
  | nil => exact ⟨d, sec, rfl, by simpa [hu] using h⟩
  | cons e xs ih =>
    obtain ⟨hentry, hplain⟩ := List.forall_mem_cons.mp hplain
    obtain ⟨hline, hlines⟩ := List.forall_mem_cons.mp hlines
    obtain ⟨d₁, sec₁, h₁, hd₁⟩ := e.enter_ok hentry hline ht (hu ▸ h)
    obtain ⟨d₂, sec₂, h₂, hd₂⟩ := ih hplain hlines rfl hd₁
    refine ⟨d₂, sec₂, ?_, by simpa using hd₂⟩
    rw [List.foldlM_cons, h₁]
    exact h₂

theorem Summary.enter_ok {s : Summary} (hplain : s.isPlain = true)
    (hshort : ∀ n ∈ s.numbers, n.natAbs < 10 ^ Numeral.limit) :
    ∃ d, s.enter {} = .ok d ∧ d.table = s.table := by
  simp only [isPlain, Bool.and_eq_true, List.all_eq_true] at hplain
  obtain ⟨⟨hset, hgenerated⟩, hentries⟩ := hplain
  obtain ⟨hcount, hlines⟩ := List.forall_mem_cons.mp hshort
  have hempty : ({} : Draft).Is [] [] := ⟨rfl, rfl, rfl, rfl⟩
  obtain ⟨d₁, h₁, hd₁⟩ := assign_ok hempty (k := "set".toList) (v := .string s.set) rfl
    (addEntry_new rfl _)
  obtain ⟨d₂, h₂, hd₂⟩ := assign_ok hd₁ (k := "generated".toList) (v := .string s.generated) rfl
    (addEntry_new rfl _)
  obtain ⟨d₃, h₃, hd₃⟩ := assign_ok hd₂ (k := "count".toList) (v := .integer s.entries.length) rfl
    (addEntry_new rfl _)
  obtain ⟨d₄, sec, h₄, hd₄⟩ := enter_entries hentries
    (fun e he o ho => hlines _ (List.mem_flatMap.mpr ⟨e, he, List.mem_map.mpr ⟨o, ho, rfl⟩⟩))
    rfl (append_listed_nil _ _).symm hd₃
  refine ⟨d₄, ?_, hd₄.table⟩
  simp only [enter, readLine, readInteger, hset, hgenerated, hcount, if_true, h₁, h₂, h₃, h₄, bind,
    Except.bind]

/-! ## What an entered summary has to be -/

theorem of_assign {k : Text} {r : Except Toml.Fault Value} {d d' : Draft}
    (h : assign k r d = .ok d') : ∃ v, r = .ok v := by
  obtain ⟨v, hv, -⟩ := bind_eq_ok_iff.mp h
  exact ⟨v, hv⟩

theorem isLine_of_readLine {s : Text} {v : Value} (h : readLine s = .ok v) : isLine s = true := by
  by_contra hs
  simp [readLine, hs] at h

theorem isBody_of_readBody {s : Text} {v : Value} (h : readBody s = .ok v) : isBody s = true := by
  by_contra hs
  simp [readBody, hs] at h

theorem short_of_readInteger {n : Int} {v : Value} (h : readInteger n = .ok v) :
    n.natAbs < 10 ^ Numeral.limit := by
  by_contra hn
  simp [readInteger, hn] at h

theorem Occurrence.of_enter {o : Occurrence} {d d' : Draft} (h : o.enter d = .ok d') :
    isLine o.file = true ∧ o.line.natAbs < 10 ^ Numeral.limit := by
  obtain ⟨d₁, -, h⟩ := bind_eq_ok_iff.mp h
  obtain ⟨d₂, hfile, h⟩ := bind_eq_ok_iff.mp h
  obtain ⟨v, hfile⟩ := of_assign hfile
  obtain ⟨w, hline⟩ := of_assign h
  exact ⟨isLine_of_readLine hfile, short_of_readInteger hline⟩

theorem Entry.of_enter {e : Entry} {d d' : Draft} (h : e.enter d = .ok d') :
    e.isPlain = true ∧ ∀ o ∈ e.occurrences, o.line.natAbs < 10 ^ Numeral.limit := by
  obtain ⟨d₁, -, h⟩ := bind_eq_ok_iff.mp h
  obtain ⟨d₂, hid, h⟩ := bind_eq_ok_iff.mp h
  obtain ⟨d₃, hcategory, h⟩ := bind_eq_ok_iff.mp h
  obtain ⟨d₄, hfile, h⟩ := bind_eq_ok_iff.mp h
  obtain ⟨d₅, hbody, h⟩ := bind_eq_ok_iff.mp h
  obtain ⟨_, hid⟩ := of_assign hid
  obtain ⟨_, hcategory⟩ := of_assign hcategory
  obtain ⟨_, hfile⟩ := of_assign hfile
  obtain ⟨_, hbody⟩ := of_assign hbody
  have hitems : ∀ o ∈ e.occurrences,
      isLine o.file = true ∧ o.line.natAbs < 10 ^ Numeral.limit := fun o ho => by
    obtain ⟨_, _, ho⟩ := of_foldlM_eq_ok h ho
    exact o.of_enter ho
  have hplain : e.isPlain = true := by
    simp only [isPlain, Bool.and_eq_true, List.all_eq_true]
    exact ⟨⟨⟨⟨isLine_of_readLine hid, isLine_of_readLine hcategory⟩, isLine_of_readLine hfile⟩,
      isBody_of_readBody hbody⟩, fun o ho => (hitems o ho).1⟩
  exact ⟨hplain, fun o ho => (hitems o ho).2⟩

theorem Summary.of_enter {s : Summary} {d d' : Draft} (h : s.enter d = .ok d') :
    s.isPlain = true ∧ ∀ n ∈ s.numbers, n.natAbs < 10 ^ Numeral.limit := by
  obtain ⟨d₁, hset, h⟩ := bind_eq_ok_iff.mp h
  obtain ⟨d₂, hgenerated, h⟩ := bind_eq_ok_iff.mp h
  obtain ⟨d₃, hcount, h⟩ := bind_eq_ok_iff.mp h
  obtain ⟨_, hset⟩ := of_assign hset
  obtain ⟨_, hgenerated⟩ := of_assign hgenerated
  obtain ⟨_, hcount⟩ := of_assign hcount
  have hentries : ∀ e ∈ s.entries, e.isPlain = true ∧
      ∀ o ∈ e.occurrences, o.line.natAbs < 10 ^ Numeral.limit := fun e he => by
    obtain ⟨_, _, he⟩ := of_foldlM_eq_ok h he
    exact e.of_enter he
  constructor
  · simp only [isPlain, Bool.and_eq_true, List.all_eq_true]
    exact ⟨⟨isLine_of_readLine hset, isLine_of_readLine hgenerated⟩, fun e he => (hentries e he).1⟩
  · refine List.forall_mem_cons.mpr ⟨short_of_readInteger hcount, fun n hn => ?_⟩
    obtain ⟨e, he, hn⟩ := List.mem_flatMap.mp hn
    obtain ⟨o, ho, rfl⟩ := List.mem_map.mp hn
    exact (hentries e he).2 o ho

/-! ## Reading a summary -/

theorem Toml.no_return_append {a b : Text} (ha : '\r' ∉ a) (hb : '\r' ∉ b) : '\r' ∉ a ++ b :=
  fun h => (List.mem_append.mp h).elim ha hb

theorem Toml.no_return_quote (s : Text) : '\r' ∉ quote s := by
  intro h
  simp only [quote, List.cons_append, List.mem_cons, List.mem_append, List.mem_flatMap] at h
  rcases h with h | ⟨c, -, hc⟩ | h | h
  · exact absurd h (by decide)
  · unfold escaped at hc
    split_ifs at hc with h₁ h₂ h₃ h₄ h₅ <;>
      simp only [List.mem_cons, List.not_mem_nil, or_false] at hc
    · exact absurd hc (by decide)
    · exact absurd hc (by decide)
    · exact absurd hc (by decide)
    · exact absurd hc (by decide)
    · exact absurd hc (by decide)
    · exact h₄ hc.symm
  · exact absurd h (by decide)
  · cases h

theorem Toml.mem_of_mem_escapedBody {s : Text} {c : Char} (h : c ∈ escapedBody s) :
    c ∈ s ∨ c = '\\' ∨ c = '"' := by
  fun_induction escapedBody s with
  | case4 => cases h
  | _ => simp only [List.mem_cons] at h ⊢; tauto

theorem Toml.no_return_quoteLines {s : Text} (hs : '\r' ∉ s) : '\r' ∉ quoteLines s := by
  intro h
  simp only [quoteLines, List.mem_append] at h
  rcases h with (h | h) | h
  · exact absurd h (by decide)
  · rcases mem_of_mem_escapedBody h with h | h | h
    · exact hs h
    · exact absurd h (by decide)
    · exact absurd h (by decide)
  · exact absurd h (by decide)

theorem Toml.no_return_ofInt (n : Int) : '\r' ∉ Numeral.ofInt n := by
  have hdigits (k : Nat) : '\r' ∉ Numeral.ofNat k := fun h =>
    absurd (Numeral.isAsciiDigit_of_mem_ofNat h) (by decide)
  cases n with
  | ofNat k => exact hdigits k
  | negSucc k => exact List.not_mem_cons_of_ne_of_not_mem (by decide) (hdigits (k + 1))

theorem Toml.no_return_statementLine {k : String} {v : Text} (hk : '\r' ∉ k.toList)
    (hv : '\r' ∉ v) : '\r' ∉ statementLine k v := by
  have hequals : '\r' ∉ " = ".toList := by decide
  exact no_return_append (no_return_append (no_return_append hk hequals) hv) (by decide)

theorem Occurrence.no_return (o : Occurrence) : '\r' ∉ o.toml := by
  have hheader : '\r' ∉ "[[fragments.occurrences]]\n".toList := by decide
  have hfile := no_return_statementLine (k := "file") (by decide) (no_return_quote o.file)
  have hline := no_return_statementLine (k := "line") (by decide) (no_return_ofInt o.line)
  exact no_return_append (no_return_append hheader hfile) hline

theorem Entry.no_return {e : Entry} (h : '\r' ∉ e.body) : '\r' ∉ e.toml := by
  have hheader : '\r' ∉ "[[fragments]]\n".toList := by decide
  have hid := no_return_statementLine (k := "id") (by decide) (no_return_quote e.id)
  have hcategory := no_return_statementLine (k := "category") (by decide)
    (no_return_quote e.category)
  have hfile := no_return_statementLine (k := "file") (by decide) (no_return_quote e.relativePath)
  have hbody := no_return_statementLine (k := "content") (by decide) (no_return_quoteLines h)
  have hitems : '\r' ∉ e.occurrences.flatMap Occurrence.toml := fun h => by
    obtain ⟨o, -, ho⟩ := List.mem_flatMap.mp h
    exact o.no_return ho
  exact no_return_append (no_return_append (no_return_append (no_return_append (no_return_append
    (no_return_append hheader hid) hcategory) hfile) hbody) hitems) (by decide)

theorem Summary.no_return {s : Summary} (h : ∀ e ∈ s.entries, '\r' ∉ e.body) : '\r' ∉ s.toml := by
  have hset := no_return_statementLine (k := "set") (by decide) (no_return_quote s.set)
  have hgenerated := no_return_statementLine (k := "generated") (by decide)
    (no_return_quote s.generated)
  have hcount : '\r' ∉ statementLine "count" (Numeral.ofNat s.entries.length) :=
    no_return_statementLine (by decide) (no_return_ofInt s.entries.length)
  have hentries : '\r' ∉ s.entries.flatMap Entry.toml := fun hmem => by
    obtain ⟨e, he, hmem⟩ := List.mem_flatMap.mp hmem
    exact e.no_return (h e he) hmem
  exact no_return_append (no_return_append (no_return_append (no_return_append hset hgenerated)
    hcount) (by decide)) hentries

theorem Summary.read_eq_ok_iff {s : Summary} (h : ∀ e ∈ s.entries, '\r' ∉ e.body)
    {t : Toml.Table} : Toml.read s.toml = .ok t ↔
      s.isPlain = true ∧ (∀ n ∈ s.numbers, n.natAbs < 10 ^ Numeral.limit) ∧ t = s.table := by
  rw [read_of_means s.means (s.no_return h)]
  constructor
  · intro hread
    cases hd : s.enter {} with
    | error e => rw [hd] at hread; cases hread
    | ok d =>
      obtain ⟨hplain, hshort⟩ := Summary.of_enter hd
      obtain ⟨d', hd', ht⟩ := s.enter_ok hplain hshort
      rw [hd'] at hread
      exact ⟨hplain, hshort, by rw [← ht]; exact (Except.ok.inj hread).symm⟩
  · rintro ⟨hplain, hshort, rfl⟩
    obtain ⟨d, hd, ht⟩ := s.enter_ok hplain hshort
    rw [hd, ← ht]
    rfl

theorem Toml.no_return_of_isBody {s : Text} (h : isBody s = true) : '\r' ∉ s := fun hmem => by
  have := List.all_eq_true.mp h _ hmem
  exact absurd this (by decide)

/-- A summary with plain strings, whatever marks, backslashes and line feeds stand in them, is read
back as what it says, unless one of its numbers has no decimal text at all. -/
theorem Summary.toml_reads_back {s : Summary} (h : s.isPlain = true) :
    Toml.read s.toml = .ok s.table ↔ ∀ n ∈ s.numbers, (Numeral.ofInt? n).isSome = true := by
  have hreturn : ∀ e ∈ s.entries, '\r' ∉ e.body := fun e he => by
    simp only [isPlain, Bool.and_eq_true, List.all_eq_true] at h
    have hentry := h.2 e he
    simp only [Entry.isPlain, Bool.and_eq_true] at hentry
    exact no_return_of_isBody hentry.1.2
  simp only [read_eq_ok_iff hreturn, h, Numeral.ofInt?_isSome_iff, true_and, and_true]

/-- A body that starts with a line feed, has three marks and a backslash in it and ends with two
marks. -/
def markedSummary : Summary where
  set := "a \\ \"b\"".toList
  generated := "2024-01-02T03:04:05.006Z".toList
  entries := [
    { id := "7".toList
      category := "NO\tTE".toList
      path := ⟨1, ["ws".toList, "7.md".toList]⟩
      relativePath := "7.md".toList
      body := "\n\"\"\"\"\\\t\\\n\"\"".toList
      occurrences := [
        { path := ⟨1, ["ws".toList, "\"".toList]⟩
          file := "\"".toList
          line := 3
          id := "7".toList }] },
    { id := "8".toList
      category := []
      path := ⟨1, ["ws".toList, "8.md".toList]⟩
      relativePath := "8.md".toList
      body := "\"".toList }]

theorem markedSummary_reads_back : markedSummary.isPlain = true ∧
    Toml.read markedSummary.toml = .ok markedSummary.table :=
  ⟨by decide +kernel, (Summary.toml_reads_back (by decide +kernel)).mpr (by decide +kernel)⟩

end Marginalia
