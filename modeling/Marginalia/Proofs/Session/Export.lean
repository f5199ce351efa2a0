import Marginalia.Proofs.Session.Listing
import Marginalia.Proofs.Summary.Toml

/-!
# Summary files in TOML

A summary file in TOML is a document that can be read exactly when the strings of the summary are
plain (`summarize_toml`): control characters of fragments and file names are written as they are,
which TOML does not allow (`control_character_unreadable`).
-/

namespace Marginalia

namespace Session

variable {s : Session} {t t' : Tree} {now : Int} {set : Option Text}

/-- A body is part of a text that was read, which has no carriage returns. -/
theorem no_return_of_summary (hw : t.WellFormed) {sm : Summary}
    (h : (s.summary now set).run t = (.ok sm, t')) {e : Entry} (he : e ∈ sm.entries) :
    '\r' ∉ e.body := by
  obtain ⟨-, -, hentries⟩ := summary_spec hw h
  obtain ⟨folder, found, -, -, hentries⟩ := hentries sm rfl
  obtain ⟨f, -, hentry⟩ := of_mem_mapM hentries he
  obtain ⟨-, -, hread, hunread⟩ := entry_eq_ok hentry
  by_cases hpage : ∃ page, readPage t' e.path = .ok page
  · obtain ⟨page, hpage⟩ := hpage
    rw [(hread page hpage).2]
    exact no_return_of_readPage hpage
  · rw [(hunread fun page hp => hpage ⟨page, hp⟩).2]
    exact List.not_mem_nil

/-- A summary file in TOML, once it is written, is a document exactly when no string of the summary
has a control character that is written as it is and no number has too many digits. -/
theorem summarize_toml (hw : t.WellFormed) {p : Path}
    (h : (s.summarize now set .toml).run t = (.ok p, t')) :
    ∃ sm t₁ l, (s.summary now set).run t = (.ok sm, t₁) ∧ t'.resolve p = .ok l ∧
      t'.node? l = some (.file (.text sm.toml)) ∧
      ((∃ table, Toml.read sm.toml = .ok table) ↔
        sm.isPlain = true ∧ ∀ n ∈ sm.numbers, (Numeral.ofInt? n).isSome = true) := by
  rcases summarize_cases h with
    ⟨f, hr, -⟩ | ⟨sm, t₁, text, folder, l, hsum, htext, -, hr, hl, hfile, rfl⟩
  · cases hr
  cases hr
  cases htext
  have hne : l ≠ [] := fun e => hfile (by rw [e]; rfl)
  refine ⟨sm, t₁, l, hsum, (Tree.foldersStay_insert t₁ _ hfile).resolve hl,
    Tree.node?_insert_self t₁ hne _, ?_⟩
  simp only [Summary.read_eq_ok_iff fun e he => no_return_of_summary hw hsum he,
    Numeral.ofInt?_isSome_iff]
  exact ⟨fun ⟨_, hplain, hshort, _⟩ => ⟨hplain, hshort⟩,
    fun ⟨hplain, hshort⟩ => ⟨_, hplain, hshort, rfl⟩⟩

/-- A record with marks and a backslash in its body. -/
def markedRecord : Tree :=
  ⟨[([".cms".toList], .folder), ([".cms".toList, "default".toList], .folder),
    ([".cms".toList, "default".toList, "5.md".toList], .file (.text "\"\"\"\\\"".toList))]⟩

theorem summarize_toml_marked :
    ∃ (u : Tree) (sm : Summary), markedRecord.WellFormed ∧
      (summarize { root := some { slashes := 1 } } 0 none .toml).run markedRecord =
        (.ok { slashes := 1, parts := [".cms".toList, "default".toList,
          "SUMMARY.toml".toList] }, u) ∧
      (∃ l, u.node? l = some (.file (.text sm.toml))) ∧ ∃ table, Toml.read sm.toml = .ok table := by
  have hw : markedRecord.WellFormed := by decide
  have hrun := Work.run_eq_of_fst (x := summarize { root := some { slashes := 1 } } 0 none .toml)
    (t := markedRecord) (r := .ok { slashes := 1, parts := [".cms".toList, "default".toList,
      "SUMMARY.toml".toList] }) (by decide +kernel)
  obtain ⟨sm, t₁, l, hsum, -, hfile, hread⟩ := summarize_toml hw hrun
  have hplain : ((summary { root := some { slashes := 1 } } 0 none).run markedRecord).1.toOption.map
      (fun sm => sm.isPlain && sm.numbers.all fun n => (Numeral.ofInt? n).isSome) = some true := by
    decide +kernel
  rw [hsum] at hplain
  have hplain := Option.some.inj hplain
  rw [Bool.and_eq_true, List.all_eq_true] at hplain
  exact ⟨_, sm, hw, hrun, ⟨l, hfile⟩, hread.mpr hplain⟩

/-- A record with a control character in its body, and the summary file that is written. -/
def bellRecord : Tree :=
  ⟨[([".cms".toList], .folder), ([".cms".toList, "default".toList], .folder),
    ([".cms".toList, "default".toList, "5.md".toList], .file (.text ['\x07']))]⟩

def bellDocument : Text :=
  "set = \"default\"\ngenerated = \"1970-01-01T00:00:00.000Z\"\ncount = 1\n\n".toList ++
    "[[fragments]]\nid = \"5\"\ncategory = \"INFO\"\nfile = \".cms/default/5.md\"\n".toList ++
    "content = \"\"\"\n\x07\"\"\"\n\n".toList

theorem control_character_unreadable :
    ∃ u, bellRecord.WellFormed ∧ (summarize { root := some { slashes := 1 } } 0 none .toml).run
        bellRecord = (.ok { slashes := 1, parts := [".cms".toList, "default".toList,
          "SUMMARY.toml".toList] }, u) ∧
      u.readText { slashes := 1, parts := [".cms".toList, "default".toList,
        "SUMMARY.toml".toList] } = .ok bellDocument ∧ (Toml.read bellDocument).isOk = false :=
  ⟨_, by decide, Work.run_eq_of_fst (by decide +kernel), by decide +kernel, by decide +kernel⟩

end Session

end Marginalia
