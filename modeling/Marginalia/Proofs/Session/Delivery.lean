import Marginalia.Proofs.Marker.Behind
import Marginalia.Proofs.Session.Usable

/-!
# When a change is delivered

The session hears of a change before the document shows it, or after. Which of the two it was is
guessed from one character of the line, and still the marker that is found is the one behind which
the user typed (`activates_late`, `activates_early`). A binding gives the token its canonical form
and takes out one character behind it when an underscore was typed (`bindFrom_rewrites`). That
character is the underscore if the document shows it, and the text around the token stays
(`handleChange_keeps_text`). An underscore that is not shown yet costs the character that follows
the marker (`underscore_takes_next`).
-/

namespace Marginalia.Session

/-- When the session hears of a change: before the document shows it, or after. -/
inductive Delivery where
  | early
  | late
  deriving DecidableEq, Repr

namespace Delivery

variable (w : Delivery) (old t : Text) (c : Change)

/-- What the document shows of a line that was `old` before the change. -/
def shown : Text :=
  match w with
  | .early => old
  | .late => Text.before old c.column ++ c.text ++ Text.after old c.column

/-- The space that was typed, if the document shows it. -/
def space : Text := if w = .late ∧ t = [' '] then [' '] else []

/-- Whether an underscore that is not shown yet was typed in front of a character. -/
def TakesNext : Prop := w = .early ∧ c.text = ['_'] ∧ c.column < old.length

instance : Decidable (w.TakesNext old c) := inferInstanceAs (Decidable (_ ∧ _ ∧ _))

theorem space_early : early.space t = [] := by simp [space]

theorem space_late : late.space t = if t = [' '] then [' '] else [] := by simp [space]

end Delivery

/-- What a run leaves that gave a line its text: the other lines are as they were, and if the run
binds a marker, it tells the id and the line. -/
structure Rewritten (line : Int) (text id : Text) (d d' : Desk) (r : Except Fault (Option Bound)) :
    Prop where
  lines : ∃ k, Document.index? d.document.lines.length line = some k ∧
    d'.document.lines = d.document.lines.set k text
  result : ∀ b, r = .ok (some b) → b.id = id ∧ b.line = text

variable {s : Session} {now : Int} {d d' : Desk} {c : Change} {r : Except Fault (Option Bound)}
  {w : Delivery} {old : Text} {m : Marker}

/-! ## What is rewritten -/

/-- A binding leaves the document alone, or the token gets its canonical form and so many characters
behind it are taken out. -/
theorem bindFrom_rewrites {line : Int} {consumed : Nat} {text : Text}
    (htext : d.document.lineText line = .ok text) (hm : Marker.scan line old = some m)
    (h : (s.bindFrom now line consumed (some old)).run d = (r, d')) :
    (d'.document = d.document ∧ ∀ b, r ≠ .ok (some b)) ∨
      ∃ id u, s.allocate.run d.tree = (.ok id, u) ∧
        Rewritten line (text.take m.start ++ (Marker.canonicalText m.token id ++
          text.drop (m.stop + consumed))) id d d' r := by
  rcases bindFrom_applied h with hsame |
    ⟨text', m', id, u, made, bound, htext', hm', -, hid, hedit, -, hbound, hresult⟩
  · exact .inl hsame
  cases htext.symm.trans htext'
  cases hm.symm.trans hm'
  obtain ⟨text', k, htext', hk, hlines⟩ := Document.lines_of_apply hedit
  cases htext.symm.trans htext'
  have hafter : Text.after text (min (text.length : Int) (m.stop + consumed)) =
      text.drop (m.stop + consumed) := Text.after_min_length text _
  simp only [Text.before_of_nat, hafter, List.append_assoc] at hlines
  cases (Document.lineText_set hk _ hlines _ rfl).symm.trans hbound
  refine .inr ⟨id, u, hid, ⟨k, hk, hlines⟩, fun b hb => ?_⟩
  cases made with
  | error f => cases hresult.symm.trans hb
  | ok made =>
    cases hresult.symm.trans hb
    exact ⟨rfl, rfl⟩

/-! ## The marker that is found -/

/-- In a line that shows what was typed the marker of the line before is found. -/
theorem activates_late {i : Int}
    (h : Activates i (lineBefore (Delivery.late.shown old c) c) c.column c.text m) :
    Activates i old c.column c.text m ∧
      Delivery.late.shown old c = old.take m.stop ++ (c.text ++ old.drop m.stop) := by
  obtain ⟨ch, hch⟩ := single_of_trigger h.trigger
  have hold : Activates i old c.column c.text m := by
    by_cases hc : 0 ≤ c.column ∧ c.column ≤ old.length
    · obtain ⟨k, hk⟩ := Int.eq_ofNat_of_zero_le hc.1
      have hbefore : lineBefore (Delivery.late.shown old c) c = old := by
        simp only [Delivery.shown, hk, hch]
        exact lineBefore_typed (by omega) ch hk hch
      rwa [hbefore] at h
    · rw [Delivery.shown, hch] at h
      exact absurd h (not_activates_beyond (by omega) (hch ▸ h.trigger) rfl hch m)
  exact ⟨hold, (split_typed hold).2.2⟩

/-- In the line before the typing the user's marker is found, and up to its end also when an
underscore that stands there is taken for the typed one. -/
theorem activates_early {i : Int} (h : Activates i (lineBefore old c) c.column c.text m) :
    Activates i (old.take m.stop) c.column c.text m ∧
      (¬ Delivery.early.TakesNext old c → Activates i old c.column c.text m) := by
  have htake := Marker.scan_take_stop h.scanned h.unbound
  rcases shown_of_activates h with hsame | hshown
  · rw [hsame] at h htake
    exact ⟨{ h with scanned := htake }, fun _ => h⟩
  · have hlen : ((lineBefore old c).take m.stop).length = m.stop :=
      List.length_take_of_le (Marker.scan_split h.scanned).2.2
    have hsame : old.take m.stop = (lineBefore old c).take m.stop := by
      conv_lhs => rw [hshown]
      exact List.take_left' hlen
    refine ⟨{ h with scanned := by rw [hsame]; exact htake }, fun hnot => ?_⟩
    rcases h.trigger with ht | ht
    · -- the space that stands there leaves the marker as it is without it
      have hspaced := Marker.scan_spaced h.scanned h.unbound
      rw [ht] at hshown
      exact { h with scanned := by rw [hshown]; exact hspaced }
    · have hlong : m.stop < old.length := by
        rw [hshown, ht, List.length_append, hlen]
        simp
      exact absurd ⟨rfl, ht, by rw [h.column]; omega⟩ hnot

/-- What is kept behind the marker, unless an underscore comes too early. -/
theorem drop_early {i : Int} (h : Activates i old c.column c.text m)
    (hnot : ¬ Delivery.early.TakesNext old c) :
    old.drop (m.stop + if c.text = ['_'] then 1 else 0) = old.drop m.stop := by
  split
  · next ht =>
    have hle : old.length ≤ m.stop := by
      by_contra hlt
      exact hnot ⟨rfl, ht, by rw [h.column]; omega⟩
    rw [List.drop_of_length_le hle, List.drop_of_length_le (by omega)]
  · rfl

/-! ## The text that is kept -/

/-- A change that binds a marker, whether the document shows it already or not, puts the canonical
form with the id that was handed out in place of the token in the line before the change, and leaves
the text in front of it, the text behind it and a space that was shown. An underscore that is not
shown yet is the exception: where it was typed in front of another character, this one is gone. -/
theorem handleChange_keeps_text (hline : d.document.lineText c.line = .ok (w.shown old c))
    (h : (s.handleChange now c).run d = (r, d')) :
    (d'.document = d.document ∧ ∀ b, r ≠ .ok (some b)) ∨
      ∃ id u m, s.allocate.run d.tree = (.ok id, u) ∧
        (¬ w.TakesNext old c → Activates c.line old c.column c.text m ∧
          Rewritten c.line (old.take m.start ++ (Marker.canonicalText m.token id ++
            (w.space c.text ++ old.drop m.stop))) id d d' r) ∧
        (w.TakesNext old c → Activates c.line (old.take m.stop) c.column c.text m ∧
          Rewritten c.line (old.take m.start ++ (Marker.canonicalText m.token id ++
            old.drop (m.stop + 1))) id d d' r) := by
  rcases handleChange_asks h with ⟨rfl, hnone⟩ | ⟨hshould, text, htext, hrun⟩
  · exact .inl ⟨rfl, hnone⟩
  obtain ⟨m, hm⟩ := activates_of_shouldHandle hshould htext
  rcases bindFrom_rewrites htext hm.scanned hrun with hsame | ⟨id, u, hid, hedited⟩
  · exact .inl hsame
  cases hline.symm.trans htext
  refine .inr ⟨id, u, m, hid, ?_⟩
  cases w with
  | early =>
    simp only [Delivery.shown] at hm hedited
    obtain ⟨htaken, hold⟩ := activates_early hm
    refine ⟨fun hnot => ⟨hold hnot, ?_⟩, fun hover => ⟨htaken, ?_⟩⟩
    · rw [Delivery.space_early, List.nil_append, ← drop_early (hold hnot) hnot]
      exact hedited
    · rw [if_pos hover.2.1] at hedited
      exact hedited
  | late =>
    obtain ⟨hold, hshown⟩ := activates_late hm
    obtain ⟨-, -, hstop⟩ := Marker.scan_split hold.scanned
    refine ⟨fun _ => ⟨hold, ?_⟩, fun hover => nomatch hover.1⟩
    rw [hshown, take_typed hstop, drop_typed hstop hold.trigger, ← Delivery.space_late] at hedited
    exact hedited

/-- A document with a marker between code and other text, in a workspace with a cursor. -/
def dashed : Desk :=
  { oneMarker 7 with document := { lines := [['x'], "f() // codemeta-x".toList] } }

theorem handleChange_keeps_text_dashed :
    ∃ b d', (handleChange { root := some { slashes := 1 } } 0
        { line := -1, column := 15, text := [' '] }).run dashed = (.ok (some b), d') ∧
      dashed.document.lineText (-1) = .ok "f() // codemeta-x".toList ∧
      b.line = "f() // codemeta[7]-x".toList ∧ d'.document.lines = [['x'], b.line] := by
  let c : Change := { line := -1, column := 15, text := [' '] }
  have hline : dashed.document.lineText c.line =
      .ok (Delivery.early.shown "f() // codemeta-x".toList c) := by decide +kernel
  have hrun : (handleChange { root := some { slashes := 1 } } 0 c).run dashed =
      (.ok (some ⟨['7'], { slashes := 1, parts := [".cms".toList, "default".toList, "7.md".toList] },
        true, "f() // codemeta[7]-x".toList⟩), _) := Work.run_eq_of_fst (by decide +kernel)
  rcases handleChange_keeps_text hline hrun with ⟨-, hnone⟩ | ⟨id, u, m, -, hkeeps, -⟩
  · exact absurd rfl (hnone _)
  · obtain ⟨-, ⟨k, hk, hlines⟩, hresult⟩ := hkeeps (by decide)
    obtain ⟨-, hshown⟩ := hresult _ rfl
    have hlast : some 1 = some k := hk
    cases hlast
    refine ⟨_, _, hrun, hline, rfl, ?_⟩
    rw [hlines, ← hshown]
    rfl

/-- An underscore that is not shown yet takes the character behind the marker with it. -/
theorem underscore_takes_next :
    ∃ (s : Session) (d d' : Desk) (c : Change) (m : Marker) (b : Bound), c.reason = .typing ∧
      d.document.lineText c.line = .ok (Delivery.early.shown "//codemeta x".toList c) ∧
      Activates c.line "//codemeta x".toList c.column c.text m ∧
      (s.handleChange 0 c).run d = (.ok (some b), d') ∧ b.line = "//codemeta[0]x".toList ∧
      b.line ≠ "//codemeta x".toList.take m.start ++ (Marker.canonicalText m.token b.id ++
        (Delivery.early.space c.text ++ "//codemeta x".toList.drop m.stop)) := by
  let s : Session := { root := some { slashes := 1, parts := [['w']] } }
  let d : Desk :=
    { tree := ⟨[([['w']], .folder)]⟩
      document := { lines := ["//codemeta x".toList] } }
  let c : Change := { line := 0, column := 10, text := ['_'] }
  let m : Marker := ⟨0, 0, ⟨['/', '/'], [], .full⟩, none⟩
  have hrun : (s.handleChange 0 c).run d =
      (.ok (some ⟨['0'], { slashes := 1, parts := [['w'], ".cms".toList, "default".toList,
        "0.md".toList] }, true, "//codemeta[0]x".toList⟩), _) :=
    Work.run_eq_of_fst (by decide +kernel)
  exact ⟨s, d, _, c, m, _, rfl, by decide, ⟨.inr rfl, by decide, rfl, by decide⟩, hrun, rfl,
    by decide⟩

end Marginalia.Session
