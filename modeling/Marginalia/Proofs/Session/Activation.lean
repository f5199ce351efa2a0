import Marginalia.Proofs.Marker.Canonical
import Marginalia.Proofs.Session.Binding
import Marginalia.Proofs.Session.Layout

/-!
# Binding by typing

Typing a space or an underscore at the end of an unbound marker binds it, and nothing else does
(`handleChange_type`). The line before the typing is found again in the line after it
(`lineBefore_typed`), the edit puts the canonical form in place of the token, and what stands there
afterwards is bound, so that the same change and the edit's own notice bind nothing more.
-/

namespace Marginalia.Session

/-- When typing a text at a column of a line is to bind a marker. -/
structure Activates (i : Int) (old : Text) (c : Int) (t : Text) (m : Marker) : Prop where
  trigger : t = [' '] ∨ t = ['_']
  scanned : Marker.scan i old = some m
  unbound : m.binding = none
  column : c = m.stop

/-- The line with its marker bound. A space that was typed stays. -/
def boundLine (old t : Text) (m : Marker) (id : Text) : Text :=
  old.take m.start ++
    (m.token.opener ++ m.token.gap ++ "codemeta[".toList ++ id ++ [']'] ++
      ((if t = [' '] then [' '] else []) ++ old.drop m.stop))

/-! ## The line before the typing -/

theorem isTrigger_iff {t : Text} : Marker.isTrigger t = true ↔ t = [' '] ∨ t = ['_'] := by
  simp [Marker.isTrigger]

theorem single_of_trigger {t : Text} (h : t = [' '] ∨ t = ['_']) : ∃ ch, t = [ch] := by
  rcases h with rfl | rfl
  · exact ⟨' ', rfl⟩
  · exact ⟨'_', rfl⟩

theorem scan_line (i j : Int) (line : Text) :
    Marker.scan j line = (Marker.scan i line).map fun m => { m with line := j } := by
  simp [Marker.scan, Marker.scanBy, Option.map_map, Function.comp_def]

theorem isActivation_iff {i : Int} {line : Text} {c : Int} {t : Text} :
    Marker.isActivation line c t = true ↔ ∃ m, Activates i line c t m := by
  rw [Marker.isActivation, Bool.and_eq_true, isTrigger_iff, scan_line i 0]
  constructor
  · rintro ⟨ht, h⟩
    cases hs : Marker.scan i line with
    | none => rw [hs] at h; cases h
    | some m =>
      simp only [hs, Option.map_some, Option.any_some, Bool.and_eq_true, Marker.isBound,
        Bool.not_eq_true', Option.isSome_eq_false_iff, Option.isNone_iff_eq_none,
        beq_iff_eq] at h
      exact ⟨m, ht, hs, h.1, h.2⟩
  · rintro ⟨m, ht, hs, hb, hc⟩
    refine ⟨ht, ?_⟩
    simp only [hs, Option.map_some, Option.any_some, Marker.isBound, hb, Bool.and_eq_true]
    exact ⟨rfl, by simpa [Marker.stop] using hc⟩

/-- At a column of the line what was typed is taken out again. -/
theorem lineBefore_typed {old : Text} {k : Nat} (hk : k ≤ old.length) (ch : Char) {e : Change}
    (hcol : e.column = k) (htext : e.text = [ch]) :
    lineBefore (Text.before old k ++ [ch] ++ Text.after old k) e = old := by
  have hlen : (old.take k).length = k := by simp [hk]
  have hbefore : Text.before (old.take k ++ ch :: old.drop k) k = old.take k := by
    rw [Text.before_of_nat, List.take_left' hlen]
  have hafter : Text.after (old.take k ++ ch :: old.drop k) (k + 1 : Nat) = old.drop k := by
    rw [Text.after_of_nat, List.drop_append]
    simp [hk]
  rw [Text.before_of_nat, Text.after_of_nat, List.append_assoc, List.singleton_append,
    lineBefore, hcol, htext, Text.between_one _ _ _ (by rw [hlen]), if_pos rfl, hbefore]
  have hcast : ((k + 1 : Nat) : Int) = k + 1 := by omega
  rw [hcast] at hafter
  rw [hafter, List.take_append_drop]

/-- Where a marker is bound the line was not changed yet, or it shows what was typed. -/
theorem shown_of_activates {i : Int} {text : Text} {e : Change} {m : Marker}
    (h : Activates i (lineBefore text e) e.column e.text m) : lineBefore text e = text ∨
      text = (lineBefore text e).take m.stop ++ (e.text ++ (lineBefore text e).drop m.stop) := by
  by_cases hshown : Text.between text e.column (e.column + 1) = e.text
  · right
    have hlt : m.stop < text.length := by
      by_contra hle
      rw [h.column, Text.between_beyond (by omega)] at hshown
      rcases h.trigger with ht | ht <;> rw [ht] at hshown <;> cases hshown
    have hlen : (text.take m.stop).length = m.stop := by simp; omega
    obtain ⟨ch, hsplit⟩ : ∃ ch, text = text.take m.stop ++ ch :: text.drop (m.stop + 1) :=
      ⟨text[m.stop], by rw [← List.drop_eq_getElem_cons hlt, List.take_append_drop]⟩
    have hch : e.text = [ch] := by
      rw [← hshown, h.column]
      conv_lhs => rw [hsplit]
      exact Text.between_one _ _ _ (by rw [hlen])
    have hbefore : lineBefore text e = text.take m.stop ++ text.drop (m.stop + 1) := by
      have hcast : (m.stop : Int) + 1 = (m.stop + 1 : Nat) := rfl
      rw [lineBefore, if_pos hshown, h.column, hcast, Text.before_of_nat, Text.after_of_nat]
    rw [hbefore, List.take_left' hlen, List.drop_left' hlen, hch]
    exact hsplit
  · exact .inl (if_neg hshown)

/-- A keyword ends in a letter. -/
theorem getLast?_token (t : Token) : ∃ c, t.text.getLast? = some c ∧ isAsciiLetter c = true := by
  obtain ⟨o, g, k⟩ := t
  cases k
  · exact ⟨'a', by simp [Token.text, Keyword.text, List.getLast?_append], by decide⟩
  · exact ⟨'m', by simp [Token.text, Keyword.text, List.getLast?_append], by decide⟩

/-- Beyond the line nothing is found to be typed, and no marker ends there. -/
theorem not_activates_beyond {i : Int} {old : Text} {c : Int} {ch : Char} {e : Change}
    (hc : c < 0 ∨ old.length < c) (hch : [ch] = [' '] ∨ [ch] = ['_']) (hcol : e.column = c)
    (htext : e.text = [ch]) (m : Marker) :
    ¬ Activates i (lineBefore (Text.before old c ++ [ch] ++ Text.after old c) e) c [ch] m := by
  intro h
  have hstop := h.column
  rcases hc with hc | hc
  · omega
  · have hcut : Text.cut old.length c = old.length := by unfold Text.cut; split <;> omega
    have htyped : Text.before old c ++ [ch] ++ Text.after old c = old ++ [ch] := by
      simp [Text.before, Text.after, hcut]
    have hbefore : lineBefore (old ++ [ch]) e = old ++ [ch] := by
      rw [lineBefore, hcol, Text.between_beyond (by simp; omega), htext, if_neg (by simp)]
    rw [htyped, hbefore] at h
    obtain ⟨hsplit, -, hle⟩ := Marker.scan_split h.scanned
    rw [List.length_append, List.length_singleton] at hle
    have hend : (old ++ [ch]).drop m.stop = [] := by
      rw [List.drop_eq_nil_iff, List.length_append, List.length_singleton]
      omega
    rw [hend, List.append_nil] at hsplit
    have hlast := congrArg List.getLast? hsplit
    obtain ⟨d, hd, hletter⟩ := getLast?_token m.token
    rw [List.getLast?_concat, List.getLast?_append, hd] at hlast
    obtain rfl : ch = d := by simpa using hlast
    rcases hch with e | e
    · rw [List.singleton_inj.mp e] at hletter
      exact absurd hletter (by decide)
    · rw [List.singleton_inj.mp e] at hletter
      exact absurd hletter (by decide)

/-! ## What asks for a binding -/

theorem shouldHandle_of_trigger {s : Session} (hobs : s.observing = true) {d : Document}
    {e : Change} {line : Text} (hreason : e.reason = .typing)
    (ht : Marker.isTrigger e.text = true) (hline : d.lineText e.line = .ok line) :
    s.shouldHandle d e = .ok (Marker.isActivation (lineBefore line e) e.column e.text) := by
  simp [shouldHandle, hobs, hreason, ht, hline, Except.map]

theorem shouldHandle_of_no_trigger (s : Session) (d : Document) {e : Change}
    (h : e.reason = .undo ∨ e.reason = .redo ∨ Marker.isTrigger e.text = false) :
    s.shouldHandle d e = .ok false := by
  rcases h with h | h | h <;> simp [shouldHandle, h]

/-! ## Binding by typing -/

/-- What a binding by typing leaves of a desk as it was before the typing. -/
structure BoundOnce (s : Session) (home : Path) (d d' : Desk) (e : Change) (old : Text) (m : Marker)
    (b : Bound) : Prop where
  number : ∃ n, n < 10 ^ maxIdLength ∧ b.id = Numeral.ofNat n
  lines : ∃ k, Document.index? d.document.lines.length e.line = some k ∧
    d'.document.lines = d.document.lines.set k (boundLine old e.text m b.id)
  edits : ∃ edit, edit.line = e.line ∧ d'.document.edits = d.document.edits ++ [edit]
  line : b.line = boundLine old e.text m b.id
  scans : ∃ rest, Marker.scan e.line (boundLine old e.text m b.id) = some (m.bound b.id rest)
  path : b.path = (home.child s.activeSet).fragment b.id
  record : ∃ c, d'.tree.node? (recordPlace home s.activeSet b.id) = some (.file c)
  /-- Neither the same change nor the one that the edit gives notice of binds more. -/
  again : ∀ now e', e' = e ∨ (∃ n ∈ d'.document.notices.getLast?, e' = n.change) →
    (s.handleChange now e').run d' = (.ok none, d')

theorem boundLine_eq (old t : Text) (m : Marker) (id : Text) :
    boundLine old t m id = old.take m.start ++ (Marker.canonicalText m.token id ++
      ((if t = [' '] then [' '] else []) ++ old.drop m.stop)) := by
  have hopen : "codemeta[".toList = Keyword.full.text ++ ['['] := rfl
  simp [boundLine, Marker.canonicalText, hopen]

theorem take_typed {old : Text} {m : Marker} (hstop : m.stop ≤ old.length) (t : Text) :
    (old.take m.stop ++ (t ++ old.drop m.stop)).take m.start = old.take m.start := by
  have hle : m.start ≤ m.stop := Nat.le_add_right _ _
  rw [List.take_append_of_le_length (by simp; omega), List.take_take, Nat.min_eq_left hle]

/-- Of what was typed behind a token an edit takes the underscore and leaves the space. -/
theorem drop_typed {old t : Text} {m : Marker} (hstop : m.stop ≤ old.length)
    (ht : t = [' '] ∨ t = ['_']) :
    (old.take m.stop ++ (t ++ old.drop m.stop)).drop (m.stop + if t = ['_'] then 1 else 0) =
      (if t = [' '] then [' '] else []) ++ old.drop m.stop := by
  have hlen : (old.take m.stop).length = m.stop := List.length_take_of_le hstop
  rw [← List.drop_drop, List.drop_left' hlen]
  rcases ht with rfl | rfl <;> rfl

/-- What the edit puts in place of the token and of an underscore typed after it. -/
theorem edited_typed {old t : Text} {m : Marker} (hstop : m.stop ≤ old.length)
    (ht : t = [' '] ∨ t = ['_']) (id : Text) :
    let typed := old.take m.stop ++ (t ++ old.drop m.stop)
    let stop := min (typed.length : Int) (m.stop + ((if t = ['_'] then 1 else 0 : Nat) : Int))
    (m.start : Int) ≤ stop ∧ stop ≤ typed.length ∧
      Text.before typed m.start ++ Marker.canonicalText m.token id ++ Text.after typed stop =
        boundLine old t m id := by
  intro typed stop
  have hle : m.start ≤ m.stop := Nat.le_add_right _ _
  have htyped : m.stop ≤ typed.length := by simp [typed]; omega
  refine ⟨by omega, Int.min_le_left _ _, ?_⟩
  have hafter : Text.after typed stop = (if t = [' '] then [' '] else []) ++ old.drop m.stop := by
    rw [← drop_typed hstop ht]
    exact Text.after_min_length typed _
  rw [boundLine_eq, Text.before_of_nat, take_typed hstop, hafter, List.append_assoc]

/-- Where the marker ended stands a letter of the keyword or the bracket, not what was typed. -/
theorem boundLine_at_stop {i : Int} {old : Text} {m : Marker} (hm : Marker.scan i old = some m)
    (t id : Text) : ∃ p ch q, boundLine old t m id = p ++ ch :: q ∧ p.length = m.stop ∧
      ch ≠ ' ' ∧ ch ≠ '_' := by
  obtain ⟨-, hstart, -⟩ := Marker.scan_split hm
  obtain ⟨-, hsp⟩ := Marker.opener_mem hm
  have hlen : (old.take m.start).length = m.start := by simp [hstart]
  cases hk : m.token.keyword with
  | full =>
    refine ⟨old.take m.start ++ (m.token.opener ++ (m.token.gap ++ Keyword.full.text)), '[',
      id ++ [']'] ++ ((if t = [' '] then [' '] else []) ++ old.drop m.stop), ?_, ?_, by decide,
      by decide⟩
    · rw [boundLine_eq, Marker.canonicalText_eq]
      simp
    · rw [List.length_append, hlen, Marker.stop, Token.text, hk]
      simp
  | short =>
    have hgap : m.token.gap = [] := by
      unfold Token.Spaced at hsp
      rw [hk] at hsp
      exact hsp
    refine ⟨old.take m.start ++ (m.token.opener ++ ['c', 'o']), 'd',
      ['e', 'm', 'e', 't', 'a', '['] ++ (id ++ [']']) ++
        ((if t = [' '] then [' '] else []) ++ old.drop m.stop), ?_, ?_, by decide, by decide⟩
    · rw [boundLine_eq, Marker.canonicalText_eq, hgap]
      simp [Keyword.text]
    · rw [List.length_append, hlen, Marker.stop, Token.text, hk, hgap]
      simp [Keyword.text]

theorem not_trigger_canonicalText (t : Token) (id : Text) :
    Marker.isTrigger (Marker.canonicalText t id) = false := by
  cases h : Marker.isTrigger (Marker.canonicalText t id) with
  | false => rfl
  | true =>
    have hlen : (Marker.canonicalText t id).length = 1 := by
      rcases isTrigger_iff.mp h with e | e <;> rw [e] <;> rfl
    simp [Marker.canonicalText, Keyword.text] at hlen
    omega

/-- A line that scans to a bound marker is bound no more by what was typed before. -/
theorem shouldHandle_of_bound {s : Session} {d : Document} {e : Change} {line : Text} {m : Marker}
    (hobs : s.observing = true) (hline : d.lineText e.line = .ok line)
    (hm : Marker.scan e.line line = some m) (hb : m.binding ≠ none)
    (hsame : lineBefore line e = line) : s.shouldHandle d e = .ok false := by
  by_cases hreason : e.reason = .typing
  · cases ht : Marker.isTrigger e.text with
    | false => exact shouldHandle_of_no_trigger s d (.inr (.inr ht))
    | true =>
      rw [shouldHandle_of_trigger hobs hreason ht hline, hsame]
      cases hact : Marker.isActivation line e.column e.text with
      | false => rfl
      | true =>
        obtain ⟨m', h⟩ := isActivation_iff (i := e.line) |>.mp hact
        have hs := h.scanned
        rw [hm] at hs
        exact absurd h.unbound (by rw [← Option.some.inj hs]; exact hb)
  · cases hr : e.reason with
    | typing => exact absurd hr hreason
    | undo => exact shouldHandle_of_no_trigger s d (.inl hr)
    | redo => exact shouldHandle_of_no_trigger s d (.inr (.inl hr))

section

variable {s : Session} {home : Path} {d : Desk} {i c : Int} {old t : Text} {k : Nat} {m : Marker}

/-- A line that shows what was typed at the end of its unbound marker is bound. -/
theorem bind_typed (now : Int) (hlaid : s.LaidOut home d.tree) (hapart : Apart home s.activeSet)
    (hopen : d.document.readOnly = false) (hk : Document.index? d.document.lines.length i = some k)
    (hm : Marker.scan i old = some m) (hb : m.binding = none) (ht : t = [' '] ∨ t = ['_'])
    (hline : d.document.lines[k]? = some (old.take m.stop ++ (t ++ old.drop m.stop))) :
    ∃ n path created tree edit, n < 10 ^ maxIdLength ∧
      (s.bindFrom now i (if t = ['_'] then 1 else 0) (some old)).run d =
        (.ok (some ⟨Numeral.ofNat n, path, created, boundLine old t m (Numeral.ofNat n)⟩),
          { d with
            tree
            document :=
              { d.document with
                lines := d.document.lines.set k (boundLine old t m (Numeral.ofNat n))
                edits := d.document.edits ++ [edit]
                notices := d.document.notices ++
                  [{ change := { line := edit.line, column := edit.start, text := edit.text }
                     observed := d.watcher.observes s.mute }] } }) ∧
      path = (home.child s.activeSet).fragment (Numeral.ofNat n) ∧
      (∃ c, tree.node? (recordPlace home s.activeSet (Numeral.ofNat n)) = some (.file c)) ∧
      edit.line = i ∧ edit.text = Marker.canonicalText m.token (Numeral.ofNat n) := by
  obtain ⟨-, -, hstop⟩ := Marker.scan_split hm
  obtain ⟨n, t₁, hn, hid, hadv⟩ := hlaid.allocate_succeeds hapart
  have hisId : isId (Numeral.ofNat n) = true := isId_ofNat_iff.mpr hn
  obtain ⟨made, t₂, file, hmade, hpath, hfile⟩ := hlaid.ensure_succeeds hapart hadv now hisId
  obtain ⟨hfrom, hto, hedited⟩ := edited_typed hstop ht (Numeral.ofNat n)
  have hedit := Document.apply_eq (e := ⟨i, m.start, _, Marker.canonicalText m.token
    (Numeral.ofNat n)⟩) hopen hk hline hto hfrom (d.watcher.observes s.mute)
  simp only at hedit
  rw [hedited] at hedit
  have hbound := Document.lineText_set hk (boundLine old t m (Numeral.ofNat n)) rfl
  have hrun := run_bindFrom (some old) (Document.lineText_eq_ok_iff.mpr ⟨k, hk, hline⟩)
    hm hb hid hedit hmade (hbound _ rfl)
  exact ⟨n, made.path, made.created, t₂, _, hn, hrun, hpath, ⟨file, hfile⟩, rfl, rfl⟩

theorem split_typed (h : Activates i old c t m) :
    (∃ ch, t = [ch]) ∧ m.stop ≤ old.length ∧
      Text.before old c ++ t ++ Text.after old c = old.take m.stop ++ (t ++ old.drop m.stop) := by
  obtain ⟨-, -, hstop⟩ := Marker.scan_split h.scanned
  refine ⟨single_of_trigger h.trigger, hstop, ?_⟩
  rw [h.column, Text.before_of_nat, Text.after_of_nat, List.append_assoc]

/-- Typing where a marker is to be bound binds it. -/
theorem binds_of_activates (now : Int) (hobs : s.observing = true) (hlaid : s.LaidOut home d.tree)
    (hapart : Apart home s.activeSet) (hopen : d.document.readOnly = false)
    (hk : Document.index? d.document.lines.length i = some k)
    (hline : d.document.lines[k]? = some old) {observed : Bool} {typed : Document} {e : Change}
    (htype : d.document.type i c t observed = .ok (typed, e)) (h : Activates i old c t m) :
    ∃ b d', (s.handleChange now e).run { d with document := typed } = (.ok (some b), d') ∧
      BoundOnce s home d d' e old m b := by
  obtain ⟨⟨ch, hch⟩, hstop, hsplit⟩ := split_typed h
  rw [Document.type_eq hk hline, hsplit] at htype
  obtain ⟨htyped, he⟩ := Prod.mk.inj (Except.ok.inj htype)
  have hopen' : typed.readOnly = false := by rw [← htyped]; exact hopen
  have hlines : typed.lines = d.document.lines.set k (old.take m.stop ++ (t ++ old.drop m.stop)) := by
    rw [← htyped]
  have hedits : typed.edits = d.document.edits := by rw [← htyped]
  have hk' : Document.index? typed.lines.length i = some k := by
    rw [hlines, List.length_set]
    exact hk
  have htext : typed.lines[k]? = some (old.take m.stop ++ (t ++ old.drop m.stop)) := by
    rw [hlines, List.getElem?_set_self (Document.index?_lt hk)]
  have hreason : e.reason = .typing := by rw [← he]
  have heline : e.line = i := by rw [← he]
  have hecol : e.column = c := by rw [← he]
  have hetext : e.text = t := by rw [← he]
  have hlineText : typed.lineText e.line = .ok (old.take m.stop ++ (t ++ old.drop m.stop)) := by
    rw [heline]
    exact Document.lineText_eq_ok_iff.mpr ⟨k, hk', htext⟩
  have hbefore : lineBefore (old.take m.stop ++ (t ++ old.drop m.stop)) e = old := by
    rw [← hsplit, h.column, hch]
    exact lineBefore_typed hstop ch (hecol.trans h.column) (hetext.trans hch)
  have hshould : s.shouldHandle typed e = .ok true := by
    rw [shouldHandle_of_trigger hobs hreason (by rw [hetext]; exact isTrigger_iff.mpr h.trigger)
      hlineText, hbefore, hecol, hetext, isActivation_iff.mpr ⟨m, h⟩]
  obtain ⟨n, path, created, tree, edit, hn, hrun, hpath, hfile, hline', htext'⟩ :=
    bind_typed (d := ⟨d.tree, typed, d.watcher⟩) now hlaid hapart hopen' hk' h.scanned h.unbound
      h.trigger htext
  have hall : (s.handleChange now e).run ⟨d.tree, typed, d.watcher⟩ = _ :=
    run_handleChange_of_should hshould hlineText
  rw [hbefore, heline, hetext] at hall
  simp only at hall hrun
  rw [hrun] at hall
  obtain ⟨rest, hscans⟩ : ∃ rest, Marker.scan e.line (boundLine old e.text m (Numeral.ofNat n)) =
      some (m.bound (Numeral.ofNat n) rest) := by
    rw [heline, boundLine_eq]
    exact ⟨_, Marker.scan_canonical h.scanned (isId_ofNat_iff.mpr hn) _⟩
  refine ⟨_, _, hall, ⟨n, hn, rfl⟩, ⟨k, by rw [heline]; exact hk, ?_⟩,
    ⟨edit, by rw [hline', heline], by rw [hedits]⟩, by rw [hetext],
    ⟨rest, hscans⟩, hpath, hfile, ?_⟩
  · rw [hlines, List.set_set, hetext]
  · intro now' e' he'
    rcases he' with rfl | ⟨notice, hnotice, rfl⟩
    · have hnow := Document.lineText_set (d := typed) hk'
        (boundLine old t m (Numeral.ofNat n)) rfl
      rw [← heline] at hnow
      rw [hetext] at hscans
      refine run_handleChange_of_not (shouldHandle_of_bound hobs (hnow _ rfl) hscans
        (by simp [Marker.bound]) ?_)
      obtain ⟨p, ch', q, hp, hlen, h1, h2⟩ := boundLine_at_stop h.scanned t (Numeral.ofNat n)
      rw [lineBefore, hecol, h.column, hp, Text.between_one p q ch' (by rw [hlen]), hetext, if_neg]
      rcases h.trigger with rfl | rfl
      · simpa using h1
      · simpa using h2
    · rw [List.getLast?_concat] at hnotice
      obtain rfl := Option.mem_some_iff.mp hnotice
      exact run_handleChange_of_not (shouldHandle_of_no_trigger _ _ (.inr (.inr (by
        rw [htext']
        exact not_trigger_canonicalText _ _))))

/-- Typing anything else, or anywhere else, asks for no binding. -/
theorem shouldHandle_of_not_activates (s : Session)
    (hk : Document.index? d.document.lines.length i = some k)
    (hline : d.document.lines[k]? = some old) {observed : Bool} {typed : Document} {e : Change}
    (htype : d.document.type i c t observed = .ok (typed, e))
    (h : ∀ m, ¬ Activates i old c t m) (hobs : s.observing = true) :
    s.shouldHandle typed e = .ok false := by
  rw [Document.type_eq hk hline] at htype
  obtain ⟨htyped, he⟩ := Prod.mk.inj (Except.ok.inj htype)
  have hreason : e.reason = .typing := by rw [← he]
  have heline : e.line = i := by rw [← he]
  have hecol : e.column = c := by rw [← he]
  have hetext : e.text = t := by rw [← he]
  have hlineText : typed.lineText e.line = .ok (Text.before old c ++ t ++ Text.after old c) := by
    rw [heline, ← htyped]
    exact Document.lineText_set hk _ rfl _ rfl
  cases ht : Marker.isTrigger t with
  | false => exact shouldHandle_of_no_trigger s typed (.inr (.inr (by rw [hetext]; exact ht)))
  | true =>
    rw [shouldHandle_of_trigger hobs hreason (by rw [hetext]; exact ht) hlineText]
    cases hact : Marker.isActivation
        (lineBefore (Text.before old c ++ t ++ Text.after old c) e) e.column e.text with
    | false => rfl
    | true =>
      obtain ⟨m, hm⟩ := isActivation_iff (i := i) |>.mp hact
      rw [hecol, hetext] at hm
      obtain ⟨ch, rfl⟩ := single_of_trigger (isTrigger_iff.mp ht)
      by_cases hc : 0 ≤ c ∧ c ≤ old.length
      · obtain ⟨j, rfl⟩ := Int.eq_ofNat_of_zero_le hc.1
        have hj : j ≤ old.length := by omega
        rw [lineBefore_typed hj ch hecol hetext] at hm
        exact absurd hm (h m)
      · exact absurd hm (not_activates_beyond (by omega) (isTrigger_iff.mp ht) hecol hetext m)

end

/-- In a workspace laid out for it, a session that takes note of changes binds a marker by typing
exactly when a space or an underscore is typed at the end of a line's unbound marker. It binds it
once, and otherwise, as for all that undo and redo change, everything stays as it is. -/
theorem handleChange_type {s : Session} {home : Path} {d : Desk} {i : Int} {old : Text} (now c : Int)
    (t : Text) (observed : Bool) (hobs : s.observing = true) (hlaid : s.LaidOut home d.tree)
    (hapart : Apart home s.activeSet) (hopen : d.document.readOnly = false)
    (hline : d.document.lineText i = .ok old) :
    ∃ typed e, d.document.type i c t observed = .ok (typed, e) ∧
      ((∃ b d', (s.handleChange now e).run { d with document := typed } = (.ok (some b), d')) ↔
        ∃ m, Activates i old c t m) ∧
      (∀ m, Activates i old c t m → ∃ b d',
        (s.handleChange now e).run { d with document := typed } = (.ok (some b), d') ∧
          BoundOnce s home d d' e old m b) ∧
      ((∀ m, ¬ Activates i old c t m) →
        (s.handleChange now e).run { d with document := typed } =
          (.ok none, { d with document := typed })) ∧
      ∀ (e' : Change) (d' : Desk), e'.reason = .undo ∨ e'.reason = .redo →
        (s.handleChange now e').run d' = (.ok none, d') := by
  obtain ⟨k, hk, hold⟩ := Document.lineText_eq_ok_iff.mp hline
  obtain ⟨typed, e, htype⟩ : ∃ typed e, d.document.type i c t observed = .ok (typed, e) :=
    ⟨_, _, Document.type_eq hk hold c t observed⟩
  have hbinds : ∀ m, Activates i old c t m → ∃ b d',
      (s.handleChange now e).run { d with document := typed } = (.ok (some b), d') ∧
        BoundOnce s home d d' e old m b :=
    fun m h => binds_of_activates now hobs hlaid hapart hopen hk hold htype h
  have hstays : (∀ m, ¬ Activates i old c t m) →
      (s.handleChange now e).run { d with document := typed } =
        (.ok none, { d with document := typed }) :=
    fun h => run_handleChange_of_not (shouldHandle_of_not_activates s hk hold htype h hobs)
  refine ⟨typed, e, htype, ⟨fun ⟨b, d', hrun⟩ => ?_, fun ⟨m, h⟩ => ?_⟩, hbinds, hstays,
    fun e' d' he' => run_handleChange_of_not
      (shouldHandle_of_no_trigger s _ (he'.imp_right .inl))⟩
  · by_cases hm : ∃ m, Activates i old c t m
    · exact hm
    · rw [hstays fun m h => hm ⟨m, h⟩] at hrun
      cases hrun
  · obtain ⟨b, d', hrun, -⟩ := hbinds m h
    exact ⟨b, d', hrun⟩

theorem handleChange_type_underscore :
    ∃ (s : Session) (home : Path) (d : Desk) (old : Text) (m : Marker), s.observing = true ∧
      s.LaidOut home d.tree ∧ Apart home s.activeSet ∧ d.document.readOnly = false ∧
      d.document.lineText (-1) = .ok old ∧ Activates (-1) old 5 ['_'] m ∧
      ∃ typed e b d', d.document.type (-1) 5 ['_'] true = .ok (typed, e) ∧
        (s.handleChange 0 e).run { d with document := typed } = (.ok (some b), d') ∧
        BoundOnce s home d d' e old m b := by
  let s : Session := { root := some { slashes := 1, parts := [['w']] } }
  let home : Path := { slashes := 1, parts := [['w'], ['.', 'c', 'm', 's']] }
  let old : Text := "x #cm()".toList
  let d : Desk := { tree := ⟨[([['w']], .folder)]⟩, document := { lines := [old] } }
  let m : Marker := ⟨-1, 2, ⟨['#'], [], .short⟩, none⟩
  have hlaid : s.LaidOut home d.tree :=
    .of_fresh (by decide) (by decide) (by decide) ⟨by decide, by decide, by decide⟩ (by decide)
      ⟨by decide, by decide, by decide, by decide⟩ (by decide) (by decide)
  have hapart : Apart home s.activeSet := .of_plain (by decide) (by decide) (by decide)
  have hline : d.document.lineText (-1) = .ok old := by decide
  have hact : Activates (-1) old 5 ['_'] m := ⟨.inr rfl, by decide, rfl, by decide⟩
  obtain ⟨typed, e, htype, -, hbinds, -⟩ :=
    handleChange_type 0 5 ['_'] true (by decide) hlaid hapart rfl hline
  obtain ⟨b, d', hrun, honce⟩ := hbinds m hact
  exact ⟨s, home, d, old, m, by decide, hlaid, hapart, rfl, hline, hact, typed, e, b, d', htype, hrun,
    honce⟩

/-- In a set of the cursor file's name no record can be made: the cursor file takes its place. -/
theorem cursor_in_place_of_set :
    ∃ (s : Session) (home : Path) (d : Desk) (old : Text) (m : Marker) (typed : Document)
      (e : Change), s.observing = true ∧ s.LaidOut home d.tree ∧
      d.document.lineText 0 = .ok old ∧ Activates 0 old 10 [' '] m ∧
      d.document.type 0 10 [' '] true = .ok (typed, e) ∧
      ∀ b, ((s.handleChange 0 e).run { d with document := typed }).1 ≠ .ok (some b) := by
  let s : Session :=
    { root := some { slashes := 1, parts := [['w']] }, activeSet := cursorName }
  let home : Path := { slashes := 1, parts := [['w'], ['.', 'c', 'm', 's']] }
  let old : Text := "//codemeta".toList
  let d : Desk := { tree := ⟨[([['w']], .folder)]⟩, document := { lines := [old] } }
  let m : Marker := ⟨0, 0, ⟨['/', '/'], [], .full⟩, none⟩
  let typed : Document :=
    { lines := [old ++ [' ']], notices := [⟨{ line := 0, column := 10, text := [' '] }, true⟩] }
  have hlaid : s.LaidOut home d.tree :=
    .of_fresh (by decide) (by decide) (by decide) ⟨by decide, by decide, by decide⟩ (by decide)
      ⟨by decide, by decide, by decide, by decide⟩ (by decide) (by decide)
  have hfails : ((s.handleChange 0 { line := 0, column := 10, text := [' '] }).run
      { d with document := typed }).1 = .error (.disk .occupied) := by decide +kernel
  refine ⟨s, home, d, old, m, typed, { line := 0, column := 10, text := [' '] }, by decide, hlaid,
    by decide, ⟨.inl rfl, by decide, rfl, by decide⟩, by decide, fun b hb => ?_⟩
  rw [hfails] at hb
  cases hb

end Marginalia.Session
