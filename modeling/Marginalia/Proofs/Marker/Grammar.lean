import Marginalia.Proofs.Marker.Canonical

/-!
# The grammar of markers

What a marker is, said of a line and its columns without the rules that read it: the token that
`Stands` at a column, and the piece of the line behind it that binds it (`CanonicalAt`, `LegacyAt`).
The scanner accepts exactly that, at the earliest column (`scan_grammar`). Since at most one token
stands at a column (`Stands.unique`), the rules may come in any order, and each may search the line
on its own (`findBy?_eq_foldl`).
-/

namespace Marginalia

/-! ## Tokens at a column -/

/-- An opener, a gap and a keyword at a column of a line. The full keyword may have spaces and tabs
before it, and no ASCII letter, digit or underscore follows. -/
structure Stands (line : Text) (column : Nat) (o g k : Text) : Prop where
  opener : o ∈ ["//", "#", "<!--", "/*"].map String.toList
  form : (k = "codemeta".toList ∧ ∀ c ∈ g, c = ' ' ∨ c = '\t') ∨ (k = "cm".toList ∧ g = [])
  here : ∃ rest, line.drop column = o ++ g ++ k ++ rest ∧
    ∀ c, rest.head? = some c → c.isAlphanum = false ∧ c ≠ '_'

theorem isAsciiWord_eq_false_iff {c : Char} :
    isAsciiWord c = false ↔ c.isAlphanum = false ∧ c ≠ '_' := by
  have halpha : isAsciiLetter c = c.isAlpha := by
    delta Char.isAlpha Char.isUpper Char.isLower
    rw [isAsciiLetter, Bool.or_comm, Bool.decide_and]
    rfl
  rw [isAsciiWord, halpha, Char.isAlphanum, Bool.or_eq_false_iff, beq_eq_false_iff_ne]
  rfl

theorem endsKeyword_iff {rest : Text} : endsKeyword rest = true ↔
    ∀ c, rest.head? = some c → c.isAlphanum = false ∧ c ≠ '_' := by
  cases rest with
  | nil => simp [endsKeyword]
  | cons c rest => simp [endsKeyword, isAsciiWord_eq_false_iff]

theorem isGap_iff {c : Char} : isGap c = true ↔ c = ' ' ∨ c = '\t' := by simp [isGap]

/-- The grammar reads the tokens that stand at the head of a text. -/
theorem readBy?_iff_stands {line : Text} {column : Nat} {t : Token} :
    Token.readBy? grammar (line.drop column) = some t ↔
      Stands line column t.opener t.gap t.keyword.text := by
  obtain ⟨o, g, k⟩ := t
  rw [Token.readBy?_eq_some_iff]
  constructor
  · rintro ⟨rest, hline, hend, ho, hs⟩
    refine ⟨ho, ?_, rest, hline, endsKeyword_iff.mp hend⟩
    cases k with
    | full => exact .inl ⟨rfl, fun c hc => isGap_iff.mp (hs.isGap c hc)⟩
    | short => exact .inr ⟨rfl, hs⟩
  · rintro ⟨ho, hform, rest, hline, hend⟩
    refine ⟨rest, hline, endsKeyword_iff.mpr hend, ho, ?_⟩
    cases k with
    | full =>
      rcases hform with ⟨-, hgap⟩ | ⟨hk, -⟩
      · exact fun c hc => isGap_iff.mpr (hgap c hc)
      · exact absurd (show Keyword.full.text = _ from hk) (by decide)
    | short =>
      rcases hform with ⟨hk, -⟩ | ⟨-, hgap⟩
      · exact absurd (show Keyword.short.text = _ from hk) (by decide)
      · exact hgap

/-- What stands at a column is a token. -/
theorem Stands.readBy? {line o g k : Text} {column : Nat} (h : Stands line column o g k) :
    ∃ t : Token, Token.readBy? grammar (line.drop column) = some t ∧ t.opener = o ∧ t.gap = g ∧
      t.keyword.text = k := by
  rcases h.form with ⟨rfl, -⟩ | ⟨rfl, -⟩
  · exact ⟨⟨o, g, .full⟩, readBy?_iff_stands.mpr h, rfl, rfl, rfl⟩
  · exact ⟨⟨o, g, .short⟩, readBy?_iff_stands.mpr h, rfl, rfl, rfl⟩

theorem Stands.unique {line o g k o' g' k' : Text} {column : Nat} (h : Stands line column o g k)
    (h' : Stands line column o' g' k') : o' = o ∧ g' = g ∧ k' = k := by
  obtain ⟨t, ht, rfl, rfl, rfl⟩ := h.readBy?
  obtain ⟨t', ht', rfl, rfl, rfl⟩ := h'.readBy?
  cases ht.symm.trans ht'
  exact ⟨rfl, rfl, rfl⟩

/-! ## The order of the rules -/

namespace Token

theorem readBy?_perm {rules : List Rule} (h : rules.Perm grammar) (s : Text) :
    readBy? rules s = readBy? grammar s := by
  cases hread : readBy? rules s with
  | none =>
    symm
    refine List.findSome?_eq_none_iff.mpr fun r hr => ?_
    exact List.findSome?_eq_none_iff.mp hread r (h.mem_iff.mpr hr)
  | some t =>
    obtain ⟨r, hr, ht⟩ := List.exists_of_findSome?_eq_some hread
    obtain ⟨rest, hs, hend, ho, -, hsp⟩ := Rule.read?_eq_some_iff.mp ht
    refine (readBy?_eq_some_iff.mpr ⟨rest, hs, hend, ?_, hsp⟩).symm
    rw [ho]
    exact mem_grammar.mp (h.mem_iff.mp hr)

theorem findBy?_perm {rules : List Rule} (h : rules.Perm grammar) (line : Text) :
    findBy? rules line = find? line := by
  unfold find?
  induction line with
  | nil => rfl
  | cons c r ih => rw [findBy?, findBy?, readBy?_perm h, ih]

/-- The earlier of two finds, the first one when both are at one column. -/
def earlier : Option (Nat × Token) → Option (Nat × Token) → Option (Nat × Token)
  | none, b => b
  | some a, none => some a
  | some a, some b => if b.1 < a.1 then some b else some a

theorem earlier_shift (a b : Option (Nat × Token)) :
    earlier (a.map fun f => (f.1 + 1, f.2)) (b.map fun f => (f.1 + 1, f.2)) =
      (earlier a b).map fun f => (f.1 + 1, f.2) := by
  cases a with
  | none => rfl
  | some a =>
    cases b with
    | none => rfl
    | some b =>
      by_cases h : b.1 < a.1
      · simp [earlier, h]
      · simp [earlier, h]

/-- Two lists of rules find what the first of them finds, unless the second finds something
earlier. -/
theorem findBy?_append (rules rules' : List Rule) (line : Text) :
    findBy? (rules ++ rules') line = earlier (findBy? rules line) (findBy? rules' line) := by
  induction line with
  | nil => rfl
  | cons c r ih =>
    have hread : readBy? (rules ++ rules') (c :: r) =
        (readBy? rules (c :: r)).or (readBy? rules' (c :: r)) := List.findSome?_append
    rw [findBy?, findBy?, findBy?, hread]
    cases readBy? rules (c :: r) with
    | some t =>
      cases readBy? rules' (c :: r) with
      | some t' => rfl
      | none => cases findBy? rules' r <;> rfl
    | none =>
      cases readBy? rules' (c :: r) with
      | some t' => cases findBy? rules r <;> simp [earlier]
      | none => exact (congrArg _ ih).trans (earlier_shift ..).symm

/-- The rules may search one after the other, each for itself. -/
theorem findBy?_eq_foldl (rules : List Rule) (line : Text) :
    findBy? rules line = rules.foldl (fun best r => earlier best (findBy? [r] line)) none := by
  induction rules using List.reverseRecOn with
  | nil =>
    induction line with
    | nil => rfl
    | cons c r ih => rw [findBy?, ih]; rfl
  | append_singleton rules r ih => rw [findBy?_append, ih, List.foldl_append]; rfl

end Token

/-! ## Ids behind a token -/

/-- The piece of a line from one column to before another. -/
def Spans (line : Text) (start stop : Nat) (piece : Text) : Prop :=
  start ≤ stop ∧ stop ≤ line.length ∧ (line.take stop).drop start = piece

/-- Blank space and the id in brackets, from a column on. -/
def CanonicalAt (line : Text) (column : Nat) (id : Text) (stop : Nat) : Prop :=
  ∃ space, Spans line column stop (space ++ ['['] ++ id ++ [']']) ∧
    (∀ c ∈ space, isBlank c = true) ∧ 1 ≤ id.length ∧ id.length ≤ 32 ∧
    ∀ c ∈ id, c.isDigit = true

/-- Blank space, at least one character of it, and the id, which ends a word. -/
def LegacyAt (s : Text) (column : Nat) (id : Text) (stop : Nat) : Prop :=
  ∃ space, Spans s column stop (space ++ id) ∧ space ≠ [] ∧
    (∀ c ∈ space, isBlank c = true) ∧ 1 ≤ id.length ∧ id.length ≤ 32 ∧
    (∀ c ∈ id, c.isDigit = true) ∧ ∀ c, s[stop]? = some c → isWord c = false

theorem isId_iff_digits {id : Text} :
    isId id = true ↔ 1 ≤ id.length ∧ id.length ≤ 32 ∧ ∀ c ∈ id, c.isDigit = true := by
  rw [isId_iff, ← List.length_pos_iff]
  rfl

theorem spans_iff {line piece : Text} {start stop : Nat} (h : start ≤ line.length) :
    Spans line start stop piece ↔
      stop = start + piece.length ∧ ∃ rest, line.drop start = piece ++ rest := by
  constructor
  · rintro ⟨hle, hstop, rfl⟩
    refine ⟨by simp; omega, line.drop stop, ?_⟩
    rw [← List.drop_append_of_le_length (by simp; omega), List.take_append_drop]
  · rintro ⟨rfl, rest, hrest⟩
    have hlength := congrArg List.length hrest
    rw [List.length_drop, List.length_append] at hlength
    refine ⟨Nat.le_add_right _ _, by omega, ?_⟩
    rw [List.drop_take, hrest, Nat.add_sub_cancel_left, List.take_left]

theorem head?_drop_span {s piece rest : Text} {start : Nat}
    (h : s.drop start = piece ++ rest) : s[start + piece.length]? = rest.head? := by
  rw [← List.getElem?_drop, h, List.getElem?_append_right (Nat.le_refl _), Nat.sub_self,
    List.head?_eq_getElem?]

namespace IdReading

theorem canonical?_eq_some_iff {s : Text} {r : IdReading} : canonical? s = some r ↔
    r.form = .canonical ∧ isId r.id = true ∧
      ∃ space rest, s = space ++ ['['] ++ r.id ++ [']'] ++ rest ∧
        (∀ c ∈ space, isBlank c = true) ∧ r.length = space.length + r.id.length + 2 := by
  constructor
  · intro h
    unfold canonical? at h
    simp only at h
    split at h
    · next body hbody =>
      split at h
      · next rest hrest =>
        split at h
        · next hid =>
          cases h
          refine ⟨rfl, hid, s.takeWhile isBlank, rest, ?_, fun c hc => List.mem_takeWhile_imp hc, rfl⟩
          have hs := Text.takeWhile_append_drop isBlank s
          have hdigits := Text.takeWhile_append_drop isAsciiDigit body
          rw [hrest] at hdigits
          rw [hbody, ← hdigits] at hs
          simpa using hs.symm
        · cases h
      · cases h
    · cases h
  · obtain ⟨id, form, length⟩ := r
    rintro ⟨hform, hid, space, rest, rfl, hspace, hlength⟩
    dsimp only at hform hid hlength
    subst hform hlength
    have hrun : (space ++ ['['] ++ id ++ [']'] ++ rest).takeWhile isBlank = space := by
      simp only [List.append_assoc]
      exact Text.takeWhile_append_stop hspace (by rintro c ⟨⟩; decide)
    have hdrop : (space ++ ['['] ++ id ++ [']'] ++ rest).drop space.length =
        '[' :: (id ++ ']' :: rest) := by simp
    have hdigits : (id ++ ']' :: rest).takeWhile isAsciiDigit = id :=
      Text.takeWhile_append_stop (isId_iff.mp hid).2.2 (by rintro c ⟨⟩; decide)
    simp only [canonical?, hrun, hdrop, hdigits, List.drop_left, hid, if_true]

theorem legacy?_eq_some_iff {s : Text} {r : IdReading} : legacy? s = some r ↔
    r.form = .legacy ∧ isId r.id = true ∧
      ∃ space rest, s = space ++ r.id ++ rest ∧ space ≠ [] ∧ (∀ c ∈ space, isBlank c = true) ∧
        (∀ c, rest.head? = some c → isWord c = false) ∧
        r.length = space.length + r.id.length := by
  constructor
  · intro h
    simp only [legacy?, Option.ite_none_right_eq_some, Bool.and_eq_true, Option.some.injEq] at h
    obtain ⟨⟨⟨hspace, hid⟩, hend⟩, rfl⟩ := h
    let body := s.drop (s.takeWhile isBlank).length
    refine ⟨rfl, hid, s.takeWhile isBlank, body.drop (body.takeWhile isAsciiDigit).length, ?_,
      by simpa using hspace, fun c hc => List.mem_takeWhile_imp hc, fun c hc => ?_, rfl⟩
    · rw [List.append_assoc, Text.takeWhile_append_drop, Text.takeWhile_append_drop]
    · split at hend
      · next hrest =>
        rw [hrest] at hc
        cases hc
      · next hrest =>
        rw [hrest] at hc
        cases hc
        exact Bool.not_eq_true' _ ▸ hend
  · obtain ⟨id, form, length⟩ := r
    rintro ⟨hform, hid, space, rest, rfl, hne, hspace, hend, hlength⟩
    dsimp only at hform hid hlength
    subst hform hlength
    obtain ⟨hpos, -, hdigit⟩ := isId_iff.mp hid
    have hrun : (space ++ id ++ rest).takeWhile isBlank = space := by
      rw [List.append_assoc]
      refine Text.takeWhile_append_stop hspace fun c hc => ?_
      cases id with
      | nil => exact absurd rfl hpos
      | cons d id =>
        cases hc
        exact isAsciiDigit_not_blank (hdigit c (by simp))
    have hdigits : (id ++ rest).takeWhile isAsciiDigit = id := by
      refine Text.takeWhile_append_stop hdigit fun c hc => ?_
      by_contra hdigit'
      have hword : isWord c = true := by
        simp only [isWord, isAsciiWord, Bool.not_eq_false] at hdigit' ⊢
        simp [hdigit']
      rw [hend c hc] at hword
      cases hword
    have hdrop : (space ++ id ++ rest).drop space.length = id ++ rest := by simp
    have hspace' : space.isEmpty = false := by simpa using hne
    simp only [legacy?, hrun, hdrop, hdigits, List.drop_left, hid, hspace', Bool.not_false,
      Bool.and_self, Bool.true_and]
    cases rest with
    | nil => rfl
    | cons c rest => simp [hend c rfl]

end IdReading

namespace Marker

/-! ## What is scanned -/

theorem scanBy_perm {rules : List Rule} (h : rules.Perm grammar) (number : Int) (line : Text) :
    scanBy rules number line = scan number line := by
  unfold scan scanBy
  rw [Token.findBy?_perm h]
  rfl

/-- A token is found where one stands and none stands before. -/
theorem find?_stands {line : Text} {k : Nat} {t : Token} (h : Token.find? line = some (k, t)) :
    Stands line k t.opener t.gap t.keyword.text ∧ ∀ p o g w, Stands line p o g w → k ≤ p := by
  obtain ⟨before, s, rfl, rfl, -, hs, hno⟩ := Token.findBy?_eq_some_iff.mp h
  refine ⟨readBy?_iff_stands.mp (by rwa [List.drop_left]), fun p o g w hstands => ?_⟩
  by_contra hlt
  obtain ⟨t', ht', -⟩ := hstands.readBy?
  rw [List.drop_append_of_le_length (by omega)] at ht'
  have hnone := hno (before.take p) (before.drop p) (List.take_append_drop p before).symm
    (by simp; omega)
  rw [hnone] at ht'
  cases ht'

theorem find?_of_stands {line o g w : Text} {p : Nat} (h : Stands line p o g w) :
    ∃ k t, Token.find? line = some (k, t) := by
  obtain ⟨t, ht, -⟩ := h.readBy?
  clear h
  induction line generalizing p with
  | nil =>
    rw [List.drop_nil] at ht
    cases ht
  | cons c r ih =>
    rw [Token.find?, Token.findBy?]
    cases hread : Token.readBy? grammar (c :: r) with
    | some t' => exact ⟨0, t', rfl⟩
    | none =>
      cases p with
      | zero =>
        rw [List.drop_zero, hread] at ht
        cases ht
      | succ p =>
        obtain ⟨k, t', hfind⟩ := ih ht
        exact ⟨k + 1, t', by rw [show Token.findBy? grammar r = _ from hfind]; rfl⟩

section
variable {number : Int} {line id : Text} {m : Marker} {stop : Nat}

theorem canonicalAt_iff (h : m.stop ≤ line.length) : CanonicalAt line m.stop id stop ↔
    ∃ r, IdReading.canonical? (line.drop m.stop) = some r ∧ r.id = id ∧
      m.stop + r.length = stop := by
  constructor
  · rintro ⟨space, hspan, hspace, hid⟩
    obtain ⟨rfl, rest, hrest⟩ := (spans_iff h).mp hspan
    refine ⟨⟨id, .canonical, space.length + id.length + 2⟩, ?_, rfl, by simp; omega⟩
    exact IdReading.canonical?_eq_some_iff.mpr
      ⟨rfl, isId_iff_digits.mpr hid, space, rest, hrest, hspace, rfl⟩
  · rintro ⟨r, hr, rfl, rfl⟩
    obtain ⟨-, hid, space, rest, hrest, hspace, hlength⟩ :=
      IdReading.canonical?_eq_some_iff.mp hr
    refine ⟨space, (spans_iff h).mpr ⟨?_, rest, hrest⟩, hspace, isId_iff_digits.mp hid⟩
    rw [hlength]
    simp
    omega

theorem legacyAt_iff (h : m.stop ≤ line.length) : LegacyAt line m.stop id stop ↔
    ∃ r, IdReading.legacy? (line.drop m.stop) = some r ∧ r.id = id ∧
      m.stop + r.length = stop := by
  constructor
  · rintro ⟨space, hspan, hne, hspace, hpos, hmax, hdigits, hend⟩
    obtain ⟨rfl, rest, hrest⟩ := (spans_iff h).mp hspan
    rw [head?_drop_span hrest] at hend
    refine ⟨⟨id, .legacy, space.length + id.length⟩, ?_, rfl, by simp⟩
    exact IdReading.legacy?_eq_some_iff.mpr ⟨rfl, isId_iff_digits.mpr ⟨hpos, hmax, hdigits⟩,
      space, rest, hrest, hne, hspace, hend, rfl⟩
  · rintro ⟨r, hr, rfl, rfl⟩
    obtain ⟨-, hid, space, rest, hrest, hne, hspace, hend, hlength⟩ :=
      IdReading.legacy?_eq_some_iff.mp hr
    obtain ⟨hpos, hmax, hdigits⟩ := isId_iff_digits.mp hid
    rw [hlength, ← List.length_append]
    refine ⟨space, (spans_iff h).mpr ⟨rfl, rest, hrest⟩, hne, hspace, hpos, hmax, hdigits, ?_⟩
    rwa [head?_drop_span hrest]

theorem binding_canonical_iff (h : scan number line = some m) :
    (∃ note, m.binding = some ⟨id, .canonical, stop, note⟩) ↔
      CanonicalAt line m.stop id stop := by
  obtain ⟨-, -, hbinding⟩ := scan_eq_some_iff.mp h
  rw [canonicalAt_iff (scan_split h).2.2, hbinding]
  constructor
  · rintro ⟨note, hread⟩
    obtain ⟨r, hr, hb⟩ := Option.map_eq_some_iff.mp hread
    obtain ⟨rfl, hform, rfl, -⟩ := Binding.mk.injEq .. ▸ hb
    rcases Option.or_eq_some_iff.mp hr with hc | ⟨-, hl⟩
    · exact ⟨r, hc, rfl, rfl⟩
    · cases (IdReading.legacy?_eq_some_iff.mp hl).1.symm.trans hform
  · rintro ⟨r, hr, rfl, rfl⟩
    refine ⟨readNote? ((line.drop m.stop).drop r.length), ?_⟩
    rw [readBinding, IdReading.read?, hr]
    exact congrArg some (by rw [← (IdReading.canonical?_eq_some_iff.mp hr).1])

theorem binding_legacy_iff (h : scan number line = some m) :
    (∃ note, m.binding = some ⟨id, .legacy, stop, note⟩) ↔
      (∀ id' stop', ¬ CanonicalAt line m.stop id' stop') ∧ LegacyAt line m.stop id stop := by
  obtain ⟨-, -, hbinding⟩ := scan_eq_some_iff.mp h
  have hstop := (scan_split h).2.2
  rw [legacyAt_iff hstop, hbinding]
  constructor
  · rintro ⟨note, hread⟩
    obtain ⟨r, hr, hb⟩ := Option.map_eq_some_iff.mp hread
    obtain ⟨rfl, hform, rfl, -⟩ := Binding.mk.injEq .. ▸ hb
    rcases Option.or_eq_some_iff.mp hr with hc | ⟨hnone, hl⟩
    · cases (IdReading.canonical?_eq_some_iff.mp hc).1.symm.trans hform
    · refine ⟨fun id' stop' hcanonical => ?_, r, hl, rfl, rfl⟩
      obtain ⟨r', hr', -⟩ := (canonicalAt_iff hstop).mp hcanonical
      rw [hnone] at hr'
      cases hr'
  · rintro ⟨hnone, r, hr, rfl, rfl⟩
    refine ⟨readNote? ((line.drop m.stop).drop r.length), ?_⟩
    cases hc : IdReading.canonical? (line.drop m.stop) with
    | some r' => exact absurd ((canonicalAt_iff hstop).mpr ⟨r', hc, rfl, rfl⟩) (hnone _ _)
    | none =>
      rw [readBinding, IdReading.read?, hc, hr]
      exact congrArg some (by rw [← (IdReading.legacy?_eq_some_iff.mp hr).1])

theorem binding_none_iff (h : scan number line = some m) : m.binding = none ↔
    ∀ id stop, ¬ CanonicalAt line m.stop id stop ∧ ¬ LegacyAt line m.stop id stop := by
  constructor
  · intro hnone
    have hcanonical : ∀ id stop, ¬ CanonicalAt line m.stop id stop := fun id stop hc => by
      obtain ⟨note, hb⟩ := (binding_canonical_iff h).mpr hc
      rw [hnone] at hb
      cases hb
    refine fun id stop => ⟨hcanonical id stop, fun hl => ?_⟩
    obtain ⟨note, hb⟩ := (binding_legacy_iff h).mpr ⟨hcanonical, hl⟩
    rw [hnone] at hb
    cases hb
  · intro hno
    cases hb : m.binding with
    | none => rfl
    | some b =>
      obtain ⟨id, form, stop, note⟩ := b
      cases form with
      | canonical => exact absurd ((binding_canonical_iff h).mp ⟨note, hb⟩) (hno id stop).1
      | legacy => exact absurd ((binding_legacy_iff h).mp ⟨note, hb⟩).2 (hno id stop).2

end

/-- A line has a marker where a token stands first. One token at most stands at a column, so the
rules may stand in any order and search the line one after the other. The marker is bound by the
canonical form behind its token, else by the legacy form, else not at all. -/
theorem scan_grammar (number : Int) (line : Text) :
    ((scan number line).isSome = true ↔ ∃ p o g k, Stands line p o g k) ∧
    (∀ p o g k o' g' k', Stands line p o g k → Stands line p o' g' k' →
      o' = o ∧ g' = g ∧ k' = k) ∧
    (∀ rules : List Rule, rules.Perm grammar → scanBy rules number line = scan number line ∧
      rules.foldl (fun best r => Token.earlier best (Token.findBy? [r] line)) none =
        Token.find? line) ∧
    ∀ m, scan number line = some m →
      m.line = number ∧
      Stands line m.start m.token.opener m.token.gap m.token.keyword.text ∧
      (∀ p o g k, Stands line p o g k → m.start ≤ p) ∧
      m.stop = m.start +
        (m.token.opener.length + m.token.gap.length + m.token.keyword.text.length) ∧
      (∀ id stop, (∃ note, m.binding = some ⟨id, .canonical, stop, note⟩) ↔
        CanonicalAt line m.stop id stop) ∧
      (∀ id stop, (∃ note, m.binding = some ⟨id, .legacy, stop, note⟩) ↔
        (∀ id' stop', ¬ CanonicalAt line m.stop id' stop') ∧ LegacyAt line m.stop id stop) ∧
      (m.binding = none ↔ ∀ id stop,
        ¬ CanonicalAt line m.stop id stop ∧ ¬ LegacyAt line m.stop id stop) := by
  refine ⟨⟨fun hsome => ?_, ?_⟩, fun p o g k o' g' k' => Stands.unique, fun rules hrules => ?_,
    fun m hm => ?_⟩
  · obtain ⟨m, hm⟩ := Option.isSome_iff_exists.mp hsome
    exact ⟨m.start, _, _, _, (find?_stands (scan_eq_some_iff.mp hm).1).1⟩
  · rintro ⟨p, o, g, k, hstands⟩
    obtain ⟨start, t, hfind⟩ := find?_of_stands hstands
    rw [scan, scanBy, Option.isSome_map, show Token.findBy? grammar line = _ from hfind]
    rfl
  · exact ⟨scanBy_perm hrules number line,
      (Token.findBy?_eq_foldl rules line).symm.trans (Token.findBy?_perm hrules line)⟩
  · obtain ⟨hfind, hline, -⟩ := scan_eq_some_iff.mp hm
    obtain ⟨hstands, hleast⟩ := find?_stands hfind
    refine ⟨hline, hstands, hleast, ?_, fun id stop => binding_canonical_iff hm,
      fun id stop => binding_legacy_iff hm, binding_none_iff hm⟩
    rw [stop, Token.text, List.length_append, List.length_append]

end Marker

end Marginalia
