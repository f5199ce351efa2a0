import Marginalia.Marker.Basic
import Marginalia.Proofs.Text.Runs

/-!
# Reading tokens

What the grammar reads at the head of a text is said without its rules: an opener, a gap that the
keyword allows, the keyword, and no word character after it (`readBy?_eq_some_iff`). A token never
runs into the opener of the next one, so an exchange of what follows the opener of the earliest
token leaves it the earliest (`find?_replace`).
-/

namespace Marginalia

/-- Whether the gap of a token is one that its keyword allows. -/
def Token.Spaced (t : Token) : Prop :=
  match t.keyword with
  | .full => ∀ c ∈ t.gap, isGap c = true
  | .short => t.gap = []

theorem Token.Spaced.isGap {t : Token} (h : t.Spaced) : ∀ c ∈ t.gap, isGap c = true := by
  unfold Token.Spaced at h
  cases hk : t.keyword with
  | full => rw [hk] at h; exact h
  | short => rw [hk] at h; simp only at h; simp [h]

/-- Both keywords start with the same letter, which is no gap. -/
theorem Keyword.text_eq_cons (k : Keyword) : ∃ w, k.text = 'c' :: w := by
  cases k
  · exact ⟨_, rfl⟩
  · exact ⟨_, rfl⟩

theorem takeWhile_gap {gap : Text} (h : ∀ c ∈ gap, isGap c = true) (k : Keyword) (rest : Text) :
    (gap ++ (k.text ++ rest)).takeWhile isGap = gap := by
  obtain ⟨w, hw⟩ := k.text_eq_cons
  rw [List.takeWhile_append_of_pos h, hw]
  simp [isGap]

/-! ## One rule -/

theorem Rule.read?_eq_some_iff {r : Rule} {s : Text} {t : Token} :
    r.read? s = some t ↔ ∃ rest, s = t.text ++ rest ∧ endsKeyword rest = true ∧
      t.opener = r.opener ∧ t.keyword = r.keyword ∧ t.Spaced := by
  unfold Rule.read?
  constructor
  · intro h
    split at h
    · cases h
    · next body hbody =>
      split at h
      · cases h
      · next rest hrest =>
        split at h
        · next hend =>
          cases h
          rw [Text.dropMark?_eq_some_iff] at hbody hrest
          have hgap : r.gap body ++ body.drop (r.gap body).length = body := by
            unfold Rule.gap
            cases r.keyword with
            | full => exact Text.takeWhile_append_drop isGap body
            | short => rfl
          refine ⟨rest, ?_, hend, rfl, rfl, ?_⟩
          · rw [hbody, Token.text, List.append_assoc, List.append_assoc, ← hrest, hgap]
          · unfold Token.Spaced Rule.gap
            cases r.keyword with
            | full => exact fun c hc => List.mem_takeWhile_imp hc
            | short => rfl
        · cases h
  · rintro ⟨rest, rfl, hend, ho, hk, hs⟩
    have hbody : Text.dropMark? r.opener (t.text ++ rest) =
        some (t.gap ++ (t.keyword.text ++ rest)) := by
      rw [Text.dropMark?_eq_some_iff, Token.text, ho]
      simp
    have hgap : r.gap (t.gap ++ (t.keyword.text ++ rest)) = t.gap := by
      unfold Rule.gap
      rw [← hk]
      cases hkey : t.keyword with
      | full => exact takeWhile_gap hs.isGap .full rest
      | short => unfold Token.Spaced at hs; rw [hkey] at hs; exact hs.symm
    have hrest : Text.dropMark? r.keyword.text
        ((t.gap ++ (t.keyword.text ++ rest)).drop t.gap.length) = some rest := by
      rw [Text.dropMark?_eq_some_iff, hk]
      simp
    rw [hbody]
    simp only [hgap, hrest, hend, if_true]
    rw [← ho, ← hk]

/-! ## The grammar -/

theorem mem_grammar {r : Rule} : r ∈ grammar ↔ r.opener ∈ openers := by
  obtain ⟨o, k⟩ := r
  cases k
  · simp [grammar, openers]
  · simp [grammar, openers]

/-- A text starts with at most one opener. -/
theorem opener_unique {o o' x x' : Text} (ho : o ∈ openers) (ho' : o' ∈ openers)
    (h : o ++ x = o' ++ x') : o = o' := by
  simp only [openers, List.mem_cons, List.not_mem_nil, or_false] at ho ho'
  rcases ho with rfl | rfl | rfl | rfl <;> rcases ho' with rfl | rfl | rfl | rfl <;> simp_all

/-- A text starts with at most one token. -/
theorem token_unique {t t' : Token} {rest rest' : Text} (h : t.text ++ rest = t'.text ++ rest')
    (ho : t.opener ∈ openers) (ho' : t'.opener ∈ openers) (hs : t.Spaced) (hs' : t'.Spaced) :
    t = t' := by
  obtain ⟨o, g, k⟩ := t
  obtain ⟨o', g', k'⟩ := t'
  simp only [Token.text, List.append_assoc] at h
  obtain rfl : o = o' := opener_unique ho ho' h
  have hbody := List.append_cancel_left h
  have hgap := congrArg (List.takeWhile isGap) hbody
  rw [takeWhile_gap hs.isGap, takeWhile_gap hs'.isGap] at hgap
  obtain rfl : g = g' := hgap
  have hkey := List.append_cancel_left hbody
  cases k <;> cases k'
  · rfl
  · simp [Keyword.text] at hkey
  · simp [Keyword.text] at hkey
  · rfl

namespace Token

theorem readBy?_eq_some_iff {s : Text} {t : Token} :
    readBy? grammar s = some t ↔ ∃ rest, s = t.text ++ rest ∧ endsKeyword rest = true ∧
      t.opener ∈ openers ∧ t.Spaced := by
  constructor
  · intro h
    obtain ⟨r, hr, ht⟩ := List.exists_of_findSome?_eq_some h
    obtain ⟨rest, hs, hend, ho, -, hsp⟩ := Rule.read?_eq_some_iff.mp ht
    exact ⟨rest, hs, hend, by rw [ho]; exact mem_grammar.mp hr, hsp⟩
  · rintro ⟨rest, rfl, hend, ho, hsp⟩
    have hread : Rule.read? ⟨t.opener, t.keyword⟩ (t.text ++ rest) = some t :=
      Rule.read?_eq_some_iff.mpr ⟨rest, rfl, hend, rfl, rfl, hsp⟩
    cases hfirst : readBy? grammar (t.text ++ rest) with
    | none =>
      have hr : ⟨t.opener, t.keyword⟩ ∈ grammar := mem_grammar.mpr ho
      have hnone := List.findSome?_eq_none_iff.mp hfirst _ hr
      rw [hread] at hnone
      cases hnone
    | some t' =>
      -- another rule may come first, but what it reads is the same token
      obtain ⟨r, hr, ht⟩ := List.exists_of_findSome?_eq_some hfirst
      obtain ⟨rest', hs, -, ho', -, hsp'⟩ := Rule.read?_eq_some_iff.mp ht
      have ho' : t'.opener ∈ openers := by rw [ho']; exact mem_grammar.mp hr
      rw [token_unique hs ho ho' hsp hsp']

theorem opener_mem {s : Text} {t : Token} (h : readBy? grammar s = some t) :
    t.opener ∈ openers := by
  obtain ⟨-, -, -, ho, -⟩ := readBy?_eq_some_iff.mp h
  exact ho

/-! ## What follows a token -/

/-- After its opener a token has only gaps and letters. -/
theorem plain_of_mem_body {t : Token} (hs : t.Spaced) {c : Char}
    (hc : c ∈ t.gap ++ t.keyword.text) : isGap c = true ∨ isAsciiLetter c = true := by
  rcases List.mem_append.mp hc with hc | hc
  · exact .inl (hs.isGap c hc)
  · right
    have hall : t.keyword.text.all isAsciiLetter = true := by cases t.keyword <;> decide
    exact List.all_eq_true.mp hall c hc

theorem not_mem_body {t : Token} (hs : t.Spaced) {c : Char}
    (hc : isGap c = false ∧ isAsciiLetter c = false) : c ∉ t.gap ++ t.keyword.text := fun h => by
  rcases plain_of_mem_body hs h with h | h
  · rw [hc.1] at h; cases h
  · rw [hc.2] at h; cases h

/-- A token has only characters of openers, gaps and letters. -/
theorem not_mem_text {t : Token} (ho : t.opener ∈ openers) (hs : t.Spaced) {c : Char}
    (hopener : ∀ o ∈ openers, c ∉ o) (hc : isGap c = false ∧ isAsciiLetter c = false) :
    c ∉ t.text := by
  rw [Token.text, List.append_assoc, List.mem_append, not_or]
  exact ⟨hopener _ ho, not_mem_body hs hc⟩

/-- A token that starts before an opener ends before it. -/
theorem text_length_le {t : Token} {p o rest z : Text} (ht : t.opener ∈ openers) (hs : t.Spaced)
    (hp : p ≠ []) (ho : o ∈ openers) (h : t.text ++ rest = p ++ (o ++ z)) :
    t.text.length ≤ p.length := by
  obtain ⟨o', g, k⟩ := t
  obtain ⟨a, p, rfl⟩ := List.exists_cons_of_ne_nil hp
  have hslash : '/' ∉ g ++ k.text := not_mem_body hs (by decide)
  have hhash : '#' ∉ g ++ k.text := not_mem_body hs (by decide)
  have hless : '<' ∉ g ++ k.text := not_mem_body hs (by decide)
  have hstar : '*' ∉ g ++ k.text := not_mem_body hs (by decide)
  -- the first character of an opener is in no token, but for the second slash of one
  have hbehind : ∀ v q : Text, '/' ∉ v → '#' ∉ v → '<' ∉ v → v ++ rest = q ++ (o ++ z) →
      v.length ≤ q.length := by
    intro v q h1 h2 h3 e
    simp only [openers, List.mem_cons, List.not_mem_nil, or_false] at ho
    rcases ho with rfl | rfl | rfl | rfl
    · exact Text.length_le_of_append_eq e h1
    · exact Text.length_le_of_append_eq e h2
    · exact Text.length_le_of_append_eq e h3
    · exact Text.length_le_of_append_eq e h1
  simp only [Token.text, List.append_assoc] at h ⊢
  simp only [openers, List.mem_cons, List.not_mem_nil, or_false] at ht
  rcases ht with rfl | rfl | rfl | rfl
  · obtain ⟨-, h⟩ := List.cons.inj h
    cases p with
    | nil =>
      have hbody : ∀ c x, c ∉ g ++ k.text → g ++ (k.text ++ rest) ≠ c :: x := by
        intro c x hc e
        rw [← List.append_assoc] at e
        have := Text.length_le_of_append_eq (p := []) e hc
        obtain ⟨w, hw⟩ := k.text_eq_cons
        simp [hw] at this
      simp only [openers, List.mem_cons, List.not_mem_nil, or_false] at ho
      rcases ho with rfl | rfl | rfl | rfl
      · exact absurd (List.cons.inj h).2 (hbody _ _ hslash)
      · exact absurd (List.cons.inj h).1 (by decide)
      · exact absurd (List.cons.inj h).1 (by decide)
      · exact absurd (List.cons.inj h).2 (hbody _ _ hstar)
    | cons b p =>
      obtain ⟨-, h⟩ := List.cons.inj h
      have := hbehind (g ++ k.text) p hslash hhash hless (by rw [List.append_assoc]; exact h)
      simp at this ⊢
      omega
  · obtain ⟨-, h⟩ := List.cons.inj h
    have := hbehind (g ++ k.text) p hslash hhash hless (by rw [List.append_assoc]; exact h)
    simp at this ⊢
    omega
  · obtain ⟨-, h⟩ := List.cons.inj h
    have := hbehind (['!', '-', '-'] ++ (g ++ k.text)) p (by simpa using hslash)
      (by simpa using hhash) (by simpa using hless) (by simpa using h)
    simp at this ⊢
    omega
  · obtain ⟨-, h⟩ := List.cons.inj h
    have := hbehind (['*'] ++ (g ++ k.text)) p (by simpa using hslash)
      (by simpa using hhash) (by simpa using hless) (by simpa using h)
    simp at this ⊢
    omega

theorem endsKeyword_append (u : Text) {o : Text} (ho : o ≠ []) (x y : Text) :
    endsKeyword (u ++ (o ++ x)) = endsKeyword (u ++ (o ++ y)) := by
  cases u with
  | nil =>
    obtain ⟨c, o, rfl⟩ := List.exists_cons_of_ne_nil ho
    rfl
  | cons c u => rfl

/-- A token before an opener is read whatever stands behind the opener. -/
theorem readBy?_before {p o x t} (hp : p ≠ []) (ho : o ∈ openers)
    (h : readBy? grammar (p ++ (o ++ x)) = some t) (y : Text) :
    readBy? grammar (p ++ (o ++ y)) = some t := by
  obtain ⟨rest, hs, hend, ht, hsp⟩ := readBy?_eq_some_iff.mp h
  have hlen := text_length_le ht hsp hp ho hs.symm
  obtain ⟨u, rfl⟩ : ∃ u, p = t.text ++ u := by
    rcases List.append_eq_append_iff.mp hs with ⟨v, hv, -⟩ | ⟨v, hv, -⟩
    · have : v = [] := by
        have := congrArg List.length hv
        rw [List.length_append] at this
        exact List.eq_nil_of_length_eq_zero (by omega)
      exact ⟨[], by simp [hv, this]⟩
    · exact ⟨v, hv⟩
  have hne : o ≠ [] := by
    intro e
    subst e
    exact absurd ho (by decide)
  rw [List.append_assoc] at hs ⊢
  obtain rfl := List.append_cancel_left hs
  exact readBy?_eq_some_iff.mpr
    ⟨_, rfl, by rw [← endsKeyword_append u hne x y]; exact hend, ht, hsp⟩

/-! ## The earliest token -/

theorem findBy?_eq_some_iff {rules : List Rule} {line : Text} {k : Nat} {t : Token} :
    findBy? rules line = some (k, t) ↔ ∃ p s, line = p ++ s ∧ p.length = k ∧ s ≠ [] ∧
      readBy? rules s = some t ∧
      ∀ q u, p = q ++ u → u ≠ [] → readBy? rules (u ++ s) = none := by
  induction line generalizing k with
  | nil =>
    constructor
    · intro h; cases h
    · rintro ⟨p, s, h, -, hs, -⟩
      exact absurd (List.append_eq_nil_iff.mp h.symm).2 hs
  | cons c r ih =>
    rw [findBy?]
    cases hread : readBy? rules (c :: r) with
    | some t' =>
      simp only [Option.some.injEq, Prod.mk.injEq]
      constructor
      · rintro ⟨rfl, rfl⟩
        exact ⟨[], c :: r, rfl, rfl, by simp, hread, fun q u e hu =>
          absurd (List.append_eq_nil_iff.mp e.symm).2 hu⟩
      · rintro ⟨p, s, e, rfl, -, hs, hno⟩
        cases p with
        | nil =>
          rw [List.nil_append] at e
          rw [e, hs] at hread
          exact ⟨rfl, (Option.some.inj hread).symm⟩
        | cons a p =>
          have := hno [] (a :: p) rfl (by simp)
          rw [← e, hread] at this
          cases this
    | none =>
      simp only [Option.map_eq_some_iff, Prod.mk.injEq, Prod.exists]
      constructor
      · rintro ⟨j, t', hj, rfl, rfl⟩
        obtain ⟨p, s, rfl, rfl, hs0, hs, hno⟩ := ih.mp hj
        refine ⟨c :: p, s, rfl, rfl, hs0, hs, fun q u e hu => ?_⟩
        cases q with
        | nil => rw [List.nil_append] at e; rw [← e]; exact hread
        | cons b q => exact hno q u (List.cons.inj e).2 hu
      · rintro ⟨p, s, e, rfl, hs0, hs, hno⟩
        cases p with
        | nil =>
          rw [List.nil_append] at e
          rw [e, hs] at hread
          cases hread
        | cons a p =>
          obtain ⟨rfl, rfl⟩ := List.cons.inj e
          exact ⟨p.length, t, ih.mpr ⟨p, s, rfl, rfl, hs0, hs, fun q u e hu =>
            hno (c :: q) u (by rw [e]; rfl) hu⟩, rfl, rfl⟩

/-- With other text behind its opener the earliest token may become another one, but it stays the
earliest. -/
theorem find?_replace {line x : Text} {k : Nat} {t t' : Token} (h : find? line = some (k, t))
    (hx : readBy? grammar (t.opener ++ x) = some t') :
    find? (line.take k ++ (t.opener ++ x)) = some (k, t') := by
  obtain ⟨p, s, rfl, rfl, -, hs, hno⟩ := findBy?_eq_some_iff.mp h
  have ho := opener_mem hs
  obtain ⟨rest, rfl, -, -, -⟩ := readBy?_eq_some_iff.mp hs
  rw [List.take_left]
  refine findBy?_eq_some_iff.mpr ⟨p, _, rfl, rfl, ?_, hx, fun q u e hu => ?_⟩
  · intro e
    rw [(List.append_eq_nil_iff.mp e).1] at ho
    exact absurd ho (by decide)
  · cases hr : readBy? grammar (u ++ (t.opener ++ x)) with
    | none => rfl
    | some t'' =>
      have := readBy?_before hu ho hr (t.gap ++ t.keyword.text ++ rest)
      have hno := hno q u e hu
      rw [Token.text, List.append_assoc, List.append_assoc] at hno
      rw [List.append_assoc, hno] at this
      cases this

end Token

end Marginalia
