import Marginalia.Proofs.Numerals
import Marginalia.Summary.Toml
import Marginalia.Toml.Reader

/-!
# Values that are written are read again

A string of one line is read back exactly when its characters are `isLine`, a body written over
several lines exactly when they are `isBody` (`spells_quote`, `spells_quoteLines`): the writer
escapes some control characters, and the reader takes no others. An integer is read back when it
has no more digits than a numeral may have (`spells_ofInt`).
-/

namespace Marginalia.Toml

/-! ## Strings of one line -/

/-- No control characters but those that are escaped in a string of one line. -/
def isLine (s : Text) : Bool := s.all fun c => !isControl c || c == '\n' || c == '\r'

/-- No control characters but those that may stand in a string of several lines. -/
def isBody (s : Text) : Bool := s.all fun c => !isIllegal true c

theorem prepend_ite (s body rest : Text) (b : Bool) (e : Fault) :
    prepend s (if b then .ok (body, rest) else .error e) =
      if b then .ok (s ++ body, rest) else .error e := by
  cases b <;> rfl

/-- A character of a string of one line, as it is written, is read as itself. -/
theorem basicBody_escaped (c : Char) (fuel : Nat) (r : Text) :
    basicBody false (fuel + 1) (escaped c ++ r) =
      if isLine [c] then prepend [c] (basicBody false fuel r) else .error .malformed := by
  have hescape (d e : Char) (h : escape false (d :: r) = .ok ([e], r)) :
      basicBody false (fuel + 1) ('\\' :: d :: r) = prepend [e] (basicBody false fuel r) := by
    simp [basicBody, h]
  by_cases hback : c = '\\'
  · subst hback; exact hescape _ _ rfl
  by_cases hquote : c = '"'
  · subst hquote; exact hescape _ _ rfl
  by_cases hfeed : c = '\n'
  · subst hfeed; exact hescape _ _ rfl
  by_cases hreturn : c = '\r'
  · subst hreturn; exact hescape _ _ rfl
  by_cases htab : c = '\t'
  · subst htab; exact hescape _ _ rfl
  cases hcontrol : isControl c <;>
    simp [escaped, basicBody, isIllegal, isLine, hback, hquote, hfeed, hreturn, htab, hcontrol]

theorem isLine_cons (c : Char) (s : Text) : isLine (c :: s) = (isLine [c] && isLine s) := by
  simp [isLine]

theorem basicBody_line {s : Text} {fuel : Nat} (h : s.length < fuel) (rest : Text) :
    basicBody false fuel (s.flatMap escaped ++ '"' :: rest) =
      if isLine s then .ok (s, rest) else .error .malformed := by
  induction s generalizing fuel with
  | nil =>
    obtain ⟨fuel, rfl⟩ := Nat.exists_eq_add_of_lt h
    simp [basicBody, isLine]
  | cons c s ih =>
    obtain ⟨fuel, rfl⟩ := Nat.exists_eq_succ_of_ne_zero (Nat.ne_zero_of_lt h)
    rw [List.flatMap_cons, List.append_assoc, basicBody_escaped,
      ih (Nat.lt_of_succ_lt_succ h), prepend_ite, isLine_cons c s]
    cases isLine [c] <;> rfl

/-! ## Strings of several lines -/

theorem extraMarks_prepend (mark : Char) (s : Text) (read : Read Text) :
    extraMarks mark (prepend s read) = prepend s (extraMarks mark read) := by
  cases read with
  | error e => rfl
  | ok r => simp [extraMarks, prepend, Except.map]

theorem escapedBody_cons {c : Char} (h : c ≠ '"') (r : Text) :
    ∃ d s, escapedBody (c :: r) = d :: s ∧ d ≠ '"' := by
  by_cases hback : c = '\\'
  · subst hback
    exact ⟨_, _, rfl, by decide⟩
  · exact ⟨c, escapedBody r, by rw [escapedBody] <;> simp_all, h⟩

/-- A mark that does not start three of them stands for itself, unless the string ends with it. -/
theorem no_marks_after_mark {r : Text} (h : ∀ s, r ≠ '"' :: '"' :: s) (hone : r ≠ [])
    (htwo : r ≠ ['"']) (rest : Text) :
    Text.dropMark? ['"', '"'] (escapedBody r ++ rest) = none := by
  match r with
  | [] => exact absurd rfl hone
  | c :: r =>
    by_cases hc : c = '"'
    · subst hc
      match r with
      | [] => exact absurd rfl htwo
      | d :: r =>
        have hd : d ≠ '"' := fun e => h r (by rw [e])
        obtain ⟨e, s, he, hne⟩ := escapedBody_cons hd r
        rw [escapedBody.eq_3 _ _ (by simp [hd]) (by simp), he]
        simp [Text.dropMark?, Ne.symm hne]
    · obtain ⟨e, s, he, hne⟩ := escapedBody_cons hc r
      rw [he]
      simp [Text.dropMark?, Ne.symm hne]

theorem isBody_cons (c : Char) (s : Text) : isBody (c :: s) = (isBody [c] && isBody s) := by
  simp [isBody]

/-- A body up to its closing marks. One or two marks at its end stand right before those. -/
theorem basicBody_body {s : Text} {fuel : Nat} (h : s.length < fuel) (rest : Text) :
    extraMarks '"' (basicBody true fuel (escapedBody s ++ '"' :: '"' :: '"' :: '\n' :: rest)) =
      if isBody s then .ok (s, '\n' :: rest) else .error .malformed := by
  fun_induction escapedBody s generalizing fuel with
  | case1 r ih =>
    obtain ⟨fuel, rfl⟩ : ∃ k, fuel = k + 3 := ⟨fuel - 3, by simp at h; omega⟩
    have hstep (k : Nat) (t : Text) :
        basicBody true (k + 1) ('\\' :: '"' :: t) = prepend ['"'] (basicBody true k t) := rfl
    simp only [List.cons_append, hstep, extraMarks_prepend]
    rw [ih (by simp at h; omega), prepend_ite, prepend_ite, prepend_ite]
    rfl
  | case2 r ih =>
    obtain ⟨fuel, rfl⟩ := Nat.exists_eq_succ_of_ne_zero (Nat.ne_zero_of_lt h)
    have hstep (t : Text) : basicBody true (fuel + 1) ('\\' :: '\\' :: t) =
        prepend ['\\'] (basicBody true fuel t) := rfl
    have hbody : isBody ('\\' :: r) = isBody r := rfl
    rw [List.cons_append, List.cons_append, hstep, extraMarks_prepend,
      ih (Nat.lt_of_succ_lt_succ h), prepend_ite, hbody]
    rfl
  | case3 c r hmarks hback ih =>
    obtain ⟨fuel, rfl⟩ := Nat.exists_eq_succ_of_ne_zero (Nat.ne_zero_of_lt h)
    by_cases hc : c = '"'
    · subst hc
      by_cases hone : r = []
      · subst hone; rfl
      by_cases htwo : r = ['"']
      · subst htwo; rfl
      have hnone := no_marks_after_mark (by simpa using hmarks) hone htwo
        ('"' :: '"' :: '"' :: '\n' :: rest)
      have hbody : isBody ('"' :: r) = isBody r := rfl
      rw [List.cons_append, basicBody]
      simp only [hnone, if_true, extraMarks_prepend, ih (Nat.lt_of_succ_lt_succ h), hbody,
        prepend_ite]
      rfl
    · have hback : c ≠ '\\' := hback
      rw [List.cons_append, basicBody, isBody_cons]
      simp only [hc, hback, if_false]
      cases hillegal : isIllegal true c with
      | true => simp [isBody, hillegal, extraMarks, Except.map]
      | false =>
        have hbody : isBody [c] = true := by simp [isBody, hillegal]
        simp only [hbody, Bool.true_and, Bool.false_eq_true, if_false, extraMarks_prepend,
          ih (Nat.lt_of_succ_lt_succ h), prepend_ite]
        rfl
  | case4 =>
    obtain ⟨fuel, rfl⟩ := Nat.exists_eq_succ_of_ne_zero (Nat.ne_zero_of_lt h)
    rfl

/-! ## Values of a line -/

/-- A written value that is read as `r` wherever a line feed follows it. -/
structure Spells (v : Text) (r : Except Fault Value) : Prop where
  start : ∃ c s, v = c :: s ∧ isSpace c = false
  reads : ∀ room fuel rest,
    value room (fuel + 1) (v ++ '\n' :: rest) = r.map fun x => (x, '\n' :: rest)

theorem value_mark (room fuel : Nat) (r : Text) :
    value room (fuel + 1) ('"' :: r) = string '"' r := by
  simp [value]

theorem escaped_cons (c : Char) : ∃ d r, escaped c = d :: r ∧ d ≠ '"' := by
  by_cases hquote : c = '"'
  · exact ⟨'\\', ['"'], by rw [hquote]; rfl, by decide⟩
  · unfold escaped
    split_ifs <;> first | exact ⟨_, _, rfl, by decide⟩ | exact ⟨_, _, rfl, hquote⟩

theorem length_le_escaped (s : Text) : s.length ≤ (s.flatMap escaped).length := by
  induction s with
  | nil => simp
  | cons c s ih =>
    obtain ⟨d, r, hd, -⟩ := escaped_cons c
    rw [List.flatMap_cons, hd, List.length_append, List.length_cons, List.length_cons]
    omega

theorem length_le_escapedBody (s : Text) : s.length ≤ (escapedBody s).length := by
  fun_induction escapedBody s with
  | case4 => exact Nat.le_refl 0
  | _ => simp only [List.length_cons]; omega

/-- A string of one line is never taken for the opening marks of one of several. -/
theorem one_line_of_quote (s rest : Text) :
    Text.dropMark? ['"', '"'] (s.flatMap escaped ++ '"' :: '\n' :: rest) = none := by
  cases s with
  | nil => rfl
  | cons c s =>
    obtain ⟨d, r, hd, hne⟩ := escaped_cons c
    simp [hd, Text.dropMark?, Ne.symm hne]

/-- What a string written on one line is read as. -/
def readLine (s : Text) : Except Fault Value :=
  if isLine s then .ok (.string s) else .error .malformed

theorem spells_quote (s : Text) : Spells (quote s) (readLine s) where
  start := ⟨'"', _, rfl, by decide⟩
  reads room fuel rest := by
    have hquote : quote s ++ '\n' :: rest = '"' :: (s.flatMap escaped ++ '"' :: '\n' :: rest) := by
      simp [quote]
    have hfuel : s.length < (s.flatMap escaped ++ '"' :: '\n' :: rest).length := by
      have := length_le_escaped s
      rw [List.length_append, List.length_cons]
      omega
    rw [hquote, value_mark]
    simp only [string, one_line_of_quote, oneLine, if_true, basicBody_line hfuel, readLine]
    cases isLine s <;> rfl

/-- What a string written over several lines is read as. -/
def readBody (s : Text) : Except Fault Value :=
  if isBody s then .ok (.string s) else .error .malformed

theorem spells_quoteLines (s : Text) : Spells (quoteLines s) (readBody s) where
  start := ⟨'"', _, rfl, by decide⟩
  reads room fuel rest := by
    let body := escapedBody s ++ '"' :: '"' :: '"' :: '\n' :: rest
    have hquote : quoteLines s ++ '\n' :: rest = '"' :: '"' :: '"' :: '\n' :: body := by
      simp [quoteLines, body]
    have hfuel : s.length < body.length := by
      have := length_le_escapedBody s
      rw [List.length_append, List.length_cons]
      omega
    have hread : extraMarks '"' (basicBody true body.length body) = _ := basicBody_body hfuel rest
    have hmark (t : Text) : Text.dropMark? ['"', '"'] ('"' :: '"' :: t) = some t := rfl
    rw [hquote, value_mark]
    simp only [string, hmark, severalLines, dropFeed, if_true, hread, readBody]
    cases isBody s <;> rfl

/-! ## Integers -/

section Digits

variable {ds rest : Text} (hds : ∀ c ∈ ds, isAsciiDigit c = true)
include hds

theorem runDigits_append (rest : Text) :
    runDigits isAsciiDigit (ds ++ '\n' :: rest) = (ds, '\n' :: rest) := by
  induction ds with
  | nil => rfl
  | cons c ds ih =>
    have hc := hds c (List.mem_cons_self ..)
    have hscore : c ≠ '_' := isAsciiDigit_ne hc (by decide)
    rw [List.cons_append, runDigits.eq_4 _ _ _ (by simp [hscore]) (by simp [hscore])]
    simp [hc, ih fun d hd => hds d (List.mem_cons_of_mem _ hd)]

/-- No mark stands among the digits of a run. -/
theorem mark_after_digits {n v : Nat} {c m : Char} {s : Text} (hn : 0 < n)
    (hc : isAsciiDigit c = false) (hm : isAsciiDigit m = false) (hcm : ds ≠ [] → c ≠ m)
    (h : digits? n (ds ++ c :: rest) = some (v, s)) : mark? m s = none := by
  unfold digits? at h
  obtain ⟨hall, hs⟩ := Option.ite_none_right_eq_some.mp h
  simp only [Bool.and_eq_true, decide_eq_true_eq, List.all_eq_true] at hall
  obtain ⟨-, rfl⟩ := Prod.mk.inj (Option.some.inj hs)
  have hle : n ≤ ds.length := by
    by_contra hlt
    have hmem : c ∈ (ds ++ c :: rest).take n := by
      rw [List.take_append]
      refine List.mem_append_right _ ?_
      rw [show n - ds.length = (n - ds.length - 1) + 1 by omega, List.take_succ_cons]
      exact List.mem_cons_self ..
    have := hall.2 c hmem
    rw [hc] at this
    cases this
  rw [List.drop_append_of_le_length hle]
  cases hd : ds.drop n with
  | nil =>
    have hne : ds ≠ [] := fun e => by rw [e, List.length_nil] at hle; omega
    simp [mark?, Text.dropMark?, Ne.symm (hcm hne)]
  | cons d r =>
    have hdigit := hds d (List.mem_of_mem_drop (by rw [hd]; exact List.mem_cons_self ..))
    simp [mark?, Text.dropMark?, Ne.symm (isAsciiDigit_ne hdigit hm)]

theorem radixInteger?_append : radixInteger? (ds ++ '\n' :: rest) = none := by
  have hradix {c : Char} (h : isAsciiDigit c = true) : radixOf c = none := by
    unfold radixOf
    split <;> first | rfl | exact absurd h (by decide)
  match ds, hds with
  | [], _ => rfl
  | [c], _ =>
    unfold radixInteger?
    split
    next hcons =>
      obtain ⟨-, h⟩ := List.cons.inj hcons
      obtain ⟨rfl, -⟩ := List.cons.inj h
      rfl
    next => rfl
  | c :: d :: ds, hds =>
    unfold radixInteger?
    split
    next hcons =>
      obtain ⟨-, h⟩ := List.cons.inj hcons
      obtain ⟨rfl, -⟩ := List.cons.inj h
      rw [hradix (hds _ (by simp)), Option.bind_none]
    next => rfl

theorem date?_append {c : Char} (hc : isAsciiDigit c = false) (hcm : ds ≠ [] → c ≠ '-') :
    date? (ds ++ c :: rest) = none := by
  cases h : digits? 4 (ds ++ c :: rest) with
  | none => simp [date?, h]
  | some r =>
    have := mark_after_digits hds (by decide) hc (by decide) hcm h
    simp [date?, h, this]

theorem clock?_append {c : Char} (hc : isAsciiDigit c = false) (hcm : ds ≠ [] → c ≠ ':') :
    clock? (ds ++ c :: rest) = none := by
  cases h : digits? 2 (ds ++ c :: rest) with
  | none => simp [clock?, h]
  | some r =>
    have := mark_after_digits hds (by decide) hc (by decide) hcm h
    simp [clock?, h, this]

end Digits

theorem ofNat_cons (n : Nat) : ∃ c s, Numeral.ofNat n = c :: s ∧ isAsciiDigit c = true := by
  obtain ⟨c, s, hs⟩ := List.exists_cons_of_ne_nil (Numeral.ofNat_ne_nil n)
  exact ⟨c, s, hs, Numeral.isAsciiDigit_of_mem_ofNat (by rw [hs]; exact List.mem_cons_self ..)⟩

theorem ofInt_cons (n : Int) : ∃ c s, Numeral.ofInt n = c :: s ∧
    ∀ d, isAsciiDigit d = false → d ≠ '-' → c ≠ d := by
  cases n with
  | ofNat n =>
    obtain ⟨c, s, hs, hc⟩ := ofNat_cons n
    exact ⟨c, s, hs, fun d hd _ => isAsciiDigit_ne hc hd⟩
  | negSucc n => exact ⟨'-', Numeral.ofNat (n + 1), rfl, fun d _ hd => hd.symm⟩

theorem wholeDigits_ofNat (n : Nat) (rest : Text) :
    wholeDigits (Numeral.ofNat n ++ '\n' :: rest) = (Numeral.ofNat n, '\n' :: rest) := by
  by_cases hn : n = 0
  · subst hn
    rfl
  · have hrun := runDigits_append (fun c h => Numeral.isAsciiDigit_of_mem_ofNat (n := n) h) rest
    have hzero := Numeral.head?_ofNat hn
    obtain ⟨c, ds, hcons, hc⟩ := ofNat_cons n
    have hscore : c ≠ '_' := isAsciiDigit_ne hc (by decide)
    rw [hcons, List.head?_cons] at hzero
    rw [hcons, List.cons_append] at hrun ⊢
    unfold wholeDigits
    split
    next h => exact absurd (congrArg some (List.cons.inj h).1) hzero
    next => simp [run, hscore, hrun]

theorem sign_ofInt (n : Int) (rest : Text) :
    Numeral.sign (Numeral.ofInt n ++ rest) =
      (if n < 0 then -1 else 1, Numeral.ofNat n.natAbs ++ rest) := by
  cases n with
  | ofNat n =>
    obtain ⟨c, ds, hn, hc⟩ := ofNat_cons n
    have hplus : c ≠ '+' := isAsciiDigit_ne hc (by decide)
    have hminus : c ≠ '-' := isAsciiDigit_ne hc (by decide)
    have hpos : ¬ Int.ofNat n < 0 := by simp
    simp only [Numeral.ofInt, hpos, if_false, Int.natAbs_ofNat', hn, List.cons_append]
    unfold Numeral.sign
    split
    next h => exact absurd (List.cons.inj h).1 hplus
    next h => exact absurd (List.cons.inj h).1 hminus
    next => rfl
  | negSucc n => simp [Numeral.ofInt, Numeral.sign, Int.negSucc_lt_zero]

/-- What a written integer is read as. -/
def readInteger (n : Int) : Except Fault Value :=
  if n.natAbs < 10 ^ Numeral.limit then .ok (.integer n)
  else .error (.excess (.digits (Numeral.ofNat n.natAbs).length))

theorem decimal?_ofInt (n : Int) (rest : Text) :
    decimal? (Numeral.ofInt n ++ '\n' :: rest) =
      some ((readInteger n).map fun x => (x, '\n' :: rest)) := by
  have hempty : (Numeral.ofNat n.natAbs).isEmpty = false := by simp [Numeral.ofNat_ne_nil]
  have hfraction : fraction ('\n' :: rest) = ([], '\n' :: rest) := rfl
  have hexponent : exponent ('\n' :: rest) = (none, '\n' :: rest) := rfl
  have hvalue : (if n < 0 then -1 else 1) * (n.natAbs : Int) = n := by split_ifs <;> omega
  have hlimit : Numeral.limit < (Numeral.ofNat n.natAbs).length ↔
      ¬ n.natAbs < 10 ^ Numeral.limit := by
    rw [← Numeral.length_ofNat_le_iff (by decide)]
    exact Nat.not_le.symm
  unfold decimal? readInteger
  simp only [sign_ofInt, wholeDigits_ofNat, hempty, hfraction, hexponent, hlimit,
    Numeral.value_ofNat, hvalue]
  by_cases h : n.natAbs < 10 ^ Numeral.limit <;> simp [h, Except.map]

/-- No other reader than the one of decimal numbers takes a written integer. -/
theorem bare_ofInt (n : Int) (rest : Text) :
    bare (Numeral.ofInt n ++ '\n' :: rest) = (readInteger n).map fun x => (x, '\n' :: rest) := by
  have hdigits (k : Nat) : ∀ c ∈ Numeral.ofNat k, isAsciiDigit c = true :=
    fun _ => Numeral.isAsciiDigit_of_mem_ofNat
  have hothers : date? (Numeral.ofInt n ++ '\n' :: rest) = none ∧
      clock? (Numeral.ofInt n ++ '\n' :: rest) = none ∧
      radixInteger? (Numeral.ofInt n ++ '\n' :: rest) = none := by
    cases n with
    | ofNat k =>
      exact ⟨date?_append (hdigits k) (by decide) (fun _ => by decide),
        clock?_append (hdigits k) (by decide) (fun _ => by decide),
        radixInteger?_append (hdigits k)⟩
    | negSucc k =>
      have hnone : ∀ c ∈ ([] : Text), isAsciiDigit c = true := by simp
      exact ⟨date?_append hnone (by decide) (fun h => absurd rfl h),
        clock?_append hnone (by decide) (fun h => absurd rfl h), rfl⟩
  have hboolean : boolean? (Numeral.ofInt n ++ '\n' :: rest) = none := by
    obtain ⟨c, s, hs, hne⟩ := ofInt_cons n
    have htrue := (hne 't' (by decide) (by decide)).symm
    have hfalse := (hne 'f' (by decide) (by decide)).symm
    simp [boolean?, hs, Text.dropMark?, htrue, hfalse]
  obtain ⟨hdate, hclock, hradix⟩ := hothers
  simp [bare, dateTime?, time?, hboolean, hdate, hclock, hradix, decimal?_ofInt]

theorem spells_ofInt (n : Int) : Spells (Numeral.ofInt n) (readInteger n) where
  start := by
    obtain ⟨c, s, hs, hne⟩ := ofInt_cons n
    have hblank := hne ' ' (by decide) (by decide)
    have htab := hne '\t' (by decide) (by decide)
    exact ⟨c, s, hs, by simp [isSpace, hblank, htab]⟩
  reads room fuel rest := by
    rw [← bare_ofInt]
    obtain ⟨c, s, hs, hne⟩ := ofInt_cons n
    have hquote : c ≠ '"' := hne _ (by decide) (by decide)
    have hsingle : c ≠ '\'' := hne _ (by decide) (by decide)
    have hlist : c ≠ '[' := hne _ (by decide) (by decide)
    have htable : c ≠ '\x7b' := hne _ (by decide) (by decide)
    simp [hs, value, hquote, hsingle, hlist, htable]

end Marginalia.Toml
