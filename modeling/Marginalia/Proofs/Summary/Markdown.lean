import Marginalia.Proofs.Numerals
import Marginalia.Proofs.Text.Lines
import Marginalia.Summary.Markdown

/-!
# Bodies stay in their fences

In a body that is written into a summary every three backquotes have a zero width space or a
backquote before them (`before_fenceMark`), so that no line of it opens or closes a fence
(`not_isFence_fenced`). The spaces can be taken out again (`unfenced_fenced`).

The writer appends whole lines, so the fences of a summary are those of its parts
(`Summary.fences_markdown`). Its other lines start with words of its own and are no fences
(`Text.Fenceless`) as long as the strings in them have no line ends (`Summary.Lined`).
-/

namespace Marginalia

/-- A line that opens or closes a fence: it starts with three backquotes, after blank characters or
none. -/
def isFence (l : Text) : Bool := fenceMark.isPrefixOf (Text.trimStart l)

/-- The lines of a text that open or close a fence, in order. -/
def fences (s : Text) : List Text := (Text.lines s).filter isFence

/-- Without one zero width space before every three backquotes, from left to right. -/
def unfenced : Text → Text
  | '\u200b' :: '\x60' :: '\x60' :: '\x60' :: r =>
    backquote :: backquote :: backquote :: unfenced r
  | c :: r => c :: unfenced r
  | [] => []

/-! ## Bodies in fences -/

variable {s pre post l : Text}

theorem fenced_cons {c : Char} {r : Text}
    (h : ∀ r', c = backquote → r = backquote :: backquote :: r' → False) :
    fenced (c :: r) = c :: fenced r := by
  rw [fenced]
  exact h

/-- A backquote at the start of an escaped body is from the body. -/
theorem eq_of_fenced {r : Text} (h : fenced s = backquote :: r) :
    ∃ s', s = backquote :: s' ∧ fenced s' = r := by
  cases s using fenced.induct with
  | case1 s => cases h
  | case2 c s hc =>
    rw [fenced_cons hc] at h
    obtain ⟨rfl, rfl⟩ := List.cons.inj h
    exact ⟨s, rfl, rfl⟩
  | case3 => cases h

/-- Three backquotes in an escaped body go on with a run or stand behind a zero width space. -/
theorem before_fenceMark (h : fenced s = pre ++ fenceMark ++ post) :
    pre.getLast? = some zeroWidthSpace ∨ pre.getLast? = some backquote := by
  induction s using fenced.induct generalizing pre with
  | case1 r ih =>
    have h' : (zeroWidthSpace :: fenceMark) ++ fenced r = pre ++ (fenceMark ++ post) := by
      rw [← List.append_assoc, ← h]
      rfl
    rcases List.append_eq_append_iff.mp h' with ⟨pre', rfl, hrest⟩ | ⟨rest, hblock, -⟩
    · have hlast := ih (hrest.trans (List.append_assoc ..).symm)
      rw [List.getLast?_append]
      exact hlast.imp (fun e => by rw [e]; rfl) (fun e => by rw [e]; rfl)
    · -- they start within what was put, and not at its first character
      cases hlast : pre.getLast? with
      | none => rw [List.getLast?_eq_none_iff.mp hlast] at h'; cases h'
      | some c =>
        have hc : c ∈ zeroWidthSpace :: fenceMark := by
          rw [hblock]
          exact List.mem_append_left _ (List.mem_of_getLast? hlast)
        simp only [fenceMark, List.mem_cons, List.not_mem_nil, or_false, or_self] at hc
        exact hc.imp (congrArg some) (congrArg some)
  | case2 c r hc ih =>
    rw [fenced_cons hc] at h
    cases pre with
    | nil =>
      -- the body would start with three backquotes itself
      obtain ⟨hfirst, hrest⟩ := List.cons.inj h
      obtain ⟨r₁, rfl, h₁⟩ := eq_of_fenced hrest
      obtain ⟨r₂, rfl, -⟩ := eq_of_fenced h₁
      exact absurd rfl (hc r₂ hfirst)
    | cons d pre =>
      obtain ⟨-, hrest⟩ := List.cons.inj h
      rw [List.getLast?_cons]
      rcases ih hrest with hlast | hlast
      · exact .inl (by rw [hlast, Option.getD_some])
      · exact .inr (by rw [hlast, Option.getD_some])
  | case3 => simp [fenced, fenceMark] at h

/-- Before every run of three backquotes or more there is a zero width space. -/
theorem before_run {n : Nat} (hn : 3 ≤ n) (h : fenced s = pre ++ List.replicate n backquote ++ post)
    (hstart : pre.getLast? ≠ some backquote) : pre.getLast? = some zeroWidthSpace := by
  obtain ⟨k, rfl⟩ := Nat.exists_eq_add_of_le hn
  rw [List.replicate_add, ← List.append_assoc, List.append_assoc] at h
  exact (before_fenceMark h).resolve_right hstart

/-! ## Taking the spaces out again -/

theorem unfenced_cons {c : Char} {r : Text}
    (h : ∀ r', c = zeroWidthSpace → r = backquote :: backquote :: backquote :: r' → False) :
    unfenced (c :: r) = c :: unfenced r := by
  rw [unfenced]
  exact h

theorem unfenced_fenced (s : Text) : unfenced (fenced s) = s := by
  induction s using fenced.induct with
  | case1 r ih =>
    rw [fenced]
    exact congrArg (fun u => backquote :: backquote :: backquote :: u) ih
  | case2 c r hc ih =>
    rw [fenced_cons hc, unfenced_cons, ih]
    -- three backquotes behind a character of the body would be three of the body
    intro r' _ hr
    obtain ⟨r₁, rfl, h₁⟩ := eq_of_fenced hr
    obtain ⟨r₂, rfl, h₂⟩ := eq_of_fenced h₁
    obtain ⟨r₃, rfl, -⟩ := eq_of_fenced h₂
    cases hr
  | case3 => rfl

/-- Between pieces of the body that are joined by three backquotes, the escaped body has the same
pieces with a space before each three. -/
theorem fenced_pieces (s : Text) : ∃ pieces, pieces ≠ [] ∧ s = Text.join fenceMark pieces ∧
    fenced s = Text.join (zeroWidthSpace :: fenceMark) pieces := by
  induction s using fenced.induct with
  | case1 r ih =>
    obtain ⟨pieces, hne, hr, hfenced⟩ := ih
    obtain ⟨p, ps, rfl⟩ := List.exists_cons_of_ne_nil hne
    refine ⟨[] :: p :: ps, List.cons_ne_nil _ _, ?_, ?_⟩
    · show fenceMark ++ r = [] ++ fenceMark ++ Text.join fenceMark (p :: ps)
      rw [← hr]
      rfl
    · show zeroWidthSpace :: fenceMark ++ fenced r =
        [] ++ (zeroWidthSpace :: fenceMark) ++ Text.join (zeroWidthSpace :: fenceMark) (p :: ps)
      rw [← hfenced]
      rfl
  | case2 c r hc ih =>
    obtain ⟨pieces, hne, hr, hfenced⟩ := ih
    obtain ⟨p, ps, rfl⟩ := List.exists_cons_of_ne_nil hne
    have hcons : ∀ mark : Text, c :: Text.join mark (p :: ps) = Text.join mark ((c :: p) :: ps) :=
      fun mark => by cases ps <;> rfl
    refine ⟨(c :: p) :: ps, List.cons_ne_nil _ _, ?_, ?_⟩
    · rw [← hcons, ← hr]
    · rw [fenced_cons hc, ← hcons, ← hfenced]
  | case3 => exact ⟨[[]], List.cons_ne_nil _ _, rfl, rfl⟩

/-! ## Lines of an escaped body -/

theorem eq_of_isFence (h : isFence l = true) :
    ∃ gap rest, l = gap ++ fenceMark ++ rest ∧ ∀ c ∈ gap, isBlank c = true := by
  obtain ⟨rest, hrest⟩ := List.isPrefixOf_iff_prefix.mp h
  refine ⟨l.takeWhile isBlank, rest, ?_, fun c hc => List.mem_takeWhile_imp hc⟩
  rw [List.append_assoc, hrest, Text.trimStart, List.takeWhile_append_dropWhile]

/-- A line that opens or closes a fence has its backquotes at the start or behind a blank. -/
theorem fence_place (hl : l ∈ Text.lines s) (h : isFence l = true) :
    ∃ pre post, s = pre ++ fenceMark ++ post ∧ ∀ c, pre.getLast? = some c → isBlank c = true := by
  obtain ⟨gap, rest, rfl, hgap⟩ := eq_of_isFence h
  have hblank : ∀ c, gap.getLast? = some c → isBlank c = true := fun c hc =>
    hgap c (List.mem_of_getLast? hc)
  cases hlines : Text.lines s with
  | nil => rw [hlines] at hl; cases hl
  | cons m ms =>
    obtain ⟨⟨t, hfirst⟩, hmore⟩ := Text.lines_places hlines
    rw [hlines] at hl
    rcases List.mem_cons.mp hl with rfl | hl
    · exact ⟨gap, rest ++ t, by rw [← hfirst]; simp, hblank⟩
    · obtain ⟨a, c, b, e, hc⟩ := hmore _ hl
      refine ⟨a ++ c :: gap, rest ++ b, by rw [e]; simp, fun d hd => ?_⟩
      rw [List.getLast?_append, List.getLast?_cons, Option.some_or] at hd
      cases hg : gap.getLast? with
      | none =>
        rw [hg] at hd
        exact Option.some.inj hd ▸ Text.isBlank_of_isLineEnd hc
      | some e =>
        rw [hg] at hd
        exact Option.some.inj hd ▸ hblank e hg

/-- No line of an escaped body, the last one included, opens or closes a fence. -/
theorem not_isFence_fenced (hl : l ∈ Text.lines (fenced s ++ ['\n'])) : isFence l = false := by
  by_contra hfence
  obtain ⟨pre, post, h, hpre⟩ := fence_place hl (by simpa using hfence)
  obtain ⟨post, rfl⟩ : ∃ post', post = post' ++ ['\n'] := by
    cases post using List.reverseRecOn with
    | nil =>
      have hlast := congrArg List.getLast? h
      simp [fenceMark] at hlast
      exact absurd hlast (by decide)
    | append_singleton post c =>
      rw [← List.append_assoc] at h
      obtain ⟨-, hc⟩ := List.append_inj' h rfl
      exact ⟨post, by rw [hc]⟩
  rw [← List.append_assoc, List.append_cancel_right_eq] at h
  rcases before_fenceMark h with hlast | hlast
  · exact absurd (hpre _ hlast) (by decide)
  · exact absurd (hpre _ hlast) (by decide)

/-! ## Texts of whole lines -/

namespace Text

/-- A text that a line feed ends. -/
def Ended (s : Text) : Prop := ∃ r, s = r ++ ['\n']

theorem Ended.append_left {s : Text} (h : Ended s) (t : Text) : Ended (t ++ s) := by
  obtain ⟨r, rfl⟩ := h
  exact ⟨t ++ r, (List.append_assoc ..).symm⟩

theorem Ended.lines_append {s : Text} (h : Ended s) (t : Text) :
    lines (s ++ t) = lines s ++ lines t := by
  obtain ⟨r, rfl⟩ := h
  rw [List.append_assoc, List.singleton_append, lines_append_cons_newline]

theorem lines_flatMap {α : Type} {f : α → Text} {xs : List α} (h : ∀ x ∈ xs, Ended (f x)) :
    lines (xs.flatMap f) = xs.flatMap fun x => lines (f x) := by
  induction xs with
  | nil => rfl
  | cons x xs ih =>
    rw [List.forall_mem_cons] at h
    rw [List.flatMap_cons, List.flatMap_cons, h.1.lines_append, ih h.2]

end Text

theorem fences_append (h : Text.Ended s) (t : Text) : fences (s ++ t) = fences s ++ fences t := by
  rw [fences, h.lines_append, List.filter_append, fences, fences]


/-- A line that is no fence, in front of others. -/
theorem fences_line (hone : Text.OneLine l) (hno : isFence l = false) (s : Text) :
    fences (l ++ '\n' :: s) = fences s := by
  rw [fences, Text.lines_append_newline hone, List.filter_cons, hno, fences]
  rfl

/-- No line that starts with these characters is a fence: the first is neither blank nor a
backquote. -/
def opensPlain (k : Text) : Bool := k.head?.any fun c => !isBlank c && c != backquote

theorem not_isFence_of_opensPlain {k : Text} (h : opensPlain k = true) (v : Text) :
    isFence (k ++ v) = false := by
  cases k with
  | nil => cases h
  | cons c k =>
    simp only [opensPlain, List.head?_cons, Option.any_some, Bool.and_eq_true, Bool.not_eq_true',
      bne_iff_ne, ne_eq] at h
    have hne : (backquote == c) = false := by simpa using fun e => h.2 e.symm
    rw [isFence, Text.trimStart, List.cons_append, List.dropWhile_cons_of_neg (by simp [h.1])]
    show (backquote == c && _) = false
    rw [hne, Bool.false_and]

/-! ## Sections -/

namespace Entry

/-- The section of a fragment up to its content. -/
def heading (e : Entry) : Text :=
  "## ".toList ++ e.id ++ " (".toList ++ e.category ++ ")\n\n".toList ++
    "Fragment: [".toList ++ e.relativePath ++ "](".toList ++ e.path.link none ++ ")\n\n".toList ++
    "Occurrences (".toList ++ Numeral.ofNat e.occurrences.length ++ "):\n".toList ++
    e.occurrenceItems

theorem markdown_eq (e : Entry) : e.markdown = e.heading ++ e.content := rfl

def hasBody (e : Entry) : Bool := !(Text.trim e.body).isEmpty

theorem occurrenceItems_ended (e : Entry) : Text.Ended e.occurrenceItems := by
  unfold occurrenceItems
  split
  · exact ⟨"- none\n".toList, rfl⟩
  · exact ⟨_, rfl⟩

theorem heading_ended (e : Entry) : Text.Ended e.heading := e.occurrenceItems_ended.append_left _

end Entry

/-! ## Contents -/

/-- The line that opens the fence of a body. -/
def openingLine : Text := fenceMark ++ "markdown".toList

namespace Entry

theorem content_of_hasBody {e : Entry} (h : e.hasBody = true) :
    e.content = ("Content:\n\n".toList ++ openingLine ++ ['\n']) ++
      ((fenced e.body ++ ['\n']) ++ (fenceMark ++ "\n\n".toList)) := by
  unfold content
  rw [if_neg (by simpa [hasBody] using h)]
  simp [openingLine]

theorem content_of_no_body {e : Entry} (h : e.hasBody = false) :
    e.content = "Content: (empty)\n\n".toList := by
  unfold content
  rw [if_pos (by simpa [hasBody] using h)]

theorem content_ended (e : Entry) : Text.Ended e.content := by
  cases h : e.hasBody with
  | true =>
    have hclosing : Text.Ended (fenceMark ++ "\n\n".toList) := ⟨fenceMark ++ ['\n'], rfl⟩
    rw [content_of_hasBody h]
    exact (hclosing.append_left _).append_left _
  | false =>
    rw [content_of_no_body h]
    exact ⟨"Content: (empty)\n".toList, rfl⟩

/-- The lines of a content with a body: between the one that opens the fence and the one that closes
it are those of the escaped body. -/
theorem lines_content {e : Entry} (h : e.hasBody = true) : Text.lines e.content =
    ["Content:".toList, [], openingLine] ++ Text.lines (fenced e.body ++ ['\n']) ++
      [fenceMark, []] := by
  have hopening : Text.Ended ("Content:\n\n".toList ++ openingLine ++ ['\n']) := ⟨_, rfl⟩
  have hbody : Text.Ended (fenced e.body ++ ['\n']) := ⟨_, rfl⟩
  rw [content_of_hasBody h, hopening.lines_append, hbody.lines_append, ← List.append_assoc]
  rfl

/-- The fence of a body, none when there is no body. -/
def fence (e : Entry) : List Text := if e.hasBody then [openingLine, fenceMark] else []

theorem fences_content (e : Entry) : fences e.content = e.fence := by
  cases h : e.hasBody with
  | true =>
    have hinside : (Text.lines (fenced e.body ++ ['\n'])).filter isFence = [] :=
      List.filter_eq_nil_iff.mpr fun l hl => by simp [not_isFence_fenced hl]
    rw [fences, lines_content h, List.filter_append, List.filter_append, hinside, fence, if_pos h]
    decide
  | false =>
    rw [content_of_no_body h, fence, h]
    decide

theorem fences_markdown (e : Entry) : fences e.markdown = fences e.heading ++ e.fence := by
  rw [markdown_eq, fences_append e.heading_ended, fences_content]

end Entry

/-! ## Summaries -/

/-- A summary up to its sections. -/
def Summary.title (s : Summary) : Text :=
  "# Summary for set: ".toList ++ s.set ++ "\n\n".toList ++
    "Generated: ".toList ++ s.generated ++ "\n\n".toList ++
    "Total fragments: ".toList ++ Numeral.ofNat s.entries.length ++ "\n\n".toList

/-- Each section starts on a line of its own. -/
theorem Summary.lines_markdown (s : Summary) : Text.lines s.markdown =
    Text.lines s.title ++ s.entries.flatMap fun e => Text.lines e.markdown := by
  have htitle : Text.Ended s.title :=
    Text.Ended.append_left (s := "\n\n".toList) ⟨['\n'], rfl⟩ _
  show Text.lines (s.title ++ s.entries.flatMap Entry.markdown) = _
  rw [htitle.lines_append, Text.lines_flatMap fun e _ => e.content_ended.append_left e.heading]

/-- The fences of a summary are those of its bodies, and what is taken for one in other strings. -/
theorem Summary.fences_markdown (s : Summary) : fences s.markdown =
    fences s.title ++ s.entries.flatMap fun e => fences e.heading ++ e.fence := by
  rw [fences, s.lines_markdown, List.filter_append, List.filter_flatMap]
  exact congrArg (fences s.title ++ List.flatMap · s.entries) (funext Entry.fences_markdown)

/-! ## Strings of one line -/

theorem Text.OneLine.join {mark : Text} {ss : List Text} (hm : Text.OneLine mark)
    (h : ∀ s ∈ ss, Text.OneLine s) : Text.OneLine (Text.join mark ss) := by
  induction ss with
  | nil => exact fun _ hc => by cases hc
  | cons s ss ih =>
    obtain ⟨hs, hss⟩ := List.forall_mem_cons.mp h
    cases ss with
    | nil => exact hs
    | cons r ss => exact (hs.append hm).append (ih hss)

theorem Text.OneLine.replaceChar {c : Char} {code s : Text} (h : Text.OneLine s)
    (hcode : Text.OneLine code) : Text.OneLine (Text.replaceChar c code s) := by
  intro d hd
  obtain ⟨e, he, hd⟩ := List.mem_flatMap.mp hd
  split at hd
  · exact hcode d hd
  · rw [List.mem_singleton.mp hd]
    exact h e he

theorem Numeral.oneLine_ofNat (n : Nat) : Text.OneLine (Numeral.ofNat n) := fun _ hc =>
  isAsciiDigit_not_lineEnd (isAsciiDigit_of_mem_ofNat hc)

theorem Numeral.oneLine_ofInt (n : Int) : Text.OneLine (Numeral.ofInt n) := by
  cases n with
  | ofNat k => exact oneLine_ofNat k
  | negSucc k => exact Text.OneLine.append (l := ['-']) (by decide) (oneLine_ofNat (k + 1))

namespace Path

theorem mem_of_mem_collapse {n : Name} {parts : List Name} (h : n ∈ collapse parts) :
    n ∈ parts := by
  have hfold : ∀ (parts up : List Name),
      n ∈ parts.foldl (fun up n => if n = above then up.tail else n :: up) up →
        n ∈ up ∨ n ∈ parts := by
    intro parts
    induction parts with
    | nil => exact fun up hn => .inl hn
    | cons m parts ih =>
      intro up hn
      rw [List.foldl_cons] at hn
      rcases ih _ hn with hn | hn
      · by_cases hm : m = above
        · rw [if_pos hm] at hn
          exact .inl (List.mem_of_mem_tail hn)
        · rw [if_neg hm] at hn
          exact (List.mem_cons.mp hn).elim (fun e => .inr (e ▸ List.mem_cons_self)) .inl
      · exact .inr (List.mem_cons_of_mem _ hn)
  exact (hfold parts [] (List.mem_reverse.mp h)).resolve_left (List.not_mem_nil)

theorem oneLine_link {p : Path} (h : ∀ n ∈ p.parts, Text.OneLine n) (line : Option Int) :
    Text.OneLine (p.link line) := by
  have htarget : Text.OneLine (joined (collapse p.parts)) :=
    Text.OneLine.join (by decide) fun n hn => h n (mem_of_mem_collapse hn)
  have haddress := Text.OneLine.append (l := "vscode://file/".toList) (by decide) htarget
  cases line with
  | none => exact (haddress.append (m := []) (by decide)).replaceChar (by decide)
  | some n =>
    have hsuffix : Text.OneLine (':' :: Numeral.ofInt n) :=
      Text.OneLine.append (l := [':']) (by decide) (Numeral.oneLine_ofInt n)
    exact (haddress.append hsuffix).replaceChar (by decide)

end Path

/-- Of an entry every string but the body is on one line. -/
structure Entry.Lined (e : Entry) : Prop where
  id : Text.OneLine e.id
  category : Text.OneLine e.category
  relativePath : Text.OneLine e.relativePath
  path : ∀ n ∈ e.path.parts, Text.OneLine n
  files : ∀ o ∈ e.occurrences, Text.OneLine o.file ∧ ∀ n ∈ o.path.parts, Text.OneLine n

/-- Of a summary every string but the bodies is on one line. -/
structure Summary.Lined (s : Summary) : Prop where
  set : Text.OneLine s.set
  generated : Text.OneLine s.generated
  entries : ∀ e ∈ s.entries, e.Lined

/-! ## Writing without fences -/

namespace Text

/-- Whole lines that are no fences. -/
def Fenceless (t : Text) : Prop := ∀ s, fences (t ++ s) = fences s

/-- Whole lines that are no fences, and the start of one that is none however it goes on. -/
def Begun (t : Text) : Prop :=
  ∃ u l, t = u ++ l ∧ Fenceless u ∧ opensPlain l = true ∧ OneLine l

theorem Fenceless.nil : Fenceless [] := fun _ => rfl

theorem Fenceless.fences_eq_nil {t : Text} (h : Fenceless t) : fences t = [] := by
  have hnil := h []
  rwa [List.append_nil] at hnil

theorem Fenceless.append {t u : Text} (ht : Fenceless t) (hu : Fenceless u) :
    Fenceless (t ++ u) := fun s => by rw [List.append_assoc, ht, hu]

theorem Fenceless.flatMap {α : Type} {f : α → Text} {xs : List α}
    (h : ∀ x ∈ xs, Fenceless (f x)) : Fenceless (xs.flatMap f) := by
  induction xs with
  | nil => exact .nil
  | cons x xs ih =>
    rw [List.forall_mem_cons] at h
    exact h.1.append (ih h.2)

theorem Fenceless.begin {t k : Text} (ht : Fenceless t) (hk : opensPlain k = true)
    (hone : OneLine k) : Begun (t ++ k) :=
  ⟨t, k, rfl, ht, hk, hone⟩

theorem Begun.append {t v : Text} (ht : Begun t) (hv : OneLine v) : Begun (t ++ v) := by
  obtain ⟨u, l, rfl, hu, hl, hone⟩ := ht
  refine ⟨u, l ++ v, List.append_assoc .., hu, ?_, hone.append hv⟩
  cases l with
  | nil => cases hl
  | cons c l => exact hl

/-- The line ends, and empty lines may follow. -/
theorem Begun.finish {t v : Text} (ht : Begun t) (hv : OneLine v) (n : Nat) :
    Fenceless (t ++ (v ++ '\n' :: List.replicate n '\n')) := by
  have hempty : ∀ n s, fences (List.replicate n '\n' ++ s) = fences s := by
    intro n s
    induction n with
    | zero => rfl
    | succ n ih => exact (fences_line (l := []) (by decide) (by decide) _).trans ih
  obtain ⟨u, l, h, hu, hl, hone⟩ := ht.append hv
  intro s
  rw [← List.append_assoc, h, List.append_assoc, List.append_assoc, hu, List.cons_append]
  have hno : isFence l = false := List.append_nil l ▸ not_isFence_of_opensPlain hl []
  rw [fences_line hone hno, hempty]

end Text

theorem Occurrence.fenceless_item {o : Occurrence} (hfile : Text.OneLine o.file)
    (hpath : ∀ n ∈ o.path.parts, Text.OneLine n) : Text.Fenceless o.item := by
  have hplace : Text.OneLine (o.file ++ ':' :: Numeral.ofInt o.line) :=
    hfile.append (Text.OneLine.append (l := [':']) (by decide) (Numeral.oneLine_ofInt o.line))
  exact ((((Text.Fenceless.nil.begin (k := "- [".toList) (by decide) (by decide)).append
    hplace).append (v := "](".toList) (by decide)).append
      (Path.oneLine_link hpath (some o.line))).finish (v := ")".toList) (by decide) 0

theorem Entry.fenceless_occurrenceItems {e : Entry} (h : e.Lined) :
    Text.Fenceless e.occurrenceItems := by
  unfold occurrenceItems
  split
  · exact (Text.Fenceless.nil.begin (k := "- none".toList) (by decide) (by decide)).finish
      (v := []) (by decide) 1
  · have hitems := Text.Fenceless.flatMap fun o ho =>
      Occurrence.fenceless_item (h.files o ho).1 (h.files o ho).2
    exact hitems.append (fences_line (l := []) (by decide) (by decide))

theorem Entry.fenceless_heading {e : Entry} (h : e.Lined) : Text.Fenceless e.heading := by
  have hid := (((Text.Fenceless.nil.begin (k := "## ".toList) (by decide) (by decide)).append
    h.id).append (v := " (".toList) (by decide)).append h.category
  have hfragment := ((((hid.finish (v := ")".toList) (by decide) 1).begin
    (k := "Fragment: [".toList) (by decide) (by decide)).append h.relativePath).append
      (v := "](".toList) (by decide)).append (Path.oneLine_link h.path none)
  have hoccurrences := ((hfragment.finish (v := ")".toList) (by decide) 1).begin
    (k := "Occurrences (".toList) (by decide) (by decide)).append
      (Numeral.oneLine_ofNat e.occurrences.length)
  exact (hoccurrences.finish (v := "):".toList) (by decide) 0).append
    (Entry.fenceless_occurrenceItems h)

theorem Summary.fenceless_title {s : Summary} (h : s.Lined) : Text.Fenceless s.title := by
  have hset := (Text.Fenceless.nil.begin (k := "# Summary for set: ".toList) (by decide)
    (by decide)).append h.set
  have hgenerated := ((hset.finish (v := []) (by decide) 1).begin (k := "Generated: ".toList)
    (by decide) (by decide)).append h.generated
  have hcount := ((hgenerated.finish (v := []) (by decide) 1).begin
    (k := "Total fragments: ".toList) (by decide) (by decide)).append
      (Numeral.oneLine_ofNat s.entries.length)
  exact hcount.finish (v := []) (by decide) 1

/-- Where no other string has a line end, each body that is not empty has its two fences, and there
are no others. -/
theorem Summary.fences_markdown_of_lined {s : Summary} (h : s.Lined) : fences s.markdown =
    (s.entries.filter Entry.hasBody).flatMap fun _ => [openingLine, fenceMark] := by
  have htitle : fences s.title = [] := (fenceless_title h).fences_eq_nil
  have hentries : ∀ es : List Entry, (∀ e ∈ es, e.Lined) →
      (es.flatMap fun e => fences e.heading ++ e.fence) =
        (es.filter Entry.hasBody).flatMap fun _ => [openingLine, fenceMark] := by
    intro es hes
    induction es with
    | nil => rw [List.flatMap_nil, List.filter_nil, List.flatMap_nil]
    | cons e es ih =>
      rw [List.forall_mem_cons] at hes
      have hheading : fences e.heading = [] := (Entry.fenceless_heading hes.1).fences_eq_nil
      rw [List.flatMap_cons, ih hes.2, hheading, List.nil_append, Entry.fence]
      cases he : e.hasBody with
      | true => simp [he]
      | false => simp [he]
  rw [s.fences_markdown, htitle, List.nil_append, hentries s.entries h.entries]

/-! ## Bodies in summaries -/

/-- The body of a fragment stays in its fence whatever is in it. Its escaped text is on lines of its
own between the line that opens the fence and the one that closes it, and none of them is a fence;
every run of three backquotes or more in it has a zero width space in front; and it is the body with
such a space put before every three backquotes, from left to right, so that taking these out gives
the body back. A summary has the two fences of each body that is not empty, and other lines are
taken for fences only where a name or a category has line ends. -/
theorem bodies_stay_fenced :
    (∀ e : Entry, e.hasBody = true → ∃ inside,
      Text.lines e.markdown = Text.lines e.heading ++ ["Content:".toList, [], openingLine] ++
        inside ++ [fenceMark, []] ∧
      inside = Text.lines (fenced e.body ++ ['\n']) ∧ ∀ l ∈ inside, isFence l = false) ∧
    (∀ body pre post n, 3 ≤ n → fenced body = pre ++ List.replicate n backquote ++ post →
      pre.getLast? ≠ some backquote → pre.getLast? = some zeroWidthSpace) ∧
    (∀ body, unfenced (fenced body) = body ∧ ∃ pieces, pieces ≠ [] ∧
      body = Text.join fenceMark pieces ∧
      fenced body = Text.join (zeroWidthSpace :: fenceMark) pieces) ∧
    ∀ s : Summary,
      Text.lines s.markdown =
        Text.lines s.title ++ (s.entries.flatMap fun e => Text.lines e.markdown) ∧
      fences s.markdown =
        fences s.title ++ (s.entries.flatMap fun e => fences e.heading ++ e.fence) ∧
      (s.Lined → fences s.markdown =
        (s.entries.filter Entry.hasBody).flatMap fun _ => [openingLine, fenceMark]) := by
  refine ⟨fun e he => ?_, fun body pre post n => before_run, fun body => ?_, fun s => ?_⟩
  · refine ⟨_, ?_, rfl, fun l => not_isFence_fenced⟩
    rw [e.markdown_eq, e.heading_ended.lines_append, Entry.lines_content he, List.append_assoc,
      List.append_assoc, List.append_assoc]
  · exact ⟨unfenced_fenced body, fenced_pieces body⟩
  · exact ⟨s.lines_markdown, s.fences_markdown, Summary.fences_markdown_of_lined⟩

/-- A fragment with runs of backquotes in its body. -/
def fencedEntry : Entry :=
  { id := "000001".toList
    category := "INFO".toList
    path := ⟨1, ["000001.md".toList]⟩
    relativePath := "000001.md".toList
    body := "  \x60\x60\x60\x60\n\u200b\x60\x60\x60\x60\x60\x60".toList }

def fencedPair : Summary :=
  { set := "default".toList
    generated := "2024-01-01T00:00:00+00:00".toList
    entries := [fencedEntry, { fencedEntry with body := [] }] }

theorem fencedPair_lined : fencedPair.Lined :=
  { set := by decide
    generated := by decide
    entries := by
      have hentry : fencedEntry.Lined := ⟨by decide, by decide, by decide, by decide, by decide⟩
      exact List.forall_mem_cons.mpr ⟨hentry, List.forall_mem_singleton.mpr { hentry with }⟩ }

theorem bodies_stay_fenced_pair :
    fences fencedPair.markdown = [openingLine, fenceMark] ∧
    (∃ pre, fenced "a\x60\x60\x60\x60".toList = pre ++ List.replicate 4 backquote ∧
      pre.getLast? = some zeroWidthSpace) ∧
    ∃ inside, Text.lines fencedEntry.markdown = Text.lines fencedEntry.heading ++
        ["Content:".toList, [], openingLine] ++ inside ++ [fenceMark, []] ∧
      inside.length = 2 ∧ ∀ l ∈ inside, isFence l = false := by
  obtain ⟨hbody, hrun, -, hsummary⟩ := bodies_stay_fenced
  refine ⟨(hsummary fencedPair).2.2 fencedPair_lined, ⟨['a', zeroWidthSpace], by decide,
    hrun "a\x60\x60\x60\x60".toList _ [] 4 (by decide) (by decide) (by decide)⟩, ?_⟩
  obtain ⟨inside, hlines, rfl, hnone⟩ := hbody fencedEntry (by decide)
  exact ⟨_, hlines, by decide, hnone⟩

end Marginalia
