import Marginalia.Proofs.Disk.Content
import Marginalia.Proofs.Marker.Canonical
import Marginalia.Proofs.Text.Lines

/-!
# Unbound markers in a text

A `Site` is a line of a text with an unbound marker. When the marker is bound (`Site.bind`), only
the token of the marker changes (`text_eq`), the other lines stay (`lines_bind`), and the line is
scanned to a marker with the id (`scan_boundLine`). As the token only grows, no NUL comes within the
first bytes of the file (`no_nul_within`).
-/

namespace Marginalia

namespace Text

/-- A piece of a line, between what is before it and what is behind it. -/
theorem joinLines_piece (above below : List Text) (x y z : Text) :
    joinLines (above ++ (x ++ (y ++ z)) :: below) =
      joinLines (above ++ [x]) ++ (y ++ joinLines (z :: below)) := by
  cases above with
  | nil => simp [joinLines_cons]
  | cons first more => simp [joinLines_cons]

end Text

theorem Utf8.encode_append (s s' : Text) : encode (s ++ s') = encode s ++ encode s' :=
  List.flatMap_append

namespace Marker

/-- An unbound marker on a line of a text. Lines are cut at line feeds. -/
structure Site (text : Text) where
  above : List Text
  line : Text
  below : List Text
  marker : Marker
  lines : Text.atNewlines text = above ++ line :: below
  scanned : scan 0 line = some marker
  unbound : marker.binding = none

namespace Site

variable {text : Text} (σ : Site text) {id : Text}

/-- The line when its marker is bound. -/
def boundLine (id : Text) : Text :=
  σ.line.take σ.marker.start ++
    (canonicalText σ.marker.token id ++ σ.line.drop σ.marker.stop)

/-- What stands before the token. -/
def before : Text := Text.joinLines (σ.above ++ [σ.line.take σ.marker.start])

/-- What stands behind the token. -/
def after : Text := Text.joinLines (σ.line.drop σ.marker.stop :: σ.below)

/-- The text when the marker is bound. -/
def bind (id : Text) : Text := σ.before ++ (canonicalText σ.marker.token id ++ σ.after)

theorem text_eq : text = σ.before ++ (σ.marker.token.text ++ σ.after) := by
  have hlines := Text.joinLines_atNewlines text
  rw [σ.lines, (scan_split σ.scanned).1, Text.joinLines_piece] at hlines
  exact hlines.symm

theorem opener_subset : σ.marker.token.opener ⊆ text := by
  intro c hc
  have htoken : c ∈ σ.marker.token.text := List.mem_append_left _ (List.mem_append_left _ hc)
  have hall : c ∈ σ.before ++ (σ.marker.token.text ++ σ.after) :=
    List.mem_append_right _ (List.mem_append_left _ htoken)
  exact σ.text_eq.symm ▸ hall

theorem bind_eq (id : Text) :
    σ.bind id = Text.joinLines (σ.above ++ σ.boundLine id :: σ.below) := by
  rw [boundLine, Text.joinLines_piece, bind, before, after]

/-! ## The lines -/

/-- Neither a line feed nor a NUL is in a canonical form. -/
theorem not_mem_canonicalText (hid : ∀ c ∈ id, isAsciiDigit c = true) {c : Char}
    (hc : c = '\n' ∨ c = '\x00') : c ∉ canonicalText σ.marker.token id := by
  obtain ⟨ho, hs⟩ := opener_mem σ.scanned
  intro h
  rcases mem_canonicalText hid h with h | h
  · rcases hc with rfl | rfl
    · exact Token.not_mem_text ho hs (by decide) (by decide) h
    · exact Token.not_mem_text ho hs (by decide) (by decide) h
  · rcases hc with rfl | rfl
    · exact absurd h (by decide)
    · exact absurd h (by decide)

theorem lines_bind (hid : ∀ c ∈ id, isAsciiDigit c = true) :
    Text.atNewlines (σ.bind id) = σ.above ++ σ.boundLine id :: σ.below := by
  have hmem : ∀ l ∈ σ.above ++ σ.line :: σ.below, '\n' ∉ l := fun l hl =>
    Text.no_newline_of_mem_atNewlines (σ.lines ▸ hl)
  rw [List.forall_mem_append, List.forall_mem_cons] at hmem
  obtain ⟨habove, hline, hbelow⟩ := hmem
  have hbound : '\n' ∉ σ.boundLine id := by
    rw [boundLine, List.mem_append, List.mem_append, not_or, not_or]
    exact ⟨fun h => hline (List.take_subset _ _ h), σ.not_mem_canonicalText hid (.inl rfl),
      fun h => hline (List.drop_subset _ _ h)⟩
  rw [bind_eq, Text.atNewlines_joinLines (by simp)]
  exact List.forall_mem_append.mpr ⟨habove, List.forall_mem_cons.mpr ⟨hbound, hbelow⟩⟩

theorem scan_boundLine (hid : isId id = true) :
    (scan 0 (σ.boundLine id)).bind Marker.id? = some id := by
  rw [boundLine, scan_canonical σ.scanned hid]
  rfl

theorem scan_line : (scan 0 σ.line).bind Marker.id? = none := by
  rw [σ.scanned]
  simp [Marker.id?, σ.unbound]

/-! ## The first bytes -/

/-- A canonical form takes no fewer bytes than the token. -/
theorem encode_token_le (t : Token) (id : Text) :
    (Utf8.encode t.text).length ≤ (Utf8.encode (canonicalText t id)).length := by
  have hkeyword : (Utf8.encode t.keyword.text).length ≤
      (Utf8.encode Keyword.full.text).length := by
    cases t.keyword <;> decide
  rw [Token.text, canonicalText_eq]
  simp only [Utf8.encode_append, List.length_append]
  omega

theorem no_nul_within (hid : ∀ c ∈ id, isAsciiDigit c = true) {n : Nat}
    (h : 0 ∉ (Utf8.encode text).take n) : 0 ∉ (Utf8.encode (σ.bind id)).take n := by
  have htoken : 0 ∉ Utf8.encode (canonicalText σ.marker.token id) := by
    intro h0
    obtain ⟨c, hc, h0⟩ := List.mem_flatMap.mp h0
    exact σ.not_mem_canonicalText hid (.inr (Content.zero_mem_encodeChar.mp h0)) hc
  have hle := encode_token_le σ.marker.token id
  rw [σ.text_eq] at h
  simp only [bind, Utf8.encode_append, List.take_append, List.mem_append, not_or] at h ⊢
  obtain ⟨hbefore, -, hafter⟩ := h
  refine ⟨hbefore, fun h0 => htoken (List.take_subset _ _ h0), fun h0 => hafter ?_⟩
  exact (List.take_sublist_take_left (by omega)).subset h0

end Site

end Marker

end Marginalia
