import Firestore.Path.Field
import Firestore.Proofs.Text.Separated
import Mathlib.Data.String.Basic

/-!
# Dotted field paths

A text is read just if it is not blank and no dot in it is idle, and then it is the text of
the path (`text_of_parse`); a path without dots in its keys is read from its text
(`parse_text`).  So different texts are different paths (`parse_dotted`).  A path that leads
to another one has the smaller text (`text_lt_text`): dotted names in order have ancestors
before descendants.
-/

namespace Firestore.FieldPath

@[simp]
theorem isPrefixOf_iff {p q : FieldPath} :
    p.isPrefixOf q = true ↔ p.segments <+: q.segments :=
  List.isPrefixOf_iff_prefix

theorem ext_segments {p q : FieldPath} (h : p.segments = q.segments) : p = q := by
  cases p
  cases q
  cases h
  rfl

/-- The path of given keys has just these, and none of them is empty. -/
theorem ofSegments_eq_ok {segments : List String} {p : FieldPath} :
    ofSegments segments = .ok p ↔ p.segments = segments ∧ "" ∉ segments := by
  unfold ofSegments
  by_cases hnil : segments = []
  · rw [dif_pos hnil]
    refine iff_of_false nofun ?_
    rintro ⟨hsegments, -⟩
    exact p.nonempty (hsegments.trans hnil)
  · have hany : segments.any String.isEmpty = true ↔ "" ∈ segments := by simp
    by_cases hempty : "" ∈ segments
    · rw [dif_neg hnil, if_pos (hany.mpr hempty)]
      exact iff_of_false nofun fun h => h.2 hempty
    · rw [dif_neg hnil, if_neg (mt hany.mp hempty)]
      constructor
      · intro h
        cases h
        exact ⟨rfl, hempty⟩
      · rintro ⟨hsegments, -⟩
        exact congrArg Except.ok (ext_segments hsegments.symm)

/-- Keys make a path if there are any and none is empty. -/
theorem exists_ofSegments_iff {segments : List String} :
    (∃ path, ofSegments segments = .ok path) ↔ segments ≠ [] ∧ "" ∉ segments := by
  simp only [ofSegments_eq_ok]
  constructor
  · rintro ⟨path, rfl, hempty⟩
    exact ⟨path.nonempty, hempty⟩
  · rintro ⟨hnil, hempty⟩
    exact ⟨⟨segments, hnil⟩, rfl, hempty⟩

/-- A text is read as the path of its pieces if it is not blank and none of them is empty. -/
theorem parse_eq_ok {s : String} {p : FieldPath} :
    parse s = .ok p ↔
      Text.allBlank s = false ∧ p.segments = Text.pieces '.' s ∧ "" ∉ Text.pieces '.' s := by
  unfold parse
  cases hblank : Text.allBlank s with
  | true => simp
  | false =>
      rw [if_neg Bool.false_ne_true, ← Text.pieces, ofSegments_eq_ok]
      simp only [true_and]

theorem ofSegments_of_parse {s : String} {p : FieldPath} (h : parse s = .ok p) :
    ofSegments p.segments = .ok p := by
  obtain ⟨-, hsegments, hempty⟩ := parse_eq_ok.mp h
  exact ofSegments_eq_ok.mpr ⟨rfl, hsegments ▸ hempty⟩

/-- What was read is the text of the path. -/
theorem text_of_parse {s : String} {p : FieldPath} (h : parse s = .ok p) : p.text = s := by
  obtain ⟨-, hsegments, -⟩ := parse_eq_ok.mp h
  rw [text, hsegments]
  exact Text.intercalate_pieces '.' s

/-- Whether dots stand between the keys of a path only, and no key is empty. -/
def IsDotted (p : FieldPath) : Prop := ∀ key ∈ p.segments, key ≠ "" ∧ '.' ∉ key.toList

instance (p : FieldPath) : Decidable p.IsDotted :=
  inferInstanceAs (Decidable (∀ key ∈ p.segments, _))

/-- The text of a path is cut into its keys. -/
theorem pieces_text {p : FieldPath} (h : p.IsDotted) : Text.pieces '.' p.text = p.segments :=
  Text.pieces_intercalate p.nonempty fun key hkey => (h key hkey).2

/-- The text of a path is read as the path, unless it is blank. -/
theorem parse_text {p : FieldPath} (h : p.IsDotted) (hblank : Text.allBlank p.text = false) :
    parse p.text = .ok p := by
  have hpieces := pieces_text h
  refine parse_eq_ok.mpr ⟨hblank, hpieces.symm, ?_⟩
  rw [hpieces]
  intro hempty
  exact (h "" hempty).1 rfl

/-- A path that leads to another one has the smaller text. -/
theorem text_lt_text {p q : FieldPath} (h : p.segments <+: q.segments) (hne : p ≠ q) :
    p.text < q.text := by
  obtain ⟨rest, hrest⟩ := h
  have hmore : rest ≠ [] := by
    rintro rfl
    exact hne (ext_segments (by simpa using hrest))
  have htext : q.text.toList = p.text.toList ++ '.' :: (".".intercalate rest).toList := by
    rw [text, ← hrest, String.intercalate_append_of_ne_nil p.nonempty hmore]
    simp [text]
  calc p.text.toList
      = p.text.toList ++ [] := (List.append_nil _).symm
    _ < p.text.toList ++ '.' :: (".".intercalate rest).toList :=
        List.append_left_lt (List.nil_lt_cons _ _)
    _ = q.text.toList := htext.symm

/-- **Dotted texts and field paths correspond.**  A text is read just if it is not blank and none
of its pieces is empty, which means that no dot stands at an end of it or behind another dot.  What
was read is the text of the path, so different texts are different paths; and a path whose keys
are neither empty nor have dots in them is read from its text, unless that is blank. -/
theorem parse_dotted (s t : String) (p : FieldPath) :
    ((∃ q, parse s = .ok q) ↔ Text.allBlank s = false ∧ "" ∉ Text.pieces '.' s) ∧
      ("" ∈ Text.pieces '.' s ↔ s = "" ∨ Text.HasIdle '.' s) ∧
      (parse s = .ok p → p.text = s) ∧
      (parse s = .ok p → parse t = .ok p → s = t) ∧
      (p.IsDotted → Text.allBlank p.text = false → parse p.text = .ok p) := by
  refine ⟨?_, Text.empty_mem_pieces_iff, text_of_parse, ?_, parse_text⟩
  · constructor
    · rintro ⟨q, hq⟩
      obtain ⟨hblank, -, hempty⟩ := parse_eq_ok.mp hq
      exact ⟨hblank, hempty⟩
    · rintro ⟨hblank, hempty⟩
      exact ⟨⟨_, Text.pieces_ne_nil '.' s⟩, parse_eq_ok.mpr ⟨hblank, rfl, hempty⟩⟩
  · intro hs ht
    calc s
        = p.text := (text_of_parse hs).symm
      _ = t := text_of_parse ht

/-- Blanks make a key like any other characters, if they are not all there is. -/
theorem parse_dotted_blanks :
    let s := " .first name.\u2003"
    let p : FieldPath := ⟨[" ", "first name", "\u2003"], by simp⟩
    Text.allBlank s = false ∧ "" ∉ Text.pieces '.' s ∧ (∃ q, parse s = .ok q) ∧ p.IsDotted ∧
      parse s = .ok p ∧ p.text = s := by
  intro s p
  obtain ⟨haccepts, -, htext, -, hback⟩ := parse_dotted s s p
  have hblank : Text.allBlank s = false := by decide
  have hpieces : "" ∉ Text.pieces '.' s := by decide +kernel
  have hdotted : p.IsDotted := by decide
  have hsame : p.text = s := by decide
  have hread : parse s = .ok p := hsame ▸ hback hdotted (hsame ▸ hblank)
  exact ⟨hblank, hpieces, haccepts.mpr ⟨hblank, hpieces⟩, hdotted, hread, htext hread⟩

end Firestore.FieldPath
