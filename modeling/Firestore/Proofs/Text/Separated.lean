import Mathlib.Data.List.Infix
import Mathlib.Data.String.Basic

/-!
# Texts with separators

A separator cuts a text into pieces.  With the separator between them the pieces give the text
back (`intercalate_pieces`), and texts without separators are the pieces of what they make
together (`pieces_intercalate`).  A piece is empty just where a separator has nothing to
separate (`empty_mem_pieces_iff`).
-/

namespace Firestore.Text

/-- The pieces of a text between separators. -/
def pieces (separator : Char) (s : String) : List String :=
  (s.toList.splitOn separator).map String.ofList

/-- Whether a separator separates nothing: it stands at an end of the text, or right behind
another one. -/
def HasIdle (separator : Char) (s : String) : Prop :=
  [separator] <+: s.toList ∨ [separator] <:+ s.toList ∨ [separator, separator] <:+: s.toList

instance (separator : Char) (s : String) : Decidable (HasIdle separator s) :=
  inferInstanceAs (Decidable (_ ∨ _ ∨ _))

/-- What stands between separators has none itself. -/
private theorem not_mem_of_mem_splitOn {c : Char} {text piece : List Char}
    (h : piece ∈ text.splitOn c) : c ∉ piece := by
  induction text generalizing piece with
  | nil =>
      rw [List.splitOn_nil, List.mem_singleton] at h
      simp [h]
  | cons d rest ih =>
      rw [List.splitOn_cons_eq_if_modifyHead] at h
      obtain ⟨first, pieces, hsplit⟩ := List.exists_cons_of_ne_nil (List.splitOn_ne_nil c rest)
      rw [hsplit] at h ih
      split at h
      · rcases List.mem_cons.mp h with rfl | hrest
        · exact List.not_mem_nil
        · exact ih hrest
      · rename_i hne
        rcases List.mem_cons.mp h with rfl | hrest
        · have hfirst : c ∉ first := ih List.mem_cons_self
          have hcd : c ≠ d := fun heq => hne (by simp [heq])
          simp [hcd, hfirst]
        · exact ih (List.mem_cons_of_mem _ hrest)

variable {separator : Char} {s piece : String}

theorem mem_pieces : piece ∈ pieces separator s ↔ piece.toList ∈ s.toList.splitOn separator := by
  unfold pieces
  constructor
  · intro h
    obtain ⟨chars, hchars, rfl⟩ := List.mem_map.mp h
    rwa [String.toList_ofList]
  · intro h
    exact List.mem_map.mpr ⟨piece.toList, h, String.ofList_toList⟩

theorem pieces_ne_nil (separator : Char) (s : String) : pieces separator s ≠ [] := by
  simp [pieces]

/-- A piece has no separator in it. -/
theorem not_mem_of_mem_pieces (h : piece ∈ pieces separator s) : separator ∉ piece.toList :=
  not_mem_of_mem_splitOn (mem_pieces.mp h)

/-- A text before a separator and one behind it are cut on their own. -/
theorem pieces_append (separator : Char) (s t : String) :
    pieces separator (s ++ String.ofList [separator] ++ t) =
      pieces separator s ++ pieces separator t := by
  have htext : (s ++ String.ofList [separator] ++ t).toList =
      s.toList ++ separator :: t.toList := by simp
  rw [pieces, htext, List.splitOn_append_cons_self, List.map_append]
  rfl

/-- With separators between them, the pieces of a text give the text back. -/
theorem intercalate_pieces (separator : Char) (s : String) :
    (String.ofList [separator]).intercalate (pieces separator s) = s := by
  have hpieces : (pieces separator s).map String.toList = s.toList.splitOn separator := by
    simp [pieces, Function.comp_def]
  apply String.toList_injective
  rw [String.toList_intercalate, hpieces, String.toList_ofList]
  exact List.intercalate_splitOn separator

/-- Texts without separators are the pieces of what they make with separators between them. -/
theorem pieces_intercalate {segments : List String} (hne : segments ≠ [])
    (h : ∀ segment ∈ segments, separator ∉ segment.toList) :
    pieces separator ((String.ofList [separator]).intercalate segments) = segments := by
  have hchars : ∀ chars ∈ segments.map String.toList, separator ∉ chars := by
    intro chars hmem
    obtain ⟨segment, hsegment, rfl⟩ := List.mem_map.mp hmem
    exact h segment hsegment
  rw [pieces, String.toList_intercalate, String.toList_ofList,
    List.splitOn_intercalate separator hchars (by simpa using hne)]
  simp [Function.comp_def]

/-- At one side of an idle separator there is nothing. -/
theorem HasIdle.empty_mem_pieces (h : HasIdle separator s) : "" ∈ pieces separator s := by
  rw [mem_pieces, String.toList_empty]
  rcases h with ⟨rest, hrest⟩ | ⟨rest, hrest⟩ | ⟨before, after, hrest⟩
  · rw [← hrest, List.singleton_append, List.splitOn_cons_eq_if_modifyHead]
    simp
  · rw [← hrest, List.splitOn_append_cons_self]
    simp
  · have htwo : before ++ [separator, separator] ++ after =
        before ++ separator :: separator :: after := by simp
    rw [← hrest, htwo, List.splitOn_append_cons_self, List.splitOn_cons_eq_if_modifyHead]
    simp

/-- Beside an empty piece, if it is not the only one, a separator is idle. -/
theorem hasIdle_of_empty_mem_pieces (hs : s ≠ "") (h : "" ∈ pieces separator s) :
    HasIdle separator s := by
  obtain ⟨before, after, hpieces⟩ := List.append_of_mem h
  have htext := intercalate_pieces separator s
  rw [hpieces] at htext
  -- the empty piece is the first one, the last one or neither
  cases before with
  | nil =>
      cases after with
      | nil => exact absurd htext.symm hs
      | cons next later =>
          rw [List.nil_append, String.intercalate_cons_of_ne_nil (List.cons_ne_nil _ _)] at htext
          refine .inl ?_
          simp [← htext]
  | cons first earlier =>
      rw [String.intercalate_append_of_ne_nil (List.cons_ne_nil _ _) (List.cons_ne_nil _ _)]
        at htext
      cases after with
      | nil =>
          refine .inr (.inl ?_)
          simp [← htext]
      | cons next later =>
          rw [String.intercalate_cons_of_ne_nil (List.cons_ne_nil _ _)] at htext
          generalize (String.ofList [separator]).intercalate (first :: earlier) = left at htext
          generalize (String.ofList [separator]).intercalate (next :: later) = right at htext
          exact .inr (.inr ⟨left.toList, right.toList, by simp [← htext]⟩)

/-- A piece is empty just if the whole text is, or one of its separators is idle. -/
theorem empty_mem_pieces_iff : "" ∈ pieces separator s ↔ s = "" ∨ HasIdle separator s := by
  constructor
  · intro h
    by_cases hs : s = ""
    · exact .inl hs
    · exact .inr (hasIdle_of_empty_mem_pieces hs h)
  · intro h
    cases h with
    | inl hs =>
        subst hs
        exact List.mem_cons_self
    | inr hidle => exact hidle.empty_mem_pieces

end Firestore.Text
