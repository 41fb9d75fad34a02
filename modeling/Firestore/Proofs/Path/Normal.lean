import Firestore.Proofs.Path.Reachable

/-!
# Paths and their texts

A text is in normal form if none of its slashes is idle, neither at an end nor behind another
slash (`normalize_eq_self_iff`).  Of the texts that are read alike just one is
(`ResourcePath.eq_normalize`), with single slashes between the segments, and a path of
segments is read from it (`ResourcePath.parse_normal`).
-/

namespace Firestore

/-- The pieces of a text without its idle slashes are those that count. -/
theorem pieces_normalize {s : String} (h : slashPieces s ≠ []) :
    Text.pieces '/' (normalize s) = slashPieces s :=
  pieces_intercalate_segments h fun _ hpiece => isSegment_of_mem_slashPieces hpiece

/-- A text without its idle slashes has none. -/
theorem not_hasIdle_normalize (s : String) : ¬ Text.HasIdle '/' (normalize s) := by
  by_cases hnil : slashPieces s = []
  · rw [normalize_eq_empty_iff.mpr hnil]
    decide
  · intro hidle
    have hempty := hidle.empty_mem_pieces
    rw [pieces_normalize hnil] at hempty
    exact (isSegment_of_mem_slashPieces hempty).1 rfl

/-- The texts in normal form are those without idle slashes. -/
theorem normalize_eq_self_iff {s : String} : normalize s = s ↔ ¬ Text.HasIdle '/' s := by
  constructor
  · intro h
    rw [← h]
    exact not_hasIdle_normalize s
  · intro h
    by_cases hs : s = ""
    · subst hs
      rfl
    · have hfull : "" ∉ Text.pieces '/' s := mt (Text.hasIdle_of_empty_mem_pieces hs) h
      have hself : slashPieces s = Text.pieces '/' s := by
        rw [slashPieces_eq_filter, List.filter_eq_self]
        intro piece hpiece
        exact decide_eq_true (ne_of_mem_of_not_mem hpiece hfull)
      rw [normalize, hself]
      exact Text.intercalate_pieces '/' s

namespace ResourcePath

theorem parse_eq_iff {s t : String} : parse s = parse t ↔ slashPieces s = slashPieces t := by
  simp [parse]

/-- Texts have the same normal form just if they are read alike. -/
theorem normalize_eq_iff {s t : String} : normalize s = normalize t ↔ parse s = parse t := by
  rw [parse_eq_iff]
  constructor
  · intro h
    calc slashPieces s
        = slashPieces (normalize s) := (slashPieces_normalize s).symm
      _ = slashPieces (normalize t) := congrArg slashPieces h
      _ = slashPieces t := slashPieces_normalize t
  · intro h
    rw [normalize, normalize, h]

/-- Among the texts that are read alike only the normal form has no idle slash. -/
theorem eq_normalize {s t : String} (h : ¬ Text.HasIdle '/' t) (hsame : parse t = parse s) :
    t = normalize s := by
  calc t
      = normalize t := (normalize_eq_self_iff.mpr h).symm
    _ = normalize s := normalize_eq_iff.mpr hsame

/-- **Texts of paths have one normal form.**  It is the text of the path that a text is read as, is
read as the same path and is its own normal form, and of all texts that are read so it is the one
without idle slashes; texts have it in common just if they are read alike.  A slash between two
texts puts the paths together that they are read as, and a path of segments is read from its
text. -/
theorem parse_normal (s t : String) (p : ResourcePath) :
    (parse s).text = normalize s ∧
      parse (normalize s) = parse s ∧
      normalize (normalize s) = normalize s ∧
      ¬ Text.HasIdle '/' (normalize s) ∧
      (¬ Text.HasIdle '/' t → parse t = parse s → t = normalize s) ∧
      (normalize s = normalize t ↔ parse s = parse t) ∧
      parse (s ++ "/" ++ t) = (parse s).append (parse t) ∧
      (p.IsProper → parse p.text = p) := by
  have hidle := not_hasIdle_normalize s
  refine ⟨rfl, ?_, normalize_eq_self_iff.mpr hidle, hidle, eq_normalize, normalize_eq_iff, ?_, ?_⟩
  · exact parse_eq_iff.mpr (slashPieces_normalize s)
  · exact congrArg mk (slashPieces_append_slash s t)
  · intro hp
    exact congrArg mk (slashPieces_intercalate hp)

/-- A text with idle slashes everywhere, and its normal form behind it. -/
theorem parse_normal_slashes :
    let s := "//rooms//eros/"
    let t := "rooms/eros"
    let p : ResourcePath := ⟨["rooms", "eros"]⟩
    p.IsProper ∧ Text.HasIdle '/' s ∧ ¬ Text.HasIdle '/' t ∧ parse t = parse s ∧ t = normalize s ∧
      parse (s ++ "/" ++ t) = p.append p ∧ parse p.text = p := by
  intro s t p
  obtain ⟨-, -, -, -, hunique, -, happend, htext⟩ := parse_normal s t p
  have hp : p.IsProper := by decide
  have hidle : ¬ Text.HasIdle '/' t := by decide
  have hs : parse s = p := by decide +kernel
  have ht : parse t = p := htext hp
  have hsame : parse t = parse s := ht.trans hs.symm
  rw [hs, ht] at happend
  exact ⟨hp, by decide, hidle, hsame, hunique hidle hsame, happend, ht⟩

end ResourcePath

end Firestore
