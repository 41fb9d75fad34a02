import Firestore.Proofs.Text.Separated
import Firestore.Reference

/-!
# Resource names of proper paths

Reading a text makes segments only (`isSegment_of_mem_slashPieces`), and segments
with slashes between them are read as they are (`slashPieces_intercalate`), so idle
slashes make no difference (`slashPieces_normalize`).  Hence the resource name of a
path of segments, in a database whose names are segments, is taken apart into that
database and path (`parseName_resourceName`), and the name of a document gives the
document back (`ofName_name`).
-/

namespace Firestore

/-! ## Segments -/

/-- The pieces that count are those with something in them. -/
theorem slashPieces_eq_filter (s : String) :
    slashPieces s = (Text.pieces '/' s).filter fun piece => piece ≠ "" := by
  rw [slashPieces, Text.pieces, List.filter_map]
  congr 1
  apply List.filter_congr
  intro piece _
  cases piece <;> simp

/-- Reading a text makes segments only. -/
theorem isSegment_of_mem_slashPieces {text segment : String}
    (h : segment ∈ slashPieces text) : IsSegment segment := by
  rw [slashPieces_eq_filter, List.mem_filter] at h
  exact ⟨of_decide_eq_true h.2, Text.not_mem_of_mem_pieces h.1⟩

theorem slashPieces_append_slash (s t : String) :
    slashPieces (s ++ "/" ++ t) = slashPieces s ++ slashPieces t := by
  have hpieces : Text.pieces '/' (s ++ "/" ++ t) = Text.pieces '/' s ++ Text.pieces '/' t :=
    Text.pieces_append '/' s t
  simp only [slashPieces_eq_filter, hpieces, List.filter_append]

/-- Segments with slashes between them are the pieces of what they make together. -/
theorem pieces_intercalate_segments {segments : List String} (hne : segments ≠ [])
    (h : ∀ s ∈ segments, IsSegment s) : Text.pieces '/' ("/".intercalate segments) = segments :=
  Text.pieces_intercalate hne fun s hs => (h s hs).2

/-- Segments with slashes between them are read as they are. -/
theorem slashPieces_intercalate {segments : List String} (h : ∀ s ∈ segments, IsSegment s) :
    slashPieces ("/".intercalate segments) = segments := by
  by_cases hnil : segments = []
  · subst hnil
    rfl
  · rw [slashPieces_eq_filter, pieces_intercalate_segments hnil h, List.filter_eq_self]
    exact fun s hs => decide_eq_true (h s hs).1

theorem slashPieces_segment {s : String} (h : IsSegment s) : slashPieces s = [s] := by
  have hself := slashPieces_intercalate (List.forall_mem_singleton.mpr h)
  rwa [String.intercalate_singleton] at hself

/-- A text and the one without idle slashes are read alike. -/
theorem slashPieces_normalize (s : String) : slashPieces (normalize s) = slashPieces s :=
  slashPieces_intercalate fun _ hpiece => isSegment_of_mem_slashPieces hpiece

/-- Nothing is left of a text just if it has no piece. -/
theorem normalize_eq_empty_iff {s : String} : normalize s = "" ↔ slashPieces s = [] := by
  constructor
  · intro h
    rw [← slashPieces_normalize, h]
    rfl
  · intro h
    rw [normalize, h]
    rfl

/-! ## Resource names -/

namespace DatabaseId

/-- The pieces of a name that is taken apart. -/
theorem parseName_eq_ok {s : String} {d : DatabaseId} {p : ResourcePath} :
    parseName s = .ok (d, p) ↔
      slashPieces s =
        "projects" :: d.project :: "databases" :: d.database :: "documents" :: p.segments := by
  unfold parseName
  split
  · rename_i project database path hpieces
    rw [hpieces]
    constructor
    · rintro ⟨⟩
      rfl
    · intro h
      simp only [List.cons.injEq, true_and] at h
      obtain ⟨hproject, hdatabase, hpath⟩ := h
      rw [hproject, hdatabase, hpath]
  · rename_i hother
    exact ⟨nofun, fun h => absurd h (hother _ _ _)⟩

theorem resourceName_eq_intercalate (d : DatabaseId) (p : ResourcePath) :
    d.resourceName p = "/".intercalate
      ("projects" :: d.project :: "databases" :: d.database :: "documents" :: p.segments) := by
  have hroot : d.documentsRoot =
      "projects/" ++ d.project ++ "/databases/" ++ d.database ++ "/documents" := rfl
  rw [resourceName, ResourcePath.isEmpty, ResourcePath.text, hroot]
  cases p.segments with
  | nil => simp [String.intercalate_cons_cons, ← String.toList_inj]
  | cons s rest =>
      show "projects/" ++ d.project ++ "/databases/" ++ d.database ++ "/documents" ++ "/" ++
        "/".intercalate (s :: rest) = _
      simp [String.intercalate_cons_cons, ← String.toList_inj]

/-- **A resource name is taken apart into the database and the path it was made of.** -/
theorem parseName_resourceName {d : DatabaseId} {p : ResourcePath} (hproject : IsSegment d.project)
    (hdatabase : IsSegment d.database) (hpath : ∀ s ∈ p.segments, IsSegment s) :
    parseName (d.resourceName p) = .ok (d, p) := by
  have hall : ∀ s ∈ "projects" :: d.project :: "databases" :: d.database :: "documents" ::
      p.segments, IsSegment s := by
    have hwords : IsSegment "projects" ∧ IsSegment "databases" ∧ IsSegment "documents" := by
      decide
    simp only [List.forall_mem_cons]
    exact ⟨hwords.1, hproject, hwords.2.1, hdatabase, hwords.2.2, hpath⟩
  rw [parseName_eq_ok, resourceName_eq_intercalate]
  exact slashPieces_intercalate hall

end DatabaseId

namespace DocumentReference

/-- The name of a document gives the document back. -/
theorem ofName_name {d : DocumentReference} (hproject : IsSegment d.database.project)
    (hdatabase : IsSegment d.database.database)
    (hpath : ∀ s ∈ d.path.segments, IsSegment s) : ofName d.name = .ok d := by
  have hparse := DatabaseId.parseName_resourceName hproject hdatabase hpath
  have hkey : DocumentKey.ofPath d.path = .ok d.key := by
    simp [DocumentKey.ofPath, path, d.key.isDocument]
  rw [ofName, name, hparse]
  show ofPath d.database d.path = _
  rw [ofPath, hkey]
  rfl

end DocumentReference

end Firestore
