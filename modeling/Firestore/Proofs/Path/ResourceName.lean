import Firestore.Proofs.Path.Reachable

/-!
# Resource names and what they are made of

A text is taken apart if its pieces are those of a resource name, whatever slashes stand
around them (`IsResourceName`); the parts make the same name again, with the idle slashes
gone.  A name that was made of segments is taken apart into just these, so that different
paths have different names (`DatabaseId.parseName_iff_resourceName`).
-/

namespace Firestore

/-- Whether the pieces of a text are a project and a database, with the words that announce them,
the word for documents, and any path. -/
def IsResourceName (s : String) : Prop :=
  5 ≤ (slashPieces s).length ∧ (slashPieces s)[0]? = some "projects" ∧
    (slashPieces s)[2]? = some "databases" ∧ (slashPieces s)[4]? = some "documents"

instance (s : String) : Decidable (IsResourceName s) :=
  inferInstanceAs (Decidable (_ ∧ _))

/-- The pieces of a resource name. -/
theorem isResourceName_iff {s : String} :
    IsResourceName s ↔ ∃ project database path,
      slashPieces s = "projects" :: project :: "databases" :: database :: "documents" :: path := by
  unfold IsResourceName
  constructor
  · rintro ⟨hlength, hfirst, hthird, hfifth⟩
    match hpieces : slashPieces s with
    | first :: project :: third :: database :: fifth :: path =>
        rw [hpieces] at hfirst hthird hfifth
        cases hfirst
        cases hthird
        cases hfifth
        exact ⟨project, database, path, rfl⟩
    | [] | [_] | [_, _] | [_, _, _] | [_, _, _, _] =>
        rw [hpieces] at hlength
        simp at hlength
  · rintro ⟨project, database, path, hpieces⟩
    rw [hpieces]
    exact ⟨Nat.le_add_left 5 path.length, rfl, rfl, rfl⟩

namespace DatabaseId

/-- Whether the names of a database and its project can stand between slashes. -/
def IsProper (d : DatabaseId) : Prop := IsSegment d.project ∧ IsSegment d.database

instance (d : DatabaseId) : Decidable d.IsProper := inferInstanceAs (Decidable (_ ∧ _))

/-- The parts of a name make the name without idle slashes. -/
theorem resourceName_of_parseName {s : String} {d : DatabaseId} {p : ResourcePath}
    (h : parseName s = .ok (d, p)) : d.resourceName p = normalize s := by
  rw [resourceName_eq_intercalate, normalize, parseName_eq_ok.mp h]

/-- Names that are made of segments tell what they are made of. -/
theorem eq_of_resourceName_eq {d e : DatabaseId} {p q : ResourcePath} (hd : d.IsProper)
    (he : e.IsProper) (hp : p.IsProper) (hq : q.IsProper)
    (h : d.resourceName p = e.resourceName q) : d = e ∧ p = q := by
  have hfirst := parseName_resourceName hd.1 hd.2 hp
  have hsecond := parseName_resourceName he.1 he.2 hq
  rw [← h, hfirst] at hsecond
  cases hsecond
  exact ⟨rfl, rfl⟩

/-- **Resource names are taken apart as they are put together.**  Just the texts with the pieces of
a resource name are taken apart, and the parts make the text without idle slashes.  The name of a
path of segments, be it the root, in a database named by segments is taken apart into that database
and path, so no two of them have the same name. -/
theorem parseName_iff_resourceName :
    (∀ s, (∃ d p, parseName s = .ok (d, p)) ↔ IsResourceName s) ∧
      (∀ s d p, parseName s = .ok (d, p) → d.resourceName p = normalize s) ∧
      (∀ (d : DatabaseId) (p : ResourcePath), d.IsProper → p.IsProper →
        parseName (d.resourceName p) = .ok (d, p)) ∧
      ∀ (d e : DatabaseId) (p q : ResourcePath), d.IsProper → e.IsProper → p.IsProper →
        q.IsProper → d.resourceName p = e.resourceName q → d = e ∧ p = q := by
  refine ⟨fun s => ?_, fun _ _ _ => resourceName_of_parseName, ?_, ?_⟩
  · rw [isResourceName_iff]
    constructor
    · rintro ⟨d, p, h⟩
      exact ⟨d.project, d.database, p.segments, parseName_eq_ok.mp h⟩
    · rintro ⟨project, database, path, hpieces⟩
      exact ⟨⟨project, database⟩, ⟨path⟩, parseName_eq_ok.mpr hpieces⟩
  · exact fun d p hd hp => parseName_resourceName hd.1 hd.2 hp
  · exact fun d e p q hd he hp hq h => eq_of_resourceName_eq hd he hp hq h

/-- A name with idle slashes, and a path of the words that announce the parts of a name. -/
theorem parseName_iff_resourceName_words :
    let d : DatabaseId := ⟨"databases", "documents"⟩
    let p : ResourcePath := ⟨["projects", "documents"]⟩
    let s := "/projects//databases/databases/documents/documents/projects/documents/"
    IsResourceName s ∧ d.IsProper ∧ p.IsProper ∧ parseName s = .ok (d, p) ∧
      d.resourceName p = normalize s ∧ parseName (d.resourceName p) = .ok (d, p) := by
  intro d p s
  obtain ⟨haccepts, hmakes, hback, -⟩ := parseName_iff_resourceName
  have hparse : parseName s = .ok (d, p) := by
    rw [parseName_eq_ok]
    decide +kernel
  have hd : d.IsProper := by decide
  have hp : p.IsProper := by decide
  exact ⟨(haccepts s).mp ⟨d, p, hparse⟩, hd, hp, hparse, hmakes s d p hparse, hback d p hd hp⟩

end DatabaseId

end Firestore
