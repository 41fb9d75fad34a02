import Firestore.Proofs.Path.Resource
import Firestore.Proofs.Steps
import Firestore.Reference

/-!
# Reachable references have proper paths

Texts are read as segments, made-up ids are segments, and steps up and down only join
and shorten paths.  So all segments of a reference that can be reached are nonempty and
free of slashes (`Reachable.isProper`).
-/

namespace Firestore

/-- All segments are nonempty and free of slashes. -/
def ResourcePath.IsProper (p : ResourcePath) : Prop := ∀ s ∈ p.segments, IsSegment s

instance (p : ResourcePath) : Decidable p.IsProper :=
  inferInstanceAs (Decidable (∀ s ∈ p.segments, IsSegment s))

namespace ResourcePath

theorem isProper_parse (text : String) : (parse text).IsProper :=
  fun _ hs => isSegment_of_mem_slashPieces hs

theorem isProper_append {p q : ResourcePath} (hp : p.IsProper) (hq : q.IsProper) :
    (p.append q).IsProper :=
  fun s hs => (List.mem_append.mp hs).elim (hp s) (hq s)

theorem isProper_parent {p : ResourcePath} (hp : p.IsProper) : p.parent.IsProper :=
  fun s hs => hp s (List.dropLast_subset _ hs)

end ResourcePath

/-- An id that was made up has no slash in it. -/
theorem AutoId.isSegment_text (id : AutoId) : IsSegment id.text := by
  have hchars : id.text.toList = id.chars := String.toList_ofList
  constructor
  · intro hempty
    have hlength := id.length_eq
    rw [← hchars, hempty] at hlength
    contradiction
  · intro hslash
    rw [hchars] at hslash
    have halphanumeric := List.all_eq_true.mp id.alphanumeric _ hslash
    contradiction

theorem DatabaseId.isProper_of_parseName {name : String} {d : DatabaseId} {path : ResourcePath}
    (h : parseName name = .ok (d, path)) : path.IsProper := by
  intro s hs
  apply @isSegment_of_mem_slashPieces name
  rw [parseName_eq_ok.mp h]
  simp [hs]

theorem CollectionReference.isProper_relativePath (fresh : AutoId) (id : Option String) :
    (relativePath fresh id).IsProper := by
  have hfresh : ResourcePath.IsProper ⟨[fresh.text]⟩ := by
    intro s hs
    rw [List.mem_singleton.mp hs]
    exact fresh.isSegment_text
  unfold relativePath
  cases id with
  | none => exact hfresh
  | some text =>
      show ResourcePath.IsProper (if _ then _ else _)
      split
      · exact hfresh
      · exact ResourcePath.isProper_parse text

/-! ## Steps -/

theorem DocumentReference.of_ofPath {d : DatabaseId} {path : ResourcePath} {r : DocumentReference}
    (h : ofPath d path = .ok r) : r.database = d ∧ r.path = path := by
  unfold ofPath DocumentKey.ofPath at h
  split at h
  · cases h
    exact ⟨rfl, rfl⟩
  · contradiction

theorem CollectionReference.of_ofPath {d : DatabaseId} {path : ResourcePath}
    {c : CollectionReference} (h : ofPath d path = .ok c) : c.database = d ∧ c.path = path := by
  unfold ofPath at h
  split at h
  · cases h
    exact ⟨rfl, rfl⟩
  · contradiction

/-- A collection below a document has the path of the text after that of the document. -/
theorem DocumentReference.of_collection {r : DocumentReference} {text : String}
    {c : CollectionReference} (h : r.collection text = .ok c) :
    c.database = r.database ∧ c.path = r.path.append (.parse text) := by
  obtain ⟨-, hpath⟩ := check_eq_ok.mp h
  exact CollectionReference.of_ofPath hpath

theorem DatabaseId.of_collection {d : DatabaseId} {text : String} {c : CollectionReference}
    (h : d.collection text = .ok c) : c.database = d ∧ c.path = .parse text := by
  obtain ⟨-, hpath⟩ := check_eq_ok.mp h
  exact CollectionReference.of_ofPath hpath

theorem DocumentReference.of_ofName {name : String} {r : DocumentReference}
    (h : ofName name = .ok r) : DatabaseId.parseName name = .ok (r.database, r.path) := by
  obtain ⟨⟨d, path⟩, hparse, h⟩ := bind_eq_ok.mp h
  obtain ⟨rfl, rfl⟩ := of_ofPath h
  exact hparse

theorem CollectionReference.of_parent? {c : CollectionReference} {r : DocumentReference}
    (h : c.parent? = some r) : r.database = c.database ∧ r.path = c.path.parent := by
  obtain ⟨-, hpath⟩ := Option.ite_none_left_eq_some.mp h
  exact DocumentReference.of_ofPath (toOption_eq_some.mp hpath)

/-! ## Reachable references -/

/-- **All segments of references that can be reached are nonempty and free of slashes.** -/
theorem DocumentReference.Reachable.isProper {r : DocumentReference} (h : r.Reachable) :
    r.path.IsProper := by
  -- what is shown of collections and of documents on the way is the same
  refine @DocumentReference.Reachable.rec (fun c _ => c.path.IsProper) (fun r _ => r.path.IsProper)
    ?_ ?_ ?_ ?_ ?_ ?_ ?_ r h
  · intro d text c h
    rw [(DatabaseId.of_collection h).2]
    exact ResourcePath.isProper_parse text
  · intro r text c _ h hr
    rw [(DocumentReference.of_collection h).2]
    exact ResourcePath.isProper_append hr (ResourcePath.isProper_parse text)
  · intro r _ hr
    exact ResourcePath.isProper_parent hr
  · intro d text r h
    rw [(DocumentReference.of_ofPath h).2]
    exact ResourcePath.isProper_parse text
  · intro name r h
    exact DatabaseId.isProper_of_parseName (DocumentReference.of_ofName h)
  · intro c fresh id r _ h hc
    rw [(DocumentReference.of_ofPath h).2]
    exact ResourcePath.isProper_append hc (CollectionReference.isProper_relativePath fresh id)
  · intro c r _ h hc
    rw [(CollectionReference.of_parent? h).2]
    exact ResourcePath.isProper_parent hc

end Firestore
