import Firestore.Proofs.Path.Reachable

/-!
# Going down and up again

A step down to a child and the step up from it undo each other: a document is found in its
parent under its own id (`DocumentReference.doc_parent`), and what is found under an id
has the place that one started from as its parent.  Every segment of a reference that can
be reached is proper, so its id can be used to come back to it (`navigates_of_reachable`).
-/

namespace Firestore

/-! ## Paths of one more segment -/

namespace ResourcePath

theorem parse_segment {s : String} (h : IsSegment s) : parse s = ⟨[s]⟩ := by
  rw [parse, slashPieces_segment h]

@[simp]
theorem parent_append_singleton (p : ResourcePath) (s : String) : (p.append ⟨[s]⟩).parent = p := by
  simp [append, child, parent]

@[simp]
theorem last?_append_singleton (p : ResourcePath) (s : String) :
    (p.append ⟨[s]⟩).last? = some s := by
  simp [append, child, last?]

@[simp]
theorem length_append (p q : ResourcePath) : (p.append q).length = p.length + q.length :=
  List.length_append

theorem isEmpty_iff {p : ResourcePath} : p.isEmpty = true ↔ p.length = 0 := by
  rw [isEmpty, length, List.isEmpty_iff, List.length_eq_zero_iff]

theorem isDocument_iff {p : ResourcePath} :
    p.isDocument = true ↔ 0 < p.length ∧ p.length % 2 = 0 := by
  rw [isDocument, Bool.and_eq_true, Bool.not_eq_true', beq_iff_eq, ← Bool.not_eq_true,
    isEmpty_iff, Nat.pos_iff_ne_zero]

theorem isCollection_iff {p : ResourcePath} : p.isCollection = true ↔ p.length % 2 = 1 := by
  rw [isCollection, beq_iff_eq]

theorem length_parent (p : ResourcePath) : p.parent.length = p.length - 1 :=
  List.length_dropLast

/-- A path that is not the root is its parent's with one more segment. -/
theorem append_parent_last {p : ResourcePath} (h : 0 < p.length) :
    p.parent.append ⟨[p.last?.getD ""]⟩ = p := by
  obtain ⟨segments⟩ := p
  have hne : segments ≠ [] := List.ne_nil_of_length_pos h
  simp only [append, child, parent, last?, List.getLast?_eq_some_getLast hne, Option.getD_some,
    List.dropLast_append_getLast]

end ResourcePath

/-! ## Single steps -/

namespace DocumentReference

variable {r : DocumentReference}

theorem ext_path {s : DocumentReference} (hdatabase : r.database = s.database)
    (hpath : r.path = s.path) : r = s := by
  obtain ⟨d, ⟨p, _⟩⟩ := r
  obtain ⟨e, ⟨q, _⟩⟩ := s
  cases hdatabase
  cases hpath
  rfl

/-- A path of a positive, even length is that of a document. -/
theorem ofPath_eq_ok {d : DatabaseId} {path : ResourcePath} :
    ofPath d path = .ok r ↔ path.isDocument = true ∧ r.database = d ∧ r.path = path := by
  constructor
  · intro h
    obtain ⟨rfl, rfl⟩ := of_ofPath h
    exact ⟨r.key.isDocument, rfl, rfl⟩
  · rintro ⟨hpath, rfl, rfl⟩
    rw [ofPath, DocumentKey.ofPath, dif_pos hpath]
    rfl

theorem length_path (r : DocumentReference) : 0 < r.path.length ∧ r.path.length % 2 = 0 :=
  ResourcePath.isDocument_iff.mp r.key.isDocument

end DocumentReference

namespace CollectionReference

variable {c : CollectionReference}

theorem ext_path {e : CollectionReference} (hdatabase : c.database = e.database)
    (hpath : c.path = e.path) : c = e := by
  obtain ⟨d, p, _⟩ := c
  obtain ⟨e, q, _⟩ := e
  cases hdatabase
  cases hpath
  rfl

/-- A path of an odd length is that of a collection. -/
theorem ofPath_eq_ok {d : DatabaseId} {path : ResourcePath} :
    ofPath d path = .ok c ↔ path.isCollection = true ∧ c.database = d ∧ c.path = path := by
  constructor
  · intro h
    obtain ⟨rfl, rfl⟩ := of_ofPath h
    exact ⟨c.isCollection, rfl, rfl⟩
  · rintro ⟨hpath, rfl, rfl⟩
    rw [ofPath, dif_pos hpath]

theorem length_path (c : CollectionReference) : c.path.length % 2 = 1 :=
  ResourcePath.isCollection_iff.mp c.isCollection

/-- An id text of one segment is taken as it is. -/
theorem relativePath_segment (fresh : AutoId) {id : String} (h : IsSegment id) :
    relativePath fresh (some id) = ⟨[id]⟩ := by
  simp [relativePath, ResourcePath.parse_segment h, ResourcePath.isEmpty]

/-- An id of one segment leads to a document of the collection. -/
theorem exists_doc (c : CollectionReference) (fresh : AutoId) {id : String} (h : IsSegment id) :
    ∃ r, c.doc fresh (some id) = .ok r ∧ r.parent = c ∧ r.id = id := by
  have hodd := c.length_path
  have hpath : (c.path.append ⟨[id]⟩).isDocument = true := by
    rw [ResourcePath.isDocument_iff, ResourcePath.length_append]
    show 0 < c.path.length + 1 ∧ (c.path.length + 1) % 2 = 0
    omega
  refine ⟨⟨c.database, ⟨_, hpath⟩⟩, ?_, ext_path rfl ?_, ?_⟩
  · rw [doc, relativePath_segment fresh h]
    exact DocumentReference.ofPath_eq_ok.mpr ⟨hpath, rfl, rfl⟩
  · exact ResourcePath.parent_append_singleton c.path id
  · show (c.path.append ⟨[id]⟩).last?.getD "" = id
    rw [ResourcePath.last?_append_singleton, Option.getD_some]

/-- Just the collections at the root have no parent. -/
theorem parent?_eq_none_iff : c.parent? = none ↔ c.path.length = 1 := by
  have hodd := c.length_path
  have hlength := c.path.length_parent
  have hempty : c.path.parent.isEmpty = true ↔ c.path.length = 1 := by
    rw [ResourcePath.isEmpty_iff]
    omega
  by_cases hroot : c.path.parent.isEmpty = true
  · have hnone : c.parent? = none := by simp [parent?, hroot]
    exact iff_of_true hnone (hempty.mp hroot)
  · have hlong : c.path.length ≠ 1 := mt hempty.mpr hroot
    have hdocument : c.path.parent.isDocument = true := by
      rw [ResourcePath.isDocument_iff]
      omega
    have hsome : DocumentReference.ofPath c.database c.path.parent =
        .ok ⟨c.database, ⟨_, hdocument⟩⟩ :=
      DocumentReference.ofPath_eq_ok.mpr ⟨hdocument, rfl, rfl⟩
    refine iff_of_false ?_ hlong
    simp [parent?, hroot, hsome, Except.toOption]

end CollectionReference

namespace DocumentReference

/-- A proper document is found in its parent under its own id. -/
theorem doc_parent {r : DocumentReference} (h : r.path.IsProper) (fresh : AutoId) :
    r.parent.doc fresh (some r.id) = .ok r := by
  obtain ⟨hpos, -⟩ := r.length_path
  have hlast : IsSegment r.id := by
    apply h
    have hne : r.path.segments ≠ [] := List.ne_nil_of_length_pos hpos
    show r.path.segments.getLast?.getD "" ∈ r.path.segments
    rw [List.getLast?_eq_some_getLast hne, Option.getD_some]
    exact List.getLast_mem hne
  rw [CollectionReference.doc, CollectionReference.relativePath_segment fresh hlast]
  exact ofPath_eq_ok.mpr ⟨(ResourcePath.append_parent_last hpos).symm ▸ r.key.isDocument, rfl,
    (ResourcePath.append_parent_last hpos).symm⟩

/-- An id of one segment leads to a collection whose parent is the document. -/
theorem exists_collection (r : DocumentReference) {id : String} (h : IsSegment id) :
    ∃ c, r.collection id = .ok c ∧ c.parent? = some r := by
  obtain ⟨hpos, heven⟩ := r.length_path
  have hpath : (r.path.append ⟨[id]⟩).isCollection = true := by
    rw [ResourcePath.isCollection_iff, ResourcePath.length_append]
    show (r.path.length + 1) % 2 = 1
    omega
  refine ⟨⟨r.database, _, hpath⟩, ?_, ?_⟩
  · rw [collection, ResourcePath.parse_segment h]
    exact CollectionReference.ofPath_eq_ok.mpr ⟨hpath, rfl, rfl⟩
  · have hdocument : ofPath r.database r.path = .ok r :=
      ofPath_eq_ok.mpr ⟨r.key.isDocument, rfl, rfl⟩
    have hsome : ¬ r.path.isEmpty = true := by
      rw [ResourcePath.isEmpty_iff]
      omega
    simp [CollectionReference.parent?, hsome, hdocument, Except.toOption]

end DocumentReference

/-! ## Reachable references -/

/-- What navigation can rely on at a collection. -/
structure CollectionReference.Navigates (c : CollectionReference) : Prop where
  proper : c.path.IsProper
  odd : c.path.length % 2 = 1
  database_parent : ∀ r, c.parent? = some r → r.database = c.database
  database_doc : ∀ fresh id r, c.doc fresh id = .ok r → r.database = c.database
  root_iff : c.parent? = none ↔ c.path.length = 1
  down_up : ∀ fresh id, IsSegment id →
    ∃ r, c.doc fresh (some id) = .ok r ∧ r.parent = c ∧ r.id = id

/-- What navigation can rely on at a document. -/
structure DocumentReference.Navigates (r : DocumentReference) : Prop where
  proper : r.path.IsProper
  even : 0 < r.path.length ∧ r.path.length % 2 = 0
  database_parent : r.parent.database = r.database
  database_collection : ∀ text c, r.collection text = .ok c → c.database = r.database
  up_down : ∀ fresh, r.parent.doc fresh (some r.id) = .ok r
  down_up : ∀ id, IsSegment id → ∃ c, r.collection id = .ok c ∧ c.parent? = some r

/-- All segments of collections that can be reached are nonempty and free of slashes, too. -/
theorem CollectionReference.Reachable.isProper {c : CollectionReference} (h : c.Reachable) :
    c.path.IsProper := by
  cases h with
  | root h =>
      rw [(DatabaseId.of_collection h).2]
      exact ResourcePath.isProper_parse _
  | down hr h =>
      rw [(DocumentReference.of_collection h).2]
      exact ResourcePath.isProper_append hr.isProper (ResourcePath.isProper_parse _)
  | up hr => exact ResourcePath.isProper_parent hr.isProper

theorem CollectionReference.Reachable.navigates {c : CollectionReference} (h : c.Reachable) :
    c.Navigates where
  proper := h.isProper
  odd := c.length_path
  database_parent _ hr := (CollectionReference.of_parent? hr).1
  database_doc _ _ _ hr := (DocumentReference.of_ofPath hr).1
  root_iff := parent?_eq_none_iff
  down_up fresh _ hid := c.exists_doc fresh hid

theorem DocumentReference.Reachable.navigates {r : DocumentReference} (h : r.Reachable) :
    r.Navigates where
  proper := h.isProper
  even := r.length_path
  database_parent := rfl
  database_collection _ _ hc := (DocumentReference.of_collection hc).1
  up_down := doc_parent h.isProper
  down_up _ hid := r.exists_collection hid

/-- **References that can be reached are well formed, and steps down and up undo each other.**
This holds of whatever is reached from a database or from a resource name by any steps down and up;
no step leads to another database. -/
theorem navigates_of_reachable :
    (∀ c : CollectionReference, c.Reachable → c.Navigates) ∧
      (∀ r : DocumentReference, r.Reachable → r.Navigates) ∧
      ∀ (d : DatabaseId) (text : String),
        (∀ c, d.collection text = .ok c → c.database = d) ∧
          ∀ r, d.doc text = .ok r → r.database = d := by
  refine ⟨fun c hc => hc.navigates, fun r hr => hr.navigates, fun d text => ⟨?_, ?_⟩⟩
  · exact fun c hc => (DatabaseId.of_collection hc).1
  · exact fun r hr => (DocumentReference.of_ofPath hr).1

/-- A collection from a text with idle slashes, and the document that holds it. -/
theorem navigates_of_reachable_posts :
    let fresh : AutoId := .ofDraws id
    let d : DatabaseId := .default "demo"
    let posts : CollectionReference := ⟨d, ⟨["users", "alice", "posts"]⟩, rfl⟩
    let alice : DocumentReference := ⟨d, ⟨⟨["users", "alice"]⟩, rfl⟩⟩
    posts.Reachable ∧ alice.Reachable ∧ posts.path.IsProper ∧ posts.parent? ≠ none ∧
      alice.parent.doc fresh (some "alice") = .ok alice ∧
      ∃ c, alice.collection "posts" = .ok c ∧ c.parent? = some alice := by
  intro fresh d posts alice
  obtain ⟨hcollections, hdocuments, -⟩ := navigates_of_reachable
  have hpath : ResourcePath.parse "/users//alice/posts/" = ⟨["users", "alice", "posts"]⟩ := by
    decide +kernel
  have htext : d.collection "/users//alice/posts/" = .ok posts := by
    rw [DatabaseId.collection, hpath]
    rfl
  have hposts : posts.Reachable := .root htext
  have halice : alice.Reachable := .up hposts (by decide)
  have hnest := (hcollections posts hposts).root_iff
  have hback := hdocuments alice halice
  refine ⟨hposts, halice, (hcollections posts hposts).proper, mt hnest.mp (by decide), ?_, ?_⟩
  · exact hback.up_down fresh
  · exact hback.down_up "posts" (by decide)

end Firestore
