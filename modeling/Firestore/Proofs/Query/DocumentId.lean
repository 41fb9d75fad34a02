import Firestore.Proofs.Path.Navigation
import Firestore.Proofs.Query.WellFormed

/-!
# Ids of documents in queries

A query puts its collection together again to find what an id means, and a reference steps
down to it.  Both lead to the same path, whatever slashes the id has in it
(`Resolves.eq_ofPath`), so an id that is compared with stands for the document that the
reference leads to, and where there is none, a path is refused on both ways
(`Query.structured_ids`).
-/

namespace Firestore

/-- Both steps give the same, or each refuses a path. -/
def GivesAlike {α : Type} (x y : Except Error α) : Prop :=
  (∃ a, x = .ok a ∧ y = .ok a) ∨
    ∃ e f, x = .error e ∧ y = .error f ∧ e.code = .invalidPath ∧ f.code = .invalidPath

namespace GivesAlike

variable {α β : Type} {x y : Except Error α}

theorem refl (a : α) : GivesAlike (.ok a) (.ok a) := .inl ⟨a, rfl, rfl⟩

theorem refused {e f : Error} (he : e.code = .invalidPath) (hf : f.code = .invalidPath) :
    GivesAlike (α := α) (.error e) (.error f) :=
  .inr ⟨e, f, rfl, rfl, he, hf⟩

/-- Steps that go on alike after steps that give alike. -/
theorem bind (h : GivesAlike x y) {f g : α → Except Error β}
    (hfg : ∀ a, GivesAlike (f a) (g a)) : GivesAlike (x >>= f) (y >>= g) := by
  rcases h with ⟨a, rfl, rfl⟩ | ⟨e, f, rfl, rfl, he, hf⟩
  · exact hfg a
  · exact refused he hf

theorem map (h : GivesAlike x y) (f : α → β) : GivesAlike (f <$> x) (f <$> y) := by
  rcases h with ⟨a, rfl, rfl⟩ | ⟨e, f, rfl, rfl, he, hf⟩
  · exact refl (f a)
  · exact refused he hf

/-- What is made of each result is made of the list of results. -/
theorem mapM {γ : Type} {f : α → Except Error β} {g : α → Except Error γ} {k : γ → β}
    {as : List α} (h : ∀ a ∈ as, GivesAlike (f a) (k <$> g a)) :
    GivesAlike (as.mapM f) (List.map k <$> as.mapM g) := by
  induction as with
  | nil => exact refl []
  | cons a rest ih =>
      obtain ⟨ha, hrest⟩ := List.forall_mem_cons.mp h
      have hsteps : (List.map k <$> (a :: rest).mapM g) =
          ((k <$> g a) >>= fun b => (List.map k <$> rest.mapM g) >>= fun bs => .ok (b :: bs)) := by
        rw [List.mapM_cons]
        cases g a <;> cases rest.mapM g <;> rfl
      rw [List.mapM_cons, hsteps]
      exact ha.bind fun b => (ih hrest).bind fun bs => refl (b :: bs)

end GivesAlike

/-! ## Where ids lead -/

/-- The documents that ids lead to from where a query starts: below its collection, or from the root
of the database for a group. -/
inductive Query.Resolves : Query → (String → Except Error DocumentReference) → Prop
  | collection (c : CollectionReference) (fresh : AutoId) :
      Resolves c.query fun id => c.doc fresh (some id)
  | group {d : DatabaseId} {name : String} {q : Query} (h : d.collectionGroup name = .ok q) :
      Resolves q d.doc

namespace Query

variable {q start : Query} {document : String → Except Error DocumentReference}

theorem Resolves.isStart (h : start.Resolves document) : start.IsStart := by
  cases h with
  | collection c fresh => exact .collection c
  | group h => exact .group h

/-- The query of a collection puts its path together again. -/
theorem idBase_query (c : CollectionReference) : c.query.idBase = c.path := by
  have hodd := c.length_path
  exact ResourcePath.append_parent_last (by omega)

/-- Ids lead to the paths that they mean in the query. -/
theorem Resolves.eq_ofPath (h : start.Resolves document) {id : String} (hid : normalize id ≠ "") :
    document id = DocumentReference.ofPath start.database (start.idBase.append (.parse id)) := by
  cases h with
  | collection c fresh =>
      have hsome : (ResourcePath.parse id).isEmpty = false := by
        rw [ResourcePath.isEmpty, List.isEmpty_eq_false_iff]
        exact mt normalize_eq_empty_iff.mpr hid
      have hpath : CollectionReference.relativePath fresh (some id) = .parse id := by
        simp [CollectionReference.relativePath, hsome]
      show c.doc fresh (some id) = _
      rw [idBase_query, CollectionReference.doc, hpath]
      rfl
  | @group d name q h =>
      unfold DatabaseId.collectionGroup at h
      split at h
      · contradiction
      · cases h
        rfl

/-- The operand of an id is the name of the document that it leads to. -/
theorem Resolves.idReference (h : start.Resolves document) {id : String}
    (hid : normalize id ≠ "") :
    GivesAlike (start.idReference id) ((fun r => .reference r.name) <$> document id) := by
  rw [h.eq_ofPath hid, DocumentReference.ofPath, DocumentKey.ofPath, Query.idReference]
  by_cases hpath : (start.idBase.append (.parse id)).isDocument = true
  · simp only [hpath, if_true, dif_pos]
    exact .refl _
  · simp only [hpath, if_false, dif_neg, not_false_eq_true, Bool.false_eq_true]
    exact .refused rfl rfl

/-! ## Queries by ids -/

theorem addFilter_of_nil (h : start.predicates = []) (p : Predicate) :
    start.addFilter p = start.push p := by
  rw [addFilter, h]
  rfl

theorem whereId_eq_ok (h : start.predicates = []) {op : Comparison} {id : String}
    (hsingle : op.takesList = false) (hop : op ≠ .arrayContains) (hid : normalize id ≠ "") :
    start.whereId op id = .ok (start.push (.documentId op [id])) := by
  have hcheck : Predicate.checkId id = .ok () := by
    rw [Predicate.checkId, if_neg (by simpa using hid)]
  have hfilter : Predicate.ofId op id = .ok (.documentId op [id]) := by
    simp [Predicate.ofId, hsingle, hop, hcheck]
  rw [whereId, hfilter, map_ok, addFilter_of_nil h]

theorem whereIds_eq_ok (h : start.predicates = []) {op : Comparison} {ids : List String}
    (hlist : op.takesList = true) (hsome : ids ≠ []) (hids : ∀ id ∈ ids, normalize id ≠ "") :
    start.whereIds op ids = .ok (start.push (.documentId op ids)) := by
  have hcheck : ids.forM Predicate.checkId = .ok () := by
    clear hsome
    induction ids with
    | nil => rfl
    | cons id rest ih =>
        obtain ⟨hid, hrest⟩ := List.forall_mem_cons.mp hids
        have hfirst : Predicate.checkId id = .ok () := by
          rw [Predicate.checkId, if_neg (by simpa using hid)]
        show (Predicate.checkId id >>= fun _ => rest.forM Predicate.checkId) = .ok ()
        rw [hfirst, ok_bind, ih hrest]
  have hfilter : Predicate.ofIds op ids = .ok (.documentId op ids) := by
    simp [Predicate.ofIds, hlist, hsome, hcheck]
  rw [whereIds, hfilter, map_ok, addFilter_of_nil h]

/-- A query by ids alone is sent with a comparison of references. -/
theorem condition_structured_ids (h : start.predicates = []) (op : Comparison) (ids : List String) :
    StructuredQuery.condition <$> (start.push (.documentId op ids)).structured =
      (fun references => some (.comparison .documentId op (idOperand op references))) <$>
        ids.mapM start.idReference := by
  have hfilters : (start.push (.documentId op ids)).filters =
      (some (Predicate.documentId op ids)).toList := by
    simp [filters, h, Predicate.isFilter, Predicate.modifier?]
  have hsame : (start.push (.documentId op ids)).idReference = start.idReference := rfl
  rw [structured_eq hfilters, Option.mapM_some, conditionOf, hsame]
  cases ids.mapM start.idReference <;> rfl

/-- **An id in a query and in a reference name the same document.**  Take a query to which nothing
was added, of a collection or of a group.  A comparison with one id that is not blank can be asked
for, and it is sent with the name of the document that the id leads to, below the collection or from
the root; if it leads to none, the query and the reference both refuse a path.  A comparison with
some ids is sent with all their names in order, if each of them leads to a document. -/
theorem structured_ids (h : start.Resolves document) :
    (∀ (op : Comparison) (id : String), op.takesList = false → op ≠ .arrayContains →
      normalize id ≠ "" → ∃ q, start.whereId op id = .ok q ∧
        GivesAlike (StructuredQuery.condition <$> q.structured)
          ((fun r => some (.comparison .documentId op (.reference r.name))) <$> document id)) ∧
      ∀ (op : Comparison) (ids : List String), op.takesList = true → ids ≠ [] →
        (∀ id ∈ ids, normalize id ≠ "") → ∃ q, start.whereIds op ids = .ok q ∧
          GivesAlike (StructuredQuery.condition <$> q.structured)
            ((fun rs => some (.comparison .documentId op
              (.array (rs.map fun r => .reference r.name)))) <$> ids.mapM document) := by
  have hnil := h.isStart.predicates_eq_nil
  refine ⟨fun op id hsingle hop hid => ⟨_, whereId_eq_ok hnil hsingle hop hid, ?_⟩,
    fun op ids hlist hsome hids => ⟨_, whereIds_eq_ok hnil hlist hsome hids, ?_⟩⟩
  · -- one id is looked up as a list of one
    have hone : (fun references => some (Condition.comparison .documentId op
          (idOperand op references))) <$> [id].mapM start.idReference =
        (fun v => some (Condition.comparison .documentId op v)) <$> start.idReference id := by
      rw [List.mapM_cons, List.mapM_nil]
      cases start.idReference id <;> simp [idOperand, hsingle]
    have hmap := (h.idReference hid).map fun v => some (Condition.comparison .documentId op v)
    rw [condition_structured_ids hnil, hone]
    rwa [Functor.map_map] at hmap
  · have hoperand : idOperand op = Value.array := by
      funext references
      rw [idOperand, if_pos hlist]
    have halike : GivesAlike (ids.mapM start.idReference)
        (List.map (fun r => .reference r.name) <$> ids.mapM document) :=
      .mapM fun id hid => h.idReference (hids id hid)
    have hmap := halike.map fun references =>
      some (Condition.comparison .documentId op (.array references))
    rw [condition_structured_ids hnil, hoperand]
    rwa [Functor.map_map] at hmap

/-- An id of several segments with idle slashes, below a collection. -/
theorem structured_ids_nested :
    let fresh : AutoId := .ofDraws id
    let users : CollectionReference := ⟨.default "demo", ⟨["users"]⟩, rfl⟩
    let post : DocumentReference :=
      ⟨.default "demo", ⟨⟨["users", "alice", "posts", "p1"]⟩, rfl⟩⟩
    let name := "projects/demo/databases/(default)/documents/users/alice/posts/p1"
    users.query.Resolves (fun id => users.doc fresh (some id)) ∧
      normalize "//alice/posts//p1/" ≠ "" ∧ users.doc fresh (some "//alice/posts//p1/") = .ok post ∧
      ∃ q s, users.query.whereId .equal "//alice/posts//p1/" = .ok q ∧ q.structured = .ok s ∧
        s.condition = some (.comparison .documentId .equal (.reference name)) := by
  intro fresh users post name
  have hresolves : users.query.Resolves fun id => users.doc fresh (some id) :=
    .collection users fresh
  have hid : normalize "//alice/posts//p1/" ≠ "" := by decide +kernel
  have hrelative : CollectionReference.relativePath fresh (some "//alice/posts//p1/") =
      ⟨["alice", "posts", "p1"]⟩ := by decide +kernel
  have hdocument : users.doc fresh (some "//alice/posts//p1/") = .ok post := by
    rw [CollectionReference.doc, hrelative]
    exact DocumentReference.ofPath_eq_ok.mpr ⟨by decide +kernel, rfl, rfl⟩
  have hname : post.name = name := by decide +kernel
  obtain ⟨q, hq, halike⟩ := (structured_ids hresolves).1 .equal _ rfl (by decide) hid
  rw [hdocument, map_ok, hname] at halike
  rcases halike with ⟨condition, hsent, hsame⟩ | ⟨_, _, _, herror, _⟩
  · obtain ⟨s, hs, rfl⟩ := map_eq_ok.mp hsent
    exact ⟨hresolves, hid, hdocument, q, s, hq, hs, (Except.ok.inj hsame).symm⟩
  · contradiction

end Query

end Firestore
