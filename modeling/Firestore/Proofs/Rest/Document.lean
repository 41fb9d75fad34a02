import Firestore.Proofs.Path.Reachable
import Firestore.Proofs.Rest.SentBack
import Firestore.Rest.Document

/-!
# Documents are read as they were written

A write that stores data sends a document: a name, which leads back to the reference
(`ofName_name`), and fields, which are read as the data (`restDecodeFields_sent`).  An
answer to a query holds such documents among entries that hold none (`Answers`), and
the snapshots that are made of it are those of the documents, in their order.
-/

namespace Firestore

open Value

/-! ## What is sent and what is answered -/

/-- A write that stores fields in a document. -/
inductive Write.Stores : Write → DocumentKey → Fields Value → Prop where
  | set (key : DocumentKey) (data : SetData) : Stores (.set key data) key data.fields
  | update (key : DocumentKey) (data : UpdateData) : Stores (.update key data) key data.fields

namespace DatabaseId

/-- A request that stores data in a document of a database; there are texts for the moments in
the data. -/
structure Sends (d : DatabaseId) (r : DocumentReference) (data : Fields Value) (request : Json) :
    Prop where
  reachable : r.Reachable
  database : r.database = d
  ordered : (map data).Ordered
  times : (map data).TimesAre Timestamp.HasText
  written : ∃ w : Write, w.Stores r.key data ∧ w.restEncode d = .ok request

/-- Entries of an answer, and the documents that they hold. -/
inductive Answers (d : DatabaseId) : List Json → List DocumentSnapshot → Prop where
  | nil : Answers d [] []
  | document {r : DocumentReference} {data : Fields Value} {request document : Json}
      {members : List (String × Json)} {entries : List Json} {snapshots : List DocumentSnapshot}
      (hsent : d.Sends r data request) (hupdate : request.get? "update" = some document)
      (hentry : Fields.get? members "document" = some document)
      (hrest : Answers d entries snapshots) :
      Answers d (.object members :: entries) (⟨r, some data, none, none⟩ :: snapshots)
  | other {members : List (String × Json)} {entries : List Json}
      {snapshots : List DocumentSnapshot}
      (hentry : Fields.get? members "document" = none) (hrest : Answers d entries snapshots) :
      Answers d (.object members :: entries) snapshots

variable {d : DatabaseId}

/-! ## Documents -/

/-- A request that stores data has the name and the fields of its document. -/
theorem update_of_stores {w : Write} {key : DocumentKey} {data : Fields Value} {request : Json}
    (hstores : w.Stores key data) (h : w.restEncode d = .ok request) :
    ∃ members, restEncodeFields data = .ok members ∧
      request.get? "update" = some (.object
        [("fields", .object members), ("name", .string (d.documentName key))]) := by
  have hsent := Write.sentAs_of_restEncode h
  cases hstores with
  | set key data | update key data => exact hsent.document rfl

/-- A time that is left out is none. -/
theorem documentTime_of_get? {members : List (String × Json)} {member : String}
    (h : Fields.get? members member = none) :
    documentTime (.object members) member = .ok none := by
  have hget : (Json.object members).get? member = none := h
  rw [documentTime, hget]

/-- A document without times is read as its reference and its fields. -/
theorem restDecodeDocument_eq_ok {r : DocumentReference} {fields : Fields Value}
    {members : List (String × Json)} {name : String}
    (hname : Fields.get? members "name" = some (.string name))
    (hreference : DocumentReference.ofName name = .ok r) (hdatabase : r.database = d)
    (hfields : restDecodeFields members = .ok fields)
    (hcreate : Fields.get? members "createTime" = none)
    (hupdate : Fields.get? members "updateTime" = none) :
    d.restDecodeDocument (.object members) = .ok ⟨r, some fields, none, none⟩ := by
  have htext : ((Json.object members).get? "name").bind Json.string? = some name := by
    show (Fields.get? members "name").bind Json.string? = some name
    rw [hname]
    rfl
  have hnot : ¬ r.database ≠ d := not_not.mpr hdatabase
  have hdocument : restDocumentFields (.object members) = .ok fields := hfields
  rw [restDecodeDocument, htext]
  simp only [hreference, ok_bind, if_neg hnot, hdocument, documentTime_of_get? hcreate,
    documentTime_of_get? hupdate, pure_eq_ok]

/-- What is read as a document belongs to the database. -/
theorem database_of_restDecodeDocument {document : Json} {s : DocumentSnapshot}
    (h : d.restDecodeDocument document = .ok s) : s.reference.database = d := by
  unfold restDecodeDocument at h
  split at h
  · contradiction
  · obtain ⟨r, -, h⟩ := bind_eq_ok.mp h
    by_cases hother : r.database ≠ d
    · simp only [if_pos hother] at h
      contradiction
    · simp only [if_neg hother] at h
      obtain ⟨fields, -, h⟩ := bind_eq_ok.mp h
      obtain ⟨createTime, -, h⟩ := bind_eq_ok.mp h
      obtain ⟨updateTime, -, h⟩ := bind_eq_ok.mp h
      cases h
      exact not_not.mp hother

/-- The document that a request stores data in is read as that data. -/
theorem restDecodeDocument_of_sends (hproject : IsSegment d.project)
    (hdatabase : IsSegment d.database) {r : DocumentReference} {data : Fields Value}
    {request : Json} (h : d.Sends r data request) :
    ∃ document, request.get? "update" = some document ∧
      d.restDecodeDocument document = .ok ⟨r, some data, none, none⟩ := by
  obtain ⟨w, hstores, hwrite⟩ := h.written
  obtain ⟨members, hmembers, hupdate⟩ := update_of_stores hstores hwrite
  refine ⟨_, hupdate, restDecodeDocument_eq_ok rfl ?_ h.database ?_ rfl rfl⟩
  · have hname : d.documentName r.key = r.name := by rw [DocumentReference.name, h.database]; rfl
    rw [hname]
    refine DocumentReference.ofName_name ?_ ?_ h.reachable.isProper
    · rw [h.database]
      exact hproject
    · rw [h.database]
      exact hdatabase
  · obtain ⟨hsorted, hordered⟩ := ordered_map.mp h.ordered
    have htimes := timesAre_map.mp h.times
    refine (restDecodeFields_sent hsorted hmembers ?_ rfl data).mpr ⟨rfl, htimes⟩
    intro field hfield j hj
    have hnormal := (htimes field hfield).imp fun _ => And.left
    exact standsFor_of_restEncode (hordered field hfield) hnormal hj

/-! ## Answers -/

/-- The documents of an answer are read one after the other. -/
theorem mapM_of_answers (hproject : IsSegment d.project) (hdatabase : IsSegment d.database)
    {entries : List Json} {snapshots : List DocumentSnapshot} (h : d.Answers entries snapshots) :
    (entries.filterMap fun entry => entry.get? "document").mapM d.restDecodeDocument =
      .ok snapshots := by
  rw [mapM_eq_ok]
  induction h with
  | nil => exact .nil
  | @document _ _ _ _ members _ _ hsent hupdate hentry _ ih =>
      obtain ⟨document, hdocument, hread⟩ :=
        restDecodeDocument_of_sends hproject hdatabase hsent
      rw [hupdate] at hdocument
      cases hdocument
      have hget : (Json.object members).get? "document" = some _ := hentry
      rw [List.filterMap_cons, hget]
      exact .cons hread ih
  | @other members _ _ hentry _ ih =>
      have hget : (Json.object members).get? "document" = none := hentry
      rw [List.filterMap_cons, hget]
      exact ih

/-- **What is written is what is read.**  In a database whose names are segments, the document of
a request that stores data is read as its reference and that data, an answer to a query as the
documents that it holds, and no document of another database is read. -/
theorem restDecodeDocument_sent (hproject : IsSegment d.project)
    (hdatabase : IsSegment d.database) :
    (∀ r data request, d.Sends r data request →
      ∃ document, request.get? "update" = some document ∧
        d.restDecodeDocument document = .ok ⟨r, some data, none, none⟩) ∧
    (∀ query entries snapshots, d.Answers entries snapshots →
      d.restDecodeAnswer query (.array entries) = .ok ⟨query, snapshots⟩) ∧
    ∀ document s, d.restDecodeDocument document = .ok s → s.reference.database = d := by
  refine ⟨?_, ?_, ?_⟩
  · intro r data request h
    exact restDecodeDocument_of_sends hproject hdatabase h
  · intro query entries snapshots h
    simp only [restDecodeAnswer, Json.elements?, mapM_of_answers hproject hdatabase h, ok_bind,
      pure_eq_ok]
  · intro document s h
    exact database_of_restDecodeDocument h

/-- A city is set, and a query answers with it after an entry that only tells how far the query
has come. -/
theorem restDecodeDocument_sent_city :
    let d := DatabaseId.default "demo"
    let r : DocumentReference := ⟨d, ⟨⟨["cities", "sf"]⟩, by decide⟩⟩
    let data : Fields Value := [("name", .string "San Francisco"), ("opened", .timestamp ⟨0, 5⟩)]
    let document : Json := .object
      [("fields", .object
          [("name", TypeName.string.tagged (.string "San Francisco")),
            ("opened", TypeName.timestamp.tagged (.string "1970-01-01T00:00:00.000000005Z"))]),
        ("name", .string "projects/demo/databases/(default)/documents/cities/sf")]
    let entries : List Json :=
      [.object [("skippedResults", .nat 3)], .object [("document", document)]]
    let snapshot : DocumentSnapshot := ⟨r, some data, none, none⟩
    IsSegment d.project ∧ IsSegment d.database ∧
      d.Sends r data (.object [("update", document)]) ∧ d.Answers entries [snapshot] ∧
      d.restDecodeDocument document = .ok snapshot ∧
      d.restDecodeAnswer r.parent.query (.array entries) = .ok ⟨r.parent.query, [snapshot]⟩ := by
  intro d r data document entries snapshot
  have hproject : IsSegment d.project := by decide
  have hdatabase : IsSegment d.database := by decide
  have hreachable : r.Reachable := by
    apply @DocumentReference.Reachable.root d "cities//sf"
    rfl
  have htext : restTimestamp ⟨0, 5⟩ = .ok "1970-01-01T00:00:00.000000005Z" :=
    toOption_eq_some.mp (by decide +kernel)
  have hwritten : (Write.set r.key ⟨data, none, []⟩).restEncode d =
      .ok (.object [("update", document)]) := by
    simp only [Write.restEncode, restDocument, data, restEncodeFields, restEncode, htext]
    rfl
  have hsent : d.Sends r data (.object [("update", document)]) :=
    ⟨hreachable, rfl, by decide, by decide, _, .set r.key ⟨data, none, []⟩, hwritten⟩
  have hanswers : d.Answers entries [snapshot] := .other rfl (.document hsent rfl rfl .nil)
  obtain ⟨hdocuments, hanswer, -⟩ := restDecodeDocument_sent hproject hdatabase
  obtain ⟨_, hupdate, hread⟩ := hdocuments r data _ hsent
  cases hupdate
  exact ⟨hproject, hdatabase, hsent, hanswers, hread, hanswer _ _ _ hanswers⟩

end DatabaseId

end Firestore
