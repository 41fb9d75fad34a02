import Firestore.Proofs.Steps
import Firestore.Proofs.Value.Transforms
import Firestore.Proofs.Write.Extraction
import Firestore.Rest.Write

/-!
# What can be sent

A value has a REST notation if it holds no transform and the calendar has all of its
moments (`exists_restEncode_iff`).  A write whose data has been split (`Write.IsClean`)
can therefore be sent unless one of its moments is out of range, and nothing else can
go wrong with it.
-/

namespace Firestore

open Value

/-- A moment that the calendar has. -/
def Timestamp.InCalendar (t : Timestamp) : Prop := t.toDateTime?.isSome = true

instance (t : Timestamp) : Decidable t.InCalendar := inferInstanceAs (Decidable (_ = true))

/-! ## Values -/

theorem FailsWith.inside {α : Type} {x : Except Error α} (h : FailsWith Error.IsInvalidArgument x)
    (segment : String) : FailsWith Error.IsInvalidArgument (inside segment x) := by
  cases x with
  | ok a => exact .ok a
  | error e => exact .error (h e rfl)

theorem exists_restTimestamp_iff {t : Timestamp} :
    (∃ text, restTimestamp t = .ok text) ↔ t.InCalendar := by
  unfold restTimestamp Timestamp.InCalendar
  cases t.toDateTime? <;> simp

private theorem exists_restEncodeAll_iff {elements : List Value} {index : Nat} :
    (∃ js, restEncodeAll index elements = .ok js) ↔ ∀ v ∈ elements, ∃ j, restEncode v = .ok j := by
  induction elements generalizing index with
  | nil => simp [restEncodeAll]
  | cons v rest ih =>
      rw [restEncodeAll, List.forall_mem_cons, ← @ih (index + 1)]
      cases restEncode v <;> cases restEncodeAll (index + 1) rest <;> simp

private theorem exists_restEncodeFields_iff {fields : List (String × Value)} :
    (∃ members, restEncodeFields fields = .ok members) ↔
      ∀ field ∈ fields, ∃ j, restEncode field.2 = .ok j := by
  induction fields with
  | nil => simp [restEncodeFields]
  | cons field rest ih =>
      rw [restEncodeFields, List.forall_mem_cons, ← ih]
      cases restEncode field.2 <;> cases restEncodeFields rest <;> simp

/-- Just the values without transforms whose moments are in the calendar have a REST notation. -/
theorem exists_restEncode_iff {v : Value} :
    (∃ j, restEncode v = .ok j) ↔ v.hasTransform = false ∧ v.TimesAre Timestamp.InCalendar := by
  -- arrays and maps have a notation just if their parts do; only moments can be out of range
  induction v with
  | timestamp t =>
      rw [restEncode]
      refine exists_bind_ok.trans ?_
      simp [exists_restTimestamp_iff, hasTransform]
  | array elements ih =>
      rw [restEncode]
      refine exists_bind_ok.trans ?_
      rw [exists_restEncodeAll_iff, hasTransform_array, timesAre_array, ← forall₂_and]
      exact forall₂_congr ih
  | map fields ih =>
      rw [restEncode]
      refine exists_bind_ok.trans ?_
      rw [exists_restEncodeFields_iff, hasTransform_map, timesAre_map, ← forall₂_and]
      exact forall₂_congr ih
  | transform t ih => simp [restEncode, hasTransform]
  | _ => simp [restEncode, hasTransform, TimesAre, Everywhere, TimeIs]

theorem exists_restEncodeFields_plain {fields : Fields Value}
    (h : anyFieldTransform fields = false) :
    (∃ members, restEncodeFields fields = .ok members) ↔
      (map fields).TimesAre Timestamp.InCalendar := by
  rw [exists_restEncodeFields_iff, timesAre_map]
  refine forall₂_congr fun field hfield => ?_
  rw [exists_restEncode_iff, and_iff_right (anyFieldTransform_eq_false.mp h field hfield)]

private theorem restEncodeAll_fails {elements : List Value} {index : Nat}
    (h : ∀ v ∈ elements, FailsWith Error.IsInvalidArgument (restEncode v)) :
    FailsWith Error.IsInvalidArgument (restEncodeAll index elements) := by
  induction elements generalizing index with
  | nil => exact .ok _
  | cons v rest ih =>
      obtain ⟨hv, hrest⟩ := List.forall_mem_cons.mp h
      rw [restEncodeAll]
      exact (hv.inside _).bind fun _ => (ih hrest).bind fun _ => .ok _

private theorem restEncodeFields_fails_of {fields : List (String × Value)}
    (h : ∀ field ∈ fields, FailsWith Error.IsInvalidArgument (restEncode field.2)) :
    FailsWith Error.IsInvalidArgument (restEncodeFields fields) := by
  induction fields with
  | nil => exact .ok _
  | cons field rest ih =>
      obtain ⟨hfield, hrest⟩ := List.forall_mem_cons.mp h
      rw [restEncodeFields]
      exact (hfield.inside _).bind fun _ => (ih hrest).bind fun _ => .ok _

/-- Whatever keeps a value from being written, the value is to blame. -/
theorem restEncode_fails (v : Value) : FailsWith Error.IsInvalidArgument (restEncode v) := by
  induction v with
  | timestamp t =>
      have htime : FailsWith Error.IsInvalidArgument (restTimestamp t) := by
        unfold restTimestamp
        split
        · exact .ok _
        · exact .error rfl
      rw [restEncode]
      exact htime.bind fun _ => .ok _
  | array elements ih =>
      rw [restEncode]
      exact (restEncodeAll_fails ih).bind fun _ => .ok _
  | map fields ih =>
      rw [restEncode]
      exact (restEncodeFields_fails_of ih).bind fun _ => .ok _
  | transform t ih => exact .error rfl
  | _ => exact .ok _

theorem restEncodeFields_fails (fields : Fields Value) :
    FailsWith Error.IsInvalidArgument (restEncodeFields fields) :=
  restEncodeFields_fails_of fun field _ => restEncode_fails field.2

/-! ## Transforms -/

/-- The elements that a transform adds or removes. -/
def Transform.elements {α : Type} : Transform α → List α
  | .arrayUnion elements | .arrayRemove elements => elements
  | _ => []

theorem exists_restOperands_iff {elements : List Value} (h : anyTransform elements = false) :
    (∃ j, restOperands elements = .ok j) ↔ ∀ v ∈ elements, v.TimesAre Timestamp.InCalendar := by
  refine exists_bind_ok.trans ?_
  rw [exists_mapM_eq_ok]
  refine forall₂_congr fun v hv => ?_
  rw [exists_restEncode_iff, and_iff_right (anyTransform_eq_false.mp h v hv)]

theorem restOperands_fails (elements : List Value) :
    FailsWith Error.IsInvalidArgument (restOperands elements) :=
  (FailsWith.mapM fun v _ => restEncode_fails v).bind fun _ => .ok _

namespace FieldTransform

/-- A transform that is no removal can be sent if the calendar has the moments in its elements. -/
theorem exists_restEncode_iff {t : FieldTransform} (hchecked : Extraction.IsChecked t)
    (hkept : t.operation.isDelete = false) :
    (∃ j, t.restEncode = .ok j) ↔ ∀ v ∈ t.operation.elements, v.TimesAre Timestamp.InCalendar := by
  refine exists_bind_ok.trans ?_
  obtain ⟨path, operation⟩ := t
  cases operation with
  | delete => contradiction
  | serverTimestamp => simp [restOperation, Transform.elements]
  | increment operand =>
      -- numbers have no moments in them
      have hnumeric := hchecked.isNumeric
      have hok : ∃ j, Firestore.restEncode operand = .ok j := by
        cases operand with
        | integer n => exact ⟨_, rfl⟩
        | double x => exact ⟨_, rfl⟩
        | _ => contradiction
      obtain ⟨j, hj⟩ := hok
      simp [restOperation, Transform.elements, hj]
  | arrayUnion elements =>
      exact exists_bind_ok.trans (exists_restOperands_iff (hchecked.anyTransform (.inl rfl)))
  | arrayRemove elements =>
      exact exists_bind_ok.trans (exists_restOperands_iff (hchecked.anyTransform (.inr rfl)))

theorem restEncode_fails {t : FieldTransform} (hkept : t.operation.isDelete = false) :
    FailsWith Error.IsInvalidArgument t.restEncode := by
  have hoperation : FailsWith Error.IsInvalidArgument t.restOperation := by
    obtain ⟨path, operation⟩ := t
    cases operation with
    | delete => contradiction
    | serverTimestamp => exact .ok _
    | increment operand => exact (Firestore.restEncode_fails operand).bind fun _ => .ok _
    | arrayUnion elements => exact (restOperands_fails elements).bind fun _ => .ok _
    | arrayRemove elements => exact (restOperands_fails elements).bind fun _ => .ok _
  exact hoperation.bind fun _ => .ok _

end FieldTransform

theorem exists_restTransforms_iff {transforms : List FieldTransform} :
    (∃ members, restTransforms transforms = .ok members) ↔
      ∀ t ∈ transforms, ∃ j, t.restEncode = .ok j := by
  rw [← exists_mapM_eq_ok]
  cases transforms with
  | nil => exact iff_of_true ⟨_, rfl⟩ ⟨_, rfl⟩
  | cons first rest =>
      exact exists_bind_ok

theorem restTransforms_fails {transforms : List FieldTransform}
    (h : ∀ t ∈ transforms, t.operation.isDelete = false) :
    FailsWith Error.IsInvalidArgument (restTransforms transforms) := by
  unfold restTransforms
  split
  · exact .ok _
  · exact (FailsWith.mapM fun t ht => FieldTransform.restEncode_fails (h t ht)).bind fun _ => .ok _

/-! ## Writes -/

namespace Write

/-- The plain fields that are written. -/
def fields : Write → Fields Value
  | .set _ data => data.fields
  | .update _ data => data.fields
  | .delete _ => []

/-- The data of a write has been split: its fields are plain, and its transforms are no removals
and have operands that are allowed. -/
structure IsClean (w : Write) : Prop where
  no_transform : (map w.fields).hasTransform = false
  kept : ∀ t ∈ w.transforms, t.operation.isDelete = false
  checked : ∀ t ∈ w.transforms, Extraction.IsChecked t

/-- The calendar has the moments in the fields and in the elements of the transforms. -/
def InCalendar (w : Write) : Prop :=
  (map w.fields).TimesAre Timestamp.InCalendar ∧
    ∀ t ∈ w.transforms, ∀ v ∈ t.operation.elements, v.TimesAre Timestamp.InCalendar

instance (w : Write) : Decidable w.InCalendar := inferInstanceAs (Decidable (_ ∧ _))

variable {d : DatabaseId} {w : Write}

private theorem exists_restParts_iff (hclean : w.IsClean) (key : DocumentKey) :
    ((∃ document, restDocument d key w.fields = .ok document) ∧
      ∃ members, restTransforms w.transforms = .ok members) ↔ w.InCalendar := by
  have hdocument : (∃ document, restDocument d key w.fields = .ok document) ↔
      (map w.fields).TimesAre Timestamp.InCalendar :=
    exists_bind_ok.trans (exists_restEncodeFields_plain hclean.no_transform)
  have htransforms : (∃ members, restTransforms w.transforms = .ok members) ↔
      ∀ t ∈ w.transforms, ∀ v ∈ t.operation.elements, v.TimesAre Timestamp.InCalendar := by
    rw [exists_restTransforms_iff]
    exact forall₂_congr fun t ht =>
      FieldTransform.exists_restEncode_iff (hclean.checked t ht) (hclean.kept t ht)
  rw [hdocument, htransforms, InCalendar]

/-- A write whose data has been split can be sent if the calendar has its moments. -/
theorem exists_restEncode_iff (hclean : w.IsClean) :
    (∃ j, w.restEncode d = .ok j) ↔ w.InCalendar := by
  cases w with
  | set key data => exact exists_bind_bind_ok.trans (exists_restParts_iff hclean key)
  | update key data => exact exists_bind_bind_ok.trans (exists_restParts_iff hclean key)
  | delete key =>
      refine iff_of_true ⟨_, rfl⟩ ⟨?_, List.forall_mem_nil _⟩
      exact timesAre_map.mpr (List.forall_mem_nil _)

/-- A write whose data has been split asks for nothing that only a mask can do. -/
theorem restEncode_fails (hclean : w.IsClean) :
    FailsWith Error.IsInvalidArgument (w.restEncode d) := by
  have hdocument (key : DocumentKey) :
      FailsWith Error.IsInvalidArgument (restDocument d key w.fields) :=
    (restEncodeFields_fails w.fields).bind fun _ => .ok _
  have htransforms := restTransforms_fails hclean.kept
  cases w with
  | set key data => exact (hdocument key).bind fun _ => htransforms.bind fun _ => .ok _
  | update key data => exact (hdocument key).bind fun _ => htransforms.bind fun _ => .ok _
  | delete key => exact .ok _

end Write

/-- The name of the document that a write in the REST notation is for. -/
def Json.writtenName? (j : Json) : Option Json :=
  match j.get? "update" with
  | some document => document.get? "name"
  | none => j.get? "delete"

/-- What the REST notation of a write says, member by member: what becomes of which document, with
which fields, under which mask and with which transforms. -/
structure Write.SentAs (d : DatabaseId) (w : Write) (j : Json) : Prop where
  name : j.writtenName? = some (.string (d.documentName w.key))
  deletes : (j.get? "delete").isSome = w.isDelete
  document : w.isDelete = false → ∃ members, restEncodeFields w.fields = .ok members ∧
    j.get? "update" = some (.object
      [("fields", .object members), ("name", .string (d.documentName w.key))])
  mask : j.get? "updateMask" = w.mask?.map restMask
  transforms : ∃ js, List.Forall₂ (fun t j => t.restEncode = .ok j) w.transforms js ∧
    j.get? "updateTransforms" = if js.isEmpty then none else some (.array js)
  precondition : j.get? "currentDocument" =
    if w.needsDocument then some (.object [("exists", .bool true)]) else none

/-- A document is sent as its fields and its name. -/
theorem restDocument_eq_ok {d : DatabaseId} {key : DocumentKey} {fields : Fields Value}
    {document : Json} (h : restDocument d key fields = .ok document) :
    ∃ members, restEncodeFields fields = .ok members ∧ document =
      .object [("fields", .object members), ("name", .string (d.documentName key))] := by
  obtain ⟨members, hmembers, h⟩ := bind_eq_ok.mp h
  cases h
  exact ⟨members, hmembers, rfl⟩

/-- Transforms are listed one by one, unless there are none. -/
theorem restTransforms_eq_ok {transforms : List FieldTransform} {members : List (String × Json)}
    (h : restTransforms transforms = .ok members) :
    ∃ js, List.Forall₂ (fun t j => t.restEncode = .ok j) transforms js ∧
      members = if js.isEmpty then [] else [("updateTransforms", .array js)] := by
  cases transforms with
  | nil =>
      cases h
      exact ⟨[], .nil, rfl⟩
  | cons first rest =>
      obtain ⟨js, hjs, h⟩ := bind_eq_ok.mp h
      cases h
      have hall := mapM_eq_ok.mp hjs
      refine ⟨js, hall, ?_⟩
      cases hall
      rfl

/-- **A write is sent as what it is.** -/
theorem Write.sentAs_of_restEncode {d : DatabaseId} {w : Write} {j : Json}
    (h : w.restEncode d = .ok j) : w.SentAs d j := by
  cases w with
  | set key data =>
      obtain ⟨document, hdocument, h⟩ := bind_eq_ok.mp h
      obtain ⟨listed, hlisted, h⟩ := bind_eq_ok.mp h
      obtain ⟨members, hmembers, rfl⟩ := restDocument_eq_ok hdocument
      obtain ⟨js, hjs, rfl⟩ := restTransforms_eq_ok hlisted
      obtain ⟨fields, mask, transforms⟩ := data
      cases h
      -- the members that may be left out come last, so what is there depends on both of them
      refine ⟨rfl, ?_, fun _ => ⟨members, hmembers, rfl⟩, ?_, ⟨js, hjs, ?_⟩, ?_⟩
      all_goals cases mask <;> cases js <;> rfl
  | update key data =>
      obtain ⟨document, hdocument, h⟩ := bind_eq_ok.mp h
      obtain ⟨listed, hlisted, h⟩ := bind_eq_ok.mp h
      obtain ⟨members, hmembers, rfl⟩ := restDocument_eq_ok hdocument
      obtain ⟨js, hjs, rfl⟩ := restTransforms_eq_ok hlisted
      cases h
      refine ⟨rfl, ?_, fun _ => ⟨members, hmembers, rfl⟩, rfl, ⟨js, hjs, ?_⟩, rfl⟩
      all_goals cases js <;> rfl
  | delete key =>
      cases h
      exact ⟨rfl, rfl, nofun, rfl, ⟨[], .nil, rfl⟩, rfl⟩

end Firestore
