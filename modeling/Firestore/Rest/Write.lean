import Firestore.Path.Database
import Firestore.Rest.Value
import Firestore.Write.Data

/-!
# Writes in the REST notation

A write that sets or updates a document carries the document's resource name and
its plain fields; transforms follow in a list of their own.  A mask limits the
write to the listed fields.  An update always has a mask, without which it would
replace the document, and it asks for the document to exist.
-/

namespace Firestore

/-- The resource name of a document of a database. -/
def DatabaseId.documentName (d : DatabaseId) (key : DocumentKey) : String :=
  d.resourceName key.path

/-- The refusal of a removal that was not turned into a part of a mask. -/
def removalOutsideMask (path : FieldPath) : Error :=
  .internal s!"Delete at '{path.quoted}' belongs in the update mask, not in updateTransforms"

/-- The elements that a transform adds or removes. -/
def restOperands (elements : List Value) : Except Error Json := do
  return .object [("values", .array (← elements.mapM restEncode))]

namespace FieldTransform

/-- What a transform does, as the member that names it. -/
def restOperation (t : FieldTransform) : Except Error (String × Json) := do
  match t.operation with
  | .delete => throw (removalOutsideMask t.path)
  | .serverTimestamp => return ("setToServerValue", .string "REQUEST_TIME")
  | .increment operand => return ("increment", ← restEncode operand)
  | .arrayUnion elements => return ("appendMissingElements", ← restOperands elements)
  | .arrayRemove elements => return ("removeAllFromArray", ← restOperands elements)

/-- The REST notation of a transform: its path, and what it does, at the place of its name. -/
def restEncode (t : FieldTransform) : Except Error Json := do
  let (name, operation) ← t.restOperation
  return .object (Fields.insert [("fieldPath", .string t.path.quoted)] name operation)

end FieldTransform

/-- The REST notation of a mask. -/
def restMask (paths : List FieldPath) : Json :=
  .object [("fieldPaths", .array (paths.map fun path => .string path.quoted))]

/-- The member that lists transforms, left out if there are none. -/
def restTransforms (transforms : List FieldTransform) : Except Error (List (String × Json)) := do
  if transforms.isEmpty then return []
  return [("updateTransforms", .array (← transforms.mapM FieldTransform.restEncode))]

/-- The document that a write leaves behind: its name and its fields. -/
def restDocument (d : DatabaseId) (key : DocumentKey) (fields : Fields Value) :
    Except Error Json := do
  return .object
    [("fields", .object (← restEncodeFields fields)), ("name", .string (d.documentName key))]

namespace Write

/-- The REST notation of a write to a database. -/
def restEncode (d : DatabaseId) (w : Write) : Except Error Json := do
  match w with
  | .set key data =>
      let document ← restDocument d key data.fields
      let transforms ← restTransforms data.transforms
      let mask := data.mask.toList.map fun paths => ("updateMask", restMask paths)
      return .object (("update", document) :: (mask ++ transforms))
  | .update key data =>
      let document ← restDocument d key data.fields
      let transforms ← restTransforms data.transforms
      return .object <|
        ("currentDocument", .object [("exists", .bool true)]) :: ("update", document) ::
          ("updateMask", restMask data.mask) :: transforms
  | .delete key => return .object [("delete", .string (d.documentName key))]

end Write

/-- The request that commits some writes. -/
def restCommit (d : DatabaseId) (writes : List Write) : Except Error Json := do
  return .object [("writes", .array (← writes.mapM (Write.restEncode d)))]

end Firestore
