import Firestore.Path.Resource
import Firestore.Value.Place
import Firestore.Write.Extraction

/-!
# Data for writes

A write that **sets** a document replaces it, or merges into it: either every
leaf of the data, or the listed fields only.  A write that **updates** a document
has dotted paths for names, and each replaces what stands at its path.  Both come
out as plain fields, a mask of the paths that are touched, and transforms; fields
that are removed stand in the mask and nowhere else.

A write of one document sets it, updates it, or deletes it.
-/

namespace Firestore

/-- How a set treats what the document holds already. -/
structure SetOptions where
  merge : Bool := false
  /-- The only fields to merge; they take precedence over `merge`. -/
  mergeFields : Option (List FieldPath) := none

/-- Why data cannot be written. -/
inductive WriteFault where
  | noMergeField
  | deleteWithoutMerge (path : FieldPath)
  | nothingToMerge
  | fieldMissing (path : FieldPath)
  | overlap (first second : FieldPath)
  | nestedDelete (path : FieldPath)
  | nothingToUpdate

def WriteFault.error : WriteFault → Error
  | .noMergeField => .invalidArgument "merge_fields requires at least one field path"
  | .deleteWithoutMerge path => .invalidArgument <|
      s!"FieldValue::Delete cannot be used with a non-merge set (field '{path.text}')"
  | .nothingToMerge =>
      .invalidArgument "merge set requires the data to contain at least one field"
  | .fieldMissing path => .invalidArgument <|
      s!"Field '{path.text}' is specified in merge_fields but missing from the provided data"
  | .overlap first second => .invalidArgument <|
      s!"Update fields '{first.text}' and '{second.text}' overlap"
  | .nestedDelete path => .invalidArgument <|
      "FieldValue::Delete can only appear at the top level of update data " ++
        s!"(field '{path.text}')"
  | .nothingToUpdate => .invalidArgument "update requires at least one field/value pair"

namespace SetOptions

def mergeAll : SetOptions := { merge := true }

/-- The paths without those whose text stood before. -/
def distinctTexts (seen : List String) : List FieldPath → List FieldPath
  | [] => []
  | path :: rest =>
      if path.text ∈ seen then distinctTexts seen rest
      else path :: distinctTexts (path.text :: seen) rest

/-- Merges the given fields only, one of them at least. -/
def ofFields (paths : List FieldPath) : Except Error SetOptions :=
  match distinctTexts [] paths with
  | [] => .error WriteFault.noMergeField.error
  | first :: rest => .ok { mergeFields := some (first :: rest) }

/-- Merges the named fields only; the first name that is no path is refused. -/
def ofNames (names : List FieldName) : Except Error SetOptions := do
  ofFields (← names.mapM FieldName.read)

def isMerge (o : SetOptions) : Bool := o.merge || o.mergeFields.isSome

end SetOptions

/-- Data of a set; without a mask it replaces the document. -/
structure SetData where
  fields : Fields Value
  mask : Option (List FieldPath)
  transforms : List FieldTransform

/-- Data of an update. -/
structure UpdateData where
  fields : Fields Value
  mask : List FieldPath
  transforms : List FieldTransform

/-! ## Setting -/

mutual

/-- The paths of the leaves of a value that stands at the end of `segments`; an empty map
is a leaf. -/
def leafPathsAt (segments : List String) : Value → Except Error (List FieldPath)
  | .map (first :: rest) => leafPathsBelow segments (first :: rest)
  | _ => do return [← FieldPath.ofSegments segments]

/-- The paths of the leaves of some fields below `parent`. -/
def leafPathsBelow (parent : List String) :
    List (String × Value) → Except Error (List FieldPath)
  | [] => .ok []
  | (key, v) :: rest => do
      let here ← leafPathsAt (parent ++ [key]) v
      return here ++ (← leafPathsBelow parent rest)

end

/-- The paths of the leaves of some data, in its order. -/
def leafPaths (data : Fields Value) : Except Error (List FieldPath) :=
  leafPathsBelow [] data

/-- Whether one of some fields leads to a path. -/
def covers (fields : List FieldPath) (path : FieldPath) : Bool :=
  fields.any fun field => field.isPrefixOf path

/-- Copies the listed fields of plain data; those that are not there have to be
touched by a transform or a removal. -/
def copyFields (plain : Fields Value) (touched : List FieldPath) (copied : Fields Value) :
    List FieldPath → Except Error (Fields Value × List FieldPath)
  | [] => .ok (copied, [])
  | field :: rest =>
      match plain.getPath field with
      | some v => do
          let (copied, mask) ← copyFields plain touched (copied.setPath field v) rest
          return (copied, field :: mask)
      | none =>
          if touched.any field.isPrefixOf then copyFields plain touched copied rest
          else .error (WriteFault.fieldMissing field).error

/-- Data of a set that merges the listed fields. -/
def mergeFieldsData (plain : Fields Value) (deletes : List FieldPath)
    (transforms : List FieldTransform) (listed : List FieldPath) : Except Error SetData := do
  let touched := transforms.map FieldTransform.path ++ deletes
  let (fields, mask) ← copyFields plain touched [] listed
  let removed := deletes.filter fun path => covers listed path && !mask.contains path
  return {
    fields := fields
    mask := some (mask ++ removed)
    transforms := transforms.filter fun t => covers listed t.path }

/-- Prepares data for a set. -/
def setData (data : Fields Value) (options : SetOptions) : Except Error SetData := do
  let (plain, extracted) ← splitTransforms data
  let deletes := deletedPaths extracted
  let transforms := keptTransforms extracted
  if !options.isMerge then
    match deletes with
    | path :: _ => throw (WriteFault.deleteWithoutMerge path).error
    | [] => return { fields := plain, mask := none, transforms := transforms }
  match options.mergeFields with
  | some listed => mergeFieldsData plain deletes transforms listed
  | none =>
      let mask := (← leafPaths plain) ++ deletes
      if mask.isEmpty && transforms.isEmpty then throw WriteFault.nothingToMerge.error
      return { fields := plain, mask := some mask, transforms := transforms }

/-! ## Updating -/

/-- Whether one of two paths leads to the other. -/
def FieldPath.overlaps (p q : FieldPath) : Bool := p.isPrefixOf q || q.isPrefixOf p

/-- Adds what a path gets to an update that has none of it yet. -/
def UpdateData.put (u : UpdateData) (path : FieldPath) (v : Value) : Except Error UpdateData := do
  match v with
  | .transform .delete => return { u with mask := u.mask ++ [path] }
  | .transform t =>
      let found ← Extraction.checked path t
      return { u with transforms := u.transforms ++ [found] }
  | .map (first :: rest) =>
      let (plain, found) ← Extraction.fields path.segments (first :: rest)
      let u := { u with transforms := u.transforms ++ found }
      if plain.isEmpty then return u
      return { u with fields := u.fields.setPath path (.map plain), mask := u.mask ++ [path] }
  | v =>
      if v.hasTransform then throw (ExtractionFault.insideArray path).error
      return { u with fields := u.fields.setPath path v, mask := u.mask ++ [path] }

/-- Adds an entry of update data, whose name is a dotted path. -/
def UpdateData.add (u : UpdateData) (entry : String × Value) : Except Error UpdateData := do
  let path ← FieldPath.parse entry.1
  match u.mask.find? fun other => other.overlaps path with
  | some other => throw (WriteFault.overlap other path).error
  | none => u.put path entry.2

/-- Prepares data for an update. -/
def updateData (data : Fields Value) : Except Error UpdateData := do
  let u ← data.foldlM UpdateData.add { fields := [], mask := [], transforms := [] }
  match u.transforms.find? fun t => t.operation.isDelete with
  | some t => throw (WriteFault.nestedDelete t.path).error
  | none => Extraction.distinct u.transforms
  if u.mask.isEmpty && u.transforms.isEmpty then throw WriteFault.nothingToUpdate.error
  return u

/-! ## Writes -/

/-- A write of one document. -/
inductive Write where
  | set (key : DocumentKey) (data : SetData)
  | update (key : DocumentKey) (data : UpdateData)
  | delete (key : DocumentKey)

namespace Write

/-- The document that is written. -/
def key : Write → DocumentKey
  | .set key _ => key
  | .update key _ => key
  | .delete key => key

/-- The paths that the write is limited to, if it is limited. -/
def mask? : Write → Option (List FieldPath)
  | .set _ data => data.mask
  | .update _ data => some data.mask
  | .delete _ => none

/-- Whether the document has to exist for the write. -/
def needsDocument : Write → Bool
  | .update _ _ => true
  | _ => false

def isDelete : Write → Bool
  | .delete _ => true
  | _ => false

/-- The transforms that are applied with the write. -/
def transforms : Write → List FieldTransform
  | .set _ data => data.transforms
  | .update _ data => data.transforms
  | .delete _ => []

end Write

end Firestore
