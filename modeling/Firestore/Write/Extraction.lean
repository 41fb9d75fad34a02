import Firestore.Value

/-!
# Taking transforms out of data

Data that is to be written may hold transforms at any depth of its maps.  They
are taken out, each with the path of the field where it stood, and what is left
is plain.  A map that held nothing but transforms goes with them; one that was
empty from the start stays.  Inside arrays, and inside the operands of other
transforms, transforms have no path and are refused.
-/

namespace Firestore

/-- A transform and the field that it changes. -/
structure FieldTransform where
  path : FieldPath
  operation : Transform Value

/-- Why data with transforms cannot be written. -/
inductive ExtractionFault where
  | notNumeric (kind : String) (path : FieldPath)
  | insideArray (path : FieldPath)
  | repeated (text : String)

def ExtractionFault.error : ExtractionFault → Error
  | .notNumeric kind path => .invalidArgument <|
      s!"FieldValue::increment requires a numeric operand, got {kind} (field '{path.text}')"
  | .insideArray path => .invalidArgument <|
      s!"Invalid data. Field transforms cannot be used inside arrays (field '{path.text}')"
  | .repeated text => .invalidArgument s!"Field '{text}' has more than one transform"

namespace Extraction

/-- Whether a transform can be added to a stored number. -/
def isNumeric : Value → Bool
  | .integer _ => true
  | .double _ => true
  | _ => false

/-- The transform of a field, if its operands allow it. -/
def checked (path : FieldPath) (t : Transform Value) : Except Error FieldTransform :=
  match t with
  | .increment operand =>
      if isNumeric operand then .ok ⟨path, t⟩
      else .error (ExtractionFault.notNumeric operand.kind path).error
  | .arrayUnion elements | .arrayRemove elements =>
      if Value.anyTransform elements then .error (ExtractionFault.insideArray path).error
      else .ok ⟨path, t⟩
  | _ => .ok ⟨path, t⟩

mutual

/-- Takes the transforms out of some fields below `parent`. -/
def fields (parent : List String) :
    List (String × Value) → Except Error (List (String × Value) × List FieldTransform)
  | [] => .ok ([], [])
  | (key, v) :: rest => do
      let (kept, found) ← field (parent ++ [key]) v
      let (others, more) ← fields parent rest
      match kept with
      | some plain => return ((key, plain) :: others, found ++ more)
      | none => return (others, found ++ more)

/-- Takes the transforms out of the field at the end of `segments`; what is left of
it, if anything. -/
def field (segments : List String) : Value → Except Error (Option Value × List FieldTransform)
  | .transform t => do
      let path ← FieldPath.ofSegments segments
      let found ← checked path t
      return (none, [found])
  | .map [] => .ok (some (.map []), [])
  | .map (first :: rest) => do
      let (plain, found) ← fields segments (first :: rest)
      return (if plain.isEmpty then none else some (.map plain), found)
  | .array elements => do
      let path ← FieldPath.ofSegments segments
      if Value.anyTransform elements then throw (ExtractionFault.insideArray path).error
      return (some (.array elements), [])
  | v => .ok (some v, [])

end

/-- The first text that stands twice, `seen` being read already. -/
def firstRepeated (seen : List String) : List String → Option String
  | [] => none
  | text :: rest => if text ∈ seen then some text else firstRepeated (text :: seen) rest

/-- Refuses two transforms whose paths have the same text. -/
def distinct (transforms : List FieldTransform) : Except Error Unit :=
  match firstRepeated [] (transforms.map fun t => t.path.text) with
  | some text => .error (ExtractionFault.repeated text).error
  | none => .ok ()

end Extraction

/-- The plain part of some data and the transforms in it, in the order of the data. -/
def splitTransforms (data : Fields Value) :
    Except Error (Fields Value × List FieldTransform) := do
  let (plain, transforms) ← Extraction.fields [] data
  Extraction.distinct transforms
  return (plain, transforms)

/-- The paths of the transforms that remove their field. -/
def deletedPaths (transforms : List FieldTransform) : List FieldPath :=
  (transforms.filter fun t => t.operation.isDelete).map FieldTransform.path

/-- The transforms that do not remove their field. -/
def keptTransforms (transforms : List FieldTransform) : List FieldTransform :=
  transforms.filter fun t => !t.operation.isDelete

end Firestore
