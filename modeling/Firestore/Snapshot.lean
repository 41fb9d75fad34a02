import Firestore.Query
import Firestore.Shape.Reading
import Firestore.Value.Place

/-!
# Snapshots

A snapshot is what a database answered about a document: its fields, or that
there is no such document.  Data of an expected shape is read from the whole or
from one field, and refusals are located from the document on.
-/

namespace Firestore

/-- A document as it was found, or not found. -/
structure DocumentSnapshot where
  reference : DocumentReference
  fields : Option (Fields Value)
  createTime : Option Timestamp
  updateTime : Option Timestamp

namespace DocumentSnapshot

/-- The snapshot of a document that is not there. -/
def missing (reference : DocumentReference) : DocumentSnapshot := ⟨reference, none, none, none⟩

/-- Whether the document was found. -/
def isFound (s : DocumentSnapshot) : Bool := s.fields.isSome

def id (s : DocumentSnapshot) : String := s.reference.id

/-- The value of a field, if the document has it. -/
def get? (s : DocumentSnapshot) (path : FieldPath) : Option Value :=
  s.fields.bind fun fields => fields.getPath path

/-- Reads the whole document. -/
def read (s : DocumentSnapshot) (shape : Shape) : Except Error (Option Datum) :=
  s.fields.mapM shape.decodeFields

/-- A result seen from the document, the field being at the end of `segments`. -/
def insideAll {α : Type} (segments : List String) (r : Except Error α) : Except Error α :=
  segments.foldr inside r

/-- Reads a field, if the document has it. -/
def readField (s : DocumentSnapshot) (path : FieldPath) (shape : Shape) :
    Except Error (Option Datum) :=
  (s.get? path).mapM fun v => insideAll path.segments (shape.decode v)

end DocumentSnapshot

/-- The documents that answer a query. -/
structure QuerySnapshot where
  query : Query
  documents : List DocumentSnapshot

namespace QuerySnapshot

def size (s : QuerySnapshot) : Nat := s.documents.length

def isEmpty (s : QuerySnapshot) : Bool := s.documents.isEmpty

/-- Reads all documents that were found, in their order. -/
def read (s : QuerySnapshot) (shape : Shape) : Except Error (List Datum) := do
  let data ← s.documents.mapM fun document => document.read shape
  return data.filterMap fun d => d

end QuerySnapshot

end Firestore
