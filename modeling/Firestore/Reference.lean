import Firestore.AutoId
import Firestore.Path.Database

/-!
# References

A reference is the address of a collection or a document: a database and a path
of the right length.  From a reference one goes down by texts that may span
several segments, and up to the parent, which always exists for a document and
for every collection that is not at the root.
-/

namespace Firestore

/-- The address of a collection. -/
structure CollectionReference where
  database : DatabaseId
  path : ResourcePath
  isCollection : path.isCollection = true
  deriving DecidableEq

/-- The address of a document. -/
structure DocumentReference where
  database : DatabaseId
  key : DocumentKey
  deriving DecidableEq

/-- The collection that contains a document path has a collection path. -/
theorem ResourcePath.isCollection_parent {path : ResourcePath} (h : path.isDocument = true) :
    path.parent.isCollection = true := by
  simp only [isDocument, isEmpty, length, Bool.and_eq_true, Bool.not_eq_true',
    beq_iff_eq] at h
  simp only [isCollection, parent, length, List.length_dropLast, beq_iff_eq]
  have hpos : path.segments.length ≠ 0 := by
    intro hzero
    simp [List.length_eq_zero_iff.mp hzero] at h
  omega

namespace DocumentReference

/-- The document at a path of a database. -/
def ofPath (database : DatabaseId) (path : ResourcePath) : Except Error DocumentReference := do
  return ⟨database, ← DocumentKey.ofPath path⟩

/-- The document of a full resource name. -/
def ofName (name : String) : Except Error DocumentReference := do
  let (database, path) ← DatabaseId.parseName name
  ofPath database path

def path (d : DocumentReference) : ResourcePath := d.key.path

def id (d : DocumentReference) : String := d.key.id

/-- The full resource name. -/
def name (d : DocumentReference) : String := d.database.resourceName d.path

def text (d : DocumentReference) : String := s!"DocumentReference({d.path.text})"

/-- The collection that contains a document. -/
def parent (d : DocumentReference) : CollectionReference :=
  ⟨d.database, d.key.collection, ResourcePath.isCollection_parent d.key.isDocument⟩

end DocumentReference

namespace CollectionReference

/-- The collection at a path of a database. -/
def ofPath (database : DatabaseId) (path : ResourcePath) : Except Error CollectionReference :=
  if h : path.isCollection = true then .ok ⟨database, path, h⟩
  else .error <| .invalidPath <|
    s!"Collection paths must have an odd number of segments, but '{path.text}' has {path.length}"

def id (c : CollectionReference) : String := c.path.last?.getD ""

/-- The full resource name. -/
def name (c : CollectionReference) : String := c.database.resourceName c.path

def text (c : CollectionReference) : String := s!"CollectionReference({c.path.text})"

/-- The document that contains a collection; a root collection has none. -/
def parent? (c : CollectionReference) : Option DocumentReference :=
  let path := c.path.parent
  if path.isEmpty then none else (DocumentReference.ofPath c.database path).toOption

/-- The path below a collection that an id text stands for, made up if there is none. -/
def relativePath (fresh : AutoId) (id : Option String) : ResourcePath :=
  match id.map ResourcePath.parse with
  | some path => if path.isEmpty then ⟨[fresh.text]⟩ else path
  | none => ⟨[fresh.text]⟩

/-- A document below a collection; `fresh` is its id if the text gives none. -/
def doc (c : CollectionReference) (fresh : AutoId) (id : Option String) :
    Except Error DocumentReference :=
  DocumentReference.ofPath c.database (c.path.append (relativePath fresh id))

end CollectionReference

namespace DocumentReference

/-- A collection below a document. -/
def collection (d : DocumentReference) (text : String) : Except Error CollectionReference :=
  let relative := ResourcePath.parse text
  if relative.isEmpty then .error (.invalidPath "Collection ID cannot be empty")
  else CollectionReference.ofPath d.database (d.path.append relative)

end DocumentReference

namespace DatabaseId

/-- A collection of a database. -/
def collection (d : DatabaseId) (text : String) : Except Error CollectionReference :=
  let path := ResourcePath.parse text
  if path.isEmpty then .error (.invalidPath "Collection path cannot be empty")
  else CollectionReference.ofPath d path

/-- A document of a database. -/
def doc (d : DatabaseId) (text : String) : Except Error DocumentReference :=
  DocumentReference.ofPath d (ResourcePath.parse text)

end DatabaseId

/-! ## References that can be reached

A reference is reached from a database, or from the resource name of a document, by
going down and up any number of times.  There is no other way to come by one.
-/

mutual

/-- A collection that can be reached. -/
inductive CollectionReference.Reachable : CollectionReference → Prop where
  | root {d : DatabaseId} {text : String} {c : CollectionReference}
      (h : d.collection text = .ok c) : CollectionReference.Reachable c
  | down {r : DocumentReference} {text : String} {c : CollectionReference}
      (hr : DocumentReference.Reachable r) (h : r.collection text = .ok c) :
      CollectionReference.Reachable c
  | up {r : DocumentReference} (hr : DocumentReference.Reachable r) :
      CollectionReference.Reachable r.parent

/-- A document that can be reached. -/
inductive DocumentReference.Reachable : DocumentReference → Prop where
  | root {d : DatabaseId} {text : String} {r : DocumentReference} (h : d.doc text = .ok r) :
      DocumentReference.Reachable r
  | named {name : String} {r : DocumentReference} (h : DocumentReference.ofName name = .ok r) :
      DocumentReference.Reachable r
  | down {c : CollectionReference} {fresh : AutoId} {id : Option String} {r : DocumentReference}
      (hc : CollectionReference.Reachable c) (h : c.doc fresh id = .ok r) :
      DocumentReference.Reachable r
  | up {c : CollectionReference} {r : DocumentReference}
      (hc : CollectionReference.Reachable c) (h : c.parent? = some r) :
      DocumentReference.Reachable r

end

end Firestore
