import Firestore.Error
import Firestore.Path.Resource

/-!
# Databases and resource names

A database belongs to a project.  The resource name of a path is the name of its
database, the word `documents` and the text of the path; `parseName` takes such
a name apart again.
-/

namespace Firestore

/-- One database of one project. -/
structure DatabaseId where
  project : String
  database : String
  deriving DecidableEq, Repr

namespace DatabaseId

/-- The name of the database that every project has. -/
def defaultName : String := "(default)"

/-- The default database of a project. -/
def default (project : String) : DatabaseId := ⟨project, defaultName⟩

def isDefault (d : DatabaseId) : Bool := d.database == defaultName

/-- Another database of the same project. -/
def withDatabase (d : DatabaseId) (database : String) : DatabaseId := { d with database }

/-- The resource name of the database. -/
def name (d : DatabaseId) : String := s!"projects/{d.project}/databases/{d.database}"

/-- The resource name of the documents root. -/
def documentsRoot (d : DatabaseId) : String := s!"{d.name}/documents"

/-- The resource name of a path below the documents root. -/
def resourceName (d : DatabaseId) (path : ResourcePath) : String :=
  if path.isEmpty then d.documentsRoot else s!"{d.documentsRoot}/{path.text}"

/-- The refusal of a text that is no resource name. -/
def notResourceName (name : String) : Error :=
  .invalidPath <| s!"'{name}' is not a Firestore resource name " ++
    "(projects/\x7bp\x7d/databases/\x7bd\x7d/documents/...)"

/-- The database and the path that a resource name is made of.  Neither the project nor the database
of a name that is taken apart can be empty: there are no empty pieces between slashes, so no refusal
is needed for them. -/
def parseName (name : String) : Except Error (DatabaseId × ResourcePath) :=
  match slashPieces name with
  | "projects" :: project :: "databases" :: database :: "documents" :: path =>
      .ok (⟨project, database⟩, ⟨path⟩)
  | _ => .error (notResourceName name)

end DatabaseId

end Firestore
