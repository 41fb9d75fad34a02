import Firestore.Rest.Value
import Firestore.Snapshot

/-!
# Documents in the REST notation

A document comes with its resource name, its fields and its times.  The answer to
a query is a list of entries, of which those that hold a document count.
-/

namespace Firestore

/-- Why a JSON value is no document of a database. -/
inductive DocumentFault where
  | noName
  | otherDatabase (name : String) (database : DatabaseId)
  | timeNotText (member : String)
  | answerNotArray

def DocumentFault.error : DocumentFault → Error
  | .noName => .invalidArgument "Document is missing its 'name'"
  | .otherDatabase name database =>
      .invalidArgument s!"Document '{name}' does not belong to {database.name}"
  | .timeNotText member => .invalidArgument s!"{member} must be a string"
  | .answerNotArray => .invalidArgument "runQuery response must be an array"

namespace DatabaseId

/-- A time of a document; there is none if the member is left out or null. -/
def documentTime (document : Json) (member : String) : Except Error (Option Timestamp) :=
  match document.get? member with
  | none | some .null => .ok none
  | some (.string text) => some <$> parseTimestamp text
  | some _ => .error (DocumentFault.timeNotText member).error

/-- Reads a document, which has to belong to the database. -/
def restDecodeDocument (d : DatabaseId) (document : Json) : Except Error DocumentSnapshot := do
  match (document.get? "name").bind Json.string? with
  | none => throw DocumentFault.noName.error
  | some name =>
      let reference ← DocumentReference.ofName name
      if reference.database ≠ d then throw (DocumentFault.otherDatabase name d).error
      let fields ← restDocumentFields document
      let createTime ← documentTime document "createTime"
      let updateTime ← documentTime document "updateTime"
      return ⟨reference, some fields, createTime, updateTime⟩

/-- Reads the answer to a query. -/
def restDecodeAnswer (d : DatabaseId) (query : Query) (answer : Json) :
    Except Error QuerySnapshot := do
  match answer.elements? with
  | none => throw DocumentFault.answerNotArray.error
  | some entries =>
      let documents := entries.filterMap fun entry => entry.get? "document"
      return ⟨query, ← documents.mapM d.restDecodeDocument⟩

end DatabaseId

end Firestore
