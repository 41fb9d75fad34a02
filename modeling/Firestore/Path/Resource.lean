import Firestore.Error

/-!
# Resource paths

A resource path is the list of segments that leads from the documents root to a
collection or a document.  Its text has slashes between the segments.  Reading
a text drops empty segments, so leading, trailing and doubled slashes are
ignored, and `normalize` is the one text of all the texts that read alike.

Collections and documents alternate on the way down.  Hence a document path has
an even, positive number of segments and a collection path an odd one.  A document
key is a path that is known to be a document's.
-/

namespace Firestore

/-- The pieces of a text between slashes, the empty ones left out. -/
def slashPieces (s : String) : List String :=
  ((s.toList.splitOn '/').filter fun piece => !piece.isEmpty).map String.ofList

/-- Whether a text can be a segment of a path: it is not empty and has no slash. -/
def IsSegment (s : String) : Prop := s ≠ "" ∧ '/' ∉ s.toList

instance (s : String) : Decidable (IsSegment s) := inferInstanceAs (Decidable (_ ∧ _))

/-- The text with each run of slashes reduced to one and none at its ends. -/
def normalize (s : String) : String :=
  "/".intercalate (slashPieces s)

/-- The segments from the documents root to a collection or a document. -/
structure ResourcePath where
  segments : List String
  deriving DecidableEq, Repr

namespace ResourcePath

/-- The path of the documents root itself. -/
def root : ResourcePath := ⟨[]⟩

/-- Reads a slash-separated text. -/
def parse (s : String) : ResourcePath := ⟨slashPieces s⟩

def length (p : ResourcePath) : Nat := p.segments.length

def isEmpty (p : ResourcePath) : Bool := p.segments.isEmpty

def get? (p : ResourcePath) (index : Nat) : Option String := p.segments[index]?

def last? (p : ResourcePath) : Option String := p.segments.getLast?

/-- Whether the path can name a document. -/
def isDocument (p : ResourcePath) : Bool := !p.isEmpty && p.length % 2 == 0

/-- Whether the path can name a collection. -/
def isCollection (p : ResourcePath) : Bool := p.length % 2 == 1

/-- The path that goes on with more segments. -/
def child (p : ResourcePath) (segments : List String) : ResourcePath :=
  ⟨p.segments ++ segments⟩

/-- One path after another. -/
def append (p q : ResourcePath) : ResourcePath := p.child q.segments

/-- The path without its last segment; the root stays the root. -/
def parent (p : ResourcePath) : ResourcePath := ⟨p.segments.dropLast⟩

/-- The path without its last segment, if it has one. -/
def parent? (p : ResourcePath) : Option ResourcePath :=
  if p.isEmpty then none else some p.parent

/-- The path without its first segments. -/
def drop (p : ResourcePath) (count : Nat) : ResourcePath := ⟨p.segments.drop count⟩

/-- The text of a path. -/
def text (p : ResourcePath) : String := "/".intercalate p.segments

/-- Whether a path equals another one or leads to it. -/
def isPrefixOf (p q : ResourcePath) : Bool := p.segments.isPrefixOf q.segments

end ResourcePath

/-! ## Document keys -/

/-- A path that is known to name a document. -/
structure DocumentKey where
  path : ResourcePath
  isDocument : path.isDocument = true
  deriving DecidableEq

namespace DocumentKey

/-- Takes a path as a document's own, if its length allows it. -/
def ofPath (path : ResourcePath) : Except Error DocumentKey :=
  if h : path.isDocument = true then .ok ⟨path, h⟩
  else .error <| .invalidPath <|
    s!"Document paths must have an even number of segments, but '{path.text}' has {path.length}"

/-- The path of the collection that holds the document. -/
def collection (key : DocumentKey) : ResourcePath := key.path.parent

/-- The document's name inside its collection. -/
def id (key : DocumentKey) : String := key.path.last?.getD ""

end DocumentKey

end Firestore
