import Firestore.Error

/-!
# Field paths

A field path is the nonempty list of keys that leads from a document to a field
of nested maps.  Its plain text has dots between the segments; the quoted text
puts each segment that is no plain identifier between backquotes, so that dots
inside a segment stay apart from the dots between segments.

A text of blank characters only is no path.  The blank characters are those with
the Unicode property `White_Space`.
-/

namespace Firestore

namespace Text

/-- The code points of the blank characters. -/
def blankCodes : List Nat :=
  [0x9, 0xA, 0xB, 0xC, 0xD, 0x20, 0x85, 0xA0, 0x1680, 0x2000, 0x2001, 0x2002, 0x2003, 0x2004,
   0x2005, 0x2006, 0x2007, 0x2008, 0x2009, 0x200A, 0x2028, 0x2029, 0x202F, 0x205F, 0x3000]

/-- Whether a character is blank. -/
def isBlank (c : Char) : Bool :=
  blankCodes.contains c.toNat

/-- Whether a text holds blank characters only; the empty text does. -/
def allBlank (s : String) : Bool :=
  s.toList.all isBlank

end Text

/-- The keys from a document down to one of its fields. -/
structure FieldPath where
  segments : List String
  nonempty : segments ≠ []
  deriving DecidableEq

namespace FieldPath

/-- Why a field path is refused. -/
inductive Fault where
  | noSegment
  | emptySegment
  | blank
  deriving DecidableEq, Repr

def Fault.error : Fault → Error
  | .noSegment => .invalidArgument "FieldPath must contain at least one segment"
  | .emptySegment => .invalidArgument "FieldPath segments cannot be empty"
  | .blank => .invalidArgument "FieldPath string cannot be empty"

/-- The path of the given keys, none of which may be empty. -/
def ofSegments (segments : List String) : Except Error FieldPath :=
  if h : segments = [] then .error Fault.noSegment.error
  else if segments.any String.isEmpty then .error Fault.emptySegment.error
  else .ok ⟨segments, h⟩

theorem segments_of_ofSegments {segments : List String} {path : FieldPath}
    (h : ofSegments segments = .ok path) : path.segments = segments := by
  unfold ofSegments at h
  split at h
  · contradiction
  · split at h
    · contradiction
    · cases h
      rfl

/-- Reads a dotted text. -/
def parse (s : String) : Except Error FieldPath :=
  if Text.allBlank s then .error Fault.blank.error
  else ofSegments ((s.toList.splitOn '.').map String.ofList)

/-- The path of a field of a field. -/
def child (p : FieldPath) (segment : String) : FieldPath :=
  ⟨p.segments ++ [segment], by simp⟩

def last (p : FieldPath) : String := p.segments.getLast p.nonempty

/-- The dotted text of a path. -/
def text (p : FieldPath) : String := ".".intercalate p.segments

/-- The path that stands for a document's own name. -/
def documentId : FieldPath := ⟨["__name__"], by simp⟩

def isDocumentId (p : FieldPath) : Bool := p.segments == ["__name__"]

/-- Whether a path equals another one or leads to it. -/
def isPrefixOf (p q : FieldPath) : Bool := p.segments.isPrefixOf q.segments

/-- Paths are ordered segment by segment. -/
def order (p q : FieldPath) : Ordering := compare p.segments q.segments

/-! ## The quoted text -/

/-- Whether a segment needs no quotes: a letter or underscore, then letters,
digits and underscores, all of them ASCII. -/
def isIdentifier : List Char → Bool
  | [] => false
  | first :: rest =>
      (first.isAlpha || first == '_') && rest.all fun c => c.isAlphanum || c == '_'

/-- A backslash stands before each backquote and each backslash. -/
def escapeQuoted : List Char → List Char
  | [] => []
  | c :: rest =>
      if c == '\\' || c == '\x60' then '\\' :: c :: escapeQuoted rest
      else c :: escapeQuoted rest

/-- A segment as the server reads it. -/
def quoteSegment (segment : String) : String :=
  if isIdentifier segment.toList then segment
  else String.ofList ('\x60' :: escapeQuoted segment.toList ++ ['\x60'])

/-- The path as the server reads it. -/
def quoted (p : FieldPath) : String :=
  ".".intercalate (p.segments.map quoteSegment)

end FieldPath

/-! ## Names for fields -/

/-- How a field is named: by a dotted text that is yet to be read, or by its path. -/
inductive FieldName where
  | text (s : String)
  | path (p : FieldPath)

/-- The path that a name stands for. -/
def FieldName.read : FieldName → Except Error FieldPath
  | .text s => FieldPath.parse s
  | .path p => .ok p

end Firestore
