import Firestore.Native.Encoding
import Firestore.Reference
import Firestore.Rest.Write

/-!
# Batches of writes

A batch gathers up to five hundred writes to one database, to be committed
together.  A write that is refused leaves the batch as it was: first because the
batch is full, then because the document belongs to another database, last
because of the data.
-/

namespace Firestore

/-- What a batch can be asked for: to set a document, to update or to delete it. -/
inductive BatchCall where
  | set (document : DocumentReference) (data : Native) (options : SetOptions)
  | update (document : DocumentReference) (data : Native)
  | delete (document : DocumentReference)

namespace BatchCall

/-- The document that is to be written. -/
def document : BatchCall → DocumentReference
  | .set document _ _ => document
  | .update document _ => document
  | .delete document => document

/-- The write that is asked for, if the data allows one. -/
def write : BatchCall → Except Error Write
  | .set document data options => do
      return .set document.key (← setData (← data.encodeFields) options)
  | .update document data => do
      return .update document.key (← updateData (← data.encodeFields))
  | .delete document => .ok (.delete document.key)

end BatchCall

/-- Writes that are committed together, in their order. -/
structure WriteBatch where
  database : DatabaseId
  writes : List Write

namespace WriteBatch

/-- The most writes that a batch takes. -/
def capacity : Nat := 500

/-- Why a batch does not take a write. -/
inductive Fault where
  | full
  | otherDatabase (document : DocumentReference) (database : DatabaseId)

def Fault.error : Fault → Error
  | .full => .invalidArgument s!"A write batch cannot contain more than {capacity} operations"
  | .otherDatabase document database => .invalidArgument <|
      s!"{document.text} belongs to {document.database.name}, " ++
        s!"but this batch writes to {database.name}"

/-- A batch without writes. -/
def new (database : DatabaseId) : WriteBatch := ⟨database, []⟩

def size (b : WriteBatch) : Nat := b.writes.length

def isEmpty (b : WriteBatch) : Bool := b.writes.isEmpty

def last? (b : WriteBatch) : Option Write := b.writes.getLast?

/-- Refuses writes that the batch cannot take. -/
def accepts (b : WriteBatch) (document : DocumentReference) : Except Error Unit :=
  if capacity ≤ b.size then .error Fault.full.error
  else if document.database ≠ b.database then
    .error (Fault.otherDatabase document b.database).error
  else .ok ()

def push (b : WriteBatch) (w : Write) : WriteBatch :=
  { b with writes := b.writes ++ [w] }

@[simp]
theorem writes_push (b : WriteBatch) (w : Write) : (b.push w).writes = b.writes ++ [w] := rfl

@[simp]
theorem size_push (b : WriteBatch) (w : Write) : (b.push w).size = b.size + 1 := by
  simp [size]

/-- A call on a batch.  It may fail, and leaves a batch behind in either case. -/
abbrev Change := ExceptT Error (StateM WriteBatch)

/-- Adds the write that a call asks for. -/
def add (call : BatchCall) : Change Unit := do
  (← get).accepts call.document
  let w ← call.write
  modify fun b => b.push w

/-- Whether a call succeeds, and the batch that it leaves behind. -/
def perform (b : WriteBatch) (call : BatchCall) : Except Error Unit × WriteBatch :=
  ((add call).run.run b).run

/-- The batch after a call that succeeds. -/
def after (b : WriteBatch) (call : BatchCall) : Except Error WriteBatch :=
  match b.perform call with
  | (.ok (), next) => .ok next
  | (.error e, _) => .error e

/-- Adds a write that replaces a document or merges into it. -/
def set (b : WriteBatch) (document : DocumentReference) (data : Native) (options : SetOptions) :
    Except Error WriteBatch :=
  b.after (.set document data options)

/-- Adds a write that replaces fields of a document. -/
def update (b : WriteBatch) (document : DocumentReference) (data : Native) :
    Except Error WriteBatch :=
  b.after (.update document data)

/-- Adds a write that deletes a document. -/
def delete (b : WriteBatch) (document : DocumentReference) : Except Error WriteBatch :=
  b.after (.delete document)

/-- The request that commits the batch. -/
def commitRequest (b : WriteBatch) : Except Error Json :=
  restCommit b.database b.writes

end WriteBatch

end Firestore
