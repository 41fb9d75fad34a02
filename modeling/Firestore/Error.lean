/-!
# Errors

Every refusal carries one of six codes, a message for people, and the trail of
field names and list positions that leads from the outermost value to the
culprit.  The trail grows from the inside while an error leaves the values that
enclose the culprit.
-/

namespace Firestore

/-- The six kinds of refusal. -/
inductive Code where
  | invalidPath
  | typeMismatch
  | missingField
  | unsupportedValue
  | invalidArgument
  | internal
  deriving DecidableEq, Repr

def Code.text : Code → String
  | .invalidPath => "firestore/invalid-path"
  | .typeMismatch => "firestore/type-mismatch"
  | .missingField => "firestore/missing-field"
  | .unsupportedValue => "firestore/unsupported-value"
  | .invalidArgument => "firestore/invalid-argument"
  | .internal => "firestore/internal"

/-- A refusal; the trail starts with the outermost segment. -/
structure Error where
  code : Code
  message : String
  trail : List String := []
  deriving DecidableEq, Repr

namespace Error

/-- The same error, seen from the value that holds `segment`. -/
def within (segment : String) (e : Error) : Error :=
  { e with trail := segment :: e.trail }

/-- The trail with dots between its segments. -/
def trailText (e : Error) : String :=
  ".".intercalate e.trail

/-- The full text of an error. -/
def text (e : Error) : String :=
  match e.trail with
  | [] => s!"{e.message} ({e.code.text})"
  | _ :: _ => s!"{e.message} at '{e.trailText}' ({e.code.text})"

def invalidPath (message : String) : Error := ⟨.invalidPath, message, []⟩

def unsupportedValue (message : String) : Error := ⟨.unsupportedValue, message, []⟩

def invalidArgument (message : String) : Error := ⟨.invalidArgument, message, []⟩

def internal (message : String) : Error := ⟨.internal, message, []⟩

/-- Something was found where something else was expected. -/
def typeMismatch (expected found : String) : Error :=
  ⟨.typeMismatch, s!"Expected {expected}, found {found}", []⟩

/-- A field is missing; its name already stands in the trail. -/
def missingField (name : String) : Error :=
  within name ⟨.missingField, s!"Missing required field '{name}'", []⟩

@[simp]
theorem within_code (segment : String) (e : Error) : (e.within segment).code = e.code := rfl

@[simp]
theorem within_message (segment : String) (e : Error) :
    (e.within segment).message = e.message := rfl

@[simp]
theorem within_trail (segment : String) (e : Error) :
    (e.within segment).trail = segment :: e.trail := rfl

theorem within_inj {first second : String} {e f : Error} :
    e.within first = f.within second ↔ first = second ∧ e = f := by
  cases e
  cases f
  simp only [within, mk.injEq, List.cons.injEq, and_left_comm]

end Error

/-- Runs a step inside the value that holds `segment`. -/
def inside {α : Type} (segment : String) (r : Except Error α) : Except Error α :=
  r.mapError (Error.within segment)

@[simp]
theorem inside_ok {α : Type} (segment : String) (a : α) :
    inside segment (.ok a) = .ok a := rfl

@[simp]
theorem inside_error {α : Type} (segment : String) (e : Error) :
    inside (α := α) segment (.error e) = .error (e.within segment) := rfl

end Firestore
