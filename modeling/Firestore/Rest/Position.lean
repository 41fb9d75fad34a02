import Firestore.Rest.Value
import Firestore.Shape.Part

/-!
# Where a value keeps what cannot be sent

A position in a value is the trail of names and numbers that leads there through maps
and arrays, with what stands there; the operands of a transform have no position.
`Value.positions` lists them in the order in which a value is written: a value before
what is inside it, elements by their numbers, fields by their names.

A value cannot be sent because of what stands at one of its positions, a transform or
a moment that the calendar does not have.
-/

namespace Firestore

/-- What stands at the end of a trail. -/
structure Position where
  trail : List String
  value : Value

namespace Position

/-- A position, seen from the value that holds `segment`. -/
def under (segment : String) (p : Position) : Position := ⟨segment :: p.trail, p.value⟩

end Position

namespace Value

mutual

/-- The positions in a value, in the order of writing. -/
def positions : Value → List Position
  | .array elements => ⟨[], .array elements⟩ :: elementPositions 0 elements
  | .map fields => ⟨[], .map fields⟩ :: fieldPositions fields
  | v => [⟨[], v⟩]

/-- The positions in some elements, the first of them at number `index`. -/
def elementPositions (index : Nat) : List Value → List Position
  | [] => []
  | v :: rest =>
      v.positions.map (Position.under (toString index)) ++ elementPositions (index + 1) rest

/-- The positions in some fields. -/
def fieldPositions : List (String × Value) → List Position
  | [] => []
  | (name, v) :: rest => v.positions.map (Position.under name) ++ fieldPositions rest

end

/-- A trail leads through maps and arrays from a value to another one. -/
inductive Leads : Value → List String → Value → Prop
  | here (v : Value) : Leads v [] v
  | step {v w u : Value} {segment : String} {trail : List String} (hchild : v.Child segment w)
      (hrest : Leads w trail u) : Leads v (segment :: trail) u

/-- Why a value cannot be sent that itself is to blame. -/
def restFault? : Value → Option RestFault
  | .timestamp t => if t.toDateTime?.isSome then none else some (.unwritableTimestamp t)
  | .transform t => some (.transform t.tag)
  | _ => none

end Value

/-- The refusal of a value because of what stands at a position. -/
def Position.refusal? (p : Position) : Option Error :=
  p.value.restFault?.map fun fault => { fault.error with trail := p.trail }

end Firestore
