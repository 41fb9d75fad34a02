import Firestore.Rest.Value

/-!
# The parts of a REST notation

The notations right inside a notation stand under the names of fields or under the
numbers of elements, depending on the first kind that an object has (`Json.parts`).  A
trail of such segments leads to a notation deeper inside (`Json.follow?`); on the way
there a reader passes over the parts in front of each segment (`Json.readBefore`).
-/

namespace Firestore

namespace Json

/-- JSON values whose objects have their members in order, one of a name. -/
inductive Ordered : Json → Prop
  | null : Ordered .null
  | bool (b : Bool) : Ordered (.bool b)
  | number (n : JsonNumber) : Ordered (.number n)
  | string (s : String) : Ordered (.string s)
  | array {elements : List Json} (h : ∀ j ∈ elements, j.Ordered) : Ordered (.array elements)
  | object {members : List (String × Json)} (hsorted : Fields.Sorted members)
      (h : ∀ member ∈ members, member.2.Ordered) : Ordered (.object members)

/-- Elements under their numbers, the first of them at number `index`. -/
def numbered (index : Nat) (elements : List Json) : List (String × Json) :=
  (elements.zipIdx index).map fun element => (toString element.2, element.1)

/-- The notations right inside a notation, in the order in which they are read. -/
def parts : Json → List (String × Json)
  | .object members =>
      match TypeName.of? members with
      | some .array =>
          let values := (Fields.get? members TypeName.array.name).bind (·.get? "values")
          numbered 0 ((values.bind elements?).getD [])
      | some .map =>
          let fields := (Fields.get? members TypeName.map.name).bind (·.get? "fields")
          (fields.bind members?).getD []
      | _ => []
  | _ => []

/-- The notation that a trail leads to. -/
def follow? : Json → List String → Option Json
  | j, [] => some j
  | j, segment :: trail =>
      match Fields.get? j.parts segment with
      | some part => part.follow? trail
      | none => none

/-- The notations that are read on the way along a trail, before what it leads to. -/
def readBefore : Json → List String → List Json
  | _, [] => []
  | j, segment :: trail =>
      let earlier := (j.parts.takeWhile fun part => part.1 ≠ segment).map Prod.snd
      match Fields.get? j.parts segment with
      | some part => earlier ++ part.readBefore trail
      | none => earlier

end Json

end Firestore
