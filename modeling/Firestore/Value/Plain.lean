import Firestore.Json
import Firestore.Value

/-!
# Values as plain JSON

Written as general JSON a value loses its kind: a leaf shows its bare content,
bytes are numbers, and a number that JSON cannot write is null.
-/

namespace Firestore.Value

mutual

/-- The plain JSON of a value. -/
def plainJson : Value → Json
  | .null => .null
  | .boolean b => .bool b
  | .integer n => .int n.toInt
  | .double x => .ofDouble x
  | .timestamp t => .array [.int t.seconds.toInt, .int t.nanos.toInt]
  | .string s => .string s
  | .bytes bs => .array (bs.map fun b => .nat b.toNat)
  | .reference name => .string name
  | .geoPoint p => .array [.ofDouble p.latitude, .ofDouble p.longitude]
  | .array elements => .array (plainJsons elements)
  | .map fields => .object (plainMembers fields)
  | .transform .delete => .array [.string "delete", .array []]
  | .transform .serverTimestamp => .array [.string "serverTimestamp", .array []]
  | .transform (.increment operand) => .array [.string "increment", .array [plainJson operand]]
  | .transform (.arrayUnion elements) =>
      .array [.string "arrayUnion", .array (plainJsons elements)]
  | .transform (.arrayRemove elements) =>
      .array [.string "arrayRemove", .array (plainJsons elements)]

/-- The plain JSON of some elements. -/
def plainJsons : List Value → List Json
  | [] => []
  | v :: rest => plainJson v :: plainJsons rest

/-- The plain JSON of some fields. -/
def plainMembers : List (String × Value) → List (String × Json)
  | [] => []
  | (k, v) :: rest => (k, plainJson v) :: plainMembers rest

end

end Firestore.Value
