import Firestore.Value

/-!
# Equality of values

Two values are equal when they are built alike; all texts for no number count as
one number here.
-/

namespace Firestore.Value

mutual

/-- Whether two values are built alike. -/
def same : Value → Value → Bool
  | .null, .null => true
  | .boolean a, .boolean b => a == b
  | .integer a, .integer b => a == b
  | .double a, .double b => a == b
  | .timestamp a, .timestamp b => a == b
  | .string a, .string b => a == b
  | .bytes a, .bytes b => a == b
  | .reference a, .reference b => a == b
  | .geoPoint a, .geoPoint b => a == b
  | .array a, .array b => sameAll a b
  | .map a, .map b => sameFields a b
  | .transform .delete, .transform .delete => true
  | .transform .serverTimestamp, .transform .serverTimestamp => true
  | .transform (.increment a), .transform (.increment b) => same a b
  | .transform (.arrayUnion a), .transform (.arrayUnion b) => sameAll a b
  | .transform (.arrayRemove a), .transform (.arrayRemove b) => sameAll a b
  | _, _ => false

/-- Whether two lists hold equal elements at equal places. -/
def sameAll : List Value → List Value → Bool
  | [], [] => true
  | a :: as, b :: bs => same a b && sameAll as bs
  | _, _ => false

/-- Whether two records have equal fields. -/
def sameFields : List (String × Value) → List (String × Value) → Bool
  | [], [] => true
  | (k, a) :: as, (l, b) :: bs => k == l && same a b && sameFields as bs
  | _, _ => false

end

instance : BEq Value := ⟨same⟩

end Firestore.Value
