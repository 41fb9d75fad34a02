import Firestore.Error
import Firestore.Number.Shortest

/-!
# Geographical points

A latitude and a longitude in degrees, both inside their ranges.
-/

namespace Firestore

/-- The rank of ninety degrees among the doubles. -/
def rightAngle : Nat := 0x4056800000000000

/-- The rank of a hundred and eighty degrees among the doubles. -/
def straightAngle : Nat := 0x4066800000000000

/-- A point on the globe. -/
structure GeoPoint where
  latitude : Double
  longitude : Double
  latitude_within : latitude.within rightAngle = true
  longitude_within : longitude.within straightAngle = true
  deriving DecidableEq

namespace GeoPoint

/-- The refusal of a coordinate outside its range. -/
def outside (coordinate range : String) (degrees : Double) : Error :=
  .invalidArgument s!"{coordinate} must be between {range} degrees, got {degrees.text}"

/-- The point of two coordinates; the latitude is checked first. -/
def make (latitude longitude : Double) : Except Error GeoPoint :=
  if hlat : latitude.within rightAngle = true then
    if hlong : longitude.within straightAngle = true then
      .ok ⟨latitude, longitude, hlat, hlong⟩
    else .error (outside "Longitude" "-180 and 180" longitude)
  else .error (outside "Latitude" "-90 and 90" latitude)

/-- The coordinates of a point make the point. -/
theorem make_coordinates (p : GeoPoint) : make p.latitude p.longitude = .ok p := by
  simp [make, p.latitude_within, p.longitude_within]

def text (p : GeoPoint) : String :=
  s!"GeoPoint({p.latitude.text}, {p.longitude.text})"

end GeoPoint

end Firestore
