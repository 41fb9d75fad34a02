import Firestore.Proofs.Native.Encoding
import Firestore.Proofs.Native.Stored
import Firestore.Proofs.Number.Rank
import Firestore.Proofs.Source.AnyValue
import Firestore.Proofs.Time.Moment

/-!
# Writing makes values that are written as themselves

Whatever native data makes, reserved names around any payload included, has its fields
in order and its moments in normal form (`isSettled_of_encode`).  Such a value is
written, and read, as itself (`encode_settles`).
-/

namespace Firestore

/-! ## Settled values -/

/-- A value that has fields in order and moments in normal form. -/
structure Value.IsSettled (v : Value) : Prop where
  ordered : v.Ordered
  times : v.TimesAre Timestamp.IsNormal

namespace Value

theorem isSettled_array {elements : List Value} :
    (array elements).IsSettled ↔ ∀ v ∈ elements, v.IsSettled := by
  constructor
  · rintro ⟨hordered, htimes⟩ v hv
    exact ⟨ordered_array.mp hordered v hv, timesAre_array.mp htimes v hv⟩
  · intro h
    exact ⟨ordered_array.mpr fun v hv => (h v hv).ordered,
      timesAre_array.mpr fun v hv => (h v hv).times⟩

theorem isSettled_map {fields : Fields Value} (hsorted : Fields.Sorted fields)
    (h : ∀ field ∈ fields, field.2.IsSettled) : (map fields).IsSettled :=
  ⟨ordered_map.mpr ⟨hsorted, fun field hfield => (h field hfield).ordered⟩,
    timesAre_map.mpr fun field hfield => (h field hfield).times⟩

theorem isSettled_transform {t : Transform Value} (h : ∀ v ∈ t.operands, v.IsSettled) :
    (transform t).IsSettled :=
  ⟨ordered_transform.mpr fun v hv => (h v hv).ordered,
    timesAre_transform.mpr fun v hv => (h v hv).times⟩

/-- A leaf made of a settled payload is settled. -/
theorem isSettled_leaf {m : Marker} {payload w : Value} (hpayload : payload.IsSettled)
    (h : payload.leaf m = .ok w) : w.IsSettled := by
  rcases leaf_cases h with ⟨seconds, nanos, rfl⟩ | ⟨p, rfl⟩ | ⟨bs, rfl⟩ | ⟨name, rfl⟩ |
    ⟨tag, operands, t, rfl, ht, rfl⟩
  · exact ⟨trivial, timesAre_timestamp.mpr (Timestamp.isNormal_normalized seconds nanos)⟩
  · exact ⟨trivial, trivial⟩
  · exact ⟨trivial, trivial⟩
  · exact ⟨trivial, trivial⟩
  · have hparts := isSettled_array.mp hpayload
    have hoperands := isSettled_array.mp (hparts (.array operands) (by simp))
    exact isSettled_transform fun v hv => hoperands v (Transform.mem_of_ofParts? ht hv)

/-- A point with a latitude of at most ninety degrees and a longitude of at most a hundred and
eighty, on either side; other values are no points. -/
def PointInRange : Value → Prop
  | .geoPoint p => p.latitude.AtMost 90 ∧ p.longitude.AtMost 180
  | _ => True

/-- There are no other points. -/
theorem everywhere_pointInRange (v : Value) : v.Everywhere PointInRange := by
  induction v with
  | geoPoint p =>
      exact ⟨(within_rightAngle_iff _).mp p.latitude_within,
        (within_straightAngle_iff _).mp p.longitude_within⟩
  | array elements ih => exact everywhere_array.mpr ⟨trivial, ih⟩
  | map fields ih => exact everywhere_map.mpr ⟨trivial, ih⟩
  | transform t ih => exact everywhere_transform.mpr ⟨trivial, ih⟩
  | _ => trivial

end Value

/-- **Whatever native data makes is settled**, leaves of any payload included. -/
theorem Native.isSettled_of_encode {n : Native} {w : Value} (h : n.encode = .ok w) :
    w.IsSettled := by
  induction n generalizing w with
  | null | bool b | double x | text s | bytes bs =>
      cases h
      exact ⟨trivial, trivial⟩
  | int n =>
      unfold encode at h
      split at h
      · cases h
        exact ⟨trivial, trivial⟩
      · contradiction
  | present inner ih => exact ih h
  | wrapper name inner ih =>
      obtain ⟨payload, hpayload, h⟩ := bind_eq_ok.mp h
      split at h
      · -- a reserved name makes a leaf of its payload, any other hands the payload on
        exact Value.isSettled_leaf (ih hpayload) h
      · cases h
        exact ih hpayload
  | variant name payload ih =>
      obtain ⟨v, hv, h⟩ := bind_eq_ok.mp h
      cases h
      have hsettled := ih (inside_eq_ok.mp hv)
      refine Value.isSettled_map (List.pairwise_singleton _ _) fun field hfield => ?_
      rw [List.mem_singleton.mp hfield]
      exact hsettled
  | seq items ih =>
      obtain ⟨elements, helements, h⟩ := bind_eq_ok.mp h
      cases h
      refine Value.isSettled_array.mpr fun v hv => ?_
      obtain ⟨item, hitem, hmade⟩ := exists_of_mem_forall₂ (encodeAll_eq_ok.mp helements) hv
      exact ih item hitem hmade
  | map entries ih =>
      obtain ⟨fields, hfields, h⟩ := bind_eq_ok.mp h
      cases h
      refine Value.isSettled_map (Fields.sorted_ofList fields) fun field hfield => ?_
      obtain ⟨entry, hentry, -, hmade⟩ :=
        exists_of_mem_forall₂ (encodeEntries_eq_ok.mp hfields) (Fields.mem_of_mem_ofList hfield)
      exact (ih entry hentry).2 hmade
  | keyless => contradiction
  | refusal message => contradiction

/-- A settled value is written as itself. -/
theorem Value.IsSettled.encode_ofValue {v : Value} (h : v.IsSettled) :
    (Native.ofValue v).encode = .ok v := by
  rw [Native.encode_ofValue h.ordered, normalize_eq_self h.times]

/-- A settled value is read as itself. -/
theorem Value.IsSettled.decode {v : Value} (h : v.IsSettled) :
    Shape.value.decode v = .ok (.value v) := by
  have hread : Source.readValue .stored (Source.ofValue v) = .ok v := by
    rw [Source.readValue_ofValue h.ordered, normalize_eq_self h.times]
  simp [Shape.decode, Shape.reader, hread]

/-- **A value is written as its normal form, and whatever writing makes is written and read as
itself**: its moments are in normal form, its points are in range, and no name, payload or operand
that native data can have makes a difference. -/
theorem Native.encode_settles :
    (∀ v : Value, v.Ordered → (ofValue v).encode = .ok v.normalize) ∧
      ∀ (n : Native) (w : Value), n.encode = .ok w →
        w.Ordered ∧ w.TimesAre Timestamp.IsNormal ∧ w.Everywhere Value.PointInRange ∧
          (ofValue w).encode = .ok w ∧ Shape.value.decode w = .ok (.value w) := by
  constructor
  · intro v hordered
    exact encode_ofValue hordered
  · intro n w h
    have hsettled := isSettled_of_encode h
    exact ⟨hsettled.ordered, hsettled.times, w.everywhere_pointInRange, hsettled.encode_ofValue,
      hsettled.decode⟩

/-- A transform in an operand, whose own operand is a moment of two seconds' worth of nanoseconds
under a reserved name; the entries of the map around it are given out of order. -/
theorem Native.encode_settles_payload :
    let moment : Native := .wrapper Marker.timestamp.name (.seq [.int 1, .int 2000000005])
    let inner : Native :=
      .wrapper Marker.transform.name (.seq [.text "arrayUnion", .seq [moment]])
    let n : Native := .map
      [(.text "$__firestore_map", .wrapper Marker.transform.name
          (.seq [.text "increment", .seq [inner]])), (.int 7, .present moment)]
    let t : Timestamp := ⟨3, 5⟩
    let w : Value := .map
      [("$__firestore_map", .transform (.increment (.transform (.arrayUnion [.timestamp t])))),
        ("7", .timestamp t)]
    n.encode = .ok w ∧ (ofValue w).encode = .ok w ∧ Shape.value.decode w = .ok (.value w) := by
  intro moment inner n t w
  have hencode : n.encode = .ok w := rfl
  obtain ⟨-, -, -, hwritten, hread⟩ := encode_settles.2 n w hencode
  exact ⟨hencode, hwritten, hread⟩

end Firestore
