import Firestore.Value

/-!
# Properties of everything inside a value

`Value.Everywhere p` says `p` of a value and of all values inside it: the elements
of arrays, the fields of maps, the operands of transforms.  Two such properties
are used throughout.  `Value.Ordered` says that the fields of each map stand in
the order of their names, and `Value.TimesAre` says something of each moment.

`Value.induction` is the induction over values that these properties follow: it
assumes the statement of every element, field or operand.
-/

namespace Firestore

/-- Induction over a value, for each thing that stands directly inside it. -/
@[elab_as_elim, induction_eliminator]
theorem Value.induction {motive : Value → Prop}
    (null : motive .null)
    (boolean : ∀ b, motive (.boolean b))
    (integer : ∀ n, motive (.integer n))
    (double : ∀ x, motive (.double x))
    (timestamp : ∀ t, motive (.timestamp t))
    (string : ∀ s, motive (.string s))
    (bytes : ∀ bs, motive (.bytes bs))
    (reference : ∀ name, motive (.reference name))
    (geoPoint : ∀ p, motive (.geoPoint p))
    (array : ∀ elements, (∀ v ∈ elements, motive v) → motive (.array elements))
    (map : ∀ fields, (∀ field ∈ fields, motive field.2) → motive (.map fields))
    (transform : ∀ t : Transform Value, (∀ v ∈ t.operands, motive v) → motive (.transform t))
    (v : Value) : motive v := by
  refine @Value.rec motive (fun elements => ∀ v ∈ elements, motive v)
    (fun fields => ∀ field ∈ fields, motive field.2)
    (fun t => ∀ v ∈ t.operands, motive v) (fun field => motive field.2)
    null boolean integer double timestamp string bytes reference geoPoint array map transform
    ?_ ?_ ?_ ?_ ?_ ?_ ?_ ?_ ?_ ?_ v
  · simp
  · intro head tail hhead htail v hv
    exact (List.mem_cons.mp hv).elim (fun heq => heq ▸ hhead) (htail v)
  · simp
  · intro head tail hhead htail field hfield
    exact (List.mem_cons.mp hfield).elim (fun heq => heq ▸ hhead) (htail field)
  · simp [Transform.operands]
  · simp [Transform.operands]
  · intro operand h v hv
    rw [Transform.operands, List.mem_singleton] at hv
    exact hv ▸ h
  · intro elements h
    exact h
  · intro elements h
    exact h
  · intro name v h
    exact h

namespace Value

mutual

/-- Whether a property holds of a value and of all values inside it. -/
def Everywhere (p : Value → Prop) : Value → Prop
  | .array elements => p (.array elements) ∧ EverywhereIn p elements
  | .map fields => p (.map fields) ∧ EverywhereUnder p fields
  | .transform (.increment operand) => p (.transform (.increment operand)) ∧ Everywhere p operand
  | .transform (.arrayUnion elements) =>
      p (.transform (.arrayUnion elements)) ∧ EverywhereIn p elements
  | .transform (.arrayRemove elements) =>
      p (.transform (.arrayRemove elements)) ∧ EverywhereIn p elements
  | v => p v

/-- Whether a property holds everywhere in some elements. -/
def EverywhereIn (p : Value → Prop) : List Value → Prop
  | [] => True
  | v :: rest => Everywhere p v ∧ EverywhereIn p rest

/-- Whether a property holds everywhere in some fields. -/
def EverywhereUnder (p : Value → Prop) : List (String × Value) → Prop
  | [] => True
  | (_, v) :: rest => Everywhere p v ∧ EverywhereUnder p rest

end

/-- A map whose fields stand in the order of their names; other values have no order. -/
def InOrder : Value → Prop
  | .map fields => Fields.Sorted fields
  | _ => True

/-- All maps inside a value have their fields in order. -/
def Ordered (v : Value) : Prop := v.Everywhere InOrder

/-- A moment with a property; other values have no moment of their own. -/
def TimeIs (p : Timestamp → Prop) : Value → Prop
  | .timestamp t => p t
  | _ => True

/-- All moments inside a value have a property. -/
def TimesAre (p : Timestamp → Prop) (v : Value) : Prop := v.Everywhere (TimeIs p)

/-! ## Deciding -/

mutual

/-- Decides a property of a value and of all values inside it. -/
def decideEverywhere (p : Value → Prop) [DecidablePred p] : (v : Value) → Decidable (v.Everywhere p)
  | .null => inferInstanceAs (Decidable (p _))
  | .boolean _ => inferInstanceAs (Decidable (p _))
  | .integer _ => inferInstanceAs (Decidable (p _))
  | .double _ => inferInstanceAs (Decidable (p _))
  | .timestamp _ => inferInstanceAs (Decidable (p _))
  | .string _ => inferInstanceAs (Decidable (p _))
  | .bytes _ => inferInstanceAs (Decidable (p _))
  | .reference _ => inferInstanceAs (Decidable (p _))
  | .geoPoint _ => inferInstanceAs (Decidable (p _))
  | .array elements => @instDecidableAnd _ _ _ (decideEverywhereIn p elements)
  | .map fields => @instDecidableAnd _ _ _ (decideEverywhereUnder p fields)
  | .transform .delete => inferInstanceAs (Decidable (p _))
  | .transform .serverTimestamp => inferInstanceAs (Decidable (p _))
  | .transform (.increment operand) => @instDecidableAnd _ _ _ (decideEverywhere p operand)
  | .transform (.arrayUnion elements) => @instDecidableAnd _ _ _ (decideEverywhereIn p elements)
  | .transform (.arrayRemove elements) => @instDecidableAnd _ _ _ (decideEverywhereIn p elements)

/-- Decides a property of everything in some elements. -/
def decideEverywhereIn (p : Value → Prop) [DecidablePred p] :
    (elements : List Value) → Decidable (EverywhereIn p elements)
  | [] => .isTrue trivial
  | v :: rest => @instDecidableAnd _ _ (decideEverywhere p v) (decideEverywhereIn p rest)

/-- Decides a property of everything in some fields. -/
def decideEverywhereUnder (p : Value → Prop) [DecidablePred p] :
    (fields : List (String × Value)) → Decidable (EverywhereUnder p fields)
  | [] => .isTrue trivial
  | (_, v) :: rest => @instDecidableAnd _ _ (decideEverywhere p v) (decideEverywhereUnder p rest)

end

instance : DecidablePred InOrder
  | .map fields => inferInstanceAs (Decidable (fields.Pairwise fun a b => a.1 < b.1))
  | .null | .boolean _ | .integer _ | .double _ | .timestamp _ | .string _ | .bytes _
  | .reference _ | .geoPoint _ | .array _ | .transform _ => .isTrue trivial

instance (p : Timestamp → Prop) [DecidablePred p] : DecidablePred (TimeIs p)
  | .timestamp t => inferInstanceAs (Decidable (p t))
  | .null | .boolean _ | .integer _ | .double _ | .map _ | .string _ | .bytes _
  | .reference _ | .geoPoint _ | .array _ | .transform _ => .isTrue trivial

instance (v : Value) : Decidable v.Ordered := decideEverywhere InOrder v

instance (p : Timestamp → Prop) [DecidablePred p] (v : Value) : Decidable (v.TimesAre p) :=
  decideEverywhere (TimeIs p) v

/-! ## What the parts have -/

theorem everywhereIn_iff {p : Value → Prop} {elements : List Value} :
    EverywhereIn p elements ↔ ∀ v ∈ elements, v.Everywhere p := by
  induction elements with
  | nil => simp [EverywhereIn]
  | cons v rest ih => simp [EverywhereIn, ih]

theorem everywhereUnder_iff {p : Value → Prop} {fields : List (String × Value)} :
    EverywhereUnder p fields ↔ ∀ field ∈ fields, field.2.Everywhere p := by
  induction fields with
  | nil => simp [EverywhereUnder]
  | cons field rest ih => simp [EverywhereUnder, ih]

theorem everywhere_array {p : Value → Prop} {elements : List Value} :
    (array elements).Everywhere p ↔ p (.array elements) ∧ ∀ v ∈ elements, v.Everywhere p := by
  rw [Everywhere, everywhereIn_iff]

theorem everywhere_map {p : Value → Prop} {fields : List (String × Value)} :
    (map fields).Everywhere p ↔ p (.map fields) ∧ ∀ field ∈ fields, field.2.Everywhere p := by
  rw [Everywhere, everywhereUnder_iff]

theorem everywhere_transform {p : Value → Prop} {t : Transform Value} :
    (transform t).Everywhere p ↔ p (.transform t) ∧ ∀ v ∈ t.operands, v.Everywhere p := by
  cases t <;> simp [Everywhere, everywhereIn_iff, Transform.operands]

@[simp]
theorem ordered_array {elements : List Value} :
    (array elements).Ordered ↔ ∀ v ∈ elements, v.Ordered := by
  simp [Ordered, everywhere_array, InOrder]

@[simp]
theorem ordered_map {fields : List (String × Value)} :
    (map fields).Ordered ↔ Fields.Sorted fields ∧ ∀ field ∈ fields, field.2.Ordered := by
  simp only [Ordered, everywhere_map, InOrder]

@[simp]
theorem ordered_transform {t : Transform Value} :
    (transform t).Ordered ↔ ∀ v ∈ t.operands, v.Ordered := by
  simp [Ordered, everywhere_transform, InOrder]

@[simp]
theorem timesAre_timestamp {p : Timestamp → Prop} {t : Timestamp} :
    (timestamp t).TimesAre p ↔ p t := by
  simp [TimesAre, Everywhere, TimeIs]

@[simp]
theorem timesAre_array {p : Timestamp → Prop} {elements : List Value} :
    (array elements).TimesAre p ↔ ∀ v ∈ elements, v.TimesAre p := by
  simp [TimesAre, everywhere_array, TimeIs]

@[simp]
theorem timesAre_map {p : Timestamp → Prop} {fields : List (String × Value)} :
    (map fields).TimesAre p ↔ ∀ field ∈ fields, field.2.TimesAre p := by
  simp [TimesAre, everywhere_map, TimeIs]

@[simp]
theorem timesAre_transform {p : Timestamp → Prop} {t : Transform Value} :
    (transform t).TimesAre p ↔ ∀ v ∈ t.operands, v.TimesAre p := by
  simp [TimesAre, everywhere_transform, TimeIs]

/-- What follows for each moment follows for all of them. -/
theorem TimesAre.imp {p q : Timestamp → Prop} {v : Value} (h : v.TimesAre p)
    (hpq : ∀ t, p t → q t) : v.TimesAre q := by
  induction v with
  | timestamp t => exact timesAre_timestamp.mpr (hpq t (timesAre_timestamp.mp h))
  | array elements ih =>
      rw [timesAre_array] at h ⊢
      exact fun v hv => ih v hv (h v hv)
  | map fields ih =>
      rw [timesAre_map] at h ⊢
      exact fun field hfield => ih field hfield (h field hfield)
  | transform t ih =>
      rw [timesAre_transform] at h ⊢
      exact fun v hv => ih v hv (h v hv)
  | _ => trivial

end Value

end Firestore
