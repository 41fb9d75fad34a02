import Firestore.Native.Node
import Firestore.Proofs.Native.Calls
import Firestore.Proofs.Native.Encoding
import Firestore.Proofs.Native.Stored
import Firestore.Proofs.Number.Rank
import Mathlib.Algebra.Group.Int.Defs

/-!
# The first thing that cannot be written

`Node.FailsAs` says which nodes of native data cannot be written, and why, whatever
stands around them.  Writing succeeds if there is no such node, and else fails with the
error of the first one under the trail that leads to it (`encode_refusal`).

The trail grows while the writer leaves the data around the culprit, just as steps are
seen from the data that holds them, so the two agree level by level (`failure?_encode`).
A wrapper is judged by the value it wraps: it has no fault of its own unless everything
inside it can be written, so it makes no difference that its step comes before theirs.
-/

namespace Firestore

/-! ## Leaves -/

/-- The values of which a leaf is made, up to the range of coordinates. -/
inductive Marker.Accepts : Marker → Value → Prop
  | timestamp {seconds nanos : Int64} (hlow : -2 ^ 31 ≤ nanos.toInt)
      (hhigh : nanos.toInt < 2 ^ 31) :
      Accepts .timestamp (.array [.integer seconds, .integer nanos])
  | geoPoint {latitude longitude : Value} {x y : Double} (hx : latitude.double? = some x)
      (hy : longitude.double? = some y) : Accepts .geoPoint (.array [latitude, longitude])
  | bytes (bs : List UInt8) : Accepts .bytes (.bytes bs)
  | reference (name : String) : Accepts .reference (.string name)
  | bare {tag : String} (htag : tag = "delete" ∨ tag = "serverTimestamp") (operands : List Value) :
      Accepts .transform (.array [.string tag, .array operands])
  | increment (operand : Value) :
      Accepts .transform (.array [.string "increment", .array [operand]])
  | elements {tag : String} (htag : tag = "arrayUnion" ∨ tag = "arrayRemove")
      (elements : List Value) : Accepts .transform (.array [.string tag, .array elements])

/-- A transform is made of a tag and operands just if they are accepted as one. -/
theorem Marker.accepts_transform_iff {tag : String} {operands : List Value} :
    Marker.transform.Accepts (.array [.string tag, .array operands]) ↔
      ∃ t, Transform.ofParts? tag operands = some t := by
  constructor
  · intro h
    cases h with
    | bare htag => rcases htag with rfl | rfl <;> exact ⟨_, rfl⟩
    | increment operand => exact ⟨_, rfl⟩
    | elements htag => rcases htag with rfl | rfl <;> exact ⟨_, rfl⟩
  · rintro ⟨t, ht⟩
    unfold Transform.ofParts? at ht
    split at ht
    · exact .bare (.inl rfl) _
    · exact .bare (.inr rfl) _
    · exact .increment _
    · exact .elements (.inl rfl) _
    · exact .elements (.inr rfl) _
    · contradiction

namespace Value

/-- No leaf is made of any other value. -/
theorem leaf_of_not_accepts {m : Marker} {payload : Value} (h : ¬ m.Accepts payload) :
    payload.leaf m = .error (EncodingFault.malformedLeaf m).error := by
  unfold leaf
  split
  · rename_i seconds nanos
    cases hnanos : int32? nanos.toInt with
    | none => rfl
    | some n =>
        have hrange : -2 ^ 31 ≤ nanos.toInt ∧ nanos.toInt < 2 ^ 31 := by
          by_contra hout
          rw [int32?_eq_none.mpr hout] at hnanos
          contradiction
        exact absurd (.timestamp hrange.1 hrange.2) h
  · rename_i latitude longitude
    cases hx : latitude.double? with
    | none => rfl
    | some x =>
        cases hy : longitude.double? with
        | none => rfl
        | some y => exact absurd (.geoPoint hx hy) h
  · exact absurd (.bytes _) h
  · exact absurd (.reference _) h
  · rename_i tag operands
    cases ht : Transform.ofParts? tag operands with
    | none => rfl
    | some t => exact absurd (Marker.accepts_transform_iff.mpr ⟨t, ht⟩) h
  · rfl

/-- An accepted value makes a leaf, unless a point is out of range. -/
theorem leaf_of_accepts {m : Marker} {payload : Value} (h : m.Accepts payload) :
    (∃ w, payload.leaf m = .ok w) ∨
      ∃ latitude longitude x y, m = .geoPoint ∧ payload = .array [latitude, longitude] ∧
        latitude.double? = some x ∧ longitude.double? = some y ∧
        payload.leaf m = .geoPoint <$> GeoPoint.make x y := by
  cases h with
  | @timestamp seconds nanos hlow hhigh =>
      obtain ⟨n, hn⟩ := Option.ne_none_iff_exists'.mp fun hnone =>
        int32?_eq_none.mp hnone ⟨hlow, hhigh⟩
      exact .inl ⟨.timestamp (.normalized seconds n), by simp only [leaf, hn]⟩
  | @geoPoint latitude longitude x y hx hy =>
      exact .inr ⟨latitude, longitude, x, y, rfl, rfl, hx, hy, by simp only [leaf, hx, hy]⟩
  | bytes bs => exact .inl ⟨_, rfl⟩
  | reference name => exact .inl ⟨_, rfl⟩
  | bare htag operands => rcases htag with rfl | rfl <;> exact .inl ⟨_, rfl⟩
  | increment operand => exact .inl ⟨_, rfl⟩
  | elements htag elements => rcases htag with rfl | rfl <;> exact .inl ⟨_, rfl⟩

end Value

/-- Why two numbers are not the coordinates of a point. -/
inductive GeoPoint.Excludes : Double → Double → Error → Prop
  | latitude {x : Double} (y : Double) (h : ¬ x.AtMost 90) :
      Excludes x y (GeoPoint.outside "Latitude" "-90 and 90" x)
  | longitude {x y : Double} (hx : x.AtMost 90) (h : ¬ y.AtMost 180) :
      Excludes x y (GeoPoint.outside "Longitude" "-180 and 180" y)

theorem GeoPoint.make_eq_error {x y : Double} {e : Error} :
    GeoPoint.make x y = .error e ↔ GeoPoint.Excludes x y e := by
  unfold make
  constructor
  · intro h
    split at h
    · rename_i hx
      rw [within_rightAngle_iff] at hx
      split at h
      · contradiction
      · rename_i hy
        rw [within_straightAngle_iff] at hy
        cases h
        exact .longitude hx hy
    · rename_i hx
      rw [within_rightAngle_iff] at hx
      cases h
      exact .latitude y hx
  · intro h
    cases h with
    | latitude hx => rw [dif_neg (mt (within_rightAngle_iff x).mp hx)]
    | longitude hx hy =>
        rw [dif_pos ((within_rightAngle_iff x).mpr hx),
          dif_neg (mt (within_straightAngle_iff y).mp hy)]

namespace Native

/-! ## Nodes -/

/-- A node that cannot be written, whatever stands around it. -/
inductive Node.FailsAs : Node → Error → Prop
  | integer {n : Int} (h : ¬ (-2 ^ 63 ≤ n ∧ n < 2 ^ 63)) :
      FailsAs (.item (.int n)) (EncodingFault.integerTooWide n).error
  | malformed {m : Marker} {inner : Native} {payload : Value} (hmade : inner.encode = .ok payload)
      (h : ¬ m.Accepts payload) :
      FailsAs (.item (.wrapper m.name inner)) (EncodingFault.malformedLeaf m).error
  | outOfRange {inner : Native} {latitude longitude : Value} {x y : Double} {e : Error}
      (hmade : inner.encode = .ok (.array [latitude, longitude])) (hx : latitude.double? = some x)
      (hy : longitude.double? = some y) (h : GeoPoint.Excludes x y e) :
      FailsAs (.item (.wrapper Marker.geoPoint.name inner)) e
  | keyless : FailsAs (.item .keyless) EncodingFault.valueBeforeKey.error
  | refusal (message : String) : FailsAs (.item (.refusal message)) (.invalidArgument message)
  | key {k : Native} (hname : k.name? = none) (hother : ∀ message, k.unwrapped ≠ .refusal message) :
      FailsAs (.key k) EncodingFault.keyNotText.error
  | keyRefusal {k : Native} {message : String} (h : k.unwrapped = .refusal message) :
      FailsAs (.key k) (.invalidArgument message)

/-- The error of a node, as the writer comes by it. -/
def Node.fault? : Node → Option Error
  | .item (.int n) => failure? (Native.int n).encode
  | .item (.wrapper name inner) =>
      match Marker.ofName? name, inner.encode with
      | some m, .ok payload => failure? (payload.leaf m)
      | _, _ => none
  | .item .keyless => some EncodingFault.valueBeforeKey.error
  | .item (.refusal message) => some (.invalidArgument message)
  | .item _ => none
  | .key k => failure? k.key

/-! ## Keys -/

/-- A key is what is inside its wrappers. -/
theorem key_unwrapped (k : Native) : k.unwrapped.key = k.key := by
  induction k with
  | wrapper name inner ih => exact ih
  | _ => rfl

theorem unwrapped_ne_wrapper (k : Native) (name : String) (inner : Native) :
    k.unwrapped ≠ .wrapper name inner := by
  induction k with
  | wrapper _ _ ih => exact ih
  | _ => simp [unwrapped]

/-- A key makes a name, or is refused. -/
theorem key_cases (k : Native) :
    (∃ name, k.name? = some name ∧ k.key = .ok name) ∨
      k.name? = none ∧ ∃ e, k.key = .error e ∧ (Node.key k).FailsAs e := by
  rw [← key_unwrapped, name?]
  cases h : k.unwrapped with
  | text s => exact .inl ⟨s, rfl, rfl⟩
  | int n => exact .inl ⟨_, rfl, rfl⟩
  | wrapper name inner => exact absurd h (k.unwrapped_ne_wrapper name inner)
  | refusal message => exact .inr ⟨rfl, _, rfl, .keyRefusal h⟩
  | _ => exact .inr ⟨rfl, _, rfl, .key (by rw [name?, h]) (by simp [h])⟩

theorem Node.failsAs_key_iff {k : Native} {e : Error} :
    (Node.key k).FailsAs e ↔ k.key = .error e := by
  constructor
  · intro h
    -- only what is inside the wrappers of a key counts, and that is no wrapper
    rw [← key_unwrapped]
    cases h with
    | keyRefusal h =>
        rw [h]
        rfl
    | key hname hother =>
        rw [name?] at hname
        cases hk : k.unwrapped with
        | text s => simp [hk] at hname
        | int n => simp [hk] at hname
        | wrapper name inner => exact absurd hk (k.unwrapped_ne_wrapper name inner)
        | refusal message => exact absurd hk (hother message)
        | _ => rfl
  · intro h
    rcases key_cases k with ⟨name, -, hkey⟩ | ⟨-, other, hkey, hfails⟩
    · rw [hkey] at h
      contradiction
    · rw [hkey] at h
      cases h
      exact hfails

/-! ## The error of a node -/

/-- An integer fails just if no word holds it. -/
private theorem failsAs_int_iff {n : Int} {e : Error} :
    (Node.item (.int n)).FailsAs e ↔ (Native.int n).encode = .error e := by
  unfold encode
  constructor
  · intro h
    cases h with
    | integer hout => rw [int64?_eq_none.mpr hout]
  · intro h
    split at h
    · contradiction
    · rename_i hnone
      cases h
      exact .integer (int64?_eq_none.mp hnone)

/-- A wrapper fails just if it has the name of a leaf and wraps a value of which none is made. -/
private theorem failsAs_wrapper_iff {name : String} {inner : Native} {e : Error} :
    (Node.item (.wrapper name inner)).FailsAs e ↔
      ∃ m payload, Marker.ofName? name = some m ∧ inner.encode = .ok payload ∧
        payload.leaf m = .error e := by
  constructor
  · intro h
    cases h with
    | malformed hmade h =>
        exact ⟨_, _, Marker.ofName?_name _, hmade, Value.leaf_of_not_accepts h⟩
    | outOfRange hmade hx hy h =>
        refine ⟨.geoPoint, _, Marker.ofName?_name _, hmade, ?_⟩
        rw [Value.leaf, hx, hy]
        show Value.geoPoint <$> GeoPoint.make _ _ = _
        rw [GeoPoint.make_eq_error.mpr h, map_error]
  · rintro ⟨m, payload, hname, hmade, h⟩
    obtain rfl := Marker.name_of_ofName? hname
    -- a payload of the right form can still be a point out of range
    by_cases haccepts : m.Accepts payload
    · rcases Value.leaf_of_accepts haccepts with ⟨w, hw⟩ | ⟨_, _, x, y, rfl, rfl, hx, hy, hleaf⟩
      · rw [hw] at h
        contradiction
      · rw [hleaf] at h
        cases hmake : GeoPoint.make x y with
        | ok p =>
            rw [hmake] at h
            contradiction
        | error other =>
            rw [hmake, map_error] at h
            cases h
            exact .outOfRange hmade hx hy (GeoPoint.make_eq_error.mp hmake)
    · rw [Value.leaf_of_not_accepts haccepts] at h
      cases h
      exact .malformed hmade haccepts

theorem Node.fault?_eq_some {node : Node} {e : Error} :
    node.fault? = some e ↔ node.FailsAs e := by
  cases node with
  | key k => rw [failsAs_key_iff, fault?, failure?_eq_some]
  | item n =>
      cases n with
      | int n => rw [failsAs_int_iff, fault?, failure?_eq_some]
      | wrapper name inner =>
          rw [failsAs_wrapper_iff, fault?]
          cases Marker.ofName? name <;> cases inner.encode <;> simp [failure?_eq_some]
      | keyless =>
          constructor
          · rintro ⟨⟩
            exact .keyless
          · rintro ⟨⟩
            rfl
      | refusal message =>
          constructor
          · rintro ⟨⟩
            exact .refusal message
          · rintro ⟨⟩
            rfl
      | _ => exact ⟨nofun, nofun⟩

theorem Node.fault?_eq_none {node : Node} : node.fault? = none ↔ ∀ e, ¬ node.FailsAs e := by
  simp only [← fault?_eq_some, Option.eq_none_iff_forall_ne_some, ne_eq]

/-- A node is to blame where it stands. -/
theorem Node.FailsAs.trail_eq_nil {node : Node} {e : Error} (h : node.FailsAs e) :
    e.trail = [] := by
  cases h with
  | outOfRange _ _ _ h => cases h <;> rfl
  | _ => rfl

namespace Step

/-- The refusal of a node, as it is seen from where its trail starts. -/
def refusal? (s : Step) : Option Error :=
  s.node.fault?.map fun e => { e with trail := s.trail ++ e.trail }

theorem refusal?_here (node : Node) : refusal? ⟨[], node⟩ = node.fault? := by
  unfold refusal?
  cases node.fault? <;> rfl

/-- The first refusal is that of the node at hand, if it has a fault of its own. -/
theorem findSome?_here (node : Node) (rest : List Step) :
    (⟨[], node⟩ :: rest).findSome? refusal? = node.fault?.or (rest.findSome? refusal?) := by
  rw [List.findSome?_cons, refusal?_here]
  cases node.fault? <;> rfl

theorem findSome?_of_fault?_eq_none {node : Node} (h : node.fault? = none) (rest : List Step) :
    (⟨[], node⟩ :: rest).findSome? refusal? = rest.findSome? refusal? := by
  rw [findSome?_here, h, Option.none_or]

theorem refusal?_under (segment : String) (s : Step) :
    (s.under segment).refusal? = s.refusal?.map (Error.within segment) := by
  unfold refusal? under
  cases s.node.fault? <;> rfl

theorem findSome?_under (segment : String) (steps : List Step) :
    (steps.map (under segment)).findSome? refusal? =
      (steps.findSome? refusal?).map (Error.within segment) :=
  findSome?_map_within (refusal?_under segment) steps

end Step

/-! ## The first refusal -/

private theorem failure?_encodeAll {items : List Native}
    (h : ∀ item ∈ items, failure? item.encode = item.steps.findSome? Step.refusal?) (index : Nat) :
    failure? (encodeAll index items) = (itemSteps index items).findSome? Step.refusal? := by
  induction items generalizing index with
  | nil => rfl
  | cons item rest ih =>
      obtain ⟨hitem, hrest⟩ := List.forall_mem_cons.mp h
      calc failure? (encodeAll index (item :: rest))
          = (failure? (inside (toString index) item.encode)).or
              (failure? (encodeAll (index + 1) rest)) := by
            rw [encodeAll]
            exact failure?_bind_bind_ok _ _ List.cons
        _ = ((item.steps.findSome? Step.refusal?).map (Error.within (toString index))).or
              ((itemSteps (index + 1) rest).findSome? Step.refusal?) := by
            rw [failure?_inside, hitem, ih hrest]
        _ = (itemSteps index (item :: rest)).findSome? Step.refusal? := by
            rw [itemSteps, List.findSome?_append, Step.findSome?_under]

private theorem failure?_encodeEntries {entries : List (Native × Native)}
    (h : ∀ entry ∈ entries, failure? entry.2.encode = entry.2.steps.findSome? Step.refusal?) :
    failure? (encodeEntries entries) = (entrySteps entries).findSome? Step.refusal? := by
  induction entries with
  | nil => rfl
  | cons entry rest ih =>
      obtain ⟨k, item⟩ := entry
      obtain ⟨hitem, hrest⟩ := List.forall_mem_cons.mp h
      rw [encodeEntries, entrySteps, List.cons_append, Step.findSome?_here]
      -- a key is written before its value, so its fault comes first
      rcases k.key_cases with ⟨name, hname, hkey⟩ | ⟨-, e, hkey, hfails⟩
      · have hnone : (Node.key k).fault? = none := by
          rw [Node.fault?, hkey]
          rfl
        calc failure? (k.key >>= fun name => inside name item.encode >>= fun v =>
                encodeEntries rest >>= fun fields => pure ((name, v) :: fields))
            = (failure? (inside name item.encode)).or (failure? (encodeEntries rest)) := by
              rw [hkey, ok_bind]
              exact failure?_bind_bind_ok _ _ fun v fields => (name, v) :: fields
          _ = ((item.steps.findSome? Step.refusal?).map (Error.within name)).or
                ((entrySteps rest).findSome? Step.refusal?) := by
              rw [failure?_inside, hitem, ih hrest]
          _ = _ := by
              rw [hnone, Option.none_or, hname, Option.toList_some, List.flatMap_singleton,
                List.findSome?_append, Step.findSome?_under]
      · -- nothing after the key is looked at
        rw [hkey, error_bind, Node.fault?_eq_some.mpr hfails]
        rfl

/-- A wrapper has a fault of its own just if nothing else is wrong. -/
private theorem failure?_wrapper (name : String) (inner : Native) :
    failure? (wrapper name inner).encode =
      (Node.item (.wrapper name inner)).fault?.or (failure? inner.encode) := by
  rw [encode, Node.fault?]
  cases inner.encode with
  | error e => cases Marker.ofName? name <;> rfl
  | ok payload =>
      cases Marker.ofName? name with
      | none => rfl
      | some m => exact (Option.or_none).symm

/-- **Writing native data fails with the refusal of the first step that has one.** -/
theorem failure?_encode (n : Native) :
    failure? n.encode = n.steps.findSome? Step.refusal? := by
  induction n with
  | int n =>
      rw [steps, List.findSome?_singleton, Step.refusal?_here]
      · rfl
      all_goals simp
  | present inner ih => rw [encode, ih, steps, Step.findSome?_of_fault?_eq_none rfl]
  | wrapper name inner ih => rw [failure?_wrapper, ih, steps, Step.findSome?_here]
  | variant name payload ih =>
      rw [encode, steps, Step.findSome?_of_fault?_eq_none rfl, Step.findSome?_under, ← ih,
        ← failure?_inside]
      exact failure?_bind_ok _ _
  | seq items ih =>
      rw [encode, steps, Step.findSome?_of_fault?_eq_none rfl]
      exact (failure?_bind_ok _ _).trans (failure?_encodeAll ih 0)
  | map entries ih =>
      rw [encode, steps, Step.findSome?_of_fault?_eq_none rfl]
      exact (failure?_bind_ok _ _).trans (failure?_encodeEntries fun entry h => (ih entry h).2)
  | _ => rfl

/-! ## Steps and trails -/

private theorem mem_itemSteps {items : List Native} {index : Nat} {s : Step} :
    s ∈ itemSteps index items ↔
      ∃ (number : Nat) (n : Native), items[number]? = some n ∧
        ∃ t ∈ n.steps, t.under (toString (index + number)) = s := by
  -- on the items; the first one of the rest has the next number
  induction items generalizing index with
  | nil => simp [itemSteps]
  | cons item rest ih =>
      rw [itemSteps, List.mem_append, List.mem_map, ih]
      constructor
      · rintro (hfirst | ⟨number, n, hn, hlater⟩)
        · exact ⟨0, item, rfl, hfirst⟩
        · refine ⟨number + 1, n, hn, ?_⟩
          rwa [Nat.add_comm number 1, ← Nat.add_assoc]
      · rintro ⟨number, n, hn, ht⟩
        cases number with
        | zero =>
            cases hn
            exact .inl ht
        | succ number =>
            refine .inr ⟨number, n, hn, ?_⟩
            rwa [Nat.add_assoc, Nat.add_comm 1 number]

private theorem mem_entrySteps {entries : List (Native × Native)} {s : Step} :
    s ∈ entrySteps entries ↔
      ∃ k n, (k, n) ∈ entries ∧
        (s = ⟨[], .key k⟩ ∨ ∃ name, k.name? = some name ∧ ∃ t ∈ n.steps, t.under name = s) := by
  induction entries with
  | nil => simp [entrySteps]
  | cons entry rest ih =>
      obtain ⟨k, item⟩ := entry
      have hhere : (s ∈ k.name?.toList.flatMap fun name => item.steps.map (Step.under name)) ↔
          ∃ name, k.name? = some name ∧ ∃ t ∈ item.steps, t.under name = s := by
        simp [List.mem_flatMap]
      rw [entrySteps, List.cons_append, List.mem_cons, List.mem_append, hhere, ih]
      constructor
      · rintro (hkey | hitem | ⟨l, n, hmem, hrest⟩)
        · exact ⟨k, item, List.mem_cons_self, .inl hkey⟩
        · exact ⟨k, item, List.mem_cons_self, .inr hitem⟩
        · exact ⟨l, n, List.mem_cons_of_mem _ hmem, hrest⟩
      · rintro ⟨l, n, hmem, hrest⟩
        rcases List.mem_cons.mp hmem with heq | hmem
        · cases heq
          exact hrest.imp_right .inl
        · exact .inr (.inr ⟨l, n, hmem, hrest⟩)

/-- From data with nothing inside, trails lead nowhere else. -/
private theorem leads_iff_of_no_child {n : Native} {trail : List String} {node : Node}
    (hchild : ∀ segments inner, ¬ n.Child segments inner) (hmap : ∀ entries, n ≠ .map entries) :
    n.Leads trail node ↔ trail = [] ∧ node = .item n := by
  constructor
  · intro h
    cases h with
    | here => exact ⟨rfl, rfl⟩
    | key => exact absurd rfl (hmap _)
    | step hinner _ => exact absurd hinner (hchild _ _)
  · rintro ⟨rfl, rfl⟩
    exact .here n

/-- From data with one thing inside, trails lead to the data itself, or on from that thing. -/
private theorem leads_iff_of_one_child {n inner : Native} {segments : List String}
    {trail : List String} {node : Node} (hchild : n.Child segments inner)
    (hone : ∀ others other, n.Child others other → others = segments ∧ other = inner)
    (hmap : ∀ entries, n ≠ .map entries) :
    n.Leads trail node ↔
      (trail = [] ∧ node = .item n) ∨ ∃ rest, trail = segments ++ rest ∧ inner.Leads rest node := by
  constructor
  · intro h
    cases h with
    | here => exact .inl ⟨rfl, rfl⟩
    | key => exact absurd rfl (hmap _)
    | step hother hrest =>
        obtain ⟨rfl, rfl⟩ := hone _ _ hother
        exact .inr ⟨_, rfl, hrest⟩
  · rintro (⟨rfl, rfl⟩ | ⟨rest, rfl, hrest⟩)
    · exact .here n
    · exact .step hchild hrest

/-- **The steps of writing are what trails lead to.** -/
theorem mem_steps_iff {n : Native} {trail : List String} {node : Node} :
    ⟨trail, node⟩ ∈ n.steps ↔ n.Leads trail node := by
  -- on the data, for all trails: behind the first step stand those of the data inside, seen from
  -- outside, and a trail that is not empty leads into the same data
  induction n generalizing trail with
  | present inner ih =>
      rw [steps, List.mem_cons, ih, leads_iff_of_one_child (.present inner)
        (by rintro _ _ ⟨⟩; exact ⟨rfl, rfl⟩) (by simp)]
      simp
  | wrapper name inner ih =>
      rw [steps, List.mem_cons, ih, leads_iff_of_one_child (.wrapper name inner)
        (by rintro _ _ ⟨⟩; exact ⟨rfl, rfl⟩) (by simp)]
      simp
  | variant name payload ih =>
      rw [steps, List.mem_cons, List.mem_map, leads_iff_of_one_child (.variant name payload)
        (by rintro _ _ ⟨⟩; exact ⟨rfl, rfl⟩) (by simp)]
      refine or_congr (by simp) ?_
      constructor
      · rintro ⟨⟨rest, node⟩, ht, ⟨⟩⟩
        exact ⟨rest, rfl, ih.mp ht⟩
      · rintro ⟨rest, rfl, hrest⟩
        exact ⟨⟨rest, node⟩, ih.mpr hrest, rfl⟩
  | seq items ih =>
      rw [steps, List.mem_cons, mem_itemSteps]
      constructor
      · rintro (⟨⟨⟩⟩ | ⟨number, inner, hinner, ⟨rest, node⟩, ht, ⟨⟩⟩)
        · exact .here _
        · rw [Nat.zero_add]
          exact .step (.item hinner) ((ih inner (List.mem_of_getElem? hinner)).mp ht)
      · intro h
        cases h with
        | here => exact .inl rfl
        | step hchild hrest =>
            cases hchild with
            | item hinner =>
                refine .inr ⟨_, _, hinner, _, (ih _ (List.mem_of_getElem? hinner)).mpr hrest, ?_⟩
                rw [Nat.zero_add]
                rfl
  | map entries ih =>
      -- a key is a step of its own, with the trail of the map; only what stands under a key that
      -- makes a name is inside
      rw [steps, List.mem_cons, mem_entrySteps]
      constructor
      · rintro (⟨⟨⟩⟩ | ⟨k, inner, hmem, ⟨⟨⟩⟩ | ⟨name, hname, ⟨rest, node⟩, ht, ⟨⟩⟩⟩)
        · exact .here _
        · exact .key hmem
        · exact .step (.entry hmem hname) ((ih _ hmem).2.mp ht)
      · intro h
        cases h with
        | here => exact .inl rfl
        | key hmem => exact .inr ⟨_, _, hmem, .inl rfl⟩
        | step hchild hrest =>
            cases hchild with
            | entry hmem hname =>
                exact .inr ⟨_, _, hmem, .inr ⟨_, hname, _, (ih _ hmem).2.mpr hrest, rfl⟩⟩
  | _ =>
      rw [steps, List.mem_singleton, leads_iff_of_no_child (by rintro _ _ ⟨⟩) (by simp),
        Step.mk.injEq]
      all_goals simp

/-- **What can be written, and what is refused otherwise.**  Native data makes a value just if no
trail leads to a node that fails by itself.  Otherwise the code and the message are those of the
first such node in the order of writing, and the trail is the one that leads to it.  It is the same
for maps that are written by calls in any order: there is native data that stands for them. -/
theorem encode_refusal (n : Native) :
    ((∃ v, n.encode = .ok v) ↔
      ∀ trail node, n.Leads trail node → ∀ e, ¬ node.FailsAs e) ∧
    (∀ e, n.encode = .error e ↔
      ∃ before s after cause, n.steps = before ++ s :: after ∧
        (∀ t ∈ before, ∀ other, ¬ t.node.FailsAs other) ∧ s.node.FailsAs cause ∧
        n.Leads s.trail s.node ∧ e = ⟨cause.code, cause.message, s.trail⟩) ∧
    ∀ calls, n = ofCalls calls → n.encode = Value.map <$> MapWriter.start.run calls := by
  have hnone (s : Step) : s.refusal? = none ↔ ∀ e, ¬ s.node.FailsAs e := by
    rw [Step.refusal?, Option.map_eq_none_iff, Node.fault?_eq_none]
  -- the error of a node has no trail of its own, so what is reported is the trail of the step
  have hsome (s : Step) (e : Error) : s.refusal? = some e ↔
      ∃ cause, s.node.FailsAs cause ∧ e = ⟨cause.code, cause.message, s.trail⟩ := by
    rw [Step.refusal?, Option.map_eq_some_iff]
    constructor
    · rintro ⟨cause, hcause, rfl⟩
      have hfails := Node.fault?_eq_some.mp hcause
      exact ⟨cause, hfails, by rw [hfails.trail_eq_nil, List.append_nil]⟩
    · rintro ⟨cause, hfails, rfl⟩
      exact ⟨cause, Node.fault?_eq_some.mpr hfails, by rw [hfails.trail_eq_nil, List.append_nil]⟩
  refine ⟨?_, ?_, ?_⟩
  · rw [← failure?_eq_none, failure?_encode, List.findSome?_eq_none_iff]
    constructor
    · intro h trail node hleads
      exact (hnone _).mp (h _ (mem_steps_iff.mpr hleads))
    · intro h s hs
      exact (hnone s).mpr (h s.trail s.node (mem_steps_iff.mp hs))
  · intro e
    rw [← failure?_eq_some, failure?_encode, List.findSome?_eq_some_iff]
    constructor
    · rintro ⟨before, s, after, hsplit, hrefusal, hbefore⟩
      obtain ⟨cause, hfails, rfl⟩ := (hsome s e).mp hrefusal
      have hmem : s ∈ n.steps := by simp [hsplit]
      exact ⟨before, s, after, cause, hsplit, fun t ht => (hnone t).mp (hbefore t ht), hfails,
        mem_steps_iff.mp hmem, rfl⟩
    · rintro ⟨before, s, after, cause, hsplit, hbefore, hfails, -, rfl⟩
      exact ⟨before, s, after, hsplit, (hsome s _).mpr ⟨cause, hfails, rfl⟩,
        fun t ht => (hnone t).mpr (hbefore t ht)⟩
  · rintro calls rfl
    exact encode_ofCalls calls

example :
    let inner : Native := .map [(.wrapper "Id" (.int 7), .wrapper Marker.bytes.name (.seq []))]
    let fault : Error := (EncodingFault.malformedLeaf .bytes).error
    (record [("a", .variant "V" (.seq [.null, .present inner])), ("b", .keyless)]).encode =
      .error { fault with trail := ["a", "V", "1", "7"] } := rfl

end Native

end Firestore
