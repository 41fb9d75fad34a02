import Firestore.Proofs.Value.Leaves
import Firestore.Value.Place

/-!
# Writing along a path

Writing along a path keeps the maps of a record in order (`ordered_setAt`).  If the
path is apart from those of all leaves, writing adds the leaves of the new value and
disturbs no other (`mem_fieldLeaves_setAt`): where the path goes down there are
maps with fields, or nothing yet.

One step of writing changes what the first name of the path holds (`setAt_cons`), and
there the rest of the path is written (`inner_setAt_self`).  So what was written is read
back, along the path and inside the value (`getAt_setAt_append`), and paths that are apart
do not disturb each other (`getAt_setAt_of_apart`).
-/

namespace Firestore.Value

/-! ## Order -/

theorem ordered_insert {fields : Fields Value} (h : (map fields).Ordered) (key : String) {v : Value}
    (hv : v.Ordered) : (map (fields.insert key v)).Ordered := by
  obtain ⟨hsorted, hfields⟩ := ordered_map.mp h
  refine ordered_map.mpr ⟨Fields.sorted_insert hsorted key v, ?_⟩
  intro field hfield
  rcases Fields.mem_insert hfield with rfl | hold
  · exact hv
  · exact hfields field hold

theorem ordered_nil : (map []).Ordered :=
  ordered_map.mpr ⟨Fields.sorted_nil, fun _ h => absurd h List.not_mem_nil⟩

theorem ordered_inner {fields : Fields Value} (h : (map fields).Ordered) (key : String) :
    (map (fields.inner key)).Ordered := by
  unfold Fields.inner
  split
  · rename_i inside hget
    exact (ordered_map.mp h).2 (key, .map inside) (Fields.mem_of_get? hget)
  · exact ordered_nil

theorem ordered_setAt {fields : Fields Value} (h : (map fields).Ordered) (path : List String)
    {v : Value} (hv : v.Ordered) : (map (fields.setAt path v)).Ordered := by
  induction path generalizing fields with
  | nil => exact h
  | cons key rest ih =>
      cases rest with
      | nil => exact ordered_insert h key hv
      | cons next rest => exact ordered_insert h key (ih (ordered_inner h key))

/-! ## Reading -/

theorem getAt_nil (path : List String) : Fields.getAt [] path = none := by
  cases path with
  | nil => rfl
  | cons key rest => cases rest <;> rfl

theorem inner_of_get? {fields inside : Fields Value} {key : String}
    (h : fields.get? key = some (.map inside)) : fields.inner key = inside := by
  simp [Fields.inner, h]

/-- Where no map with fields stands there is nothing inside. -/
theorem inner_eq_nil {fields : Fields Value} {key : String}
    (h : ∀ v, fields.get? key = some v → v.hasFields = false) : fields.inner key = [] := by
  unfold Fields.inner
  split
  · rename_i inside hget
    have hfields := h _ hget
    cases inside with
    | nil => rfl
    | cons first rest => contradiction
  · rfl

theorem getAt_cons {fields : Fields Value} {key : String} {path : List String} (h : path ≠ []) :
    fields.getAt (key :: path) = (fields.inner key).getAt path := by
  cases path with
  | nil => exact absurd rfl h
  | cons next rest =>
      rw [Fields.getAt, Fields.inner]
      cases fields.get? key with
      | none => exact (getAt_nil _).symm
      | some v =>
          cases v with
          | map inside => rfl
          | _ => exact (getAt_nil _).symm

/-- The leaves further down are leaves of the map that the name holds. -/
theorem mem_fieldLeaves_inner {fields : Fields Value} (h : Fields.Sorted fields) {key : String}
    {path : List String} {w : Value} (hne : path ≠ []) :
    ⟨key :: path, w⟩ ∈ fieldLeaves fields ↔ ⟨path, w⟩ ∈ fieldLeaves (fields.inner key) := by
  rw [mem_fieldLeaves_iff_get? h]
  cases hget : fields.get? key with
  | none =>
      rw [inner_eq_nil fun v hv => by rw [hget] at hv; contradiction]
      simp [fieldLeaves]
  | some v =>
      cases hfields : v.hasFields with
      | false =>
          have hnone : fields.inner key = [] := inner_eq_nil fun w hw => by
            rw [hget, Option.some.injEq] at hw
            exact hw ▸ hfields
          simp [hnone, leaves_eq_self hfields, fieldLeaves, hne]
      | true =>
          obtain ⟨inside, hinside, rfl⟩ := exists_fields hfields
          simp [inner_of_get? hget, leaves_map hinside]

/-! ## Writing -/

theorem insert_ne_nil (fields : Fields Value) (key : String) (v : Value) :
    fields.insert key v ≠ [] := by
  intro hnil
  have hget := Fields.get?_insert fields key v key
  rw [hnil] at hget
  simp at hget

theorem setAt_ne_nil {path : List String} (h : path ≠ []) (fields : Fields Value) (v : Value) :
    fields.setAt path v ≠ [] := by
  cases path with
  | nil => exact absurd rfl h
  | cons key rest =>
      cases rest with
      | nil => exact insert_ne_nil _ _ _
      | cons next rest => exact insert_ne_nil _ _ _

/-- Below another name than the one that was put in, the leaves are as before. -/
theorem mem_fieldLeaves_insert {fields : Fields Value} (h : Fields.Sorted fields) (name : String)
    (v : Value) {key : String} {path : List String} {w : Value} :
    ⟨key :: path, w⟩ ∈ fieldLeaves (fields.insert name v) ↔
      if name = key then ⟨path, w⟩ ∈ v.leaves else ⟨key :: path, w⟩ ∈ fieldLeaves fields := by
  rw [mem_fieldLeaves_iff_get? (Fields.sorted_insert h name v), Fields.get?_insert]
  by_cases hname : name = key
  · simp [hname]
  · simp [hname, mem_fieldLeaves_iff_get? h]

theorem below_cons_eq_iff {inside : Leaf} {key name : String} {path place : List String}
    {w : Value} :
    inside.below (key :: path) = ⟨name :: place, w⟩ ↔
      key = name ∧ inside.below path = ⟨place, w⟩ := by
  simp [Leaf.below, and_assoc]

/-- One step of a path: below its first name stand the leaves of the value that is put there, and
everything else is as before. -/
private theorem mem_fieldLeaves_step {fields : Fields Value} (h : Fields.Sorted fields)
    {key name : String} {rest place : List String} {v nested w : Value}
    (hnested : ⟨place, w⟩ ∈ nested.leaves ↔
      (∃ inside ∈ v.leaves, inside.below rest = ⟨place, w⟩) ∨
        ⟨key :: place, w⟩ ∈ fieldLeaves fields ∧ Apart rest place) :
    ⟨name :: place, w⟩ ∈ fieldLeaves (fields.insert key nested) ↔
      (∃ inside ∈ v.leaves, inside.below (key :: rest) = ⟨name :: place, w⟩) ∨
        ⟨name :: place, w⟩ ∈ fieldLeaves fields ∧ Apart (key :: rest) (name :: place) := by
  rw [mem_fieldLeaves_insert h]
  simp only [below_cons_eq_iff]
  by_cases hname : key = name
  · subst hname
    simpa [Apart.cons_iff] using hnested
  · simp [hname, Apart.of_ne hname]

/-- Writing along a path puts the leaves of the new value there, and of the others those stay
whose paths are apart from it. -/
theorem mem_fieldLeaves_setAt_iff {fields : Fields Value} (h : (map fields).Ordered)
    {path : List String} (hne : path ≠ []) (v : Value) {leaf : Leaf} :
    leaf ∈ fieldLeaves (fields.setAt path v) ↔
      (∃ inside ∈ v.leaves, inside.below path = leaf) ∨
        leaf ∈ fieldLeaves fields ∧ Apart path leaf.path := by
  obtain ⟨place, w⟩ := leaf
  induction path generalizing fields place with
  | nil => exact absurd rfl hne
  | cons key rest ih =>
      have hsorted := (ordered_map.mp h).1
      cases place with
      | nil =>
          -- neither side has a leaf at the record itself
          constructor
          · intro hmem
            exact absurd rfl (path_ne_nil hmem)
          · rintro (⟨inside, _, heq⟩ | ⟨hmem, _⟩)
            · simp [Leaf.below] at heq
            · exact absurd rfl (path_ne_nil hmem)
      | cons name place =>
          cases rest with
          | nil =>
              refine mem_fieldLeaves_step hsorted ?_
              have hhere : ¬ Apart [] place := fun hapart => hapart.left_ne_nil rfl
              simp [hhere, Leaf.below_nil]
          | cons next rest =>
              refine mem_fieldLeaves_step hsorted ?_
              have hnext := List.cons_ne_nil next rest
              rw [leaves_map (setAt_ne_nil hnext _ v), ih (ordered_inner h key) hnext]
              refine or_congr_right (and_congr_left fun hapart => ?_)
              exact (mem_fieldLeaves_inner hsorted hapart.symm.left_ne_nil).symm

/-- Writing along a path that is apart from all leaves adds the leaves of the new value. -/
theorem mem_fieldLeaves_setAt {fields : Fields Value} (h : (map fields).Ordered)
    {path : List String} (hne : path ≠ []) (v : Value)
    (hapart : ∀ leaf ∈ fieldLeaves fields, Apart path leaf.path) {leaf : Leaf} :
    leaf ∈ fieldLeaves (fields.setAt path v) ↔
      (∃ inside ∈ v.leaves, inside.below path = leaf) ∨ leaf ∈ fieldLeaves fields := by
  rw [mem_fieldLeaves_setAt_iff h hne, and_iff_left_of_imp (hapart leaf)]

/-! ## Writing, then reading -/

/-- What stands under the first name of a path when a value was put at its end: the value itself if
the path ends there, and otherwise the map that was there with the value put further down. -/
def placed (inside : Fields Value) : List String → Value → Value
  | [], v => v
  | key :: rest, v => .map (inside.setAt (key :: rest) v)

/-- Writing along a path changes what its first name holds, and nothing else. -/
theorem setAt_cons (fields : Fields Value) (key : String) (rest : List String) (v : Value) :
    fields.setAt (key :: rest) v = fields.insert key (placed (fields.inner key) rest v) := by
  cases rest <;> rfl

theorem placed_of_ne_nil (inside : Fields Value) {path : List String} (h : path ≠ []) (v : Value) :
    placed inside path v = .map (inside.setAt path v) := by
  obtain ⟨key, rest, rfl⟩ := List.exists_cons_of_ne_nil h
  rfl

theorem get?_setAt (fields : Fields Value) (key : String) (rest : List String) (v : Value)
    (other : String) :
    (fields.setAt (key :: rest) v).get? other =
      if key = other then some (placed (fields.inner key) rest v) else fields.get? other := by
  rw [setAt_cons, Fields.get?_insert]

theorem inner_congr {fields others : Fields Value} {key : String}
    (h : fields.get? key = others.get? key) : fields.inner key = others.inner key := by
  rw [Fields.inner, Fields.inner, h]

theorem inner_setAt_self (fields : Fields Value) (key : String) {rest : List String}
    (h : rest ≠ []) (v : Value) :
    (fields.setAt (key :: rest) v).inner key = (fields.inner key).setAt rest v := by
  apply inner_of_get?
  rw [get?_setAt, if_pos rfl, placed_of_ne_nil _ h]

theorem inner_setAt_of_ne (fields : Fields Value) {key other : String} (h : key ≠ other)
    (rest : List String) (v : Value) :
    (fields.setAt (key :: rest) v).inner other = fields.inner other := by
  apply inner_congr
  rw [get?_setAt, if_neg h]

/-- Reading along a path goes to what its first name holds, and on from there. -/
theorem getAt_eq_bind (fields : Fields Value) (key : String) (path : List String) :
    fields.getAt (key :: path) = (fields.get? key).bind fun inside => inside.follow? path := by
  induction path generalizing fields key with
  | nil => simp [Fields.getAt, follow?]
  | cons next more ih =>
      rw [Fields.getAt]
      cases fields.get? key with
      | none => rfl
      | some v =>
          cases v with
          | map inside => exact ih inside next
          | _ => rfl

theorem getAt_congr {fields others : Fields Value} {key : String}
    (h : fields.get? key = others.get? key) (path : List String) :
    fields.getAt (key :: path) = others.getAt (key :: path) := by
  rw [getAt_eq_bind, getAt_eq_bind, h]

/-- What is read below a path along which a value was put is what stands in that value. -/
theorem getAt_setAt_append (fields : Fields Value) {path : List String} (h : path ≠ []) (v : Value)
    (keys : List String) : (fields.setAt path v).getAt (path ++ keys) = v.follow? keys := by
  induction path generalizing fields with
  | nil => exact absurd rfl h
  | cons key rest ih =>
      cases rest with
      | nil =>
          rw [List.singleton_append, getAt_eq_bind, get?_setAt, if_pos rfl, placed,
            Option.bind_some]
      | cons next more =>
          have hnext := List.cons_ne_nil next more
          rw [List.cons_append, getAt_cons (List.append_ne_nil_of_left_ne_nil hnext keys),
            inner_setAt_self fields key hnext]
          exact ih (fields.inner key) hnext

/-- What was written along a path is read along it. -/
theorem getAt_setAt_self (fields : Fields Value) {path : List String} (h : path ≠ []) (v : Value) :
    (fields.setAt path v).getAt path = some v := by
  have hread := getAt_setAt_append fields h v []
  rwa [List.append_nil, follow?] at hread

/-- Writing along a path does not change what is read along another one that is apart from it. -/
theorem getAt_setAt_of_apart (fields : Fields Value) {path other : List String}
    (h : Apart path other) (v : Value) :
    (fields.setAt path v).getAt other = fields.getAt other := by
  induction path generalizing fields other with
  | nil => exact absurd rfl h.left_ne_nil
  | cons key rest ih =>
      obtain ⟨name, place, rfl⟩ := List.exists_cons_of_ne_nil h.symm.left_ne_nil
      by_cases hname : key = name
      · subst hname
        have hrest := Apart.cons_iff.mp h
        have hplace := hrest.symm.left_ne_nil
        rw [getAt_cons hplace, inner_setAt_self fields key hrest.left_ne_nil, ih _ hrest,
          getAt_cons hplace]
      · -- another name is not touched, whatever is put under the first one
        refine getAt_congr ?_ place
        rw [get?_setAt, if_neg hname]

end Firestore.Value
