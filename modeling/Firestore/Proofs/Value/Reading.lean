import Firestore.Proofs.Value.Place

/-!
# Reading along a path

Below a path lie the leaves of what is read along it (`mem_leaves_of_getAt`), and
something is read just where a leaf lies at the end of the path or below it
(`exists_getAt_iff`).  Hence two records in order hold the same at the end of a path
if they have the same leaves there (`getAt_eq_of_leaves`).
-/

namespace Firestore.Value

/-- What stands inside a record in order is in order. -/
theorem Ordered.of_getAt {fields : Fields Value} (h : (map fields).Ordered) {path : List String}
    {v : Value} (hget : fields.getAt path = some v) : v.Ordered := by
  induction path generalizing fields with
  | nil => simp [Fields.getAt] at hget
  | cons key rest ih =>
      by_cases hrest : rest = []
      · subst hrest
        exact (ordered_map.mp h).2 (key, v) (Fields.mem_of_get? hget)
      · rw [getAt_cons hrest] at hget
        exact ih (ordered_inner h key) hget

/-- Below a path lie the leaves of what is read along it. -/
theorem mem_leaves_of_getAt {fields : Fields Value} (h : (map fields).Ordered)
    {path : List String} {v : Value} (hget : fields.getAt path = some v) {place : List String}
    {w : Value} : ⟨path ++ place, w⟩ ∈ fieldLeaves fields ↔ ⟨place, w⟩ ∈ v.leaves := by
  induction path generalizing fields with
  | nil => simp [Fields.getAt] at hget
  | cons key rest ih =>
      have hsorted := (ordered_map.mp h).1
      by_cases hrest : rest = []
      · subst hrest
        have hkey : fields.get? key = some v := hget
        rw [List.cons_append, mem_fieldLeaves_iff_get? hsorted, hkey]
        simp
      · rw [getAt_cons hrest] at hget
        rw [List.cons_append, mem_fieldLeaves_inner hsorted (by simp [hrest])]
        exact ih (ordered_inner h key) hget

/-- A leaf of what is read along a path is a leaf below the path. -/
theorem mem_fieldLeaves_of_getAt {fields : Fields Value} (h : (map fields).Ordered)
    {path : List String} {v : Value} (hget : fields.getAt path = some v) {leaf : Leaf} :
    leaf ∈ fieldLeaves fields ∧ path <+: leaf.path ↔
      ∃ inside ∈ v.leaves, inside.below path = leaf := by
  obtain ⟨place, w⟩ := leaf
  constructor
  · rintro ⟨hmem, rest, rfl⟩
    exact ⟨⟨rest, w⟩, (mem_leaves_of_getAt h hget).mp hmem, rfl⟩
  · rintro ⟨⟨rest, x⟩, hinside, heq⟩
    cases heq
    exact ⟨(mem_leaves_of_getAt h hget).mpr hinside, List.prefix_append path rest⟩

/-- Something is read along a path just where a leaf lies at its end or below. -/
theorem exists_getAt_iff {fields : Fields Value} (h : (map fields).Ordered) {path : List String}
    (hne : path ≠ []) :
    (∃ v, fields.getAt path = some v) ↔ ∃ leaf ∈ fieldLeaves fields, path <+: leaf.path := by
  constructor
  · rintro ⟨v, hget⟩
    obtain ⟨inside, hinside⟩ := exists_mem_leaves v
    obtain ⟨hmem, hbelow⟩ := (mem_fieldLeaves_of_getAt h hget).mpr ⟨inside, hinside, rfl⟩
    exact ⟨_, hmem, hbelow⟩
  · rintro ⟨⟨place, w⟩, hmem, hbelow⟩
    induction path generalizing fields place with
    | nil => exact absurd rfl hne
    | cons key rest ih =>
        have hsorted := (ordered_map.mp h).1
        obtain ⟨more, rfl⟩ := hbelow
        by_cases hrest : rest = []
        · subst hrest
          obtain ⟨v, hkey, _⟩ := (mem_fieldLeaves_iff_get? hsorted).mp hmem
          exact ⟨v, hkey⟩
        · rw [List.cons_append, mem_fieldLeaves_inner hsorted (by simp [hrest])] at hmem
          rw [getAt_cons hrest]
          exact ih (ordered_inner h key) hrest _ hmem (List.prefix_append rest more)

theorem getAt_eq_none_iff {fields : Fields Value} (h : (map fields).Ordered) {path : List String}
    (hne : path ≠ []) :
    fields.getAt path = none ↔ ∀ leaf ∈ fieldLeaves fields, ¬ path <+: leaf.path := by
  rw [Option.eq_none_iff_forall_not_mem]
  simpa using not_congr (exists_getAt_iff h hne)

/-- A leaf that does not lie at the end of a path or below is apart from the path, if something is
read along it. -/
theorem apart_of_getAt {fields : Fields Value} (h : (map fields).Ordered) {path : List String}
    {v : Value} (hget : fields.getAt path = some v) {leaf : Leaf} (hmem : leaf ∈ fieldLeaves fields)
    (hbelow : ¬ path <+: leaf.path) : Apart path leaf.path := by
  refine ⟨hbelow, fun habove => ?_⟩
  -- the leaf would lie above another one
  obtain ⟨inside, hinside⟩ := exists_mem_leaves v
  obtain ⟨hother, hlong⟩ := (mem_fieldLeaves_of_getAt h hget).mpr ⟨inside, hinside, rfl⟩
  by_cases heq : leaf = inside.below path
  · exact hbelow (heq ▸ hlong)
  · exact (apart_of_mem_fieldLeaves h hmem hother heq).1 (habove.trans hlong)

/-- Records in order with the same leaves at the end of a path and below hold the same there. -/
theorem getAt_eq_of_leaves {first second : Fields Value} (hfirst : (map first).Ordered)
    (hsecond : (map second).Ordered) {path : List String} (hne : path ≠ [])
    (h : ∀ leaf : Leaf, path <+: leaf.path →
      (leaf ∈ fieldLeaves first ↔ leaf ∈ fieldLeaves second)) :
    first.getAt path = second.getAt path := by
  have hsome : (∃ v, first.getAt path = some v) ↔ ∃ w, second.getAt path = some w := by
    rw [exists_getAt_iff hfirst hne, exists_getAt_iff hsecond hne]
    exact exists_congr fun leaf => and_congr_left (h leaf)
  cases hv : first.getAt path with
  | none =>
      cases hw : second.getAt path with
      | none => rfl
      | some w => simp [hv, hw] at hsome
  | some v =>
      obtain ⟨w, hw⟩ := hsome.mp ⟨v, hv⟩
      rw [hw]
      refine congrArg some (eq_of_leaves (hfirst.of_getAt hv) (hsecond.of_getAt hw) ?_)
      rintro ⟨place, x⟩
      rw [← mem_leaves_of_getAt hfirst hv, ← mem_leaves_of_getAt hsecond hw]
      exact h _ (List.prefix_append path place)

end Firestore.Value
