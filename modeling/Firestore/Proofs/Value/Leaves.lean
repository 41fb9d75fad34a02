import Firestore.Proofs.Fields
import Firestore.Value.Everywhere
import Firestore.Value.Leaves
import Mathlib.Data.List.Pairwise

/-!
# What the leaves of a record say

The paths of its leaves are apart from each other (`apart_fieldLeaves`), and a
record whose maps are in order is determined by which leaves it has
(`eq_of_leaves`).  Both follow the maps downwards: `mem_fieldLeaves` takes a leaf of
a record to the name that its path starts with, and there to a leaf of what the
name holds.
-/

namespace Firestore

/-! ## Paths that are apart -/

namespace Apart

variable {p q : List String}

theorem symm (h : Apart p q) : Apart q p := ⟨h.2, h.1⟩

theorem ne (h : Apart p q) : p ≠ q := by
  rintro rfl
  exact h.1 List.prefix_rfl

theorem cons_iff {key : String} : Apart (key :: p) (key :: q) ↔ Apart p q := by
  simp [Apart]

theorem of_ne {key other : String} (h : key ≠ other) : Apart (key :: p) (other :: q) := by
  constructor
  · intro hprefix
    exact h (List.cons_prefix_cons.mp hprefix).1
  · intro hprefix
    exact h (List.cons_prefix_cons.mp hprefix).1.symm

theorem left_ne_nil (h : Apart p q) : p ≠ [] := by
  rintro rfl
  exact h.1 List.nil_prefix

end Apart

namespace Value

/-! ## Where the leaves of a record are -/

theorem mem_fieldLeaves {fields : List (String × Value)} {leaf : Leaf} :
    leaf ∈ fieldLeaves fields ↔
      ∃ field ∈ fields, ∃ inside ∈ field.2.leaves, inside.under field.1 = leaf := by
  induction fields with
  | nil => simp [fieldLeaves]
  | cons field rest ih => simp [fieldLeaves, ih]

/-- A leaf of a record in order is a leaf of what the first name of its path holds. -/
theorem mem_fieldLeaves_iff_get? {fields : Fields Value} (h : Fields.Sorted fields) {key : String}
    {path : List String} {w : Value} :
    ⟨key :: path, w⟩ ∈ fieldLeaves fields ↔
      ∃ v, fields.get? key = some v ∧ ⟨path, w⟩ ∈ v.leaves := by
  rw [mem_fieldLeaves]
  constructor
  · rintro ⟨⟨name, v⟩, hfield, ⟨q, x⟩, hinside, heq⟩
    cases heq
    exact ⟨v, h.get?_eq_some_iff.mpr hfield, hinside⟩
  · rintro ⟨v, hget, hinside⟩
    exact ⟨(key, v), h.get?_eq_some_iff.mp hget, ⟨path, w⟩, hinside, rfl⟩

/-- No leaf of a record stands at the record itself. -/
theorem path_ne_nil {fields : List (String × Value)} {leaf : Leaf} (h : leaf ∈ fieldLeaves fields) :
    leaf.path ≠ [] := by
  obtain ⟨field, _, inside, _, rfl⟩ := mem_fieldLeaves.mp h
  exact List.cons_ne_nil _ _

theorem exists_mem_leaves (v : Value) : ∃ leaf, leaf ∈ v.leaves := by
  induction v with
  | map fields ih =>
      cases fields with
      | nil => exact ⟨⟨[], .map []⟩, by simp [leaves]⟩
      | cons first rest =>
          obtain ⟨leaf, hleaf⟩ := ih first List.mem_cons_self
          refine ⟨leaf.under first.1, ?_⟩
          rw [leaves, mem_fieldLeaves]
          exact ⟨first, List.mem_cons_self, leaf, hleaf, rfl⟩
  | _ => exact ⟨_, by rw [leaves_eq_self rfl]; exact List.mem_cons_self⟩

theorem exists_fields {v : Value} (h : v.hasFields = true) :
    ∃ fields, fields ≠ [] ∧ v = .map fields := by
  unfold hasFields at h
  split at h
  · exact ⟨_, List.cons_ne_nil _ _, rfl⟩
  · contradiction

/-- A leaf at a value itself is this value, which is then no map with fields. -/
theorem mem_leaves_nil {v w : Value} : ⟨[], w⟩ ∈ v.leaves ↔ v.hasFields = false ∧ w = v := by
  cases hfields : v.hasFields with
  | false => simp [leaves_eq_self hfields]
  | true =>
      obtain ⟨fields, hne, rfl⟩ := exists_fields hfields
      rw [leaves_map hne]
      simp only [Bool.true_eq_false, false_and, iff_false]
      intro hmem
      exact path_ne_nil hmem rfl

/-- What stands at a leaf of a value in order is in order. -/
theorem Ordered.of_mem_leaves {v : Value} {leaf : Leaf} (hordered : v.Ordered)
    (h : leaf ∈ v.leaves) : leaf.value.Ordered := by
  induction v generalizing leaf with
  | map fields ih =>
      cases fields with
      | nil =>
          rw [leaves_eq_self rfl, List.mem_singleton] at h
          rwa [h]
      | cons first rest =>
          rw [leaves, mem_fieldLeaves] at h
          obtain ⟨field, hfield, inside, hinside, rfl⟩ := h
          rw [Leaf.value_under]
          exact ih field hfield ((ordered_map.mp hordered).2 field hfield) hinside
  | _ =>
      rw [leaves_eq_self rfl, List.mem_singleton] at h
      rwa [h]

theorem Ordered.of_mem_fieldLeaves {fields : Fields Value} {leaf : Leaf}
    (hordered : (map fields).Ordered) (h : leaf ∈ fieldLeaves fields) : leaf.value.Ordered := by
  obtain ⟨field, hfield, inside, hinside, rfl⟩ := mem_fieldLeaves.mp h
  rw [Leaf.value_under]
  exact ((ordered_map.mp hordered).2 field hfield).of_mem_leaves hinside

/-! ## Leaves are apart, in the order of their paths -/

variable {r : List String → List String → Prop}

/-- A relation of paths that goes down through names, and holds of paths with increasing first
names, holds between the leaves of fields if it holds between the leaves of each of them. -/
private theorem pairwise_fieldLeaves_of (hdown : ∀ key p q, r p q → r (key :: p) (key :: q))
    (hfirst : ∀ key other p q, key < other → r (key :: p) (other :: q))
    {fields : Fields Value} (hsorted : Fields.Sorted fields)
    (h : ∀ field ∈ fields, field.2.leaves.Pairwise fun a b => r a.path b.path) :
    (fieldLeaves fields).Pairwise fun a b => r a.path b.path := by
  induction fields with
  | nil => exact List.Pairwise.nil
  | cons field rest ih =>
      obtain ⟨key, v⟩ := field
      obtain ⟨hless, hrest⟩ := Fields.sorted_cons.mp hsorted
      rw [fieldLeaves, List.pairwise_append]
      refine ⟨?_, ih hrest fun other hother => h other (List.mem_cons_of_mem _ hother), ?_⟩
      · rw [List.pairwise_map]
        exact (h (key, v) List.mem_cons_self).imp fun hab => hdown key _ _ hab
      · intro a ha b hb
        obtain ⟨inside, _, rfl⟩ := List.mem_map.mp ha
        obtain ⟨other, hother, within, _, rfl⟩ := mem_fieldLeaves.mp hb
        exact hfirst key other.1 _ _ (hless other hother)

private theorem pairwise_leaves_of (hdown : ∀ key p q, r p q → r (key :: p) (key :: q))
    (hfirst : ∀ key other p q, key < other → r (key :: p) (other :: q))
    {v : Value} (h : v.Ordered) : v.leaves.Pairwise fun a b => r a.path b.path := by
  induction v with
  | map fields ih =>
      cases fields with
      | nil => simp [leaves]
      | cons first rest =>
          obtain ⟨hsorted, hfields⟩ := ordered_map.mp h
          rw [leaves]
          refine pairwise_fieldLeaves_of hdown hfirst hsorted ?_
          intro field hfield
          exact ih field hfield (hfields field hfield)
  | _ =>
      rw [leaves_eq_self rfl]
      exact List.pairwise_singleton _ _

/-- No two leaves of a record stand on one path. -/
theorem apart_fieldLeaves {fields : Fields Value} (h : (map fields).Ordered) :
    (fieldLeaves fields).Pairwise fun a b => Apart a.path b.path := by
  have hdown : ∀ key p q, Apart p q → Apart (key :: p) (key :: q) :=
    fun _ _ _ hapart => Apart.cons_iff.mpr hapart
  have hfirst : ∀ (key other : String) p q, key < other → Apart (key :: p) (other :: q) :=
    fun _ _ _ _ hlt => Apart.of_ne (ne_of_lt hlt)
  refine pairwise_fieldLeaves_of hdown hfirst (ordered_map.mp h).1 ?_
  intro field hfield
  exact pairwise_leaves_of hdown hfirst ((ordered_map.mp h).2 field hfield)

theorem apart_of_mem_fieldLeaves {fields : Fields Value} (h : (map fields).Ordered) {a b : Leaf}
    (ha : a ∈ fieldLeaves fields) (hb : b ∈ fieldLeaves fields) (hne : a ≠ b) :
    Apart a.path b.path := by
  have hsymm : Std.Symm fun a b : Leaf => Apart a.path b.path := ⟨fun _ _ hapart => hapart.symm⟩
  exact (apart_fieldLeaves h).forall ha hb hne

/-- The leaves of a record come in the order of their paths. -/
theorem increasing_fieldLeaves {fields : Fields Value} (h : (map fields).Ordered) :
    (fieldLeaves fields).Pairwise fun a b => a.path < b.path := by
  have hdown : ∀ (key : String) (p q : List String), p < q → key :: p < key :: q :=
    fun _ _ _ hlt => List.cons_lt_cons_iff.mpr (Or.inr ⟨rfl, hlt⟩)
  have hfirst : ∀ (key other : String) (p q : List String), key < other → key :: p < other :: q :=
    fun _ _ _ _ hlt => List.cons_lt_cons_iff.mpr (Or.inl hlt)
  refine pairwise_fieldLeaves_of hdown hfirst (ordered_map.mp h).1 ?_
  intro field hfield
  exact pairwise_leaves_of hdown hfirst ((ordered_map.mp h).2 field hfield)

/-- Leaves in the order of their paths are determined by which leaves they are. -/
theorem eq_of_increasing {first second : List Leaf}
    (hfirst : first.Pairwise fun a b => a.path < b.path)
    (hsecond : second.Pairwise fun a b => a.path < b.path)
    (h : ∀ leaf, leaf ∈ first ↔ leaf ∈ second) : first = second := by
  have hnodup : ∀ leaves : List Leaf, (leaves.Pairwise fun a b => a.path < b.path) → leaves.Nodup :=
    fun _ hleaves => hleaves.imp fun hlt heq => absurd (congrArg Leaf.path heq) (ne_of_lt hlt)
  have hperm : first.Perm second :=
    (List.perm_ext_iff_of_nodup (hnodup first hfirst) (hnodup second hsecond)).mpr h
  exact hperm.eq_of_pairwise (fun a b _ _ hab hba => absurd hba (lt_asymm hab)) hfirst hsecond

/-! ## Leaves determine a record -/

/-- Records in order with the same leaves, if each value of the first is determined by its
leaves. -/
private theorem eq_of_leaves_of {first second : Fields Value} (hfirst : (map first).Ordered)
    (hsecond : (map second).Ordered)
    (hsame : ∀ leaf, leaf ∈ fieldLeaves first ↔ leaf ∈ fieldLeaves second)
    (h : ∀ field ∈ first, ∀ w : Value, w.Ordered →
      (∀ leaf, leaf ∈ field.2.leaves ↔ leaf ∈ w.leaves) → field.2 = w) : first = second := by
  have hsorted := (ordered_map.mp hfirst).1
  have hsorted' := (ordered_map.mp hsecond).1
  have hbelow : ∀ key path x, (∃ v, first.get? key = some v ∧ ⟨path, x⟩ ∈ v.leaves) ↔
      ∃ w, second.get? key = some w ∧ ⟨path, x⟩ ∈ w.leaves := by
    intro key path x
    rw [← mem_fieldLeaves_iff_get? hsorted, ← mem_fieldLeaves_iff_get? hsorted']
    exact hsame _
  refine Fields.ext_get? hsorted hsorted' fun key => ?_
  cases hv : first.get? key with
  | none =>
      -- a name of the second record only would have leaves below it
      cases hw : second.get? key with
      | none => rfl
      | some w =>
          obtain ⟨⟨path, x⟩, hleaf⟩ := exists_mem_leaves w
          obtain ⟨v, hget, _⟩ := (hbelow key path x).mpr ⟨w, hw, hleaf⟩
          rw [hv] at hget
          contradiction
  | some v =>
      obtain ⟨⟨path, x⟩, hleaf⟩ := exists_mem_leaves v
      obtain ⟨w, hw, _⟩ := (hbelow key path x).mp ⟨v, hv, hleaf⟩
      have hleaves : ∀ leaf, leaf ∈ v.leaves ↔ leaf ∈ w.leaves := by
        rintro ⟨path, x⟩
        simpa [hv, hw] using hbelow key path x
      have hw' := (ordered_map.mp hsecond).2 (key, w) (Fields.mem_of_get? hw)
      rw [hw]
      exact congrArg some (h (key, v) (Fields.mem_of_get? hv) w hw' hleaves)

private theorem eq_of_self_leaf {v w : Value} (hfields : v.hasFields = false)
    (h : ∀ leaf, leaf ∈ v.leaves ↔ leaf ∈ w.leaves) : v = w := by
  have hself : ⟨[], v⟩ ∈ w.leaves := (h _).mp (mem_leaves_nil.mpr ⟨hfields, rfl⟩)
  exact (mem_leaves_nil.mp hself).2

/-- Two values in order with the same leaves are the same. -/
theorem eq_of_leaves {v w : Value} (hv : v.Ordered) (hw : w.Ordered)
    (h : ∀ leaf, leaf ∈ v.leaves ↔ leaf ∈ w.leaves) : v = w := by
  induction v generalizing w with
  | map fields ih =>
      by_cases hnil : fields = []
      · exact eq_of_self_leaf (hnil ▸ rfl) h
      -- all leaves of a map with fields lie below it, so the other is one too
      · cases hother : w.hasFields with
        | false => exact (eq_of_self_leaf hother fun leaf => (h leaf).symm).symm
        | true =>
            obtain ⟨others, hothers, rfl⟩ := exists_fields hother
            rw [leaves_map hnil, leaves_map hothers] at h
            refine congrArg map (eq_of_leaves_of hv hw h ?_)
            intro field hfield x hx hsame
            exact ih field hfield ((ordered_map.mp hv).2 field hfield) hx hsame
  | _ => exact eq_of_self_leaf rfl h

/-- Two records in order with the same leaves are the same. -/
theorem eq_of_fieldLeaves {first second : Fields Value} (hfirst : (map first).Ordered)
    (hsecond : (map second).Ordered)
    (h : ∀ leaf, leaf ∈ fieldLeaves first ↔ leaf ∈ fieldLeaves second) : first = second :=
  eq_of_leaves_of hfirst hsecond h fun field hfield _ hw hsame =>
    eq_of_leaves ((ordered_map.mp hfirst).2 field hfield) hw hsame

end Value

end Firestore
