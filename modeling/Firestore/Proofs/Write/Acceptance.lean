import Firestore.Proofs.Path.Field
import Firestore.Proofs.Write.Extraction
import Firestore.Proofs.Write.Failures

/-!
# Which data transforms can be taken out of

Whether transforms can be taken out of a record is a matter of its leaves
(`Extraction.Allowed`).  Each leaf is looked at by itself, with the names that lead to it
(`Leaf.IsAllowed`): only arrays and transforms need a path at all.  What all of them have
to agree on is that no two transforms have paths of the same text, which names with
dots in them can bring about.

What became of the leaves is known from `Extraction.SplitsUnder`; here it is shown which
records get that far.
-/

namespace Firestore

open Value

/-- A leaf that can be kept, or taken out if it is a transform. -/
structure Leaf.IsAllowed (leaf : Leaf) : Prop where
  /-- No transform stands in an array, at any depth. -/
  array : ∀ elements, leaf.value = .array elements → ∀ v ∈ elements, v.hasTransform = false
  /-- What is added to a number is a number. -/
  increment : ∀ operand, leaf.value = .transform (.increment operand) →
    (∃ n, operand = .integer n) ∨ ∃ x, operand = .double x
  /-- No transform stands in elements that are added or removed, at any depth. -/
  elements : ∀ elements, leaf.value = .transform (.arrayUnion elements) ∨
    leaf.value = .transform (.arrayRemove elements) → ∀ v ∈ elements, v.hasTransform = false
  /-- The names that lead to an array or a transform make a path. -/
  names : (∃ elements, leaf.value = .array elements) ∨ (∃ t, leaf.value = .transform t) →
    "" ∉ leaf.path

/-- Data that transforms can be taken out of. -/
structure Extraction.Allowed (data : Fields Value) : Prop where
  leaves : ∀ leaf ∈ fieldLeaves data, leaf.IsAllowed
  /-- No two transforms have paths of the same text. -/
  distinct : (((fieldLeaves data).filter Leaf.isTransform).map fun leaf =>
    ".".intercalate leaf.path).Nodup

/-! ## One leaf -/

namespace Leaf

variable {path : List String}

theorem isAllowed_array {elements : List Value} :
    (⟨path, .array elements⟩ : Leaf).IsAllowed ↔ "" ∉ path ∧ anyTransform elements = false := by
  rw [anyTransform_eq_false]
  constructor
  · intro h
    exact ⟨h.names (.inl ⟨elements, rfl⟩), h.array elements rfl⟩
  · rintro ⟨hpath, helements⟩
    refine ⟨?_, fun _ h => by contradiction, ?_, fun _ => hpath⟩
    · rintro _ ⟨rfl⟩
      exact helements
    · rintro _ (h | h) <;> contradiction

/-- A transform is allowed if its operands are. -/
theorem isAllowed_transform {t : Transform Value} {p : FieldPath} :
    (⟨path, .transform t⟩ : Leaf).IsAllowed ↔
      "" ∉ path ∧ ∃ found, Extraction.checked p t = .ok found := by
  constructor
  · intro h
    refine ⟨h.names (.inr ⟨t, rfl⟩), ?_⟩
    cases t with
    | increment operand =>
        rcases h.increment operand rfl with ⟨n, rfl⟩ | ⟨x, rfl⟩
        · exact ⟨_, rfl⟩
        · exact ⟨_, rfl⟩
    | arrayUnion elements =>
        have helements := anyTransform_eq_false.mpr (h.elements elements (.inl rfl))
        simp [Extraction.checked, helements]
    | arrayRemove elements =>
        have helements := anyTransform_eq_false.mpr (h.elements elements (.inr rfl))
        simp [Extraction.checked, helements]
    | delete => exact ⟨_, rfl⟩
    | serverTimestamp => exact ⟨_, rfl⟩
  · rintro ⟨hpath, found, hfound⟩
    obtain rfl := Extraction.checked_eq_ok hfound
    have hchecked : Extraction.IsChecked ⟨p, t⟩ := hfound
    refine ⟨fun _ h => by contradiction, ?_, ?_, fun _ => hpath⟩
    · intro operand h
      obtain rfl : t = .increment operand := Value.transform.inj h
      have hnumeric := hchecked.isNumeric
      cases operand with
      | integer n => exact .inl ⟨n, rfl⟩
      | double x => exact .inr ⟨x, rfl⟩
      | _ => contradiction
    · intro elements h
      have hoperand := h.imp Value.transform.inj Value.transform.inj
      exact anyTransform_eq_false.mp (hchecked.anyTransform hoperand)

/-- Any other leaf is kept wherever it stands. -/
theorem isAllowed_other {v : Value} (harray : ∀ elements, v ≠ .array elements)
    (htransform : ∀ t, v ≠ .transform t) : (⟨path, v⟩ : Leaf).IsAllowed where
  array elements h := absurd h (harray elements)
  increment _ h := absurd h (htransform _)
  elements _ h := h.elim (absurd · (htransform _)) (absurd · (htransform _))
  names h := h.elim (fun ⟨elements, he⟩ => absurd he (harray elements))
    (fun ⟨t, ht⟩ => absurd ht (htransform t))

end Leaf

/-! ## All leaves -/

namespace Extraction

/-- A value without fields is its own leaf. -/
private theorem forall_leaves_self {v : Value} (hleaf : v.hasFields = false)
    (segments : List String) :
    (∀ leaf ∈ v.leaves, (leaf.below segments).IsAllowed) ↔ (⟨segments, v⟩ : Leaf).IsAllowed := by
  simp [leaves_eq_self hleaf, Leaf.below]

private theorem exists_fields_iff_of {parent : List String} {data : Fields Value}
    (h : ∀ entry ∈ data, (∃ split, field (parent ++ [entry.1]) entry.2 = .ok split) ↔
      ∀ leaf ∈ entry.2.leaves, (leaf.below (parent ++ [entry.1])).IsAllowed) :
    (∃ split, fields parent data = .ok split) ↔
      ∀ leaf ∈ fieldLeaves data, (leaf.below parent).IsAllowed := by
  induction data with
  | nil => simp [fields, fieldLeaves]
  | cons entry rest ih =>
      obtain ⟨hentry, hrest⟩ := List.forall_mem_cons.mp h
      obtain ⟨key, v⟩ := entry
      -- the fields are split one by one, and all of them have to be
      have hboth : (∃ split, fields parent ((key, v) :: rest) = .ok split) ↔
          (∃ split, field (parent ++ [key]) v = .ok split) ∧
            ∃ split, fields parent rest = .ok split := by
        rw [fields]
        cases field (parent ++ [key]) v with
        | error e => simp
        | ok split =>
            obtain ⟨kept, here⟩ := split
            cases fields parent rest with
            | error e => simp
            | ok others => cases kept <;> simp
      rw [hboth, hentry, ih hrest, fieldLeaves, List.forall_mem_append, List.forall_mem_map]
      simp only [Leaf.below_under]

/-- A field can be split if the leaves in it are allowed where they stand. -/
theorem exists_field_iff {segments : List String} (hne : segments ≠ []) (v : Value) :
    (∃ split, field segments v = .ok split) ↔
      ∀ leaf ∈ v.leaves, (leaf.below segments).IsAllowed := by
  induction v generalizing segments with
  | map data ih =>
      -- an empty map is a leaf and has no transforms, one with fields is split field by field
      cases data with
      | nil =>
          rw [forall_leaves_self rfl]
          exact iff_of_true ⟨_, rfl⟩ (Leaf.isAllowed_other (by simp) (by simp))
      | cons first rest =>
          rw [field, leaves_map (List.cons_ne_nil _ _)]
          refine exists_bind_ok.trans (exists_fields_iff_of fun entry hentry => ?_)
          exact ih entry hentry (by simp)
  | array elements ih =>
      rw [forall_leaves_self rfl, Leaf.isAllowed_array, field,
        ← FieldPath.exists_ofSegments_iff.trans (and_iff_right hne)]
      cases FieldPath.ofSegments segments <;> cases anyTransform elements <;> simp
  | transform t ih =>
      have hmake := FieldPath.exists_ofSegments_iff.trans (and_iff_right hne)
      rw [forall_leaves_self rfl, field]
      cases hpath : FieldPath.ofSegments segments with
      | error e =>
          -- no path can be made of the names, and a transform needs one
          have hempty := mt hmake.mpr (by simp [hpath])
          refine iff_of_false (by simp) fun h => hempty (h.names (.inr ⟨t, rfl⟩))
      | ok path =>
          have hnamed := hmake.mp ⟨path, hpath⟩
          rw [ok_bind, Leaf.isAllowed_transform (p := path), and_iff_right hnamed]
          exact exists_bind_ok
  | _ =>
      rw [forall_leaves_self rfl]
      exact iff_of_true ⟨_, rfl⟩ (Leaf.isAllowed_other (by simp) (by simp))

/-- Fields can be split if the leaves in them are allowed where they stand. -/
theorem exists_fields_iff {parent : List String} {data : Fields Value} :
    (∃ split, fields parent data = .ok split) ↔
      ∀ leaf ∈ fieldLeaves data, (leaf.below parent).IsAllowed :=
  exists_fields_iff_of fun entry _ => exists_field_iff (by simp) entry.2

/-- The texts of the paths that transforms were found at. -/
theorem SplitsUnder.texts_found {data plain : Fields Value} {transforms : List FieldTransform}
    (h : SplitsUnder [] data plain transforms) :
    (transforms.map fun t => t.path.text) =
      ((fieldLeaves data).filter Leaf.isTransform).map fun leaf => ".".intercalate leaf.path := by
  rw [← h.leaves_found_whole, List.map_map]
  rfl

end Extraction

/-! ## Whole data -/

/-- Transforms that cannot be taken out are blamed on the data as a whole. -/
theorem splitTransforms_fails (data : Fields Value) :
    FailsWith Error.BlamesWhole (splitTransforms data) :=
  (Extraction.fields_fails [] data).bind fun split =>
    (Extraction.distinct_fails split.2).bind fun _ => .ok _

/-- **Transforms can be taken out of just the data that is allowed**: transforms add numbers, or add
and remove elements without transforms in them; no array has a transform in it; the names that lead
to arrays and transforms are not empty; and no two transforms have paths of the same text.  Other
data is refused as an invalid argument, at no place inside it. -/
theorem splitTransforms_accepts (data : Fields Value) :
    ((∃ plain transforms, splitTransforms data = .ok (plain, transforms)) ↔
      Extraction.Allowed data) ∧
    (¬ Extraction.Allowed data →
      ∃ e, splitTransforms data = .error e ∧ e.code = .invalidArgument ∧ e.trail = []) := by
  have haccepts : (∃ plain transforms, splitTransforms data = .ok (plain, transforms)) ↔
      Extraction.Allowed data := by
    constructor
    · rintro ⟨plain, transforms, h⟩
      obtain ⟨hfields, hdistinct⟩ := splitTransforms_eq_ok.mp h
      refine ⟨Extraction.exists_fields_iff.mp ⟨_, hfields⟩, ?_⟩
      rw [← (Extraction.splits_fields hfields).texts_found]
      exact Extraction.distinct_eq_ok.mp hdistinct
    · rintro ⟨hleaves, hdistinct⟩
      have hsplit : ∃ split, Extraction.fields [] data = .ok split :=
        Extraction.exists_fields_iff.mpr hleaves
      obtain ⟨⟨plain, transforms⟩, hfields⟩ := hsplit
      rw [← (Extraction.splits_fields hfields).texts_found] at hdistinct
      exact ⟨plain, transforms,
        splitTransforms_eq_ok.mpr ⟨hfields, Extraction.distinct_eq_ok.mpr hdistinct⟩⟩
  refine ⟨haccepts, fun hnot => ?_⟩
  cases hsplit : splitTransforms data with
  | ok split => exact absurd (haccepts.mp ⟨split.1, split.2, hsplit⟩) hnot
  | error e => exact ⟨e, rfl, splitTransforms_fails data e hsplit⟩

/-- A name with a dot in it stands for the same path as two names. -/
theorem splitTransforms_accepts_dotted :
    let data : Fields Value :=
      [("a", .map [("b", .transform .serverTimestamp)]), ("a.b", .transform .delete)]
    ¬ Extraction.Allowed data ∧
      ∃ e, splitTransforms data = .error e ∧ e.code = .invalidArgument ∧ e.trail = [] := by
  intro data
  have hnot : ¬ Extraction.Allowed data := by
    intro h
    have hsame : ¬ (((fieldLeaves data).filter Leaf.isTransform).map fun leaf =>
      ".".intercalate leaf.path).Nodup := by decide +kernel
    exact hsame h.distinct
  exact ⟨hnot, (splitTransforms_accepts data).2 hnot⟩

end Firestore
