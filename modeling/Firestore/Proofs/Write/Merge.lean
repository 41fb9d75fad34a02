import Firestore.Proofs.Write.MergeFields
import Mathlib.Data.List.Nodup

/-!
# Merging names every leaf once

The mask of data that is merged as a whole has the paths of the leaves that are left of it,
then those of the removals; the other transforms keep their own paths.  Together these
are the paths of all leaves of the data, in another order (`perm_named`).  No two leaves
stand on one path, so each is named once, and no path that is named leads to another one.
-/

namespace Firestore

open Value

/-! ## The paths of leaves -/

private theorem leafPathsBelow_eq_mapM_of {fields : List (String × Value)}
    (h : ∀ field ∈ fields, ∀ segments, leafPathsAt segments field.2 =
      field.2.leaves.mapM fun leaf => FieldPath.ofSegments (segments ++ leaf.path))
    (parent : List String) :
    leafPathsBelow parent fields =
      (fieldLeaves fields).mapM fun leaf => FieldPath.ofSegments (parent ++ leaf.path) := by
  induction fields with
  | nil => rfl
  | cons field rest ih =>
      obtain ⟨key, v⟩ := field
      obtain ⟨hv, hrest⟩ := List.forall_mem_cons.mp h
      rw [leafPathsBelow, fieldLeaves, List.mapM_append, hv, ih hrest, List.mapM_map]
      simp [Function.comp_def]

/-- The paths of leaves are made of their keys, leaf by leaf. -/
theorem leafPathsAt_eq_mapM (segments : List String) (v : Value) :
    leafPathsAt segments v =
      v.leaves.mapM fun leaf => FieldPath.ofSegments (segments ++ leaf.path) := by
  induction v generalizing segments with
  | map fields ih =>
      cases fields with
      | nil => simp [leafPathsAt, leaves]
      | cons first rest =>
          rw [leafPathsAt, leaves]
          exact leafPathsBelow_eq_mapM_of (fun field hfield segments => ih field hfield segments) _
  | _ => simp [leafPathsAt, leaves]

theorem leafPaths_eq_mapM (data : Fields Value) :
    leafPaths data = (fieldLeaves data).mapM fun leaf => FieldPath.ofSegments leaf.path :=
  leafPathsBelow_eq_mapM_of (fun field _ segments => leafPathsAt_eq_mapM segments field.2) []

/-- Just an empty key on the way to a leaf keeps the paths of leaves from being made. -/
theorem exists_leafPaths_iff {data : Fields Value} :
    (∃ paths, leafPaths data = .ok paths) ↔ ∀ leaf ∈ fieldLeaves data, "" ∉ leaf.path := by
  rw [leafPaths_eq_mapM, exists_mapM_eq_ok]
  refine forall₂_congr fun leaf hleaf => ?_
  rw [FieldPath.exists_ofSegments_iff, and_iff_right (path_ne_nil hleaf)]

theorem segments_of_leafPaths {data : Fields Value} {paths : List FieldPath}
    (h : leafPaths data = .ok paths) :
    paths.map FieldPath.segments = (fieldLeaves data).map Leaf.path := by
  rw [leafPaths_eq_mapM, mapM_eq_ok] at h
  generalize fieldLeaves data = leaves at h ⊢
  induction h with
  | nil => rfl
  | cons hpath _ ih => rw [List.map_cons, List.map_cons, ih, FieldPath.segments_of_ofSegments hpath]

/-! ## All leaves are named -/

theorem Transform.isDelete_iff {α : Type} {t : Transform α} : t.isDelete = true ↔ t = .delete := by
  cases t <;> simp [isDelete]

theorem fieldLeaves_eq_nil {fields : List (String × Value)} :
    fieldLeaves fields = [] ↔ fields = [] := by
  cases fields with
  | nil => simp [fieldLeaves]
  | cons field rest =>
      obtain ⟨leaf, hleaf⟩ := exists_mem_leaves field.2
      have hne : field.2.leaves ≠ [] := List.ne_nil_of_mem hleaf
      simp [fieldLeaves, hne]

namespace Extraction.SplitsUnder

variable {data plain : Fields Value} {extracted : List FieldTransform}

/-- The paths of the leaves that are kept, of the removals and of the other transforms are those of
all leaves. -/
theorem perm_named (h : SplitsUnder [] data plain extracted) :
    ((fieldLeaves plain).map Leaf.path ++ (deletedPaths extracted).map FieldPath.segments ++
      (keptTransforms extracted).map fun t => t.path.segments).Perm
        ((fieldLeaves data).map Leaf.path) := by
  have hextracted : ((deletedPaths extracted).map FieldPath.segments ++
      (keptTransforms extracted).map fun t => t.path.segments).Perm
        ((extracted.map FieldTransform.leaf).map Leaf.path) := by
    rw [deletedPaths, List.map_map, List.map_map, keptTransforms]
    exact (List.map_append ▸ (List.filter_append_perm _ extracted).map _)
  have hleaves : ((fieldLeaves data).filter Leaf.isPlain ++
      (fieldLeaves data).filter Leaf.isTransform).Perm (fieldLeaves data) := by
    have hfilter : Leaf.isTransform = fun leaf => !leaf.isPlain := by
      funext leaf
      simp [Leaf.isPlain]
    rw [hfilter]
    exact List.filter_append_perm _ _
  rw [h.leaves_found_whole] at hextracted
  rw [h.leaves_kept, List.append_assoc]
  refine (hextracted.append_left _).trans ?_
  rw [← List.map_append]
  exact hleaves.map _

theorem mem_fieldLeaves_deleted (h : SplitsUnder [] data plain extracted) {path : FieldPath}
    (hpath : path ∈ deletedPaths extracted) :
    ⟨path.segments, .transform .delete⟩ ∈ fieldLeaves data := by
  obtain ⟨t, ht, rfl⟩ := List.mem_map.mp hpath
  obtain ⟨ht, hdelete⟩ := List.mem_filter.mp ht
  have hleaf := (h.mem_found_iff.mp (List.mem_map_of_mem ht)).1
  rwa [FieldTransform.leaf, Transform.isDelete_iff.mp hdelete] at hleaf

/-- Only data without fields has nothing to be named. -/
theorem named_eq_nil_iff (h : SplitsUnder [] data plain extracted) {paths : List FieldPath}
    (hpaths : leafPaths plain = .ok paths) :
    paths ++ deletedPaths extracted = [] ∧ keptTransforms extracted = [] ↔ data = [] := by
  have hlength := h.perm_named.length_eq
  have hsegments := congrArg List.length (segments_of_leafPaths hpaths)
  simp only [List.length_append, List.length_map] at hlength hsegments
  rw [← fieldLeaves_eq_nil, ← List.length_eq_zero_iff, ← List.length_eq_zero_iff,
    ← List.length_eq_zero_iff, List.length_append]
  omega

end Extraction.SplitsUnder

/-! ## The data of the write -/

/-- Data that is merged as a whole is written if its leaves have paths and there are any. -/
theorem setData_merge_eq_ok {data plain : Fields Value} {extracted : List FieldTransform}
    {options : SetOptions} (hsplit : splitTransforms data = .ok (plain, extracted))
    (hmerge : options.merge = true) (hlisted : options.mergeFields = none) {result : SetData} :
    setData data options = .ok result ↔ data ≠ [] ∧ ∃ paths, leafPaths plain = .ok paths ∧
      result = ⟨plain, some (paths ++ deletedPaths extracted), keptTransforms extracted⟩ := by
  have hwhole : options.isMerge = true := by simp [SetOptions.isMerge, hmerge]
  have hfields := Extraction.splits_fields (splitTransforms_eq_ok.mp hsplit).1
  have hset : setData data options = leafPaths plain >>= fun paths =>
      if (paths ++ deletedPaths extracted).isEmpty && (keptTransforms extracted).isEmpty then
        .error WriteFault.nothingToMerge.error
      else .ok ⟨plain, some (paths ++ deletedPaths extracted), keptTransforms extracted⟩ := by
    rw [setData, hsplit, ok_bind]
    simp only [hwhole, hlisted]
    rfl
  rw [hset]
  cases hpaths : leafPaths plain with
  | error e => simp
  | ok paths =>
      have hnil := hfields.named_eq_nil_iff hpaths
      rw [ok_bind]
      split
      · rename_i hempty
        have hdata : data = [] := hnil.mp (by simpa using hempty)
        simp [hdata]
      · rename_i hsome
        have hdata : data ≠ [] := fun heq => hsome (by simpa using hnil.mpr heq)
        simp [hdata, eq_comm]

/-- **Data that is merged as a whole.**  It is refused just if its transforms cannot be taken out,
if it is empty, or if a leaf that is left has an empty key on its path.  Otherwise the mask has the
paths of the leaves that are left, in order, and then those of the removals.  Each leaf of the data
is named once, in the mask or for a transform, and no path that is named leads to another one.  At
a path of the mask there is a leaf, or nothing if the field is removed. -/
theorem setData_merge {data : Fields Value} {options : SetOptions} (hordered : (map data).Ordered)
    (hmerge : options.merge = true) (hlisted : options.mergeFields = none) :
    ((∃ e, setData data options = .error e) ↔
      (∃ e, splitTransforms data = .error e) ∨ data = [] ∨
        ∃ plain extracted, splitTransforms data = .ok (plain, extracted) ∧
          ∃ leaf ∈ fieldLeaves plain, "" ∈ leaf.path) ∧
    ∀ result, setData data options = .ok result →
      ∃ plain extracted mask, splitTransforms data = .ok (plain, extracted) ∧
        result = ⟨plain, some mask, keptTransforms extracted⟩ ∧
        mask.map FieldPath.segments = (fieldLeaves plain).map Leaf.path ++
          (deletedPaths extracted).map FieldPath.segments ∧
        ((fieldLeaves plain).Pairwise fun a b => a.path < b.path) ∧
        (∀ leaf ∈ fieldLeaves data, (mask.map FieldPath.segments).count leaf.path +
          (result.transforms.map fun t => t.path.segments).count leaf.path = 1) ∧
        (mask.map FieldPath.segments ++ result.transforms.map fun t => t.path.segments).Pairwise
          Apart ∧
        ∀ path ∈ mask, (∃ leaf ∈ fieldLeaves result.fields, leaf.path = path.segments) ∨
          result.fields.getPath path = none ∧
            ⟨path.segments, .transform .delete⟩ ∈ fieldLeaves data := by
  cases hsplit : splitTransforms data with
  | error e =>
      have hset : setData data options = .error e := by rw [setData, hsplit, error_bind]
      simp [hset]
  | ok pair =>
      obtain ⟨plain, extracted⟩ := pair
      have hfields := Extraction.splits_fields (splitTransforms_eq_ok.mp hsplit).1
      refine ⟨?_, fun result hresult => ?_⟩
      · have hempty : (∃ leaf ∈ fieldLeaves plain, "" ∈ leaf.path) ↔
            ¬ ∃ paths, leafPaths plain = .ok paths := by
          simp [exists_leafPaths_iff]
        simp only [exists_error_iff, setData_merge_eq_ok hsplit hmerge hlisted]
        by_cases hdata : data = []
        · simp [hdata]
        · simp [hdata, hempty]
      · obtain ⟨_, paths, hpaths, rfl⟩ := (setData_merge_eq_ok hsplit hmerge hlisted).mp hresult
        have hsegments := segments_of_leafPaths hpaths
        -- what is named is a rearrangement of the leaves of the data, and those are apart
        have hperm := hfields.perm_named
        have hapart : ((fieldLeaves data).map Leaf.path).Pairwise Apart :=
          List.pairwise_map.mpr (apart_fieldLeaves hordered)
        have hnamed := hapart.perm hperm.symm fun hab => hab.symm
        refine ⟨plain, extracted, _, rfl, rfl, ?_, ?_, ?_, ?_, ?_⟩
        · rw [List.map_append, hsegments]
        · exact increasing_fieldLeaves (hfields.ordered_plain hordered)
        · intro leaf hleaf
          rw [← List.count_append, List.map_append, hsegments]
          refine List.count_eq_one_of_mem ?_ ?_
          · exact hnamed.imp Apart.ne
          · exact hperm.mem_iff.mpr (List.mem_map_of_mem hleaf)
        · rw [List.map_append, hsegments]
          exact hnamed
        · intro path hpath
          rcases List.mem_append.mp hpath with hkept | hgone
          · left
            have hmem := hsegments ▸ List.mem_map_of_mem hkept
            exact List.mem_map.mp hmem
          · right
            exact ⟨hfields.getPath_deleted hordered hgone, hfields.mem_fieldLeaves_deleted hgone⟩

/-- A map was empty from the start, and another one holds a leaf of each kind. -/
theorem setData_merge_kinds :
    let data : Fields Value := [("draft", .map []), ("stats", .map [("old", .transform .delete),
      ("seen", .transform .serverTimestamp), ("visits", .array [.integer 1])])]
    let result : SetData := {
      fields := [("draft", .map []), ("stats", .map [("visits", .array [.integer 1])])]
      mask := some
        [⟨["draft"], by simp⟩, ⟨["stats", "visits"], by simp⟩, ⟨["stats", "old"], by simp⟩]
      transforms := [⟨⟨["stats", "seen"], by simp⟩, .serverTimestamp⟩] }
    (map data).Ordered ∧ SetOptions.mergeAll.merge = true ∧ SetOptions.mergeAll.mergeFields = none ∧
      setData data .mergeAll = .ok result ∧
      ∃ plain extracted mask, splitTransforms data = .ok (plain, extracted) ∧
        result = ⟨plain, some mask, keptTransforms extracted⟩ ∧
        mask.map FieldPath.segments = (fieldLeaves plain).map Leaf.path ++
          (deletedPaths extracted).map FieldPath.segments ∧
        ∀ leaf ∈ fieldLeaves data, (mask.map FieldPath.segments).count leaf.path +
          (result.transforms.map fun t => t.path.segments).count leaf.path = 1 := by
  intro data result
  have hordered : (map data).Ordered := by decide
  have hset : setData data .mergeAll = .ok result := rfl
  obtain ⟨plain, extracted, mask, hsplit, hresult, hmask, _, hcount, _⟩ :=
    (setData_merge hordered rfl rfl).2 result hset
  exact ⟨hordered, rfl, rfl, hset, plain, extracted, mask, hsplit, hresult, hmask, hcount⟩

end Firestore
