import Firestore.Proofs.Path.Field
import Firestore.Proofs.Value.Reading
import Firestore.Proofs.Write.Extraction
import Firestore.Write.Data

/-!
# Merging keeps what is listed

The listed fields are copied one after the other, and may lie above or below each
other.  Whatever their order, what has been copied are the leaves at the fields
listed so far and below (`Copies`): a later copy replaces leaves of an earlier one by
the same leaves.  So the copy agrees with the plain data wherever a listed field leads
(`Copies.getPath_eq`), which is what a mask promises.
-/

namespace Firestore

open Value

/-- Whether a leaf lies at one of some fields or below. -/
def Leaf.isBelowAny (fields : List FieldPath) (leaf : Leaf) : Bool :=
  fields.any fun field => field.segments.isPrefixOf leaf.path

theorem Leaf.isBelowAny_iff {fields : List FieldPath} {leaf : Leaf} :
    leaf.isBelowAny fields = true ↔ ∃ field ∈ fields, field.segments <+: leaf.path := by
  simp [isBelowAny, List.isPrefixOf_iff_prefix]

theorem covers_iff {fields : List FieldPath} {path : FieldPath} :
    covers fields path = true ↔ ∃ field ∈ fields, field.segments <+: path.segments := by
  simp [covers]

/-! ## Copying the listed fields -/

/-- A listed field that is there is copied and masked, one that is not is passed over. -/
theorem copyFields_cons_eq_ok {plain copied result : Fields Value}
    {touched rest mask : List FieldPath} {field : FieldPath}
    (h : copyFields plain touched copied (field :: rest) = .ok (result, mask)) :
    (∃ v found, plain.getPath field = some v ∧ mask = field :: found ∧
        copyFields plain touched (copied.setPath field v) rest = .ok (result, found)) ∨
      plain.getPath field = none ∧ copyFields plain touched copied rest = .ok (result, mask) := by
  rw [copyFields] at h
  cases hget : plain.getPath field with
  | some v =>
      rw [hget] at h
      obtain ⟨⟨last, found⟩, hrest, heq⟩ := bind_eq_ok.mp h
      cases heq
      exact .inl ⟨v, found, rfl, rfl, hrest⟩
  | none =>
      simp only [hget] at h
      split at h
      · exact .inr ⟨rfl, h⟩
      · contradiction

/-- Of plain data, the leaves at some fields and below have been copied. -/
structure Copies (plain copied : Fields Value) (fields : List FieldPath) : Prop where
  ordered : (map copied).Ordered
  leaves : ∀ leaf, leaf ∈ fieldLeaves copied ↔ leaf ∈ fieldLeaves plain ∧ leaf.isBelowAny fields

namespace Copies

variable {plain copied : Fields Value} {done : List FieldPath}

theorem start (plain : Fields Value) : Copies plain [] [] :=
  ⟨ordered_nil, fun leaf => by simp [fieldLeaves, Leaf.isBelowAny]⟩

/-- A field that is there is copied with all its leaves. -/
theorem copy (hplain : (map plain).Ordered) (h : Copies plain copied done) {field : FieldPath}
    {v : Value} (hget : plain.getPath field = some v) :
    Copies plain (copied.setPath field v) (done ++ [field]) := by
  refine ⟨ordered_setAt h.ordered _ (hplain.of_getAt hget), fun leaf => ?_⟩
  rw [Fields.setPath, mem_fieldLeaves_setAt_iff h.ordered field.nonempty,
    ← mem_fieldLeaves_of_getAt hplain hget, h.leaves]
  by_cases hbelow : field.segments <+: leaf.path
  · -- its own leaves are put in anew
    have hapart : ¬ Apart field.segments leaf.path := fun hapart => hapart.1 hbelow
    simp [Leaf.isBelowAny_iff, hbelow, hapart]
  · -- the leaves that were there before do not lie above the field
    have hapart : leaf ∈ fieldLeaves plain → Apart field.segments leaf.path :=
      fun hmem => apart_of_getAt hplain hget hmem hbelow
    simp only [Leaf.isBelowAny_iff, List.mem_append, List.mem_singleton, hbelow, and_false,
      false_or]
    constructor
    · rintro ⟨⟨hmem, other, hother, hleads⟩, _⟩
      exact ⟨hmem, other, Or.inl hother, hleads⟩
    · rintro ⟨hmem, other, hother | rfl, hleads⟩
      · exact ⟨⟨hmem, other, hother, hleads⟩, hapart hmem⟩
      · exact absurd hleads hbelow

/-- A field that is not there has no leaves to be copied. -/
theorem skip (hplain : (map plain).Ordered) (h : Copies plain copied done) {field : FieldPath}
    (hget : plain.getPath field = none) : Copies plain copied (done ++ [field]) := by
  have hnone := (getAt_eq_none_iff hplain field.nonempty).mp hget
  refine ⟨h.ordered, fun leaf => ?_⟩
  rw [h.leaves]
  refine and_congr_right fun hmem => ?_
  have hbelow : ¬ field.segments <+: leaf.path := hnone leaf hmem
  simp [Leaf.isBelowAny, hbelow]

/-- Copying goes on from what has been copied, and shows which fields were there. -/
theorem copyFields (hplain : (map plain).Ordered) (h : Copies plain copied done)
    {touched listed mask : List FieldPath} {result : Fields Value}
    (hcopy : copyFields plain touched copied listed = .ok (result, mask)) :
    Copies plain result (done ++ listed) ∧
      mask = listed.filter fun field => (plain.getPath field).isSome := by
  induction listed generalizing copied done mask with
  | nil =>
      cases hcopy
      exact ⟨by simpa using h, rfl⟩
  | cons field rest ih =>
      rw [List.append_cons]
      rcases copyFields_cons_eq_ok hcopy with ⟨v, found, hget, rfl, hrest⟩ | ⟨hget, hrest⟩
      · obtain ⟨hresult, hmask⟩ := ih (h.copy hplain hget) hrest
        exact ⟨hresult, by simp [hget, hmask]⟩
      · obtain ⟨hresult, hmask⟩ := ih (h.skip hplain hget) hrest
        exact ⟨hresult, by simp [hget, hmask]⟩

/-- Wherever a listed field leads, the copy holds what the plain data holds. -/
theorem getPath_eq (hplain : (map plain).Ordered) (h : Copies plain copied done)
    {field path : FieldPath} (hfield : field ∈ done) (hleads : field.segments <+: path.segments) :
    copied.getPath path = plain.getPath path := by
  refine getAt_eq_of_leaves h.ordered hplain path.nonempty fun leaf hbelow => ?_
  rw [h.leaves, and_iff_left_iff_imp]
  intro _
  exact Leaf.isBelowAny_iff.mpr ⟨field, hfield, hleads.trans hbelow⟩

/-- The leaves of the copy, in the order of their paths. -/
theorem fieldLeaves_eq (hplain : (map plain).Ordered) (h : Copies plain copied done) :
    fieldLeaves copied = (fieldLeaves plain).filter (Leaf.isBelowAny done) := by
  refine eq_of_increasing (increasing_fieldLeaves h.ordered)
    ((increasing_fieldLeaves hplain).filter _) fun leaf => ?_
  rw [h.leaves, List.mem_filter]

end Copies

/-- Copying fails at a field that is not there and that nothing touches. -/
theorem copyFields_eq_error_iff {plain copied : Fields Value} {touched listed : List FieldPath} :
    (∃ e, copyFields plain touched copied listed = .error e) ↔
      ∃ field ∈ listed, plain.getPath field = none ∧
        ∀ path ∈ touched, ¬ field.segments <+: path.segments := by
  induction listed generalizing copied with
  | nil => simp [copyFields]
  | cons field rest ih =>
      rw [copyFields, List.exists_mem_cons_iff]
      cases hget : plain.getPath field with
      | some v =>
          simp only [reduceCtorEq, false_and, false_or]
          rw [← @ih (copied.setPath field v)]
          cases copyFields plain touched (copied.setPath field v) rest <;> simp
      | none =>
          -- a missing field is passed over if something was taken out at it or below it
          by_cases htouched : touched.any field.isPrefixOf = true
          · have hsome : ¬ ∀ path ∈ touched, ¬ field.segments <+: path.segments := by
              simpa using htouched
            simp only [if_pos htouched, hsome, and_false, false_or]
            exact ih
          · have hnone : ∀ path ∈ touched, ¬ field.segments <+: path.segments := by
              simpa using htouched
            simp only [if_neg htouched, true_and]
            exact iff_of_true ⟨_, rfl⟩ (Or.inl hnone)

/-! ## Removed fields -/

namespace Extraction.SplitsUnder

variable {data plain : Fields Value} {transforms : List FieldTransform}

/-- Where a field is removed, nothing plain is left. -/
theorem getPath_deleted (h : SplitsUnder [] data plain transforms)
    (hordered : (Value.map data).Ordered) {path : FieldPath}
    (hpath : path ∈ deletedPaths transforms) : plain.getPath path = none := by
  obtain ⟨t, ht, rfl⟩ := List.mem_map.mp hpath
  refine (getAt_eq_none_iff (h.ordered_plain hordered) t.path.nonempty).mpr fun leaf hleaf => ?_
  exact (h.apart_kept hordered (List.mem_filter.mp ht).1 hleaf).1

/-- No field is removed twice. -/
theorem nodup_deleted (h : SplitsUnder [] data plain transforms)
    (hordered : (Value.map data).Ordered) :
    (deletedPaths transforms).Nodup := by
  have hpaths : transforms.Pairwise fun t u => t.path ≠ u.path := by
    refine (h.pairwise_found (apart_fieldLeaves hordered)).imp ?_
    intro t u hapart heq
    rw [FieldTransform.leaf, FieldTransform.leaf, heq] at hapart
    exact hapart.1 List.prefix_rfl
  exact List.pairwise_map.mpr (hpaths.filter _)

end Extraction.SplitsUnder

/-! ## The data of the write -/

theorem mergeFieldsData_eq_ok {plain : Fields Value} {deletes listed : List FieldPath}
    {transforms : List FieldTransform} {result : SetData}
    (h : mergeFieldsData plain deletes transforms listed = .ok result) :
    ∃ mask, copyFields plain (transforms.map FieldTransform.path ++ deletes) [] listed =
        .ok (result.fields, mask) ∧
      result.mask =
        some (mask ++ deletes.filter fun path => covers listed path && !mask.contains path) ∧
      result.transforms = transforms.filter fun t => covers listed t.path := by
  obtain ⟨⟨fields, mask⟩, hcopy, hrest⟩ := bind_eq_ok.mp h
  cases hrest
  exact ⟨mask, hcopy, rfl, rfl⟩

theorem mergeFieldsData_eq_error_iff {plain : Fields Value} {deletes listed : List FieldPath}
    {transforms : List FieldTransform} :
    (∃ e, mergeFieldsData plain deletes transforms listed = .error e) ↔
      ∃ e, copyFields plain (transforms.map FieldTransform.path ++ deletes) [] listed =
        .error e := by
  unfold mergeFieldsData
  cases hcopy : copyFields plain (transforms.map FieldTransform.path ++ deletes) [] listed <;>
    simp [hcopy]

/-- Listed fields take precedence over the other ways to set a document. -/
theorem setData_eq_mergeFieldsData {data plain : Fields Value} {extracted : List FieldTransform}
    {options : SetOptions} {listed : List FieldPath}
    (hsplit : splitTransforms data = .ok (plain, extracted))
    (hlisted : options.mergeFields = some listed) :
    setData data options =
      mergeFieldsData plain (deletedPaths extracted) (keptTransforms extracted) listed := by
  have hmerge : options.isMerge = true := by simp [SetOptions.isMerge, hlisted]
  rw [setData, hsplit, ok_bind]
  simp only [hmerge, hlisted]
  rfl

/-- **Data that is merged by listed fields.**  It is refused just if a listed field is not there
and nothing at it or below is changed or removed.  Otherwise what is kept are the leaves, the
transforms and the removals at the listed fields and below; where the mask leads, the write holds
what the plain data holds. -/
theorem setData_mergeFields {data plain : Fields Value} {extracted : List FieldTransform}
    {options : SetOptions} {listed : List FieldPath} (hordered : (map data).Ordered)
    (hsplit : splitTransforms data = .ok (plain, extracted))
    (hlisted : options.mergeFields = some listed) :
    ((∃ e, setData data options = .error e) ↔
      ∃ field ∈ listed, plain.getPath field = none ∧
        ∀ path ∈ (keptTransforms extracted).map FieldTransform.path ++ deletedPaths extracted,
          ¬ field.segments <+: path.segments) ∧
    ∀ result, setData data options = .ok result →
      (map result.fields).Ordered ∧
      fieldLeaves result.fields = (fieldLeaves plain).filter (Leaf.isBelowAny listed) ∧
      result.transforms = (keptTransforms extracted).filter (fun t => covers listed t.path) ∧
      ∃ mask, result.mask = some mask ∧
        mask = (listed.filter fun field => (plain.getPath field).isSome) ++
          (deletedPaths extracted).filter (covers listed) ∧
        (∀ path ∈ mask, result.fields.getPath path = plain.getPath path) ∧
        (∀ path ∈ mask, path ∈ deletedPaths extracted →
          result.fields.getPath path = none ∧ plain.getPath path = none) ∧
        (listed.Nodup → mask.Nodup) := by
  have hfields := Extraction.splits_fields (splitTransforms_eq_ok.mp hsplit).1
  have hplain := hfields.ordered_plain hordered
  rw [setData_eq_mergeFieldsData hsplit hlisted]
  refine ⟨mergeFieldsData_eq_error_iff.trans copyFields_eq_error_iff, fun result hresult => ?_⟩
  obtain ⟨found, hcopy, hmask, htransforms⟩ := mergeFieldsData_eq_ok hresult
  obtain ⟨hcopies, hfound⟩ := (Copies.start plain).copyFields hplain hcopy
  rw [List.nil_append] at hcopies
  -- a removed field is not there, so the fields that were found do not hide it
  have hremoved : ((deletedPaths extracted).filter fun path =>
      covers listed path && !found.contains path) =
      (deletedPaths extracted).filter (covers listed) := by
    refine List.filter_congr fun path hpath => ?_
    have hnone := hfields.getPath_deleted hordered hpath
    simp [hfound, hnone]
  rw [hremoved, hfound] at hmask
  have hagree : ∀ path ∈ (listed.filter fun field => (plain.getPath field).isSome) ++
      (deletedPaths extracted).filter (covers listed),
      result.fields.getPath path = plain.getPath path := by
    intro path hpath
    rcases List.mem_append.mp hpath with hthere | hgone
    · exact hcopies.getPath_eq hplain (List.mem_filter.mp hthere).1 (List.prefix_refl _)
    · obtain ⟨field, hfield, hleads⟩ := covers_iff.mp (List.mem_filter.mp hgone).2
      exact hcopies.getPath_eq hplain hfield hleads
  refine ⟨hcopies.ordered, hcopies.fieldLeaves_eq hplain, htransforms, _, hmask, rfl, hagree,
    ?_, ?_⟩
  · intro path hmem hpath
    have hnone := hfields.getPath_deleted hordered hpath
    exact ⟨(hagree path hmem).trans hnone, hnone⟩
  · intro hnodup
    refine List.nodup_append.mpr ⟨hnodup.filter _, (hfields.nodup_deleted hordered).filter _, ?_⟩
    rintro path hthere other hgone rfl
    have hnone := hfields.getPath_deleted hordered (List.mem_filter.mp hgone).1
    simp [hnone] at hthere

/-- A field is listed before one above it, another leads to a transform and to a removal only. -/
theorem setData_mergeFields_nested :
    let data : Fields Value := [
      ("address", .map [("city", .string "Oslo"), ("zip", .integer 150)]),
      ("name", .string "x"),
      ("stats", .map [("draft", .transform .delete), ("seen", .transform .serverTimestamp)])]
    let listed : List FieldPath := [⟨["address", "zip"], by simp⟩, ⟨["stats"], by simp⟩,
      ⟨["address"], by simp⟩]
    ∃ plain extracted result mask, (map data).Ordered ∧
      splitTransforms data = .ok (plain, extracted) ∧
      setData data { mergeFields := some listed } = .ok result ∧ result.mask = some mask ∧
      mask.map FieldPath.text = ["address.zip", "address", "stats.draft"] ∧ mask.Nodup ∧
      fieldLeaves result.fields = (fieldLeaves plain).filter (Leaf.isBelowAny listed) ∧
      (fieldLeaves result.fields).map Leaf.path = [["address", "city"], ["address", "zip"]] := by
  intro data listed
  have hordered : (map data).Ordered := by decide
  have hsplit : splitTransforms data = .ok (_, _) := rfl
  have hlisted : ({ mergeFields := some listed } : SetOptions).mergeFields = some listed := rfl
  have hset : setData data { mergeFields := some listed } = .ok _ := rfl
  obtain ⟨_, hresult⟩ := setData_mergeFields hordered hsplit hlisted
  obtain ⟨_, hleaves, _, mask, hmask, hlist, _, _, hnodup⟩ := hresult _ hset
  exact ⟨_, _, _, mask, hordered, hsplit, hset, hmask, by rw [hlist]; decide, hnodup (by decide),
    hleaves, by decide⟩

end Firestore
