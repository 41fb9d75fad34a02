import Firestore.Proofs.Steps
import Firestore.Proofs.Value.Place
import Firestore.Proofs.Value.PlainPart
import Firestore.Proofs.Value.Transforms
import Firestore.Write.Extraction

/-!
# Taking transforms out loses and invents nothing

Of each leaf of the data, either the plain part keeps it or the list of transforms
has it, in the order of the data (`Splits`, `SplitsUnder`).  These are proved
along the data: the steps say what becomes of one value, given what became of the
fields inside it.  What was taken out can be put back in any order, since the
paths of all leaves are apart from each other, and gives the data again.
-/

namespace Firestore

/-- The leaf that a transform was taken from. -/
def FieldTransform.leaf (t : FieldTransform) : Leaf := ⟨t.path.segments, .transform t.operation⟩

/-- Puts transforms back into data, one after the other. -/
def restore (fields : Fields Value) (transforms : List FieldTransform) : Fields Value :=
  transforms.foldl (fun fields t => fields.setPath t.path (.transform t.operation)) fields

namespace Extraction

open Value

/-! ## What a value is split into -/

/-- A transform whose operands are allowed. -/
def IsChecked (t : FieldTransform) : Prop := checked t.path t.operation = .ok t

/-- What is left of a value at the end of some keys, and what was found in it. -/
structure Splits (segments : List String) (v : Value) (kept : Option Value)
    (found : List FieldTransform) : Prop where
  kept_eq : kept = v.plainPart
  leaves_found : found.map FieldTransform.leaf =
    (v.leaves.filter Leaf.isTransform).map (Leaf.below segments)
  checked : ∀ t ∈ found, IsChecked t
  no_transform : ∀ w, kept = some w → w.hasTransform = false
  again : ∀ w, kept = some w → field segments w = .ok (some w, [])
  ordered : v.Ordered → ∀ w, kept = some w → w.Ordered

/-- What is left of some fields below some keys, and what was found in them. -/
structure SplitsUnder (parent : List String) (data plain : Fields Value)
    (found : List FieldTransform) : Prop where
  plain_eq : plain = plainFields data
  leaves_found : found.map FieldTransform.leaf =
    ((fieldLeaves data).filter Leaf.isTransform).map (Leaf.below parent)
  checked : ∀ t ∈ found, IsChecked t
  no_transform : anyFieldTransform plain = false
  again : fields parent plain = .ok (plain, [])
  names : plain.names.Sublist data.names
  ordered : (∀ field ∈ data, field.2.Ordered) → ∀ field ∈ plain, field.2.Ordered

theorem SplitsUnder.leaves_kept {parent : List String} {data plain : Fields Value}
    {found : List FieldTransform} (h : SplitsUnder parent data plain found) :
    fieldLeaves plain = (fieldLeaves data).filter Leaf.isPlain := by
  rw [h.plain_eq, fieldLeaves_plainFields]

/-! ## One step -/

theorem checked_eq_ok {path : FieldPath} {t : Transform Value} {found : FieldTransform}
    (h : checked path t = .ok found) : found = ⟨path, t⟩ := by
  unfold checked at h
  split at h
  · split at h
    · exact (Except.ok.inj h).symm
    · contradiction
  · split at h
    · contradiction
    · exact (Except.ok.inj h).symm
  · split at h
    · contradiction
    · exact (Except.ok.inj h).symm
  · exact (Except.ok.inj h).symm

theorem IsChecked.isNumeric {path : FieldPath} {operand : Value}
    (h : IsChecked ⟨path, .increment operand⟩) : isNumeric operand = true := by
  by_contra hnot
  simp [IsChecked, Extraction.checked, hnot] at h

/-- Elements that are added or removed have no transforms in them. -/
theorem IsChecked.anyTransform {t : FieldTransform} (h : IsChecked t) {elements : List Value}
    (ht : t.operation = .arrayUnion elements ∨ t.operation = .arrayRemove elements) :
    Value.anyTransform elements = false := by
  by_contra hany
  rw [Bool.not_eq_false] at hany
  rcases ht with ht | ht <;> simp [IsChecked, Extraction.checked, ht, hany] at h

/-- A leaf without transforms is kept as it is. -/
theorem Splits.whole {segments : List String} {v : Value} (hleaf : v.hasFields = false)
    (hplain : v.hasTransform = false) (h : field segments v = .ok (some v, [])) :
    Splits segments v (some v) [] := by
  have hkind : v.isTransform = false := by
    cases v with
    | transform t => contradiction
    | _ => rfl
  refine ⟨(plainPart_eq_self hleaf hkind).symm, ?_, List.forall_mem_nil _, ?_, ?_, ?_⟩
  · simp [leaves_eq_self hleaf, Leaf.isTransform, hkind]
  · rintro w ⟨rfl⟩
    exact hplain
  · rintro w ⟨rfl⟩
    exact h
  · rintro hordered w ⟨rfl⟩
    exact hordered

/-- A transform leaves nothing behind. -/
theorem Splits.transform {segments : List String} {t : FieldTransform}
    (hpath : t.path.segments = segments) (ht : IsChecked t) :
    Splits segments (.transform t.operation) none [t] := by
  have hleaves : (Value.transform t.operation).leaves = [⟨[], .transform t.operation⟩] :=
    leaves_eq_self rfl
  have hkind : (⟨[], .transform t.operation⟩ : Leaf).isTransform = true := rfl
  refine ⟨rfl, ?_, List.forall_mem_singleton.mpr ht, ?_, ?_, ?_⟩
  · simp [hleaves, hkind, FieldTransform.leaf, Leaf.below, hpath]
  · intro w h
    contradiction
  · intro w h
    contradiction
  · intro _ w h
    contradiction

/-- A map with fields is what is left of its fields, and goes if that is nothing. -/
theorem SplitsUnder.map {segments : List String} {data plain : Fields Value}
    {found : List FieldTransform} (h : SplitsUnder segments data plain found) (hne : data ≠ []) :
    Splits segments (.map data) (if plain.isEmpty then none else some (.map plain)) found := by
  have hkept : (if plain.isEmpty then none else some (Value.map plain)) =
      (Value.map data).plainPart := by
    rw [plainPart_map hne, h.plain_eq]
  have hfound := leaves_map hne ▸ h.leaves_found
  cases plain with
  | nil =>
      refine ⟨hkept, hfound, h.checked, ?_, ?_, ?_⟩
      · intro w hw
        contradiction
      · intro w hw
        contradiction
      · intro _ w hw
        contradiction
  | cons first others =>
      -- what is left has a field, so taking out again keeps the map
      refine ⟨hkept, hfound, h.checked, ?_, ?_, ?_⟩
      · rintro w ⟨rfl⟩
        exact h.no_transform
      · rintro w ⟨rfl⟩
        rw [field, h.again]
        rfl
      · rintro hordered w ⟨rfl⟩
        obtain ⟨hsorted, hfields⟩ := ordered_map.mp hordered
        exact ordered_map.mpr ⟨hsorted.of_names h.names, h.ordered hfields⟩

/-- Fields are split one after the other. -/
theorem SplitsUnder.cons {parent : List String} {key : String} {v : Value} {kept : Option Value}
    {rest others : Fields Value} {here more : List FieldTransform}
    (hfield : Splits (parent ++ [key]) v kept here) (hrest : SplitsUnder parent rest others more) :
    SplitsUnder parent ((key, v) :: rest)
      (kept.elim others fun plain => (key, plain) :: others) (here ++ more) := by
  have hkept : (kept.elim others fun plain => (key, plain) :: others) =
      plainFields ((key, v) :: rest) := by
    rw [plainFields_cons, ← hfield.kept_eq, ← hrest.plain_eq]
  have hfound : (here ++ more).map FieldTransform.leaf =
      ((fieldLeaves ((key, v) :: rest)).filter Leaf.isTransform).map (Leaf.below parent) := by
    rw [fieldLeaves, List.filter_append, Leaf.filter_map_under (Leaf.isTransform_under key),
      List.map_append, List.map_append, hfield.leaves_found, hrest.leaves_found, List.map_map]
    exact congrArg (· ++ _)
      (List.map_congr_left fun leaf _ => (Leaf.below_under parent key leaf).symm)
  have hchecked := List.forall_mem_append.mpr ⟨hfield.checked, hrest.checked⟩
  -- with nothing kept of the first field, what is left is what is left of the others
  cases kept with
  | none =>
      refine ⟨hkept, hfound, hchecked, hrest.no_transform, hrest.again, hrest.names.cons key, ?_⟩
      intro hordered
      exact hrest.ordered fun field hmem => hordered field (List.mem_cons_of_mem _ hmem)
  | some plain =>
      refine ⟨hkept, hfound, hchecked, ?_, ?_, hrest.names.cons_cons key, ?_⟩
      · show (plain.hasTransform || anyFieldTransform others) = false
        rw [hfield.no_transform plain rfl, hrest.no_transform]
        rfl
      · show fields parent ((key, plain) :: others) = _
        rw [fields, hfield.again plain rfl, hrest.again]
        rfl
      · intro hordered field hmem
        rcases List.mem_cons.mp hmem with rfl | hmem
        · exact hfield.ordered (hordered (key, v) List.mem_cons_self) plain rfl
        · exact hrest.ordered (fun field h => hordered field (List.mem_cons_of_mem _ h)) field hmem

/-! ## All steps -/

theorem splitsUnder_nil (parent : List String) : SplitsUnder parent [] [] [] :=
  ⟨rfl, rfl, List.forall_mem_nil _, rfl, rfl, List.Sublist.refl _,
    fun _ _ h => absurd h List.not_mem_nil⟩

/-- What is taken out of fields of which each is split as it should be. -/
private theorem splits_fields_of {parent : List String} {data plain : Fields Value}
    {found : List FieldTransform} (h : fields parent data = .ok (plain, found))
    (hdata : ∀ entry ∈ data, ∀ segments kept found,
      field segments entry.2 = .ok (kept, found) → Splits segments entry.2 kept found) :
    SplitsUnder parent data plain found := by
  induction data generalizing plain found with
  | nil =>
      cases h
      exact splitsUnder_nil parent
  | cons entry rest ih =>
      obtain ⟨key, v⟩ := entry
      rw [fields] at h
      obtain ⟨⟨kept, here⟩, hhere, h⟩ := bind_eq_ok.mp h
      obtain ⟨⟨others, more⟩, hmore, h⟩ := bind_eq_ok.mp h
      have hfield := hdata (key, v) List.mem_cons_self _ _ _ hhere
      have hrest := ih hmore fun entry hentry => hdata entry (List.mem_cons_of_mem _ hentry)
      have hsplit := SplitsUnder.cons hfield hrest
      cases kept <;> cases h <;> exact hsplit

theorem splits_field {segments : List String} {v : Value} {kept : Option Value}
    {found : List FieldTransform} (h : field segments v = .ok (kept, found)) :
    Splits segments v kept found := by
  induction v generalizing segments kept found with
  | map data ih =>
      cases data with
      | nil =>
          cases h
          exact Splits.whole rfl rfl rfl
      | cons first rest =>
          rw [field] at h
          obtain ⟨⟨plain, inside⟩, hinside, h⟩ := bind_eq_ok.mp h
          cases h
          exact (splits_fields_of hinside fun entry hentry _ _ _ => ih entry hentry).map
            (List.cons_ne_nil _ _)
  | array elements ih =>
      -- that the array is kept says at once that it is kept again
      have h' := h
      rw [field] at h
      obtain ⟨path, _, h⟩ := bind_eq_ok.mp h
      cases hplain : anyTransform elements with
      | true => simp [hplain] at h
      | false =>
          rw [hplain] at h
          cases h
          exact Splits.whole rfl hplain h'
  | transform t ih =>
      rw [field] at h
      obtain ⟨path, hpath, h⟩ := bind_eq_ok.mp h
      obtain ⟨taken, htaken, h⟩ := bind_eq_ok.mp h
      cases h
      obtain rfl := checked_eq_ok htaken
      have htransform : IsChecked ⟨path, t⟩ := htaken
      exact Splits.transform (FieldPath.segments_of_ofSegments hpath) htransform
  | _ =>
      cases h
      exact Splits.whole rfl rfl rfl

/-- What is taken out of fields is split as it should be. -/
theorem splits_fields {parent : List String} {data plain : Fields Value}
    {found : List FieldTransform} (h : fields parent data = .ok (plain, found)) :
    SplitsUnder parent data plain found :=
  splits_fields_of h fun _ _ _ _ _ => splits_field

end Extraction

open Value

/-! ## Putting transforms back -/

/-- Transforms whose paths are apart from each other and from the leaves of a record become
leaves of it, one after the other. -/
theorem restore_leaves {fields : Fields Value} {transforms : List FieldTransform}
    (hordered : (map fields).Ordered) (hvalues : ∀ t ∈ transforms, t.leaf.value.Ordered)
    (hfields : ∀ t ∈ transforms, ∀ leaf ∈ fieldLeaves fields, Apart t.leaf.path leaf.path)
    (hapart : transforms.Pairwise fun t u => Apart t.leaf.path u.leaf.path) :
    (map (restore fields transforms)).Ordered ∧
      ∀ leaf, leaf ∈ fieldLeaves (restore fields transforms) ↔
        leaf ∈ fieldLeaves fields ∨ leaf ∈ transforms.map FieldTransform.leaf := by
  -- on the transforms; each becomes a leaf that the later ones are still apart from
  induction transforms generalizing fields with
  | nil => exact ⟨hordered, fun leaf => by simp [restore]⟩
  | cons t rest ih =>
      obtain ⟨hfirst, hrest⟩ := List.pairwise_cons.mp hapart
      have hput : ∀ leaf, leaf ∈ fieldLeaves (fields.setPath t.path (.transform t.operation)) ↔
          leaf = t.leaf ∨ leaf ∈ fieldLeaves fields := by
        intro leaf
        rw [Fields.setPath, mem_fieldLeaves_setAt hordered t.path.nonempty _
          (hfields t List.mem_cons_self), leaves_eq_self rfl]
        simp [Leaf.below, FieldTransform.leaf, eq_comm]
      have hnext : ∀ u ∈ rest,
          ∀ leaf ∈ fieldLeaves (fields.setPath t.path (.transform t.operation)),
            Apart u.leaf.path leaf.path := by
        intro u hu leaf hleaf
        rcases (hput leaf).mp hleaf with rfl | hold
        · exact (hfirst u hu).symm
        · exact hfields u (List.mem_cons_of_mem _ hu) leaf hold
      obtain ⟨hlast, hmem⟩ :=
        ih (ordered_setAt hordered t.path.segments (hvalues t List.mem_cons_self))
          (fun u hu => hvalues u (List.mem_cons_of_mem _ hu)) hnext hrest
      refine ⟨hlast, fun leaf => ?_⟩
      calc leaf ∈ fieldLeaves (restore fields (t :: rest))
          ↔ leaf ∈ fieldLeaves (fields.setPath t.path (.transform t.operation)) ∨
              leaf ∈ rest.map FieldTransform.leaf := hmem leaf
        _ ↔ (leaf = t.leaf ∨ leaf ∈ fieldLeaves fields) ∨ leaf ∈ rest.map FieldTransform.leaf :=
            or_congr_left (hput leaf)
        _ ↔ leaf ∈ fieldLeaves fields ∨ leaf ∈ (t :: rest).map FieldTransform.leaf := by
            rw [List.map_cons, List.mem_cons, or_comm (a := leaf = t.leaf), or_assoc]

namespace Extraction.SplitsUnder

variable {data plain : Fields Value} {transforms : List FieldTransform}

theorem mem_kept_iff {parent : List String} (h : SplitsUnder parent data plain transforms)
    {leaf : Leaf} :
    leaf ∈ fieldLeaves plain ↔ leaf ∈ fieldLeaves data ∧ leaf.isTransform = false := by
  simp [h.leaves_kept, List.mem_filter, Leaf.isPlain]

theorem leaves_found_whole (h : SplitsUnder [] data plain transforms) :
    transforms.map FieldTransform.leaf = (fieldLeaves data).filter Leaf.isTransform :=
  h.leaves_found.trans (List.map_id _)

theorem mem_found_iff (h : SplitsUnder [] data plain transforms) {leaf : Leaf} :
    leaf ∈ transforms.map FieldTransform.leaf ↔
      leaf ∈ fieldLeaves data ∧ leaf.isTransform = true := by
  rw [h.leaves_found_whole, List.mem_filter]

theorem ordered_plain {parent : List String} (h : SplitsUnder parent data plain transforms)
    (hordered : (Value.map data).Ordered) : (Value.map plain).Ordered := by
  obtain ⟨hsorted, hfields⟩ := ordered_map.mp hordered
  exact ordered_map.mpr ⟨hsorted.of_names h.names, h.ordered hfields⟩

/-- Transforms are found with increasing paths that are apart from each other. -/
theorem pairwise_found {r : List String → List String → Prop}
    (h : SplitsUnder [] data plain transforms)
    (hdata : (fieldLeaves data).Pairwise fun a b => r a.path b.path) :
    transforms.Pairwise fun t u => r t.leaf.path u.leaf.path := by
  have hfound : (transforms.map FieldTransform.leaf).Pairwise fun a b => r a.path b.path := by
    rw [h.leaves_found_whole]
    exact hdata.filter Leaf.isTransform
  rwa [List.pairwise_map] at hfound

/-- What was found does not lie on a path with what was kept. -/
theorem apart_kept (h : SplitsUnder [] data plain transforms) (hordered : (Value.map data).Ordered)
    {t : FieldTransform} (ht : t ∈ transforms) {leaf : Leaf} (hleaf : leaf ∈ fieldLeaves plain) :
    Apart t.path.segments leaf.path := by
  obtain ⟨hfound, hkind⟩ := h.mem_found_iff.mp (List.mem_map_of_mem ht)
  obtain ⟨hdata, hplain⟩ := h.mem_kept_iff.mp hleaf
  refine apart_of_mem_fieldLeaves hordered hfound hdata ?_
  intro heq
  rw [← heq, hkind] at hplain
  contradiction

/-- The transforms that were found give the data back, in any order. -/
theorem restore_eq (h : SplitsUnder [] data plain transforms) (hordered : (Value.map data).Ordered)
    {order : List FieldTransform} (horder : order.Perm transforms) :
    restore plain order = data := by
  have hfound : ∀ t ∈ order, t.leaf ∈ fieldLeaves data ∧ t.leaf.isTransform = true :=
    fun t ht => h.mem_found_iff.mp (List.mem_map_of_mem (horder.mem_iff.mp ht))
  have hvalues : ∀ t ∈ order, t.leaf.value.Ordered :=
    fun t ht => hordered.of_mem_fieldLeaves (hfound t ht).1
  have hkept : ∀ t ∈ order, ∀ leaf ∈ fieldLeaves plain, Apart t.leaf.path leaf.path :=
    fun t ht _ => h.apart_kept hordered (horder.mem_iff.mp ht)
  have hapart : order.Pairwise fun t u => Apart t.leaf.path u.leaf.path :=
    (h.pairwise_found (apart_fieldLeaves hordered)).perm horder.symm fun hab => hab.symm
  obtain ⟨hrestored, hleaves⟩ := restore_leaves (h.ordered_plain hordered) hvalues hkept hapart
  -- both have the leaves that were kept and those that were found, which are all leaves
  refine eq_of_fieldLeaves hrestored hordered fun leaf => ?_
  rw [hleaves, h.mem_kept_iff, (horder.map FieldTransform.leaf).mem_iff, h.mem_found_iff,
    ← and_or_left]
  cases leaf.isTransform <;> simp

end Extraction.SplitsUnder

/-! ## Whole data -/

namespace Extraction

theorem firstRepeated_eq_none {seen texts : List String} :
    firstRepeated seen texts = none ↔ texts.Nodup ∧ ∀ text ∈ texts, text ∉ seen := by
  induction texts generalizing seen with
  | nil => simp [firstRepeated]
  | cons text rest ih =>
      rw [firstRepeated, List.nodup_cons]
      by_cases htext : text ∈ seen
      · simp [htext]
      · rw [if_neg htext, ih]
        -- what is not in `text :: seen` is neither `text` nor seen
        simp only [List.mem_cons, not_or, forall_eq_or_imp]
        constructor
        · rintro ⟨hnodup, hseen⟩
          exact ⟨⟨fun hmem => (hseen text hmem).1 rfl, hnodup⟩, htext,
            fun other h => (hseen other h).2⟩
        · rintro ⟨⟨hnot, hnodup⟩, _, hseen⟩
          exact ⟨hnodup, fun other h => ⟨fun heq => hnot (heq ▸ h), hseen other h⟩⟩

/-- Transforms are accepted together if the texts of their paths are different. -/
theorem distinct_eq_ok {transforms : List FieldTransform} :
    distinct transforms = .ok () ↔ (transforms.map fun t => t.path.text).Nodup := by
  have hrepeated : firstRepeated [] (transforms.map fun t => t.path.text) = none ↔
      (transforms.map fun t => t.path.text).Nodup ∧ ∀ text ∈ _, text ∉ [] := firstRepeated_eq_none
  unfold distinct
  split
  · rename_i text hsome
    simp [hsome] at hrepeated
    simpa using hrepeated
  · rename_i hnone
    simpa [hnone] using hrepeated

end Extraction

theorem splitTransforms_eq_ok {data plain : Fields Value} {transforms : List FieldTransform} :
    splitTransforms data = .ok (plain, transforms) ↔
      Extraction.fields [] data = .ok (plain, transforms) ∧
        Extraction.distinct transforms = .ok () := by
  simp only [splitTransforms, bind_eq_ok]
  constructor
  · rintro ⟨⟨rest, found⟩, hfields, ⟨⟩, hdistinct, h⟩
    cases h
    exact ⟨hfields, hdistinct⟩
  · rintro ⟨hfields, hdistinct⟩
    exact ⟨(plain, transforms), hfields, (), hdistinct, rfl⟩

/-- Data whose transforms are taken out: the leaves of the plain part are the leaves of the data
that are no transforms, and the transforms are the other leaves, in the order of their paths.
Nothing is left to be taken out, and in any order the transforms can be put back. -/
theorem splitTransforms_partition {data plain : Fields Value} {transforms : List FieldTransform}
    (hordered : (map data).Ordered) (h : splitTransforms data = .ok (plain, transforms)) :
    fieldLeaves plain = (fieldLeaves data).filter Leaf.isPlain ∧
      transforms.map FieldTransform.leaf = (fieldLeaves data).filter Leaf.isTransform ∧
      (transforms.Pairwise fun t u => t.path.segments < u.path.segments) ∧
      (map plain).hasTransform = false ∧
      (∀ order : List FieldTransform, order.Perm transforms → restore plain order = data) ∧
      splitTransforms plain = .ok (plain, []) := by
  obtain ⟨hfields, _⟩ := splitTransforms_eq_ok.mp h
  have hsplit := Extraction.splits_fields hfields
  refine ⟨hsplit.leaves_kept, hsplit.leaves_found_whole,
    hsplit.pairwise_found (increasing_fieldLeaves hordered), hsplit.no_transform, ?_, ?_⟩
  · intro order horder
    exact hsplit.restore_eq hordered horder
  · exact splitTransforms_eq_ok.mpr ⟨hsplit.again, rfl⟩

/-- A map that held nothing but transforms goes, one that was empty stays. -/
theorem splitTransforms_partition_profile :
    let data : Fields Value := [
      ("emptied", .map [("inner", .map [("removed", .transform .delete)]),
        ("seen", .transform .serverTimestamp)]),
      ("profile", .map [("count", .transform (.increment (.integer 1))), ("name", .string "x"),
        ("tags", .array [.boolean true])]),
      ("unused", .map [])]
    ∃ plain transforms, (map data).Ordered ∧ splitTransforms data = .ok (plain, transforms) ∧
      plain.names = ["profile", "unused"] ∧ transforms.length = 3 ∧
      (map plain).hasTransform = false ∧ restore plain transforms.reverse = data := by
  intro data
  have hordered : (map data).Ordered := by decide
  have h : splitTransforms data = .ok (_, _) := rfl
  obtain ⟨_, _, _, hplain, hrestore, _⟩ := splitTransforms_partition hordered h
  exact ⟨_, _, hordered, h, rfl, rfl, hplain, hrestore _ (List.reverse_perm _)⟩

end Firestore
