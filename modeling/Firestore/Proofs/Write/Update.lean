import Firestore.Proofs.Path.Field
import Firestore.Proofs.Value.Reading
import Firestore.Proofs.Write.Extraction
import Firestore.Write.Data

/-!
# The parts of an update describe one change

The entries of update data are put in one after the other (`Puts`), and the plain
fields, the mask and the transforms grow together (`Gathers`).  An entry is refused
if its path and a path of the mask lie on one line, so what is put in later is apart
from every path of the mask, and disturbs nothing that was put in before.
-/

namespace Firestore

open Value

/-- Whether the mask of an update has to name what a value is put at: the field is removed, or
something plain is left of the value. -/
def Value.isMasked : Value → Bool
  | .transform t => t.isDelete
  | .map (first :: rest) => (fieldLeaves (first :: rest)).any Leaf.isPlain
  | _ => true

/-- Whether a transform stands at a leaf, other than a removal. -/
def Leaf.isChange (leaf : Leaf) : Bool :=
  match leaf.value with
  | .transform t => !t.isDelete
  | _ => false

/-- An entry of update data, with the path that its name stands for. -/
def updateEntry (entry : String × Value) : Except Error (FieldPath × Value) :=
  (·, entry.2) <$> FieldPath.parse entry.1

/-- The entries of update data, in the order of their names. -/
def updateEntries (data : Fields Value) : Except Error (List (FieldPath × Value)) :=
  data.mapM updateEntry

/-! ## What is masked and what is changed -/

namespace Value

/-- Something is left of a value if it has a leaf that is no transform. -/
theorem isSome_plainPart (v : Value) : v.plainPart.isSome = v.leaves.any Leaf.isPlain := by
  have hleaves := leaves_plainPart v
  rw [Bool.eq_iff_iff, List.any_eq_true]
  cases hplain : v.plainPart with
  | none =>
      rw [hplain] at hleaves
      have hnone : v.leaves.filter Leaf.isPlain = [] := hleaves.symm
      simpa [List.filter_eq_nil_iff] using hnone
  | some w =>
      rw [hplain] at hleaves
      obtain ⟨leaf, hleaf⟩ := exists_mem_leaves w
      have hmem : leaf ∈ v.leaves.filter Leaf.isPlain := hleaves ▸ hleaf
      simpa using ⟨leaf, List.mem_filter.mp hmem⟩

/-- A value other than a removal is masked if something of it is left. -/
theorem isMasked_eq_isSome {v : Value} (h : v ≠ .transform .delete) :
    v.isMasked = v.plainPart.isSome := by
  rw [isSome_plainPart]
  cases v with
  | map fields =>
      cases fields with
      | nil => rfl
      | cons first rest => rw [leaves_map (List.cons_ne_nil first rest), isMasked]
  | transform t =>
      cases t with
      | delete => exact absurd rfl h
      | _ => rfl
  | _ => rfl

end Value

namespace Leaf

theorem isTransform_of_isChange {leaf : Leaf} (h : leaf.isChange = true) :
    leaf.isTransform = true := by
  obtain ⟨path, v⟩ := leaf
  cases v with
  | transform t => rfl
  | _ => contradiction

end Leaf

/-- What is found in a value are its leaves that change something, and its removals. -/
theorem Extraction.Splits.leaves_changes {segments : List String} {v : Value} {kept : Option Value}
    {found : List FieldTransform} (h : Splits segments v kept found) :
    (keptTransforms found).map FieldTransform.leaf =
      (v.leaves.filter Leaf.isChange).map (Leaf.below segments) := by
  have hboth : (v.leaves.filter Leaf.isTransform).filter Leaf.isChange =
      v.leaves.filter Leaf.isChange := by
    rw [List.filter_filter]
    refine List.filter_congr fun leaf _ => ?_
    simpa using Leaf.isTransform_of_isChange
  calc (keptTransforms found).map FieldTransform.leaf
      = (found.map FieldTransform.leaf).filter Leaf.isChange := by
        rw [List.filter_map]
        rfl
    _ = ((v.leaves.filter Leaf.isTransform).filter Leaf.isChange).map (Leaf.below segments) := by
        rw [h.leaves_found, List.filter_map]
        rfl
    _ = (v.leaves.filter Leaf.isChange).map (Leaf.below segments) := by rw [hboth]

/-! ## Putting in one entry -/

theorem FieldPath.overlaps_eq_false {p q : FieldPath} :
    p.overlaps q = false ↔ Apart p.segments q.segments := by
  simp [overlaps, Apart, ← isPrefixOf_iff]

/-- What becomes of an update where a value is put at a path. -/
structure Puts (path : FieldPath) (v : Value) (u next : UpdateData) : Prop where
  fields : next.fields = v.plainPart.elim u.fields (u.fields.setPath path)
  mask : next.mask = u.mask ++ if v.isMasked then [path] else []
  transforms : ∃ found, next.transforms = u.transforms ++ found ∧
    (keptTransforms found).map FieldTransform.leaf =
      (v.leaves.filter Leaf.isChange).map (Leaf.below path.segments) ∧
    ∀ t ∈ found, Extraction.IsChecked t
  no_transform : ∀ w, v.plainPart = some w → w.hasTransform = false
  ordered : v.Ordered → ∀ w, v.plainPart = some w → w.Ordered

namespace UpdateData

variable {u next : UpdateData} {path : FieldPath}

/-- Anything but a removal is split where it is put in. -/
theorem put_eq_ok {v : Value} (hpath : FieldPath.ofSegments path.segments = .ok path)
    (hv : v ≠ .transform .delete) (h : u.put path v = .ok next) :
    ∃ kept found, Extraction.field path.segments v = .ok (kept, found) ∧
      next = ⟨kept.elim u.fields (u.fields.setPath path),
        u.mask ++ if kept.isSome then [path] else [], u.transforms ++ found⟩ := by
  cases v with
  | map fields =>
      cases fields with
      | nil =>
          cases h
          exact ⟨_, _, rfl, by simp⟩
      | cons first rest =>
          obtain ⟨⟨plain, found⟩, hsplit, h⟩ := bind_eq_ok.mp h
          refine ⟨_, found, by rw [Extraction.field, hsplit]; rfl, ?_⟩
          cases plain <;> cases h <;> simp
  | transform t =>
      -- a removal goes to the mask alone; any other transform is checked and noted
      have hchecked : ∃ found, Extraction.checked path t = .ok found ∧
          next = { u with transforms := u.transforms ++ [found] } := by
        cases t with
        | delete => exact absurd rfl hv
        | _ =>
            obtain ⟨found, hfound, h⟩ := bind_eq_ok.mp h
            cases h
            exact ⟨found, hfound, rfl⟩
      obtain ⟨found, hfound, rfl⟩ := hchecked
      exact ⟨none, [found], by rw [Extraction.field, hpath, ok_bind, hfound]; rfl, by simp⟩
  | array elements =>
      cases hplain : (array elements).hasTransform with
      | true => simp [put, hplain] at h
      | false =>
          simp only [put, hplain] at h
          cases h
          have hsplit : Value.anyTransform elements = false := hplain
          exact ⟨_, [], by rw [Extraction.field, hpath, ok_bind, hsplit]; rfl, by simp⟩
  | _ =>
      cases h
      exact ⟨_, [], rfl, by simp⟩

theorem puts_of_put {v : Value} (hpath : FieldPath.ofSegments path.segments = .ok path)
    (h : u.put path v = .ok next) : Puts path v u next := by
  by_cases hdelete : v = .transform .delete
  · -- a removal stands in the mask and nowhere else
    subst hdelete
    cases h
    refine ⟨rfl, rfl, ⟨[], (List.append_nil _).symm, rfl, List.forall_mem_nil _⟩, ?_, ?_⟩
    · intro w hw
      contradiction
    · intro _ w hw
      contradiction
  · obtain ⟨kept, found, hfield, rfl⟩ := put_eq_ok hpath hdelete h
    have hsplit := Extraction.splits_field hfield
    obtain rfl := hsplit.kept_eq
    refine ⟨rfl, ?_, ⟨found, rfl, hsplit.leaves_changes, hsplit.checked⟩, hsplit.no_transform,
      hsplit.ordered⟩
    rw [isMasked_eq_isSome hdelete]

/-- An entry is put in at its path, which lies apart from those of the mask. -/
theorem add_eq_ok {entry : String × Value} (h : u.add entry = .ok next) :
    ∃ path, FieldPath.parse entry.1 = .ok path ∧
      (∀ other ∈ u.mask, Apart other.segments path.segments) ∧ Puts path entry.2 u next := by
  obtain ⟨path, hparse, h⟩ := bind_eq_ok.mp h
  refine ⟨path, hparse, ?_⟩
  split at h
  · contradiction
  · rename_i hnone
    rw [List.find?_eq_none] at hnone
    refine ⟨fun other hother => ?_, puts_of_put (FieldPath.ofSegments_of_parse hparse) h⟩
    exact FieldPath.overlaps_eq_false.mp (by simpa using hnone other hother)

end UpdateData

namespace Puts

variable {path : FieldPath} {v : Value} {u next : UpdateData}

/-- What is left of a value is written at its path, which the mask then names. -/
theorem fields_cases (h : Puts path v u next) :
    (v.plainPart = none ∧ next.fields = u.fields) ∨
      ∃ w, v.plainPart = some w ∧ v.isMasked = true ∧ next.fields = u.fields.setPath path w := by
  have hfields := h.fields
  cases hplain : v.plainPart with
  | none =>
      rw [hplain] at hfields
      exact .inl ⟨rfl, hfields⟩
  | some w =>
      rw [hplain] at hfields
      have hvalue : v ≠ .transform .delete := by
        rintro rfl
        contradiction
      exact .inr ⟨w, rfl, by rw [isMasked_eq_isSome hvalue, hplain]; rfl, hfields⟩

theorem ordered_fields (h : Puts path v u next) (hu : (map u.fields).Ordered) (hv : v.Ordered) :
    (map next.fields).Ordered := by
  rcases h.fields_cases with ⟨_, hfields⟩ | ⟨w, hplain, _, hfields⟩
  · rwa [hfields]
  · rw [hfields]
    exact ordered_setAt hu _ (h.ordered hv w hplain)

theorem no_transform_fields (h : Puts path v u next) (hu : anyFieldTransform u.fields = false) :
    anyFieldTransform next.fields = false := by
  rcases h.fields_cases with ⟨_, hfields⟩ | ⟨w, hplain, _, hfields⟩
  · rwa [hfields]
  · rw [hfields]
    exact anyFieldTransform_setAt hu _ (h.no_transform w hplain)

/-- Where nothing stood, there stands what is left of the value. -/
theorem getPath_self (h : Puts path v u next) (hnone : u.fields.getPath path = none) :
    next.fields.getPath path = v.plainPart := by
  rcases h.fields_cases with ⟨hplain, hfields⟩ | ⟨w, hplain, _, hfields⟩
  · rw [hfields, hnone, hplain]
  · rw [hfields, hplain]
    exact getAt_setAt_self _ path.nonempty w

theorem getPath_of_apart (h : Puts path v u next) {other : FieldPath}
    (hapart : Apart other.segments path.segments) :
    next.fields.getPath other = u.fields.getPath other := by
  rcases h.fields_cases with ⟨_, hfields⟩ | ⟨w, _, _, hfields⟩
  · rw [hfields]
  · rw [hfields]
    exact getAt_setAt_of_apart _ hapart.symm w

/-- New leaves lie at the path or below. -/
theorem leaf_cases (h : Puts path v u next) (hu : (map u.fields).Ordered) {leaf : Leaf}
    (hleaf : leaf ∈ fieldLeaves next.fields) :
    leaf ∈ fieldLeaves u.fields ∨ v.isMasked = true ∧ path.segments <+: leaf.path := by
  rcases h.fields_cases with ⟨_, hfields⟩ | ⟨w, _, hmasked, hfields⟩
  · rw [hfields] at hleaf
    exact .inl hleaf
  · rw [hfields] at hleaf
    rcases (mem_fieldLeaves_setAt_iff hu path.nonempty w).mp hleaf with ⟨inside, _, rfl⟩ | ⟨hold, _⟩
    · exact .inr ⟨hmasked, List.prefix_append _ _⟩
    · exact .inl hold

end Puts

/-! ## Putting in all entries -/

/-- The fields of an update are plain, and its transforms have operands that are allowed. -/
structure UpdateData.IsSplit (u : UpdateData) : Prop where
  no_transform : anyFieldTransform u.fields = false
  checked : ∀ t ∈ u.transforms, Extraction.IsChecked t

theorem UpdateData.IsSplit.put {u next : UpdateData} {path : FieldPath} {v : Value} (h : u.IsSplit)
    (hput : Puts path v u next) : next.IsSplit := by
  obtain ⟨found, htransforms, _, hfound⟩ := hput.transforms
  refine ⟨hput.no_transform_fields h.no_transform, ?_⟩
  rw [htransforms]
  exact List.forall_mem_append.mpr ⟨h.checked, hfound⟩

/-- The transforms that an entry of update data asks for, as the leaves where they stand. -/
def updateChanges (entry : FieldPath × Value) : List Leaf :=
  (entry.2.leaves.filter Leaf.isChange).map (Leaf.below entry.1.segments)

/-- An update after some entries of its data. -/
structure Gathers (entries : List (FieldPath × Value)) (u : UpdateData) : Prop where
  mask : u.mask = (entries.filter fun entry => entry.2.isMasked).map Prod.fst
  apart : entries.Pairwise fun e f => e.2.isMasked = true → Apart e.1.segments f.1.segments
  placed : ∀ entry ∈ entries, entry.2.isMasked = true → u.fields.getPath entry.1 = entry.2.plainPart
  covered : ∀ leaf ∈ fieldLeaves u.fields, ∃ path ∈ u.mask, path.segments <+: leaf.path
  ordered : (map u.fields).Ordered
  transforms : (keptTransforms u.transforms).map FieldTransform.leaf = entries.flatMap updateChanges

namespace Gathers

variable {entries : List (FieldPath × Value)} {u next : UpdateData}

theorem start : Gathers [] ⟨[], [], []⟩ :=
  ⟨rfl, List.Pairwise.nil, List.forall_mem_nil _, List.forall_mem_nil _, ordered_nil, rfl⟩

theorem mem_mask (h : Gathers entries u) {entry : FieldPath × Value} (hentry : entry ∈ entries)
    (hmasked : entry.2.isMasked = true) : entry.1 ∈ u.mask := by
  rw [h.mask]
  exact List.mem_map_of_mem (List.mem_filter.mpr ⟨hentry, hmasked⟩)

/-- Nothing stands yet where a path apart from the mask leads. -/
theorem getPath_eq_none (h : Gathers entries u) {path : FieldPath}
    (hapart : ∀ other ∈ u.mask, Apart other.segments path.segments) :
    u.fields.getPath path = none := by
  refine (getAt_eq_none_iff h.ordered path.nonempty).mpr fun leaf hleaf hbelow => ?_
  obtain ⟨other, hother, habove⟩ := h.covered leaf hleaf
  rcases List.prefix_or_prefix_of_prefix habove hbelow with hleads | hleads
  · exact (hapart other hother).1 hleads
  · exact (hapart other hother).2 hleads

/-- An entry whose path is apart from the mask disturbs nothing that was put in before. -/
theorem put (h : Gathers entries u) {path : FieldPath} {v : Value} (hv : v.Ordered)
    (hapart : ∀ other ∈ u.mask, Apart other.segments path.segments) (hput : Puts path v u next) :
    Gathers (entries ++ [(path, v)]) next := by
  have hmask : next.mask =
      ((entries ++ [(path, v)]).filter fun entry => entry.2.isMasked).map Prod.fst := by
    rw [hput.mask, h.mask, List.filter_append, List.map_append]
    cases hmasked : v.isMasked <;> simp [hmasked]
  have hpairs : (entries ++ [(path, v)]).Pairwise fun e f =>
      e.2.isMasked = true → Apart e.1.segments f.1.segments := by
    refine List.pairwise_append.mpr ⟨h.apart, List.pairwise_singleton _ _, ?_⟩
    intro entry hentry last hlast hmasked
    cases List.mem_singleton.mp hlast
    exact hapart entry.1 (h.mem_mask hentry hmasked)
  obtain ⟨found, htransforms, hleaves, _⟩ := hput.transforms
  have hchanges : (keptTransforms next.transforms).map FieldTransform.leaf =
      (entries ++ [(path, v)]).flatMap updateChanges := by
    rw [htransforms, keptTransforms, List.filter_append, List.map_append, List.flatMap_append,
      List.flatMap_singleton, updateChanges, ← h.transforms, ← hleaves]
    rfl
  refine ⟨hmask, hpairs, ?_, ?_, hput.ordered_fields h.ordered hv, hchanges⟩
  · -- the mask keeps the new path away from the old ones, and nothing stood at it
    intro entry hentry hmasked
    rcases List.mem_append.mp hentry with hold | hnew
    · rw [hput.getPath_of_apart (hapart entry.1 (h.mem_mask hold hmasked))]
      exact h.placed entry hold hmasked
    · cases List.mem_singleton.mp hnew
      exact hput.getPath_self (h.getPath_eq_none hapart)
  · intro leaf hleaf
    rw [hput.mask]
    rcases hput.leaf_cases h.ordered hleaf with hold | ⟨hmasked, hleads⟩
    · obtain ⟨other, hother, hleads⟩ := h.covered leaf hold
      exact ⟨other, List.mem_append_left _ hother, hleads⟩
    · exact ⟨path, by simp [hmasked], hleads⟩

/-- A run over update data puts in its entries, one after the other. -/
theorem run {data : Fields Value} (h : Gathers entries u) (hdata : ∀ entry ∈ data, entry.2.Ordered)
    (hrun : data.foldlM UpdateData.add u = .ok next) :
    ∃ more, updateEntries data = .ok more ∧ Gathers (entries ++ more) next := by
  -- on the data; the entries that were put in before are carried along
  induction data generalizing entries u with
  | nil =>
      cases hrun
      exact ⟨[], rfl, by rwa [List.append_nil]⟩
  | cons entry rest ih =>
      obtain ⟨hentry, hrest⟩ := List.forall_mem_cons.mp hdata
      rw [List.foldlM_cons] at hrun
      obtain ⟨middle, hadd, hrun⟩ := bind_eq_ok.mp hrun
      obtain ⟨path, hparse, hapart, hput⟩ := UpdateData.add_eq_ok hadd
      obtain ⟨more, hmore, hlast⟩ := ih (h.put hentry hapart hput) hrest hrun
      have hfirst : updateEntry entry = .ok (path, entry.2) := by rw [updateEntry, hparse, map_ok]
      refine ⟨(path, entry.2) :: more, ?_, by rwa [List.append_cons]⟩
      exact mapM_eq_ok.mpr (.cons hfirst (mapM_eq_ok.mp hmore))

end Gathers

/-! ## The data of the write -/

/-- An update comes out of all entries if nothing in it is removed below a name, no field is
changed twice, and there is anything to write. -/
theorem updateData_eq_ok {data : Fields Value} {u : UpdateData} (h : updateData data = .ok u) :
    data.foldlM UpdateData.add ⟨[], [], []⟩ = .ok u ∧
      (∀ t ∈ u.transforms, t.operation.isDelete = false) ∧
      (u.transforms.map fun t => t.path.text).Nodup ∧ (u.mask ≠ [] ∨ u.transforms ≠ []) := by
  obtain ⟨gathered, hrun, h⟩ := bind_eq_ok.mp h
  cases hfind : gathered.transforms.find? fun t => t.operation.isDelete with
  | some t => simp [hfind] at h
  | none =>
      cases hempty : gathered.mask.isEmpty && gathered.transforms.isEmpty with
      | true => simp [hfind, hempty, bind_eq_ok] at h
      | false =>
          simp only [hfind, hempty, bind_eq_ok] at h
          obtain ⟨_, hdistinct, h⟩ := h
          cases h
          refine ⟨hrun, by simpa using hfind, Extraction.distinct_eq_ok.mp hdistinct, ?_⟩
          simpa [imp_iff_not_or] using hempty

theorem isSplit_of_updateData {data : Fields Value} {u : UpdateData} (h : updateData data = .ok u) :
    u.IsSplit := by
  refine foldlM_invariant ?_ ⟨rfl, List.forall_mem_nil _⟩ (updateData_eq_ok h).1
  intro entry _ u next hu hadd
  obtain ⟨path, _, _, hput⟩ := UpdateData.add_eq_ok hadd
  exact hu.put hput

theorem gathers_of_updateData {data : Fields Value} {u : UpdateData} (hordered : (map data).Ordered)
    (h : updateData data = .ok u) :
    ∃ entries, updateEntries data = .ok entries ∧ Gathers entries u :=
  Gathers.start.run (ordered_map.mp hordered).2 (updateData_eq_ok h).1

/-- **The mask, the fields and the transforms of an update agree.**  The mask has the paths of the
entries that are removed or of which something plain is left, in the order of the names; no path in
it leads to another one.  At each of them the fields hold just what is left of the entry, and they
hold nothing else.  The transforms are those of all entries, of which none is a removal and no two
are at fields of the same text. -/
theorem updateData_agrees {data : Fields Value} {u : UpdateData} (hordered : (map data).Ordered)
    (h : updateData data = .ok u) :
    ∃ entries, updateEntries data = .ok entries ∧
      u.mask = (entries.filter fun entry => entry.2.isMasked).map Prod.fst ∧
      (u.mask.Pairwise fun p q => Apart p.segments q.segments) ∧
      (∀ entry ∈ entries, entry.2.isMasked = true → u.fields.getPath entry.1 = entry.2.plainPart) ∧
      (∀ leaf ∈ fieldLeaves u.fields, ∃ path ∈ u.mask, path.segments <+: leaf.path) ∧
      (map u.fields).hasTransform = false ∧
      u.transforms.map FieldTransform.leaf = entries.flatMap updateChanges ∧
      (∀ t ∈ u.transforms, t.operation.isDelete = false) ∧
      (u.transforms.map fun t => t.path.text).Nodup := by
  obtain ⟨_, hkept, hnodup, _⟩ := updateData_eq_ok h
  obtain ⟨entries, hentries, hgathers⟩ := gathers_of_updateData hordered h
  have hall : keptTransforms u.transforms = u.transforms :=
    List.filter_eq_self.mpr fun t ht => by rw [hkept t ht]; rfl
  have hpairs : u.mask.Pairwise fun p q => Apart p.segments q.segments := by
    rw [hgathers.mask, List.pairwise_map, List.pairwise_filter]
    exact hgathers.apart.imp fun hapart hmasked _ => hapart hmasked
  have htransforms := hgathers.transforms
  rw [hall] at htransforms
  exact ⟨entries, hentries, hgathers.mask, hpairs, hgathers.placed, hgathers.covered,
    (isSplit_of_updateData h).no_transform, htransforms, hkept, hnodup⟩

/-- Names lead into one map, which holds a transform too; another map holds nothing else. -/
theorem updateData_agrees_nested :
    let data : Fields Value := [
      ("at.go", .map [("n", .transform (.increment (.integer 1))), ("to", .string "Oslo")]),
      ("at.is", .string "home"),
      ("old", .transform .delete),
      ("seen", .map [("on", .map [("last", .transform .serverTimestamp)])])]
    let u : UpdateData := {
      fields := [("at", .map [("go", .map [("to", .string "Oslo")]), ("is", .string "home")])]
      mask := [⟨["at", "go"], by simp⟩, ⟨["at", "is"], by simp⟩, ⟨["old"], by simp⟩]
      transforms := [⟨⟨["at", "go", "n"], by simp⟩, .increment (.integer 1)⟩,
        ⟨⟨["seen", "on", "last"], by simp⟩, .serverTimestamp⟩] }
    (map data).Ordered ∧ updateData data = .ok u ∧
      (u.mask.Pairwise fun p q => Apart p.segments q.segments) ∧
      (∀ leaf ∈ fieldLeaves u.fields, ∃ path ∈ u.mask, path.segments <+: leaf.path) ∧
      (map u.fields).hasTransform = false := by
  intro data u
  have hordered : (map data).Ordered := by decide
  have hupdate : updateData data = .ok u := rfl
  obtain ⟨_, _, _, hapart, _, hcovered, hplain, _⟩ := updateData_agrees hordered hupdate
  exact ⟨hordered, hupdate, hapart, hcovered, hplain⟩

end Firestore
