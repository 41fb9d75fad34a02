import Firestore.Proofs.Write.Failures
import Firestore.Proofs.Write.Update

/-!
# Overlapping names in update data

Names of update data are read in order, so a path stands before those that it leads
to.  An entry that the mask names keeps others out at its path and below
(`updateData_overlap`).  One that asks for transforms only does not, as the mask is
all that later paths are compared with: then both entries are written
(`updateData_overlap_unmasked`).
-/

namespace Firestore

open Value

/-- In an update that succeeds, what the mask names stands apart from every entry of a greater
name. -/
theorem apart_of_updateData {data : Fields Value} {u : UpdateData} (hordered : (map data).Ordered)
    (h : updateData data = .ok u) {e f : String × Value} (he : e ∈ data) (hf : f ∈ data)
    (hlt : e.1 < f.1) (hmasked : e.2.isMasked = true) {p q : FieldPath}
    (hp : FieldPath.parse e.1 = .ok p) (hq : FieldPath.parse f.1 = .ok q) :
    Apart p.segments q.segments := by
  obtain ⟨entries, hentries, hgathers⟩ := gathers_of_updateData hordered h
  obtain ⟨hlength, hnames⟩ := List.forall₂_iff_get.mp (mapM_eq_ok.mp hentries)
  have hsorted := List.pairwise_iff_getElem.mp (ordered_map.mp hordered).1
  obtain ⟨i, hi, rfl⟩ := List.mem_iff_getElem.mp he
  obtain ⟨j, hj, rfl⟩ := List.mem_iff_getElem.mp hf
  -- the smaller name is read first
  have hij : i < j := by
    by_contra hle
    rcases Nat.lt_or_eq_of_le (Nat.le_of_not_lt hle) with hji | rfl
    · exact absurd (hsorted j i hj hi hji) (String.lt_asymm hlt)
    · exact absurd hlt (String.lt_irrefl _)
  have hfirst : entries[i] = (p, data[i].2) := by
    have hentry := hnames i hi (hlength ▸ hi)
    simpa [updateEntry, hp] using hentry.symm
  have hsecond : entries[j] = (q, data[j].2) := by
    have hentry := hnames j hj (hlength ▸ hj)
    simpa [updateEntry, hq] using hentry.symm
  have hapart := List.pairwise_iff_getElem.mp hgathers.apart i j (hlength ▸ hi) (hlength ▸ hj) hij
  rw [hfirst, hsecond] at hapart
  exact hapart hmasked

/-- **Overlapping names are refused if the outer one is in the mask.**  Where a name of the data
leads to another one, and the value that it gives is a removal or leaves something plain, the update
fails and blames the data, whatever the other name gives. -/
theorem updateData_overlap {data : Fields Value} (hordered : (map data).Ordered)
    {outer inner : String × Value} (houter : outer ∈ data) (hinner : inner ∈ data)
    (hdistinct : outer.1 ≠ inner.1) {p q : FieldPath} (hp : FieldPath.parse outer.1 = .ok p)
    (hq : FieldPath.parse inner.1 = .ok q) (hleads : p.segments <+: q.segments)
    (hmasked : outer.2.isMasked = true) :
    ∃ e, updateData data = .error e ∧ e.code = .invalidArgument := by
  cases hupdate : updateData data with
  | error e => exact ⟨e, rfl, updateData_fails data e hupdate⟩
  | ok u =>
      have hne : p ≠ q := by
        rintro rfl
        exact hdistinct ((FieldPath.text_of_parse hp).symm.trans (FieldPath.text_of_parse hq))
      have hlt := FieldPath.text_lt_text hleads hne
      rw [FieldPath.text_of_parse hp, FieldPath.text_of_parse hq] at hlt
      exact absurd hleads (apart_of_updateData hordered hupdate houter hinner hlt hmasked hp hq).1

/-- A removal keeps out a transform below it. -/
theorem updateData_overlap_removal :
    let data : Fields Value := [("a", .transform .delete), ("a.b", .transform .serverTimestamp)]
    (map data).Ordered ∧ FieldPath.parse "a" = .ok ⟨["a"], by simp⟩ ∧
      FieldPath.parse "a.b" = .ok ⟨["a", "b"], by simp⟩ ∧
      (Value.transform .delete).isMasked = true ∧
      ∃ e, updateData data = .error e ∧ e.code = .invalidArgument := by
  intro data
  have hordered : (map data).Ordered := by decide
  have houter : ("a", .transform .delete) ∈ data := List.mem_cons_self
  have hinner : ("a.b", .transform .serverTimestamp) ∈ data :=
    List.mem_cons_of_mem _ List.mem_cons_self
  have hp : FieldPath.parse "a" = .ok ⟨["a"], by simp⟩ := rfl
  have hq : FieldPath.parse "a.b" = .ok ⟨["a", "b"], by simp⟩ := rfl
  exact ⟨hordered, hp, hq, rfl,
    updateData_overlap hordered houter hinner (by decide) hp hq ⟨["b"], rfl⟩ rfl⟩

/-- A name that asks for a transform only does not keep out one below it: not all names that overlap
are refused. -/
theorem updateData_overlap_unmasked :
    ¬ ∀ (data : Fields Value) (outer inner : String × Value) (p q : FieldPath), (map data).Ordered →
      outer ∈ data → inner ∈ data → outer.1 ≠ inner.1 → FieldPath.parse outer.1 = .ok p →
      FieldPath.parse inner.1 = .ok q → p.segments <+: q.segments →
      ∃ e, updateData data = .error e ∧ e.code = .invalidArgument := by
  intro hall
  let data : Fields Value := [("a", .transform .serverTimestamp), ("a.b", .integer 1)]
  have hordered : (map data).Ordered := by decide
  have haccepted : updateData data = .ok _ := rfl
  have houter : ("a", .transform .serverTimestamp) ∈ data := List.mem_cons_self
  have hinner : ("a.b", .integer 1) ∈ data := List.mem_cons_of_mem _ List.mem_cons_self
  obtain ⟨e, herror, _⟩ := hall data ("a", .transform .serverTimestamp) ("a.b", .integer 1)
    ⟨["a"], by simp⟩ ⟨["a", "b"], by simp⟩ hordered houter hinner (by decide) rfl rfl ⟨["b"], rfl⟩
  rw [haccepted] at herror
  contradiction

end Firestore
