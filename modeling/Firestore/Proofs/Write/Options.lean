import Firestore.Proofs.Path.Field
import Firestore.Proofs.Steps
import Firestore.Write.Data
import Mathlib.Data.List.Nodup

/-!
# The fields that a set is asked to merge

Of the listed paths those count whose dotted text does not stand before (`ofFields_eq`).
A path that was read from a dotted text is the only such path of its text, so fields that
are named by texts all count, each once.  Among paths whose segments may have dots in them,
two different ones can have one text, and then the later one is lost (`ofNames_mask`).
-/

namespace Firestore

/-- What is dropped depends only on which members are taken for equal. -/
theorem eraseDupsBy_congr {α : Type} {r s : α → α → Bool} :
    ∀ as : List α, (∀ a ∈ as, ∀ b ∈ as, r a b = s a b) → as.eraseDupsBy r = as.eraseDupsBy s
  | [], _ => rfl
  | a :: rest, h => by
      have hrest : (rest.filter fun b => r b a = false) = rest.filter fun b => s b a = false :=
        List.filter_congr fun b hb => by rw [h b (List.mem_cons_of_mem _ hb) a List.mem_cons_self]
      have hsub : ∀ b ∈ rest.filter fun b => s b a = false, b ∈ a :: rest := fun b hb =>
        List.mem_cons_of_mem _ (List.mem_of_mem_filter hb)
      rw [List.eraseDupsBy_cons, List.eraseDupsBy_cons, hrest,
        eraseDupsBy_congr _ fun b hb c hc => h b (hsub b hb) c (hsub c hc)]
  -- on the length, since members are dropped from the whole rest at once
  termination_by as => as.length
  decreasing_by exact Nat.lt_succ_of_le (List.length_filter_le _ _)

namespace FieldPath

/-- Whether two paths have one dotted text. -/
def sameText (p q : FieldPath) : Bool := p.text == q.text

/-- No two different ones of some paths have one text. -/
def Unambiguous (paths : List FieldPath) : Prop :=
  ∀ p ∈ paths, ∀ q ∈ paths, p.text = q.text → p = q

/-- A text is read as one path only. -/
theorem eq_of_text_eq {p q : FieldPath} {s t : String} (hp : parse s = .ok p)
    (hq : parse t = .ok q) (h : p.text = q.text) : p = q := by
  rw [text_of_parse hp, text_of_parse hq] at h
  rw [h, hq] at hp
  exact (Except.ok.inj hp).symm

theorem unambiguous_of_texts {texts : List String} {paths : List FieldPath}
    (h : (texts.map FieldName.text).mapM FieldName.read = .ok paths) : Unambiguous paths := by
  intro p hp q hq
  have hread := List.forall₂_map_left_iff.mp (mapM_eq_ok.mp h)
  obtain ⟨s, -, hs⟩ := exists_of_mem_forall₂ hread hp
  obtain ⟨t, -, ht⟩ := exists_of_mem_forall₂ hread hq
  exact eq_of_text_eq hs ht

end FieldPath

namespace SetOptions

open FieldPath

theorem distinctTexts_eq (seen : List String) (paths : List FieldPath) :
    distinctTexts seen paths =
      (paths.filter fun path => path.text ∉ seen).eraseDupsBy sameText := by
  induction paths generalizing seen with
  | nil => rfl
  | cons path rest ih =>
      rw [distinctTexts]
      split
      · rename_i hseen
        rw [ih, List.filter_cons_of_neg (by simpa using hseen)]
      · rename_i hnew
        rw [ih, List.filter_cons_of_pos (by simpa using hnew), List.eraseDupsBy_cons,
          List.filter_filter]
        congr 2
        refine List.filter_congr fun other _ => ?_
        simp [sameText]

/-- The texts that are kept differ from each other and from those seen before. -/
theorem nodup_text_distinctTexts (seen : List String) (paths : List FieldPath) :
    ((distinctTexts seen paths).map text).Nodup ∧
      ∀ path ∈ distinctTexts seen paths, path.text ∉ seen := by
  induction paths generalizing seen with
  | nil => simp [distinctTexts]
  | cons path rest ih =>
      rw [distinctTexts]
      split
      · exact ih seen
      · rename_i hnew
        obtain ⟨hnodup, hout⟩ := ih (path.text :: seen)
        simp only [List.mem_cons, not_or] at hout
        refine ⟨List.nodup_cons.mpr ⟨?_, hnodup⟩, List.forall_mem_cons.mpr ⟨hnew, ?_⟩⟩
        · intro hmem
          obtain ⟨other, hother, heq⟩ := List.mem_map.mp hmem
          exact (hout other hother).1 heq
        · exact fun other hother => (hout other hother).2

/-- Every listed text was seen before or is kept. -/
theorem exists_sameText (seen : List String) {paths : List FieldPath} {path : FieldPath}
    (h : path ∈ paths) :
    path.text ∈ seen ∨ ∃ kept ∈ distinctTexts seen paths, kept.text = path.text := by
  induction paths generalizing seen with
  | nil => cases h
  | cons first rest ih =>
      rw [distinctTexts]
      split
      · rename_i hseen
        rcases List.mem_cons.mp h with rfl | hrest
        · exact .inl hseen
        · exact ih seen hrest
      · rcases List.mem_cons.mp h with rfl | hrest
        · exact .inr ⟨path, List.mem_cons_self, rfl⟩
        · rcases ih (first.text :: seen) hrest with hseen | ⟨kept, hkept, htext⟩
          · rcases List.mem_cons.mp hseen with heq | hseen
            · exact .inr ⟨first, List.mem_cons_self, heq.symm⟩
            · exact .inl hseen
          · exact .inr ⟨kept, List.mem_cons_of_mem _ hkept, htext⟩

theorem distinctTexts_nil (paths : List FieldPath) :
    distinctTexts [] paths = paths.eraseDupsBy sameText := by
  rw [distinctTexts_eq, List.filter_eq_self.mpr (by simp)]

theorem nodup_text_eraseDupsBy (paths : List FieldPath) :
    ((paths.eraseDupsBy sameText).map text).Nodup := by
  rw [← distinctTexts_nil]
  exact (nodup_text_distinctTexts [] paths).1

/-- The mask is the listed paths without those whose text stands before. -/
theorem ofFields_eq {paths : List FieldPath} (h : paths ≠ []) :
    ofFields paths = .ok { mergeFields := some (paths.eraseDupsBy sameText) } := by
  unfold ofFields
  rw [distinctTexts_nil]
  cases paths with
  | nil => exact absurd rfl h
  | cons first rest => rw [List.eraseDupsBy_cons]

/-- Nothing else is dropped than repetitions just if a text says which path is meant. -/
theorem eraseDupsBy_sameText_iff {paths : List FieldPath} :
    paths.eraseDupsBy sameText = paths.eraseDups ↔ Unambiguous paths := by
  constructor
  · intro h p hp q hq htext
    have hnodup := nodup_text_eraseDupsBy paths
    rw [h] at hnodup
    exact List.inj_on_of_nodup_map hnodup (List.mem_eraseDups.mpr hp) (List.mem_eraseDups.mpr hq)
      htext
  · intro h
    refine eraseDupsBy_congr _ fun p hp q hq => ?_
    rw [Bool.eq_iff_iff, sameText, beq_iff_eq, beq_iff_eq]
    exact ⟨h p hp q hq, congrArg text⟩

/-- **Named fields are merged once each, in the order in which they come first, if no two different
paths among them have one text**, as with names that are all texts.  A path is lost just if its text
stands before, as that of another one. -/
theorem ofNames_mask {names : List FieldName} (hne : names ≠ [])
    (hread : ∀ name ∈ names, ∃ path, name.read = .ok path) :
    ∃ paths mask, names.mapM FieldName.read = .ok paths ∧
      ofNames names = .ok { mergeFields := some mask } ∧ mask = paths.eraseDupsBy sameText ∧
      mask.Nodup ∧ (mask = paths.eraseDups ↔ Unambiguous paths) ∧
      (∀ texts : List String, names = texts.map .text → mask = paths.eraseDups) ∧
      ∀ path ∈ paths, path ∉ mask ↔ ∃ kept ∈ mask, kept ≠ path ∧ kept.text = path.text := by
  obtain ⟨paths, hpaths⟩ := exists_mapM_eq_ok.mpr hread
  have hlength := (mapM_eq_ok.mp hpaths).length_eq
  have hsome : paths ≠ [] := by
    rintro rfl
    exact hne (List.length_eq_zero_iff.mp hlength)
  have hmask : ofNames names = .ok { mergeFields := some (paths.eraseDupsBy sameText) } := by
    rw [ofNames, hpaths, ok_bind, ofFields_eq hsome]
  have hnodup := nodup_text_eraseDupsBy paths
  refine ⟨paths, _, hpaths, hmask, rfl, hnodup.of_map, eraseDupsBy_sameText_iff, ?_, ?_⟩
  · rintro texts rfl
    exact eraseDupsBy_sameText_iff.mpr (unambiguous_of_texts hpaths)
  · intro path hpath
    constructor
    · intro hlost
      -- nothing has been seen before, so the text is that of a path that is kept
      rw [← distinctTexts_nil] at hlost ⊢
      rcases exists_sameText [] hpath with hnil | ⟨kept, hkept, htext⟩
      · cases hnil
      · exact ⟨kept, hkept, fun heq => hlost (heq ▸ hkept), htext⟩
    · rintro ⟨kept, hkept, hother, htext⟩ hmem
      exact hother (List.inj_on_of_nodup_map hnodup hkept hmem htext)

/-- A path that is named by its text again, with another one between. -/
theorem ofNames_mask_repeated :
    let nested : FieldPath := ⟨["a", "b"], by simp⟩
    let names : List FieldName := [.text "a.b", .path documentId, .path nested]
    names ≠ [] ∧ (∀ name ∈ names, ∃ path, name.read = .ok path) ∧
      ofNames names = .ok { mergeFields := some [nested, documentId] } := by
  intro nested names
  have hne : names ≠ [] := by simp [names]
  have hlisted : names.mapM FieldName.read = .ok [nested, documentId, nested] := by rfl
  have hread := exists_mapM_eq_ok.mp ⟨_, hlisted⟩
  obtain ⟨paths, mask, hpaths, hmask, heq, -⟩ := ofNames_mask hne hread
  obtain rfl := Except.ok.inj (hpaths.symm.trans hlisted)
  have hdistinct : mask = [nested, documentId] := heq.trans (by rfl)
  exact ⟨hne, hread, hdistinct ▸ hmask⟩

/-- Of a field of a field and a field with a dot in its name only the first one is kept. -/
theorem ofNames_lost :
    let nested : FieldPath := ⟨["a", "b"], by simp⟩
    let dotted : FieldPath := ⟨["a.b"], by simp⟩
    [nested, dotted].eraseDups = [nested, dotted] ∧
      ofNames [.path nested, .path dotted] = .ok { mergeFields := some [nested] } ∧
      ofNames [.path dotted, .path nested] = .ok { mergeFields := some [dotted] } := by
  intro nested dotted
  exact ⟨by decide, rfl, rfl⟩

end SetOptions

end Firestore
