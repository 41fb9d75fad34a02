import Firestore.Fields
import Mathlib.Data.List.Perm.Basic
import Mathlib.Data.String.Basic

/-!
# Records in the order of their names

A record is determined by what it holds under each name (`ext_get?`), because its
names strictly increase.  Insertion keeps that order (`sorted_insert`); for one name
the later insertion counts (`insert_insert`), and for different names it makes no
difference which one comes first (`insert_comm`).  So the record of any pairs is in
order (`sorted_ofList`).  Pairs that are in order already are their own record
(`ofList_eq_self`); pairs of different names in any order are only moved around
(`perm_ofList`).
-/

namespace Firestore.Fields

variable {α : Type}

/-! ## Order -/

theorem sorted_nil : Sorted ([] : Fields α) := List.Pairwise.nil

theorem sorted_cons {k : String} {v : α} {rest : Fields α} :
    Sorted ((k, v) :: rest) ↔ (∀ pair ∈ rest, k < pair.1) ∧ Sorted rest :=
  List.pairwise_cons

/-- Different places of a record have different names. -/
theorem Sorted.nodup_names {fields : Fields α} (h : Sorted fields) : fields.names.Nodup := by
  rw [names, List.Nodup, List.pairwise_map]
  exact h.imp fun hlt => ne_of_lt hlt

theorem Sorted.nodup {fields : Fields α} (h : Sorted fields) : fields.Nodup :=
  List.Pairwise.imp (fun hlt heq => absurd (congrArg Prod.fst heq) (ne_of_lt hlt)) h

theorem Sorted.sublist {fields part : Fields α} (h : Sorted fields)
    (hpart : part.Sublist fields) : Sorted part :=
  List.Pairwise.sublist hpart h

/-- Fields under some of the names of a record in order are in order. -/
theorem Sorted.of_names {β : Type} {fields : Fields α} {part : Fields β} (h : Sorted fields)
    (hpart : part.names.Sublist fields.names) : Sorted part := by
  have hnames : fields.names.Pairwise (· < ·) := List.pairwise_map.mpr h
  exact List.pairwise_map.mp (hnames.sublist hpart)

/-! ## What a name holds -/

theorem mem_of_get? {fields : Fields α} {name : String} {v : α}
    (h : fields.get? name = some v) : (name, v) ∈ fields := by
  induction fields with
  | nil => simp at h
  | cons pair rest ih =>
      obtain ⟨k, w⟩ := pair
      rw [get?_cons] at h
      split at h
      · rename_i hk
        simp_all
      · exact List.mem_cons_of_mem _ (ih h)

theorem get?_of_mem {fields : Fields α} {name : String} {v : α}
    (hnodup : fields.names.Nodup) (h : (name, v) ∈ fields) : fields.get? name = some v := by
  induction fields with
  | nil => simp at h
  | cons pair rest ih =>
      obtain ⟨k, w⟩ := pair
      rw [names, List.map_cons, List.nodup_cons] at hnodup
      rcases List.mem_cons.mp h with heq | hrest
      · cases heq
        simp [get?_cons]
      · have hne : k ≠ name := by
          intro hk
          exact hnodup.1 (List.mem_map.mpr ⟨(name, v), hrest, hk.symm⟩)
        rw [get?_cons, if_neg hne]
        exact ih hnodup.2 hrest

theorem get?_append_cons {before after : Fields α} {name : String} {v : α}
    (h : ∀ pair ∈ before, pair.1 ≠ name) : get? (before ++ (name, v) :: after) name = some v := by
  induction before with
  | nil => exact if_pos rfl
  | cons pair rest ih =>
      obtain ⟨hpair, hrest⟩ := List.forall_mem_cons.mp h
      rw [List.cons_append, get?_cons, if_neg hpair, ih hrest]

/-- What a name holds stands behind the pairs of other names. -/
theorem eq_append_of_get? {fields : Fields α} {name : String} {v : α}
    (h : fields.get? name = some v) :
    ∃ after, fields = (fields.takeWhile fun pair => pair.1 ≠ name) ++ (name, v) :: after := by
  induction fields with
  | nil => contradiction
  | cons pair rest ih =>
      obtain ⟨k, w⟩ := pair
      by_cases hk : k = name
      · rw [get?_cons, if_pos hk] at h
        obtain rfl := Option.some.inj h
        refine ⟨rest, ?_⟩
        rw [List.takeWhile_cons_of_neg (by simpa using hk), hk]
        rfl
      · rw [get?_cons, if_neg hk] at h
        obtain ⟨after, hafter⟩ := ih h
        refine ⟨after, ?_⟩
        rw [List.takeWhile_cons_of_pos (by simpa using hk), List.cons_append, ← hafter]

/-- In a record in order, a name holds what stands beside it. -/
theorem Sorted.get?_eq_some_iff {fields : Fields α} (h : Sorted fields) {name : String} {v : α} :
    fields.get? name = some v ↔ (name, v) ∈ fields :=
  ⟨mem_of_get?, get?_of_mem h.nodup_names⟩

/-- Two records in order that hold the same under each name are the same. -/
theorem ext_get? {first second : Fields α} (hfirst : Sorted first) (hsecond : Sorted second)
    (h : ∀ name, first.get? name = second.get? name) : first = second := by
  have hmem : ∀ pair, pair ∈ first ↔ pair ∈ second := by
    rintro ⟨name, v⟩
    rw [← hfirst.get?_eq_some_iff, ← hsecond.get?_eq_some_iff, h]
  have hperm : first.Perm second :=
    (List.perm_ext_iff_of_nodup hfirst.nodup hsecond.nodup).mpr hmem
  unfold Sorted at hfirst hsecond
  exact hperm.eq_of_pairwise (fun a b _ _ hab hba => absurd hba (lt_asymm hab)) hfirst hsecond

/-! ## Insertion -/

theorem mem_insert {fields : Fields α} {name : String} {v : α} {pair : String × α}
    (h : pair ∈ insert fields name v) : pair = (name, v) ∨ pair ∈ fields := by
  induction fields with
  | nil => simpa [insert] using h
  | cons head rest ih =>
      obtain ⟨k, w⟩ := head
      unfold insert at h
      split at h
      · rcases List.mem_cons.mp h with heq | hrest
        · exact Or.inl heq
        · exact Or.inr (List.mem_cons_of_mem _ hrest)
      · split at h
        · exact List.mem_cons.mp h
        · rcases List.mem_cons.mp h with heq | hrest
          · exact Or.inr (heq ▸ List.mem_cons_self)
          · exact (ih hrest).imp_right (List.mem_cons_of_mem _)

theorem sorted_insert {fields : Fields α} (h : Sorted fields) (name : String) (v : α) :
    Sorted (insert fields name v) := by
  induction fields with
  | nil => exact List.pairwise_singleton _ _
  | cons head rest ih =>
      obtain ⟨k, w⟩ := head
      obtain ⟨hhead, hrest⟩ := sorted_cons.mp h
      unfold insert
      split
      · rename_i hk
        exact sorted_cons.mpr ⟨hk ▸ hhead, hrest⟩
      · rename_i hk
        split
        · rename_i hlt
          refine sorted_cons.mpr ⟨?_, h⟩
          intro pair hpair
          rcases List.mem_cons.mp hpair with rfl | hpair
          · exact hlt
          · exact hlt.trans (hhead pair hpair)
        · rename_i hnot
          have hgt : k < name := lt_of_le_of_ne (not_lt.mp hnot) (Ne.symm hk)
          -- behind the head stands the new name or what was there before, both above it
          refine sorted_cons.mpr ⟨?_, ih hrest⟩
          intro pair hpair
          rcases mem_insert hpair with rfl | hpair
          · exact hgt
          · exact hhead pair hpair

/-- A name above all others goes to the end. -/
theorem insert_eq_append {fields : Fields α} {name : String} (v : α)
    (h : ∀ pair ∈ fields, pair.1 < name) : insert fields name v = fields ++ [(name, v)] := by
  induction fields with
  | nil => rfl
  | cons head rest ih =>
      obtain ⟨k, w⟩ := head
      have hk : k < name := h (k, w) List.mem_cons_self
      rw [insert, if_neg (ne_of_gt hk), if_neg (lt_asymm hk),
        ih fun pair hpair => h pair (List.mem_cons_of_mem _ hpair)]
      rfl

/-- A new name only comes in between. -/
theorem perm_insert {fields : Fields α} {name : String} (v : α) (h : name ∉ fields.names) :
    (insert fields name v).Perm ((name, v) :: fields) := by
  induction fields with
  | nil => exact List.Perm.refl _
  | cons head rest ih =>
      obtain ⟨k, w⟩ := head
      rw [names, List.map_cons, List.mem_cons, not_or] at h
      unfold insert
      rw [if_neg h.1]
      split
      · exact List.Perm.refl _
      · exact ((ih h.2).cons _).trans (List.Perm.swap _ _ _)

/-- What a name holds already changes nothing when it is put in again. -/
theorem insert_eq_self {fields : Fields α} (h : Sorted fields) {name : String} {v : α}
    (hget : fields.get? name = some v) : insert fields name v = fields := by
  apply ext_get? (sorted_insert h name v) h
  intro other
  rw [get?_insert]
  split
  · rename_i heq
    rw [← heq, hget]
  · rfl

/-- Of two contents for one name the one that is put in last stays. -/
theorem insert_insert (fields : Fields α) (name : String) (v w : α) :
    insert (insert fields name v) name w = insert fields name w := by
  induction fields with
  | nil => simp [insert]
  | cons head rest ih =>
      obtain ⟨k, u⟩ := head
      by_cases hk : name = k
      · simp [insert, hk]
      · by_cases hlt : name < k
        · simp [insert, hk, hlt]
        · simp [insert, hk, hlt, ih]

private theorem insert_comm_of_lt {name other : String} (h : name < other) (fields : Fields α)
    (v w : α) : insert (insert fields name v) other w = insert (insert fields other w) name v := by
  have hne := ne_of_gt h
  have hnot := lt_asymm h
  induction fields with
  | nil => simp [insert, h, hne.symm, hne, hnot]
  | cons head rest ih =>
      obtain ⟨k, u⟩ := head
      -- where the first name stands to the two that are put in
      rcases lt_trichotomy name k with hlt | rfl | hgt
      · rcases lt_trichotomy other k with ho | rfl | ho
        · simp [insert, h, hne, hnot, hlt, ne_of_lt hlt, ho, ne_of_lt ho, hne.symm]
        · simp [insert, h, hne, hnot, hne.symm]
        · simp [insert, hne, hnot, hlt, ne_of_lt hlt, ne_of_gt ho, lt_asymm ho]
      · simp [insert, hne, hnot]
      · have hk : k < other := hgt.trans h
        simp [insert, ne_of_gt hgt, lt_asymm hgt, ne_of_gt hk, lt_asymm hk, ih]

/-- Contents for different names can be put in in either order. -/
theorem insert_comm {name other : String} (h : name ≠ other) (fields : Fields α) (v w : α) :
    insert (insert fields name v) other w = insert (insert fields other w) name v := by
  rcases lt_or_gt_of_ne h with hlt | hgt
  · exact insert_comm_of_lt hlt fields v w
  · exact (insert_comm_of_lt hgt fields w v).symm

/-! ## Records of pairs -/

theorem insertAll_cons (fields : Fields α) (pair : String × α) (pairs : List (String × α)) :
    insertAll fields (pair :: pairs) = insertAll (insert fields pair.1 pair.2) pairs := rfl

theorem sorted_insertAll {fields : Fields α} (h : Sorted fields) (pairs : List (String × α)) :
    Sorted (insertAll fields pairs) := by
  induction pairs generalizing fields with
  | nil => exact h
  | cons pair pairs ih => exact ih (sorted_insert h pair.1 pair.2)

/-- A record of pairs has no others. -/
theorem mem_of_mem_insertAll {fields : Fields α} {pairs : List (String × α)} {pair : String × α}
    (h : pair ∈ insertAll fields pairs) : pair ∈ fields ∨ pair ∈ pairs := by
  induction pairs generalizing fields with
  | nil => exact .inl h
  | cons first pairs ih =>
      rcases ih h with hinserted | hlater
      · rcases mem_insert hinserted with rfl | hold
        · exact .inr List.mem_cons_self
        · exact .inl hold
      · exact .inr (List.mem_cons_of_mem _ hlater)

theorem mem_of_mem_ofList {pairs : List (String × α)} {pair : String × α}
    (h : pair ∈ ofList pairs) : pair ∈ pairs :=
  (mem_of_mem_insertAll h).resolve_left List.not_mem_nil

/-- The record of any pairs is in order. -/
theorem sorted_ofList (pairs : List (String × α)) : Sorted (ofList pairs) :=
  sorted_insertAll sorted_nil pairs

private theorem insertAll_eq_append {fields pairs : Fields α} (h : Sorted (fields ++ pairs)) :
    insertAll fields pairs = fields ++ pairs := by
  induction pairs generalizing fields with
  | nil => simp [insertAll]
  | cons pair pairs ih =>
      have hlast : ∀ other ∈ fields, other.1 < pair.1 := fun other hother =>
        (List.pairwise_append.mp h).2.2 other hother pair List.mem_cons_self
      rw [insertAll_cons, insert_eq_append pair.2 hlast, ih (by simpa using h)]
      simp

/-- Pairs in order are their own record. -/
theorem ofList_eq_self {fields : Fields α} (h : Sorted fields) : ofList fields = fields :=
  insertAll_eq_append h

private theorem perm_insertAll {fields pairs : Fields α}
    (h : ((fields ++ pairs).map Prod.fst).Nodup) :
    (insertAll fields pairs).Perm (fields ++ pairs) := by
  induction pairs generalizing fields with
  | nil => simp [insertAll]
  | cons pair pairs ih =>
      have hperm : (fields ++ pair :: pairs).Perm ((pair :: fields) ++ pairs) :=
        List.perm_middle
      have hnodup : (((pair :: fields) ++ pairs).map Prod.fst).Nodup :=
        (hperm.map Prod.fst).nodup_iff.mp h
      have hnew : pair.1 ∉ fields.names := by
        rw [List.cons_append, List.map_cons, List.nodup_cons, List.map_append, List.mem_append,
          not_or] at hnodup
        exact hnodup.1.1
      have hins := (perm_insert pair.2 hnew).append_right pairs
      rw [insertAll_cons]
      exact (ih ((hins.map Prod.fst).nodup_iff.mpr hnodup)).trans (hins.trans hperm.symm)

/-- Pairs of different names are in their record, each once. -/
theorem perm_ofList {pairs : List (String × α)} (h : (pairs.map Prod.fst).Nodup) :
    (ofList pairs).Perm pairs :=
  @perm_insertAll α [] pairs h

end Firestore.Fields
