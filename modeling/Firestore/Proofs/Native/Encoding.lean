import Firestore.Native.Encoding
import Firestore.Proofs.Steps

/-!
# What encoding makes, part by part

Sequences and maps make arrays and records of what their items make
(`encodeAll_eq_ok`, `encodeEntries_eq_ok`).  Leaves are rebuilt from whatever their
wrapper holds, but a moment is brought into normal form and a transform keeps the
operands it was given (`leaf_cases`).

`Native.induction` is the induction over native data that encoding follows.
-/

namespace Firestore

/-! ## Following native data -/

/-- Induction over native data, for each thing that stands directly inside it. -/
@[elab_as_elim, induction_eliminator]
theorem Native.induction {motive : Native → Prop}
    (null : motive .null)
    (bool : ∀ b, motive (.bool b))
    (int : ∀ n, motive (.int n))
    (double : ∀ x, motive (.double x))
    (text : ∀ s, motive (.text s))
    (bytes : ∀ bs, motive (.bytes bs))
    (present : ∀ inner, motive inner → motive (.present inner))
    (wrapper : ∀ name inner, motive inner → motive (.wrapper name inner))
    (variant : ∀ name payload, motive payload → motive (.variant name payload))
    (seq : ∀ items, (∀ item ∈ items, motive item) → motive (.seq items))
    (map : ∀ entries, (∀ entry ∈ entries, motive entry.1 ∧ motive entry.2) → motive (.map entries))
    (keyless : motive .keyless)
    (refusal : ∀ message, motive (.refusal message))
    (n : Native) : motive n := by
  refine @Native.rec motive (fun items => ∀ item ∈ items, motive item)
    (fun entries => ∀ entry ∈ entries, motive entry.1 ∧ motive entry.2)
    (fun entry => motive entry.1 ∧ motive entry.2)
    null bool int double text bytes present wrapper variant seq map keyless refusal
    ?_ ?_ ?_ ?_ ?_ n
  · simp
  · intro head tail hhead htail item hitem
    exact (List.mem_cons.mp hitem).elim (fun heq => heq ▸ hhead) (htail item)
  · simp
  · intro head tail hhead htail entry hentry
    exact (List.mem_cons.mp hentry).elim (fun heq => heq ▸ hhead) (htail entry)
  · intro key item hkey hitem
    exact ⟨hkey, hitem⟩

namespace Native

theorem encodeAll_eq_ok {index : Nat} {items : List Native} {elements : List Value} :
    encodeAll index items = .ok elements ↔
      List.Forall₂ (fun item v => item.encode = .ok v) items elements :=
  indexed_eq_ok encodeAll encode (fun _ => rfl) fun _ _ _ => rfl

theorem encodeEntries_eq_ok {entries : List (Native × Native)} {fields : List (String × Value)} :
    encodeEntries entries = .ok fields ↔
      List.Forall₂ (fun entry field => entry.1.key = .ok field.1 ∧ entry.2.encode = .ok field.2)
        entries fields := by
  induction entries generalizing fields with
  | nil => simp [encodeEntries, eq_comm]
  | cons entry rest ih =>
      obtain ⟨k, item⟩ := entry
      simp only [encodeEntries, bind_eq_ok, pure_eq_ok, inside_eq_ok, ih,
        List.forall₂_cons_left_iff]
      constructor
      · rintro ⟨name, hname, v, hv, others, hothers, ⟨⟩⟩
        exact ⟨(name, v), others, ⟨hname, hv⟩, hothers, rfl⟩
      · rintro ⟨⟨name, v⟩, others, ⟨hname, hv⟩, hothers, rfl⟩
        exact ⟨name, hname, v, hv, others, hothers, rfl⟩

end Native

/-! ## Leaves -/

/-- The operands of a transform that is put together are some of those given. -/
theorem Transform.mem_of_ofParts? {α : Type} {tag : String} {operands : List α} {t : Transform α}
    (h : ofParts? tag operands = some t) {a : α} (ha : a ∈ t.operands) : a ∈ operands := by
  cases t with
  | delete => contradiction
  | serverTimestamp => contradiction
  | _ =>
      -- no other tag makes this kind, and it is made of what it was given
      unfold ofParts? at h
      split at h <;> cases h
      exact ha

/-- A leaf is a moment in normal form, a point, bytes, a reference, or a transform of operands that
were in the payload. -/
theorem Value.leaf_cases {m : Marker} {payload w : Value} (h : payload.leaf m = .ok w) :
    (∃ seconds nanos, w = .timestamp (.normalized seconds nanos)) ∨ (∃ p, w = .geoPoint p) ∨
      (∃ bs, w = .bytes bs) ∨ (∃ name, w = .reference name) ∨
      ∃ tag operands t, payload = .array [.string tag, .array operands] ∧
        Transform.ofParts? tag operands = some t ∧ w = .transform t := by
  unfold Value.leaf at h
  split at h
  · split at h
    · cases h
      exact .inl ⟨_, _, rfl⟩
    · contradiction
  · split at h
    · obtain ⟨p, -, rfl⟩ := map_eq_ok.mp h
      exact .inr (.inl ⟨p, rfl⟩)
    · contradiction
  · cases h
    exact .inr (.inr (.inl ⟨_, rfl⟩))
  · cases h
    exact .inr (.inr (.inr (.inl ⟨_, rfl⟩)))
  · split at h
    · rename_i t ht
      cases h
      exact .inr (.inr (.inr (.inr ⟨_, _, t, rfl, ht, rfl⟩)))
    · contradiction
  · contradiction

end Firestore
