import Firestore.Proofs.Native.Closure

/-!
# Data of general kinds makes no leaves

Moments, points, references and transforms come from wrappers with their reserved names
only (`everywhere_isGeneral`).  No other name makes a difference: fields, keys and variants
may have the reserved names, and the value that is made is read back as it is, leaves being
recognised by name on the one side and by their kind on the other (`unmarked_encode`).
-/

namespace Firestore

namespace Native

mutual

/-- Whether no wrapper of what is written has the name of a leaf.  Keys are looked through. -/
def isUnmarked : Native → Bool
  | .present inner => inner.isUnmarked
  | .wrapper name inner => (Marker.ofName? name).isNone && inner.isUnmarked
  | .variant _ payload => payload.isUnmarked
  | .seq items => allUnmarked items
  | .map entries => entriesUnmarked entries
  | _ => true

/-- Whether no item has a wrapper with the name of a leaf. -/
def allUnmarked : List Native → Bool
  | [] => true
  | item :: rest => item.isUnmarked && allUnmarked rest

/-- Whether no entry holds a wrapper with the name of a leaf. -/
def entriesUnmarked : List (Native × Native) → Bool
  | [] => true
  | (_, item) :: rest => item.isUnmarked && entriesUnmarked rest

end

theorem isUnmarked_seq {items : List Native} :
    (seq items).isUnmarked = true ↔ ∀ item ∈ items, item.isUnmarked = true := by
  rw [isUnmarked]
  induction items with
  | nil => simp [allUnmarked]
  | cons item rest ih => rw [allUnmarked, Bool.and_eq_true, ih, List.forall_mem_cons]

theorem isUnmarked_map {entries : List (Native × Native)} :
    (map entries).isUnmarked = true ↔ ∀ entry ∈ entries, entry.2.isUnmarked = true := by
  rw [isUnmarked]
  induction entries with
  | nil => simp [entriesUnmarked]
  | cons entry rest ih => rw [entriesUnmarked, Bool.and_eq_true, ih, List.forall_mem_cons]

end Native

namespace Value

/-- A value of a kind that general data has as well: no moment, point, reference or transform. -/
def IsGeneral : Value → Prop
  | .timestamp _ | .reference _ | .geoPoint _ | .transform _ => False
  | .null | .boolean _ | .integer _ | .double _ | .string _ | .bytes _ | .array _ | .map _ => True

end Value

namespace Native

/-- **Without reserved wrappers there are no leaves**, at any depth. -/
theorem everywhere_isGeneral {n : Native} {v : Value} (h : n.isUnmarked = true)
    (hmade : n.encode = .ok v) : v.Everywhere Value.IsGeneral := by
  induction n generalizing v with
  | null | bool b | double x | text s | bytes bs =>
      cases hmade
      trivial
  | int n =>
      unfold encode at hmade
      split at hmade
      · cases hmade
        trivial
      · contradiction
  | present inner ih => exact ih h hmade
  | wrapper name inner ih =>
      rw [isUnmarked, Bool.and_eq_true, Option.isNone_iff_eq_none] at h
      obtain ⟨payload, hpayload, hmade⟩ := bind_eq_ok.mp hmade
      -- the only case with a choice: without a leaf to make, the payload is handed on
      rw [h.1] at hmade
      cases hmade
      exact ih h.2 hpayload
  | variant name payload ih =>
      obtain ⟨w, hw, hmade⟩ := bind_eq_ok.mp hmade
      cases hmade
      have hgeneral := ih h (inside_eq_ok.mp hw)
      exact Value.everywhere_map.mpr ⟨trivial, List.forall_mem_singleton.mpr hgeneral⟩
  | seq items ih =>
      obtain ⟨elements, helements, hmade⟩ := bind_eq_ok.mp hmade
      cases hmade
      refine Value.everywhere_array.mpr ⟨trivial, fun w hw => ?_⟩
      obtain ⟨item, hitem, hw⟩ := exists_of_mem_forall₂ (encodeAll_eq_ok.mp helements) hw
      exact ih item hitem (isUnmarked_seq.mp h item hitem) hw
  | map entries ih =>
      obtain ⟨fields, hfields, hmade⟩ := bind_eq_ok.mp hmade
      cases hmade
      refine Value.everywhere_map.mpr ⟨trivial, fun field hfield => ?_⟩
      obtain ⟨entry, hentry, -, hw⟩ :=
        exists_of_mem_forall₂ (encodeEntries_eq_ok.mp hfields) (Fields.mem_of_mem_ofList hfield)
      exact (ih entry hentry).2 (isUnmarked_map.mp h entry hentry) hw
  | keyless => contradiction
  | refusal message => contradiction

/-- **User data cannot forge a leaf.**  What is written without the reserved wrappers is made of
general kinds at every depth, and read as itself, whatever names its fields and variants have. -/
theorem unmarked_encode {n : Native} {v : Value} (h : n.isUnmarked = true)
    (hmade : n.encode = .ok v) :
    v.Everywhere Value.IsGeneral ∧ Shape.value.decode v = .ok (.value v) :=
  ⟨everywhere_isGeneral h hmade, (isSettled_of_encode hmade).decode⟩

/-- A map, variants and a wrapper with reserved names, each around what would make the leaf. -/
theorem unmarked_encode_reserved :
    let stamp : Native := .map [(.text Marker.timestamp.name, .seq [.int 1, .int 2])]
    let removal : Native := .variant Marker.transform.name (.seq [.text "delete", .seq []])
    let wrapped : Native := .wrapper Marker.literalMap (.variant Marker.bytes.name (.bytes [7]))
    let n : Native := .map [(.wrapper Marker.reference.name (.text "a"), stamp),
      (.text Marker.literalMap, .seq [removal, wrapped])]
    let v : Value := .map [(Marker.literalMap, .array [
        .map [(Marker.transform.name, .array [.string "delete", .array []])],
        .map [(Marker.bytes.name, .bytes [7])]]),
      ("a", .map [(Marker.timestamp.name, .array [.integer 1, .integer 2])])]
    n.isUnmarked = true ∧ n.encode = .ok v ∧ v.Everywhere Value.IsGeneral ∧
      Shape.value.decode v = .ok (.value v) := by
  intro stamp removal wrapped n v
  have hunmarked : n.isUnmarked = true := by decide
  have hmade : n.encode = .ok v := rfl
  exact ⟨hunmarked, hmade, unmarked_encode hunmarked hmade⟩

end Native

end Firestore
