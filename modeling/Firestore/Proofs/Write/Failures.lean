import Firestore.Proofs.Steps
import Firestore.Value.Everywhere
import Firestore.Write.Data

/-!
# Failures blame the data

Data that cannot be written is refused as an invalid argument, whichever step finds
the fault: reading a name as a path, taking a transform out, or putting an entry in.  The
refusal is about the data as a whole: its message names the field, its trail is empty.
-/

namespace Firestore

open Value

/-! ## The faults -/

theorem FieldPath.Fault.blamesWhole (fault : FieldPath.Fault) : fault.error.BlamesWhole := by
  cases fault <;> exact ⟨rfl, rfl⟩

theorem ExtractionFault.blamesWhole (fault : ExtractionFault) : fault.error.BlamesWhole := by
  cases fault <;> exact ⟨rfl, rfl⟩

theorem WriteFault.blamesWhole (fault : WriteFault) : fault.error.BlamesWhole := by
  cases fault <;> exact ⟨rfl, rfl⟩

/-! ## Paths -/

theorem FieldPath.ofSegments_fails (segments : List String) :
    FailsWith Error.BlamesWhole (ofSegments segments) := by
  unfold ofSegments
  split
  · exact .error (Fault.blamesWhole _)
  · split
    · exact .error (Fault.blamesWhole _)
    · exact .ok _

theorem FieldPath.parse_fails (s : String) : FailsWith Error.BlamesWhole (parse s) := by
  unfold parse
  split
  · exact .error (Fault.blamesWhole _)
  · exact ofSegments_fails _

/-! ## Taking transforms out -/

namespace Extraction

theorem checked_fails (path : FieldPath) (t : Transform Value) :
    FailsWith Error.BlamesWhole (checked path t) := by
  unfold checked
  split
  · split
    · exact .ok _
    · exact .error (ExtractionFault.blamesWhole _)
  · split
    · exact .error (ExtractionFault.blamesWhole _)
    · exact .ok _
  · split
    · exact .error (ExtractionFault.blamesWhole _)
    · exact .ok _
  · exact .ok _

private theorem fields_fails_of {data : Fields Value} (parent : List String)
    (h : ∀ entry ∈ data, ∀ segments, FailsWith Error.BlamesWhole (field segments entry.2)) :
    FailsWith Error.BlamesWhole (fields parent data) := by
  induction data with
  | nil => exact .ok _
  | cons entry rest ih =>
      obtain ⟨hentry, hrest⟩ := List.forall_mem_cons.mp h
      rw [fields]
      refine (hentry _).bind fun split => (ih hrest).bind fun others => ?_
      obtain ⟨kept, found⟩ := split
      cases kept <;> exact .ok _

theorem field_fails (segments : List String) (v : Value) :
    FailsWith Error.BlamesWhole (field segments v) := by
  induction v generalizing segments with
  | map data ih =>
      cases data with
      | nil => exact .ok _
      | cons first rest =>
          rw [field]
          have hfields := fields_fails_of segments fun entry hentry => ih entry hentry
          exact hfields.bind fun _ => .ok _
  | array elements ih =>
      rw [field]
      refine (FieldPath.ofSegments_fails segments).bind fun path => ?_
      cases anyTransform elements with
      | true => exact .error (ExtractionFault.blamesWhole _)
      | false => exact .ok _
  | transform t ih =>
      rw [field]
      exact (FieldPath.ofSegments_fails segments).bind fun path =>
        (checked_fails path t).bind fun _ => .ok _
  | _ => exact .ok _

theorem fields_fails (parent : List String) (data : Fields Value) :
    FailsWith Error.BlamesWhole (fields parent data) :=
  fields_fails_of parent fun entry _ segments => field_fails segments entry.2

theorem distinct_fails (transforms : List FieldTransform) :
    FailsWith Error.BlamesWhole (distinct transforms) := by
  unfold distinct
  split
  · exact .error (ExtractionFault.blamesWhole _)
  · exact .ok _

end Extraction

/-! ## Updates -/

namespace UpdateData

theorem put_fails (u : UpdateData) (path : FieldPath) (v : Value) :
    FailsWith Error.BlamesWhole (u.put path v) := by
  unfold put
  split
  · exact .ok _
  · exact (Extraction.checked_fails path _).bind fun _ => .ok _
  · refine (Extraction.fields_fails _ _).bind fun split => ?_
    obtain ⟨plain, found⟩ := split
    cases plain <;> exact .ok _
  · split
    · exact .error (ExtractionFault.blamesWhole _)
    · exact .ok _

theorem add_fails (u : UpdateData) (entry : String × Value) :
    FailsWith Error.BlamesWhole (u.add entry) := by
  refine (FieldPath.parse_fails entry.1).bind fun path => ?_
  split
  · exact .error (WriteFault.blamesWhole _)
  · exact put_fails u path entry.2

end UpdateData

/-- Whatever is wrong with an update, its data is to blame. -/
theorem updateData_fails (data : Fields Value) :
    FailsWith Error.IsInvalidArgument (updateData data) := by
  have hwhole : FailsWith Error.BlamesWhole (updateData data) := by
    refine (FailsWith.foldlM UpdateData.add_fails _ data).bind fun u => ?_
    cases hfind : u.transforms.find? fun t => t.operation.isDelete with
    | some t => exact .error (WriteFault.blamesWhole _)
    | none =>
        refine (Extraction.distinct_fails u.transforms).bind fun _ => ?_
        split
        · exact .error (WriteFault.blamesWhole _)
        · exact .ok u
  exact hwhole.imp fun e he => he.1

end Firestore
