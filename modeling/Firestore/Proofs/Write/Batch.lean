import Firestore.Proofs.Rest.Write
import Firestore.Proofs.Write.MergeFields
import Firestore.Proofs.Write.Update
import Firestore.Write.Batch

/-!
# Runs of calls on a batch

A call either fails and leaves the batch as it was, or adds the one write that it asks
for (`WriteBatch.perform_cases`).  Whichever way the data of that write was made, it has
been split (`BatchCall.Makes.isClean`).  Over a run, whatever calls fail on the way, the
batch holds the writes of the calls that succeeded (`WriteBatch.Holds`), so that it can
be committed unless a moment is out of range.
-/

namespace Firestore

open Value

/-! ## The data of a write has been split -/

/-- Copying puts nothing but parts of plain data together. -/
theorem copyFields_no_transform {plain copied result : Fields Value}
    {touched listed mask : List FieldPath} (hplain : anyFieldTransform plain = false)
    (hcopied : anyFieldTransform copied = false)
    (h : copyFields plain touched copied listed = .ok (result, mask)) :
    anyFieldTransform result = false := by
  induction listed generalizing copied mask with
  | nil =>
      cases h
      exact hcopied
  | cons field rest ih =>
      rcases copyFields_cons_eq_ok h with ⟨v, found, hget, rfl, hrest⟩ | ⟨_, hrest⟩
      · exact ih (anyFieldTransform_setAt hcopied _ (hasTransform_of_getAt hplain hget)) hrest
      · exact ih hcopied hrest

theorem mem_keptTransforms {transforms : List FieldTransform} {t : FieldTransform} :
    t ∈ keptTransforms transforms ↔ t ∈ transforms ∧ t.operation.isDelete = false := by
  simp [keptTransforms]

/-- However a document is set, the fields are those of the plain part or copied from it, and the
transforms are some of those that are no removals. -/
theorem setData_parts {data : Fields Value} {options : SetOptions} {result : SetData}
    (h : setData data options = .ok result) :
    ∃ plain extracted, splitTransforms data = .ok (plain, extracted) ∧
      anyFieldTransform result.fields = false ∧ result.transforms ⊆ keptTransforms extracted := by
  obtain ⟨⟨plain, extracted⟩, hsplit, h⟩ := bind_eq_ok.mp h
  have hplain := (Extraction.splits_fields (splitTransforms_eq_ok.mp hsplit).1).no_transform
  refine ⟨plain, extracted, hsplit, ?_⟩
  cases hmerge : options.isMerge with
  | false =>
      -- the document is replaced
      cases hdeletes : deletedPaths extracted with
      | nil =>
          simp only [hmerge, hdeletes] at h
          cases h
          exact ⟨hplain, List.Subset.refl _⟩
      | cons path rest => simp [hmerge, hdeletes] at h
  | true =>
      cases hlisted : options.mergeFields with
      | some listed =>
          simp only [hmerge, hlisted] at h
          obtain ⟨mask, hcopy, _, htransforms⟩ := mergeFieldsData_eq_ok h
          exact ⟨copyFields_no_transform hplain rfl hcopy, htransforms ▸ List.filter_subset_self _⟩
      | none =>
          simp only [hmerge, hlisted] at h
          obtain ⟨paths, _, h⟩ := bind_eq_ok.mp h
          split at h
          · simp at h
          · cases h
            exact ⟨hplain, List.Subset.refl _⟩

theorem isClean_of_setData {data : Fields Value} {options : SetOptions} {result : SetData}
    (h : setData data options = .ok result) (key : DocumentKey) :
    (Write.set key result).IsClean := by
  obtain ⟨plain, extracted, hsplit, hfields, htransforms⟩ := setData_parts h
  have hfound := Extraction.splits_fields (splitTransforms_eq_ok.mp hsplit).1
  refine ⟨hfields, fun t ht => ?_, fun t ht => ?_⟩
  · exact (mem_keptTransforms.mp (htransforms ht)).2
  · exact hfound.checked t (mem_keptTransforms.mp (htransforms ht)).1

theorem isClean_of_updateData {data : Fields Value} {u : UpdateData} (h : updateData data = .ok u)
    (key : DocumentKey) : (Write.update key u).IsClean :=
  have hsplit := isSplit_of_updateData h
  ⟨hsplit.no_transform, (updateData_eq_ok h).2.1, hsplit.checked⟩

namespace BatchCall

/-- What a call makes: a write of its own kind, for its document, of the data that it was given. -/
inductive Makes : BatchCall → Write → Prop
  | set {document : DocumentReference} {data : Native} {options : SetOptions}
      {fields : Fields Value} {result : SetData} (hfields : data.encodeFields = .ok fields)
      (hresult : setData fields options = .ok result) :
      Makes (.set document data options) (.set document.key result)
  | update {document : DocumentReference} {data : Native} {fields : Fields Value}
      {result : UpdateData} (hfields : data.encodeFields = .ok fields)
      (hresult : updateData fields = .ok result) :
      Makes (.update document data) (.update document.key result)
  | delete (document : DocumentReference) : Makes (.delete document) (.delete document.key)

variable {call : BatchCall} {w : Write}

theorem makes_of_write (h : call.write = .ok w) : call.Makes w := by
  cases call with
  | set document data options =>
      obtain ⟨fields, hfields, h⟩ := bind_eq_ok.mp h
      obtain ⟨result, hresult, h⟩ := bind_eq_ok.mp h
      cases h
      exact .set hfields hresult
  | update document data =>
      obtain ⟨fields, hfields, h⟩ := bind_eq_ok.mp h
      obtain ⟨result, hresult, h⟩ := bind_eq_ok.mp h
      cases h
      exact .update hfields hresult
  | delete document =>
      cases h
      exact .delete document

/-- The write that a call makes is a write of its document. -/
theorem Makes.key_eq (h : call.Makes w) : w.key = call.document.key := by
  cases h <;> rfl

/-- Whatever data a call is given, that of its write has been split. -/
theorem Makes.isClean (h : call.Makes w) : w.IsClean := by
  cases h with
  | @set document _ _ _ _ _ hresult => exact isClean_of_setData hresult document.key
  | @update document _ _ _ _ hresult => exact isClean_of_updateData hresult document.key
  | delete document => exact ⟨rfl, List.forall_mem_nil _, List.forall_mem_nil _⟩

end BatchCall

/-! ## One call -/

namespace WriteBatch

theorem accepts_eq_ok {b : WriteBatch} {document : DocumentReference} :
    b.accepts document = .ok () ↔ b.size < capacity ∧ document.database = b.database := by
  unfold accepts
  split
  · rename_i hfull
    simp [Nat.not_lt_of_le hfull]
  · rename_i hroom
    split
    · rename_i hother
      simp [hother]
    · rename_i hsame
      simp [Nat.lt_of_not_le hroom, not_not.mp hsame]

/-- First the batch has to take the document, then the data has to allow a write. -/
theorem perform_eq (b : WriteBatch) (call : BatchCall) :
    b.perform call =
      match b.accepts call.document with
      | .error e => (.error e, b)
      | .ok () =>
        match call.write with
        | .error e => (.error e, b)
        | .ok w => (.ok (), b.push w) := by
  show (do b.accepts call.document; let w ← call.write; modify fun b => b.push w :
    Change Unit).run.run b = _
  cases b.accepts call.document <;> cases call.write <;> rfl

/-- A call fails and changes nothing, or the batch takes the write that it asks for. -/
theorem perform_cases (b : WriteBatch) (call : BatchCall) :
    (∃ e, b.perform call = (.error e, b)) ∨
      ∃ w, b.size < capacity ∧ call.document.database = b.database ∧ call.write = .ok w ∧
        b.perform call = (.ok (), b.push w) := by
  rw [perform_eq]
  cases haccepts : b.accepts call.document with
  | error e => exact .inl ⟨e, rfl⟩
  | ok _ =>
      obtain ⟨hroom, hsame⟩ := accepts_eq_ok.mp haccepts
      cases hwrite : call.write with
      | error e => exact .inl ⟨e, rfl⟩
      | ok w => exact .inr ⟨w, hroom, hsame, rfl, rfl⟩

/-- A call that fails leaves the batch as it was. -/
theorem eq_of_perform_error {b next : WriteBatch} {call : BatchCall} {e : Error}
    (h : b.perform call = (.error e, next)) : next = b := by
  rcases b.perform_cases call with ⟨_, hfails⟩ | ⟨w, _, _, _, htakes⟩
  · rw [hfails] at h
    exact (Prod.mk.inj h).2.symm
  · rw [htakes] at h
    cases (Prod.mk.inj h).1

/-- A call that succeeds puts the write that it makes at the end. -/
theorem push_of_perform_ok {b next : WriteBatch} {call : BatchCall}
    (h : b.perform call = (.ok (), next)) :
    ∃ w, next = b.push w ∧ call.Makes w ∧ w.key = call.document.key := by
  rcases b.perform_cases call with ⟨_, hfails⟩ | ⟨w, _, _, hwrite, htakes⟩
  · rw [hfails] at h
    cases (Prod.mk.inj h).1
  · rw [htakes] at h
    have hmakes := BatchCall.makes_of_write hwrite
    exact ⟨w, (Prod.mk.inj h).2.symm, hmakes, hmakes.key_eq⟩

/-- A full batch takes nothing, and no batch takes documents of another database. -/
theorem exists_perform_error {b : WriteBatch} {call : BatchCall}
    (h : b.size = capacity ∨ call.document.database ≠ b.database) :
    ∃ e, b.perform call = (.error e, b) := by
  rcases b.perform_cases call with hfails | ⟨w, hroom, hsame, _, _⟩
  · exact hfails
  · rcases h with hfull | hother
    · exact absurd hfull (Nat.ne_of_lt hroom)
    · exact absurd hsame hother

/-! ## Runs of calls -/

/-- The calls of a run that succeed, and the batch that the run leaves behind.  A call that fails
does not end the run. -/
def run (b : WriteBatch) : List BatchCall → List BatchCall × WriteBatch
  | [] => ([], b)
  | call :: rest =>
      match b.perform call with
      | (.ok (), next) => (call :: (next.run rest).1, (next.run rest).2)
      | (.error _, next) => next.run rest

theorem sublist_run (b : WriteBatch) (calls : List BatchCall) : (b.run calls).1.Sublist calls := by
  induction calls generalizing b with
  | nil => exact List.Sublist.refl []
  | cons call rest ih =>
      rw [run]
      split
      · exact (ih _).cons_cons call
      · exact (ih _).cons call

/-- A batch of a database holds the writes that some calls asked for. -/
structure Holds (d : DatabaseId) (done : List BatchCall) (b : WriteBatch) : Prop where
  database : b.database = d
  size_le : b.size ≤ capacity
  writes : List.Forall₂ (fun call w => call.document.database = d ∧ call.write = .ok w)
    done b.writes
  clean : ∀ w ∈ b.writes, w.IsClean

namespace Holds

variable {d : DatabaseId} {done : List BatchCall} {b : WriteBatch}

theorem start (d : DatabaseId) : Holds d [] (.new d) :=
  ⟨rfl, Nat.zero_le _, .nil, List.forall_mem_nil _⟩

theorem push (h : Holds d done b) {call : BatchCall} {w : Write} (hroom : b.size < capacity)
    (hsame : call.document.database = b.database) (hwrite : call.write = .ok w) :
    Holds d (done ++ [call]) (b.push w) := by
  refine ⟨h.database, ?_, ?_, ?_⟩
  · rw [size_push]
    exact hroom
  · rw [writes_push]
    exact List.rel_append h.writes (.cons ⟨hsame.trans h.database, hwrite⟩ .nil)
  · rw [writes_push, List.forall_mem_append]
    exact ⟨h.clean, List.forall_mem_singleton.mpr (BatchCall.makes_of_write hwrite).isClean⟩

/-- Over a run the batch keeps the writes that it has, and gets those of the calls that succeed. -/
theorem run (h : Holds d done b) (calls : List BatchCall) :
    Holds d (done ++ (b.run calls).1) (b.run calls).2 := by
  -- on the calls; one that fails leaves both the batch and the calls that succeeded as they were
  induction calls generalizing done b with
  | nil => simpa [WriteBatch.run] using h
  | cons call rest ih =>
      rcases b.perform_cases call with ⟨e, hfails⟩ | ⟨w, hroom, hsame, hwrite, htakes⟩
      · rw [WriteBatch.run, hfails]
        exact ih h
      · rw [WriteBatch.run, htakes, List.append_cons]
        exact ih (h.push hroom hsame hwrite)

/-- A batch can be committed if the calendar has the moments in its writes.  Each of them is sent as
what it is. -/
theorem commitRequest_ok (h : Holds d done b) (htimes : ∀ w ∈ b.writes, w.InCalendar) :
    ∃ rendered, b.commitRequest = .ok (.object [("writes", .array rendered)]) ∧
      List.Forall₂ (fun w j => w.SentAs d j) b.writes rendered ∧
      List.Forall₂ (fun call j => j.writtenName? = some (.string call.document.name))
        done rendered := by
  obtain ⟨rendered, hrendered⟩ := exists_mapM_eq_ok.mpr fun w hw =>
    (Write.exists_restEncode_iff (d := b.database) (h.clean w hw)).mpr (htimes w hw)
  have hsent : List.Forall₂ (fun w j => w.SentAs d j) b.writes rendered :=
    (mapM_eq_ok.mp hrendered).imp fun w j hj => h.database ▸ Write.sentAs_of_restEncode hj
  refine ⟨rendered, ?_, hsent, ?_⟩
  · rw [commitRequest, restCommit, hrendered]
    rfl
  · -- by position: what is sent there is the write of the call there
    obtain ⟨hlength, hcalls⟩ := List.forall₂_iff_get.mp h.writes
    obtain ⟨hsame, hwrites⟩ := List.forall₂_iff_get.mp hsent
    refine List.forall₂_iff_get.mpr ⟨hlength.trans hsame, fun i hi hlast => ?_⟩
    obtain ⟨hdatabase, hwrite⟩ := hcalls i hi (hlength ▸ hi)
    rw [(hwrites i (hlength ▸ hi) hlast).name, (BatchCall.makes_of_write hwrite).key_eq,
      ← hdatabase]
    rfl

/-- Otherwise the batch is refused, which the moments are to blame for. -/
theorem commitRequest_error (h : Holds d done b) (htimes : ∃ w ∈ b.writes, ¬ w.InCalendar) :
    ∃ e, b.commitRequest = .error e ∧ e.code = .invalidArgument := by
  have hfails : FailsWith Error.IsInvalidArgument b.commitRequest :=
    (FailsWith.mapM fun w hw => Write.restEncode_fails (h.clean w hw)).bind fun _ => .ok _
  cases hcommit : b.commitRequest with
  | error e => exact ⟨e, rfl, hfails e hcommit⟩
  | ok j =>
      obtain ⟨w, hw, hnot⟩ := htimes
      have hall := exists_mapM_eq_ok.mp (exists_bind_ok.mp ⟨j, hcommit⟩)
      exact absurd ((Write.exists_restEncode_iff (h.clean w hw)).mp (hall w hw)) hnot

end Holds

/-! ## Every run -/

/-- **Every run of calls on a batch.**  The batch has the writes that the calls which succeeded
make, in their order, five hundred at most, with plain fields and no removal among the transforms.
One more call changes nothing if it fails, or puts its write at the end; it fails if the document
belongs to another database or the batch is full.  The batch can be committed, with each write sent
as what it is and naming its document, unless a moment is out of range, for which the commit is
refused. -/
theorem run_new (d : DatabaseId) (calls : List BatchCall) :
    ∃ done b, (new d).run calls = (done, b) ∧ done.Sublist calls ∧
      (∀ call e next, b.perform call = (.error e, next) → next = b) ∧
      (∀ call next, b.perform call = (.ok (), next) →
        ∃ w, next = b.push w ∧ call.Makes w ∧ w.key = call.document.key) ∧
      (∀ call, b.size = capacity ∨ call.document.database ≠ d →
        ∃ e, b.perform call = (.error e, b)) ∧
      b.size ≤ capacity ∧
      List.Forall₂ (fun call w => call.write = .ok w ∧ call.Makes w ∧ w.key = call.document.key)
        done b.writes ∧
      (∀ w ∈ b.writes, (map w.fields).hasTransform = false ∧
        ∀ t ∈ w.transforms, t.operation.isDelete = false) ∧
      ((∀ w ∈ b.writes, w.InCalendar) →
        ∃ rendered, b.commitRequest = .ok (.object [("writes", .array rendered)]) ∧
          List.Forall₂ (fun w j => w.SentAs d j) b.writes rendered ∧
          List.Forall₂ (fun call j => j.writtenName? = some (.string call.document.name))
            done rendered) ∧
      ((∃ w ∈ b.writes, ¬ w.InCalendar) →
        ∃ e, b.commitRequest = .error e ∧ e.code = .invalidArgument) := by
  have h := (Holds.start d).run calls
  rw [List.nil_append] at h
  refine ⟨_, _, rfl, sublist_run _ calls, fun _ _ _ => eq_of_perform_error,
    fun _ _ => push_of_perform_ok, fun call hcall => ?_, h.size_le,
    h.writes.imp fun call w hcall => ?_,
    fun w hw => ⟨(h.clean w hw).no_transform, (h.clean w hw).kept⟩, h.commitRequest_ok,
    h.commitRequest_error⟩
  · exact exists_perform_error (hcall.imp_right fun hother => hother.trans_eq h.database.symm)
  · have hmakes := BatchCall.makes_of_write hcall.2
    exact ⟨hcall.2, hmakes, hmakes.key_eq⟩

end WriteBatch

end Firestore
