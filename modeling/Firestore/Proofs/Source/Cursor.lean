import Firestore.Proofs.Steps
import Firestore.Shape.Record
import Firestore.Source.Cursor

/-!
# Readers that walk through maps

The readers of maps, of records and of values take the entries of a map from a list.
Here each of them is shown to be a walk with a cursor, which reads a key before it takes
the value under it.  A walk that keeps something of every entry does so in the order of
the entries (`walk_concat`), which is what maps and values are made of; a record keeps
what it has seen so far.
-/

namespace Firestore

namespace Source.Cursor

variable {κ α : Type} (readKey : Source → Except Error κ) (take : κ → Source → Except Error α)

private theorem walk_concat_from (done : List α) (entries : List (Source × Source)) :
    walk readKey (fun done k s => (fun a => done ++ [a]) <$> take k s) done (start entries) =
      (fun more => done ++ more) <$>
        entries.mapM fun entry => readKey entry.1 >>= fun k => take k entry.2 := by
  rw [walk_start]
  -- on the entries; what was kept before stands in front of what the rest gives
  induction entries generalizing done with
  | nil => simp
  | cons entry rest ih =>
      rw [List.foldlM_cons, List.mapM_cons]
      cases readKey entry.1 with
      | error e => rfl
      | ok k =>
          simp only [ok_bind]
          cases take k entry.2 with
          | error e => rfl
          | ok a =>
              simp only [map_ok, ok_bind, ih]
              cases rest.mapM fun entry => readKey entry.1 >>= fun k => take k entry.2 with
              | error e => rfl
              | ok more => simp

/-- A walk that keeps something of every entry goes through the entries in their order. -/
theorem walk_concat (entries : List (Source × Source)) :
    walk readKey (fun done k s => (fun a => done ++ [a]) <$> take k s) [] (start entries) =
      entries.mapM fun entry => readKey entry.1 >>= fun k => take k entry.2 := by
  rw [walk_concat_from]
  exact id_map _

end Source.Cursor

open Source.Cursor

/-- **A map is read by walking through it.** -/
theorem Reader.entries_eq_walk (readKey : Format → Source → Except Error Key) (read : Reader)
    (format : Format) (sources : List (Source × Source)) :
    entries readKey read format sources =
      walk (readKey format.keys)
        (fun done k s => (fun entry => done ++ [entry]) <$>
          ((fun d => (k, d)) <$> format.locate k.written (read format s)))
        [] (start sources) := by
  rw [walk_concat]
  induction sources with
  | nil => rfl
  | cons source rest ih =>
      rw [entries, ih, List.mapM_cons]
      cases readKey format.keys source.1 with
      | error e => rfl
      | ok k => cases h : format.locate k.written (read format source.2) <;> simp [h]

/-- **The fields of a value are read by walking through them.** -/
theorem Source.readEntries_eq_walk (format : Format) (sources : List (Source × Source)) :
    readEntries format sources =
      walk (readText format.keys)
        (fun done name s => (fun field => done ++ [field]) <$>
          ((fun v => (name, v)) <$> format.locate name (readValue format s)))
        [] (start sources) := by
  rw [walk_concat]
  induction sources with
  | nil => rfl
  | cons source rest ih =>
      rw [readEntries, ih, List.mapM_cons]
      cases readText format.keys source.1 with
      | error e => rfl
      | ok name => cases h : format.locate name (readValue format source.2) <;> simp [h]

namespace Reader

/-- What a record does with the value under a key: it reads a field that it knows, and passes over
anything else. -/
def useField (format : Format) (seen : List (String × Datum)) (field : Option FieldReader)
    (s : Source) : Except Error (List (String × Datum)) :=
  match field with
  | none => (fun _ => seen) <$> s.answer format .skip
  | some field => newField field seen format s

/-- **A record is read by walking through its entries.** -/
theorem fieldEntries_eq_walk (fields : List FieldReader) (strict : Bool) (format : Format)
    (seen : List (String × Datum)) (sources : List (Source × Source)) :
    fieldEntries fields strict format seen sources =
      walk (fieldAt fields strict format.keys) (useField format) seen (start sources) := by
  rw [walk_start]
  induction sources generalizing seen with
  | nil => rfl
  | cons source rest ih =>
      rw [fieldEntries, List.foldlM_cons]
      cases fieldAt fields strict format.keys source.1 with
      | error e => rfl
      | ok field =>
          cases field with
          | none =>
              simp only [ok_bind, useField, ih]
              cases source.2.answer format .skip <;> rfl
          | some field => simp only [ok_bind, useField, ih]

end Reader

end Firestore
