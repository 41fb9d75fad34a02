import Firestore.Native.Calls
import Firestore.Proofs.Fields
import Firestore.Proofs.Steps

/-!
# Maps that are written call by call are native data

Entries that are written by a call for each key and one for each value make the map that
they are (`encode_map`).  The other way round, whatever calls are made, native data stands for
them: what it makes is what they make, and it is refused as they are (`encode_ofCalls`).
-/

namespace Firestore

namespace MapWriter

theorem run_key (w : MapWriter) (k : Native) (rest : List MapCall) :
    w.run (.key k :: rest) = k.key >>= fun name => run { w with pending := some name } rest := by
  unfold run
  rw [List.foldlM_cons, perform]
  cases k.key <;> rfl

theorem run_item {w : MapWriter} {name : String} (h : w.pending = some name) (n : Native)
    (rest : List MapCall) :
    w.run (.item n :: rest) =
      inside name n.encode >>= fun v => run ⟨w.fields.insert name v, none⟩ rest := by
  unfold run
  rw [List.foldlM_cons, perform, h]
  dsimp only
  cases inside name n.encode <;> rfl

theorem run_item_keyless {w : MapWriter} (h : w.pending = none) (n : Native)
    (rest : List MapCall) :
    w.run (.item n :: rest) = .error EncodingFault.valueBeforeKey.error := by
  unfold run
  rw [List.foldlM_cons, perform, h]
  rfl

end MapWriter

namespace Native

open MapWriter

/-- Entries add to a map what they make, whatever key was there before. -/
theorem run_calls (w : MapWriter) (entries : List (Native × Native)) :
    w.run (calls entries) = w.fields.insertAll <$> encodeEntries entries := by
  induction entries generalizing w with
  | nil => rfl
  | cons entry rest ih =>
      obtain ⟨k, item⟩ := entry
      rw [calls, run_key, encodeEntries]
      cases k.key with
      | error e => rfl
      | ok name =>
          rw [ok_bind, ok_bind, run_item rfl]
          cases inside name item.encode with
          | error e => rfl
          | ok v =>
              rw [ok_bind, ok_bind, ih]
              cases encodeEntries rest <;> rfl

/-- Calls add to a map what their entries make. -/
theorem run_callEntries {w : MapWriter} {pending : Option Native}
    (h : Option.Rel (fun k name => k.key = .ok name) pending w.pending) (calls : List MapCall) :
    w.run calls = w.fields.insertAll <$> encodeEntries (callEntries pending calls) := by
  -- on the calls; the key at hand is one that makes a name, so its entry starts with the value
  induction calls generalizing w pending with
  | nil => rfl
  | cons call rest ih =>
      cases call with
      | key k =>
          rw [run_key, callEntries]
          cases hkey : k.key with
          | error e =>
              dsimp only
              rw [encodeEntries, hkey]
              rfl
          | ok name =>
              rw [ok_bind]
              exact ih (.some hkey)
      | item n =>
          obtain ⟨fields, held⟩ := w
          cases h with
          | none =>
              rw [run_item_keyless rfl]
              rfl
          | @some k name hkey =>
              rw [run_item rfl, callEntries, encodeEntries, hkey, ok_bind]
              cases inside name n.encode with
              | error e => rfl
              | ok v =>
                  rw [ok_bind, ok_bind, ih .none]
                  cases encodeEntries (callEntries none rest) <;> rfl

theorem encode_map_insertAll (entries : List (Native × Native)) :
    (map entries).encode = Value.map <$> (Fields.insertAll [] <$> encodeEntries entries) := by
  rw [encode]
  cases encodeEntries entries <;> rfl

/-- **A map is written entry by entry**, with a call for each key and one for what it holds. -/
theorem encode_map (entries : List (Native × Native)) :
    (map entries).encode = Value.map <$> start.run (calls entries) := by
  rw [run_calls, encode_map_insertAll]
  rfl

/-- **Whatever calls write a map, native data stands for them.** -/
theorem encode_ofCalls (calls : List MapCall) :
    (ofCalls calls).encode = Value.map <$> start.run calls := by
  rw [run_callEntries .none, ofCalls, encode_map_insertAll]
  rfl

example : (ofCalls [.key (.text "a"), .key (.text "b"), .item .null, .key (.int 7)]).encode =
    .ok (.map [("b", .null)]) := rfl

end Native

end Firestore
