import Firestore.Native.Encoding

/-!
# Maps that are written call by call

A map is written by calls for its keys and its values, and nothing binds whoever calls to
give them in turn.  The writer holds on to the last key.  The next value goes under it; if
another key comes instead, or nothing more, it is forgotten.  A value without a key is
refused.

`Native.ofCalls` is the map that such calls write, as native data.
-/

namespace Firestore

/-- A call to the writer of a map: for a key, or for what a key holds. -/
inductive MapCall where
  | key (k : Native)
  | item (n : Native)

/-- A map that is being written. -/
structure MapWriter where
  fields : Fields Value
  /-- The key that the next value goes under. -/
  pending : Option String

namespace MapWriter

def start : MapWriter := ⟨[], none⟩

def perform (w : MapWriter) : MapCall → Except Error MapWriter
  | .key k => do return { w with pending := some (← k.key) }
  | .item n =>
      match w.pending with
      | none => .error EncodingFault.valueBeforeKey.error
      | some name => do
          let v ← inside name n.encode
          return ⟨w.fields.insert name v, none⟩

/-- The fields of the map after all calls, of which the first one that fails is the last one. -/
def run (w : MapWriter) (calls : List MapCall) : Except Error (Fields Value) := do
  let w ← calls.foldlM perform w
  return w.fields

end MapWriter

namespace Native

/-- The calls that write some entries, key by key with what it holds. -/
def calls : List (Native × Native) → List MapCall
  | [] => []
  | (k, item) :: rest => .key k :: .item item :: calls rest

/-- The entries that calls write while the key `pending` is held on to.  Nothing follows a key
that is refused, and what has no key has one that is refused for it. -/
def callEntries (pending : Option Native) : List MapCall → List (Native × Native)
  | [] => []
  | .key k :: rest =>
      match k.key with
      | .ok _ => callEntries (some k) rest
      | .error _ => [(k, .null)]
  | .item n :: rest =>
      match pending with
      | some k => (k, n) :: callEntries none rest
      | none => [(.refusal EncodingFault.valueBeforeKey.error.message, n)]

/-- The map that calls write. -/
def ofCalls (calls : List MapCall) : Native := .map (callEntries none calls)

end Native

end Firestore
