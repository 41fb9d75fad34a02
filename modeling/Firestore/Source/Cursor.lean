import Firestore.Source.Answer

/-!
# Walking through a map

A cursor hands out the entries of a map, first the key and then the value.  A
value that is asked for before its key is refused.

A reader of maps takes a key and reads it, and only then takes the value and uses
both; `walk` goes on like this to the end.  Such a walk is never refused by the
cursor itself: it is a pass over the entries in their order (`walk_start`).
-/

namespace Firestore.Source

/-- A place in a map: the entry whose key was taken last, and the entries ahead. -/
structure Cursor where
  current : Option (Source × Source)
  ahead : List (Source × Source)

namespace Cursor

def start (entries : List (Source × Source)) : Cursor := ⟨none, entries⟩

/-- Takes the next key, if there is one. -/
def nextKey (c : Cursor) : Option (Source × Cursor) :=
  match c.ahead with
  | [] => none
  | entry :: rest => some (entry.1, ⟨some entry, rest⟩)

/-- Takes the value of the key that was taken last. -/
def nextValue (c : Cursor) : Except Error (Source × Cursor) :=
  match c.current with
  | some entry => .ok (entry.2, { c with current := none })
  | none => .error (.invalidArgument "map value requested before its key")

/-- Once a key and its value are taken, one entry less is ahead. -/
theorem ahead_lt {c held next : Cursor} {k s : Source} (hkey : c.nextKey = some (k, held))
    (hvalue : held.nextValue = .ok (s, next)) : next.ahead.length < c.ahead.length := by
  obtain ⟨current, ahead⟩ := c
  cases ahead with
  | nil => contradiction
  | cons entry rest =>
      cases hkey
      cases hvalue
      exact Nat.lt_succ_self _

section Walk

variable {κ σ : Type} (readKey : Source → Except Error κ) (use : σ → κ → Source → Except Error σ)

/-- Walks through the entries ahead.  A key is read as soon as it is taken; then its value is taken,
and both are used. -/
def walk (state : σ) (c : Cursor) : Except Error σ :=
  match _hkey : c.nextKey with
  | none => .ok state
  | some (k, held) => do
      let k ← readKey k
      match _hvalue : held.nextValue with
      | .error e => .error e
      | .ok (s, next) => do
          let state ← use state k s
          walk state next
termination_by c.ahead.length
decreasing_by exact ahead_lt _hkey _hvalue

/-- **A walk through a map is a pass over its entries.** -/
theorem walk_start (state : σ) (entries : List (Source × Source)) :
    walk readKey use state (start entries) =
      entries.foldlM (fun state entry => readKey entry.1 >>= fun k => use state k entry.2)
        state := by
  induction entries generalizing state with
  | nil =>
      rw [walk]
      rfl
  | cons entry rest ih =>
      rw [walk, List.foldlM_cons]
      show (readKey entry.1 >>= fun k => use state k entry.2 >>= fun state =>
        walk readKey use state (start rest)) = _
      simp only [ih, bind_assoc]

end Walk

end Cursor

end Firestore.Source
