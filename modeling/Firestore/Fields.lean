/-!
# Named fields

A record is a list of pairs of a name and what it holds, the names strictly
increasing.  `Fields.insert` keeps that order, and `Fields.ofList` builds it
from pairs in any order, of which the last one with a name counts.
-/

namespace Firestore

/-- Pairs of names and contents. -/
abbrev Fields (α : Type) := List (String × α)

namespace Fields

variable {α : Type}

/-- The names strictly increase. -/
def Sorted (fields : Fields α) : Prop :=
  fields.Pairwise fun a b => a.1 < b.1

/-- What a name holds. -/
def get? : Fields α → String → Option α
  | [], _ => none
  | (k, v) :: rest, name => if k = name then some v else get? rest name

/-- Puts a pair at its place; an old one of the same name is replaced. -/
def insert : Fields α → String → α → Fields α
  | [], name, v => [(name, v)]
  | (k, w) :: rest, name, v =>
      if name = k then (name, v) :: rest
      else if name < k then (name, v) :: (k, w) :: rest
      else (k, w) :: insert rest name v

/-- Inserts pairs one after the other. -/
def insertAll (fields : Fields α) (pairs : List (String × α)) : Fields α :=
  pairs.foldl (fun fields pair => insert fields pair.1 pair.2) fields

/-- The fields of some pairs; later pairs replace earlier ones. -/
def ofList (pairs : List (String × α)) : Fields α := insertAll [] pairs

def names (fields : Fields α) : List String := fields.map Prod.fst

@[simp]
theorem get?_nil (name : String) : get? ([] : Fields α) name = none := rfl

theorem get?_cons (k : String) (v : α) (rest : Fields α) (name : String) :
    get? ((k, v) :: rest) name = if k = name then some v else get? rest name := rfl

/-- A field that was put in is found, and the others are as before. -/
theorem get?_insert (fields : Fields α) (name : String) (v : α) (other : String) :
    get? (insert fields name v) other = if name = other then some v else get? fields other := by
  induction fields with
  | nil => rfl
  | cons pair rest ih =>
      obtain ⟨k, w⟩ := pair
      by_cases hk : name = k
      · subst hk
        by_cases ho : name = other <;> simp [insert, get?_cons, ho]
      · by_cases hlt : name < k
        · simp [insert, hk, hlt, get?_cons]
        · by_cases ho : k = other
          · subst ho
            simp [insert, hk, hlt, get?_cons]
          · simp [insert, hk, hlt, get?_cons, ih, ho]

end Fields

end Firestore
