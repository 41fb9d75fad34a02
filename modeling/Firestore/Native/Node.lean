import Firestore.Native.Encoding

/-!
# What native data is written through

Native data is written node by node: the data itself, then all data inside it and the
keys of its maps, in the order in which they are given.  `Native.steps` lists them, each
with the trail of positions, names and variants that leads there.  Options and wrappers
add nothing to a trail, and a key has the trail of its map.

What stands under a key that makes no name has no trail.  It is never written.
-/

namespace Firestore.Native

/-! ## Keys -/

/-- Data without the wrappers around it. -/
def unwrapped : Native → Native
  | .wrapper _ inner => inner.unwrapped
  | n => n

/-- The name that a key makes: a text, or an integer that is written out. -/
def name? (k : Native) : Option String :=
  match k.unwrapped with
  | .text s => some s
  | .int n => some (toString n)
  | _ => none

/-! ## Nodes -/

/-- Something that is written by itself: a piece of data, or a key of a map. -/
inductive Node where
  | item (n : Native)
  | key (k : Native)

/-- A node at the end of a trail. -/
structure Step where
  trail : List String
  node : Node

/-- A step, seen from the data that holds `segment`. -/
def Step.under (segment : String) (s : Step) : Step := ⟨segment :: s.trail, s.node⟩

mutual

/-- The steps of writing native data, in their order. -/
def steps : Native → List Step
  | .present inner => ⟨[], .item (.present inner)⟩ :: inner.steps
  | .wrapper name inner => ⟨[], .item (.wrapper name inner)⟩ :: inner.steps
  | .variant name payload =>
      ⟨[], .item (.variant name payload)⟩ :: payload.steps.map (Step.under name)
  | .seq items => ⟨[], .item (.seq items)⟩ :: itemSteps 0 items
  | .map entries => ⟨[], .item (.map entries)⟩ :: entrySteps entries
  | n => [⟨[], .item n⟩]

/-- The steps of writing some items, the first of them at position `index`. -/
def itemSteps (index : Nat) : List Native → List Step
  | [] => []
  | item :: rest => item.steps.map (Step.under (toString index)) ++ itemSteps (index + 1) rest

/-- The steps of writing some entries, each key before what it holds. -/
def entrySteps : List (Native × Native) → List Step
  | [] => []
  | (k, item) :: rest =>
      ⟨[], .key k⟩ ::
        (k.name?.toList.flatMap fun name => item.steps.map (Step.under name)) ++ entrySteps rest

end

/-! ## Trails -/

/-- Data directly inside other data, with the segments that it adds to a trail. -/
inductive Child : Native → List String → Native → Prop
  | present (inner : Native) : Child (.present inner) [] inner
  | wrapper (name : String) (inner : Native) : Child (.wrapper name inner) [] inner
  | variant (name : String) (payload : Native) : Child (.variant name payload) [name] payload
  | item {items : List Native} {index : Nat} {n : Native} (h : items[index]? = some n) :
      Child (.seq items) [toString index] n
  | entry {entries : List (Native × Native)} {k n : Native} {name : String}
      (h : (k, n) ∈ entries) (hname : k.name? = some name) : Child (.map entries) [name] n

/-- A trail leads from native data to a node of it. -/
inductive Leads : Native → List String → Node → Prop
  | here (n : Native) : Leads n [] (.item n)
  | key {entries : List (Native × Native)} {k n : Native} (h : (k, n) ∈ entries) :
      Leads (.map entries) [] (.key k)
  | step {n inner : Native} {segments trail : List String} {node : Node}
      (hchild : n.Child segments inner) (hrest : Leads inner trail node) :
      Leads n (segments ++ trail) node

end Firestore.Native
