import Firestore.Query.Structured

/-!
# What filters and conditions mean

A filter and a condition are both made of atoms, which a document passes or fails.
Once it is known which atoms a document passes, `eval` says whether it passes the
whole; `atoms` lists the atoms from left to right.

`Atom.condition` says which atom of a condition stands for an atom of a filter.

`Predicate.induction` and `Condition.induction` assume the statement of every part
of a combination.
-/

namespace Firestore

/-- What becomes of the answers of the parts of a combination. -/
def Connective.join : Connective → List Bool → Bool
  | .and, answers => answers.all id
  | .or, answers => answers.any id

/-! ## Filters -/

/-- A filter that combines no others. -/
inductive Atom where
  | field (path : FieldPath) (op : Comparison) (operand : Value)
  | documentId (op : Comparison) (ids : List String)

/-- The document that an id means in a query. -/
def Query.referenceTo (q : Query) (id : String) : Value :=
  .reference (q.database.resourceName (q.idBase.append (.parse id)))

/-- The condition that stands for an atom.  To be null and to be no number are tested without an
operand.  An id stands for a document of the query; a comparison without a list is with one id. -/
def Atom.condition (q : Query) : Atom → Condition
  | .field path .equal .null => .test path .isNull
  | .field path .notEqual .null => .test path .isNotNull
  | .field path .equal (.double .nan) => .test path .isNaN
  | .field path .notEqual (.double .nan) => .test path .isNotNaN
  | .field path op operand => .comparison path op operand
  | .documentId op ids =>
      if op.takesList then .comparison .documentId op (.array (ids.map q.referenceTo))
      else .comparison .documentId op ((ids.map q.referenceTo).getLast?.getD .null)

/-- Induction over a predicate, for each part of a combination. -/
@[elab_as_elim, induction_eliminator]
theorem Predicate.induction {motive : Predicate → Prop}
    (field : ∀ path op operand, motive (.field path op operand))
    (documentId : ∀ op ids, motive (.documentId op ids))
    (composite : ∀ connective parts, (∀ p ∈ parts, motive p) → motive (.composite connective parts))
    (modifier : ∀ m, motive (.modifier m)) (p : Predicate) : motive p := by
  refine @Predicate.rec motive (fun parts => ∀ p ∈ parts, motive p)
    field documentId composite modifier ?_ ?_ p
  · simp
  · intro head tail hhead htail p hp
    exact (List.mem_cons.mp hp).elim (fun heq => heq ▸ hhead) (htail p)

namespace Predicate

mutual

/-- The atoms of a filter, from left to right. -/
def atoms : Predicate → List Atom
  | .field path op operand => [.field path op operand]
  | .documentId op ids => [.documentId op ids]
  | .composite _ parts => atomsOf parts
  | .modifier _ => []

/-- The atoms of some filters. -/
def atomsOf : List Predicate → List Atom
  | [] => []
  | p :: rest => p.atoms ++ atomsOf rest

end

mutual

/-- Whether a document passes a filter. -/
def eval (truth : Atom → Bool) : Predicate → Bool
  | .field path op operand => truth (.field path op operand)
  | .documentId op ids => truth (.documentId op ids)
  | .composite connective parts => connective.join (evalEach truth parts)
  | .modifier _ => true

/-- Which of some filters a document passes. -/
def evalEach (truth : Atom → Bool) : List Predicate → List Bool
  | [] => []
  | p :: rest => p.eval truth :: evalEach truth rest

end

theorem atomsOf_eq_flatMap (parts : List Predicate) : atomsOf parts = parts.flatMap atoms := by
  induction parts with
  | nil => rfl
  | cons p rest ih => simp [atomsOf, ih]

theorem evalEach_eq_map (truth : Atom → Bool) (parts : List Predicate) :
    evalEach truth parts = parts.map (eval truth) := by
  induction parts with
  | nil => rfl
  | cons p rest ih => simp [evalEach, ih]

@[simp]
theorem atoms_composite (connective : Connective) (parts : List Predicate) :
    (composite connective parts).atoms = parts.flatMap atoms := by
  rw [atoms, atomsOf_eq_flatMap]

@[simp]
theorem eval_composite (truth : Atom → Bool) (connective : Connective) (parts : List Predicate) :
    (composite connective parts).eval truth = connective.join (parts.map (eval truth)) := by
  rw [eval, evalEach_eq_map]

end Predicate

/-! ## Conditions -/

/-- Induction over a condition, for each part of a combination. -/
@[elab_as_elim, induction_eliminator]
theorem Condition.induction {motive : Condition → Prop}
    (comparison : ∀ path op operand, motive (.comparison path op operand))
    (test : ∀ path check, motive (.test path check))
    (combination : ∀ connective parts,
      (∀ c ∈ parts, motive c) → motive (.combination connective parts))
    (c : Condition) : motive c := by
  refine @Condition.rec motive (fun parts => ∀ c ∈ parts, motive c)
    comparison test combination ?_ ?_ c
  · simp
  · intro head tail hhead htail c hc
    exact (List.mem_cons.mp hc).elim (fun heq => heq ▸ hhead) (htail c)

namespace Condition

mutual

/-- The atoms of a condition, from left to right. -/
def atoms : Condition → List Condition
  | .comparison path op operand => [.comparison path op operand]
  | .test path check => [.test path check]
  | .combination _ parts => atomsOf parts

/-- The atoms of some conditions. -/
def atomsOf : List Condition → List Condition
  | [] => []
  | c :: rest => c.atoms ++ atomsOf rest

end

mutual

/-- Whether a document passes a condition. -/
def eval (truth : Condition → Bool) : Condition → Bool
  | .comparison path op operand => truth (.comparison path op operand)
  | .test path check => truth (.test path check)
  | .combination connective parts => connective.join (evalEach truth parts)

/-- Which of some conditions a document passes. -/
def evalEach (truth : Condition → Bool) : List Condition → List Bool
  | [] => []
  | c :: rest => c.eval truth :: evalEach truth rest

end

theorem atomsOf_eq_flatMap (parts : List Condition) : atomsOf parts = parts.flatMap atoms := by
  induction parts with
  | nil => rfl
  | cons c rest ih => simp [atomsOf, ih]

theorem evalEach_eq_map (truth : Condition → Bool) (parts : List Condition) :
    evalEach truth parts = parts.map (eval truth) := by
  induction parts with
  | nil => rfl
  | cons c rest ih => simp [evalEach, ih]

@[simp]
theorem atoms_combination (connective : Connective) (parts : List Condition) :
    (combination connective parts).atoms = parts.flatMap atoms := by
  rw [atoms, atomsOf_eq_flatMap]

@[simp]
theorem eval_combination (truth : Condition → Bool) (connective : Connective)
    (parts : List Condition) :
    (combination connective parts).eval truth = connective.join (parts.map (eval truth)) := by
  rw [eval, evalEach_eq_map]

end Condition

end Firestore
