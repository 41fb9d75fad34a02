import Firestore.Proofs.Value.Place

/-!
# Reading and writing along field paths

Reading and writing along a path form a lens: what was written is read, writing what is read
changes nothing, and a second value takes the place of the first one.  Paths that are apart
do not disturb each other, so that it makes no difference which of two is written first.

Each law follows the path.  At its first name it is a law of insertion, and the map under
that name takes it further down (`setAt_setAt_same`).  Two paths that are apart go the same
way up to different names, and there one value is put in beside the other
(`setAt_setAt_of_ne`).
-/

namespace Firestore

/-- The path that goes on from the end of a path with more keys. -/
def FieldPath.extend (p : FieldPath) (keys : List String) : FieldPath := keys.foldl child p

theorem FieldPath.segments_extend (p : FieldPath) (keys : List String) :
    (p.extend keys).segments = p.segments ++ keys := by
  induction keys generalizing p with
  | nil => exact (List.append_nil _).symm
  | cons key rest ih =>
      have hchild : (p.child key).segments = p.segments ++ [key] := rfl
      have hstep : p.extend (key :: rest) = (p.child key).extend rest := rfl
      rw [hstep, ih, hchild, List.append_assoc, List.singleton_append]

namespace Value

/-! ## Writing twice -/

/-- Under one name the second value is put into the map that the first one was put into. -/
theorem setAt_setAt_same (fields : Fields Value) (key : String) {rest : List String}
    (h : rest ≠ []) (place : List String) (v w : Value) :
    (fields.setAt (key :: rest) v).setAt (key :: place) w =
      fields.insert key (placed ((fields.inner key).setAt rest v) place w) := by
  rw [setAt_cons _ key place w, inner_setAt_self fields key h, setAt_cons fields key rest v,
    Fields.insert_insert]

/-- Under different names each value is put where it would be put without the other one. -/
theorem setAt_setAt_of_ne (fields : Fields Value) {key name : String} (h : key ≠ name)
    (rest place : List String) (v w : Value) :
    (fields.setAt (key :: rest) v).setAt (name :: place) w =
      (fields.insert key (placed (fields.inner key) rest v)).insert name
        (placed (fields.inner name) place w) := by
  rw [setAt_cons _ name place w, inner_setAt_of_ne fields h, setAt_cons fields key rest v]

/-- Of two values that are put at the end of a path the later one stays. -/
theorem setAt_setAt_self (fields : Fields Value) (path : List String) (v w : Value) :
    (fields.setAt path v).setAt path w = fields.setAt path w := by
  induction path generalizing fields with
  | nil => rfl
  | cons key rest ih =>
      cases rest with
      | nil => exact Fields.insert_insert fields key v w
      | cons next more =>
          have hnext := List.cons_ne_nil next more
          rw [setAt_setAt_same fields key hnext, placed_of_ne_nil _ hnext, ih,
            setAt_cons fields key, placed_of_ne_nil _ hnext]

/-- Values can be put at the ends of paths that are apart in either order. -/
theorem setAt_comm (fields : Fields Value) {path other : List String} (h : Apart path other)
    (v w : Value) :
    (fields.setAt path v).setAt other w = (fields.setAt other w).setAt path v := by
  induction path generalizing fields other with
  | nil => exact absurd rfl h.left_ne_nil
  | cons key rest ih =>
      obtain ⟨name, place, rfl⟩ := List.exists_cons_of_ne_nil h.symm.left_ne_nil
      by_cases hname : key = name
      · subst hname
        have hapart := Apart.cons_iff.mp h
        have hrest := hapart.left_ne_nil
        have hplace := hapart.symm.left_ne_nil
        rw [setAt_setAt_same fields key hrest, setAt_setAt_same fields key hplace,
          placed_of_ne_nil _ hplace, placed_of_ne_nil _ hrest, ih _ hapart]
      · rw [setAt_setAt_of_ne fields hname, setAt_setAt_of_ne fields (Ne.symm hname),
          Fields.insert_comm hname]

/-! ## Writing what is there -/

/-- Where something is read further down, a name holds a map. -/
theorem get?_of_getAt_inner {fields : Fields Value} {key : String} {path : List String} {v : Value}
    (h : (fields.inner key).getAt path = some v) :
    fields.get? key = some (.map (fields.inner key)) := by
  unfold Fields.inner at h
  split at h
  · rename_i hget
    rw [hget, inner_of_get? hget]
  · rw [getAt_nil] at h
    contradiction

/-- Putting what is read along a path there again changes nothing. -/
theorem setAt_getAt {fields : Fields Value} (h : (map fields).Ordered) {path : List String}
    {v : Value} (hget : fields.getAt path = some v) : fields.setAt path v = fields := by
  induction path generalizing fields with
  | nil => contradiction
  | cons key rest ih =>
      rw [setAt_cons]
      apply Fields.insert_eq_self (ordered_map.mp h).1
      by_cases hrest : rest = []
      · subst hrest
        exact hget
      · rw [getAt_cons hrest] at hget
        rw [placed_of_ne_nil _ hrest, ih (ordered_inner h key) hget]
        exact get?_of_getAt_inner hget

/-! ## Field paths -/

/-- **Reading and writing along field paths form a lens.**  What was written along a path is read
along it, and what stands inside is read along the paths that go on from there.  The later of two
values for a path takes the place of the earlier one, and a value that is read can be written again
without a change.  A path that is apart from the first one leads to the same as before, whatever
had to make way for the value that was written, and it makes no difference which of two such paths
is written first. -/
theorem setPath_lens (m : Fields Value) (p q : FieldPath) (v w : Value) :
    (m.setPath p v).getPath p = some v ∧
      (∀ keys, (m.setPath p v).getPath (p.extend keys) = v.follow? keys) ∧
      (m.setPath p v).setPath p w = m.setPath p w ∧
      ((map m).Ordered → m.getPath p = some v → m.setPath p v = m) ∧
      (Apart p.segments q.segments →
        (m.setPath p v).getPath q = m.getPath q ∧
          (m.setPath p v).setPath q w = (m.setPath q w).setPath p v) := by
  refine ⟨getAt_setAt_self m p.nonempty v, ?_, setAt_setAt_self m p.segments v w, ?_, ?_⟩
  · intro keys
    unfold Fields.getPath Fields.setPath
    rw [FieldPath.segments_extend]
    exact getAt_setAt_append m p.nonempty v keys
  · intro hordered hget
    exact setAt_getAt hordered hget
  · intro h
    exact ⟨getAt_setAt_of_apart m h v, setAt_comm m h v w⟩

/-- A number makes way for a map, and the field beside it stays as it was. -/
theorem setPath_lens_number :
    let m : Fields Value := [("a", .map [("b", .integer 1), ("c", .boolean true)])]
    let p : FieldPath := ⟨["a", "b", "x"], by simp⟩
    let q : FieldPath := ⟨["a", "c"], by simp⟩
    let v : Value := .map [("y", .string "new")]
    Apart p.segments q.segments ∧ (map m).Ordered ∧
      (m.setPath p v).getPath (p.extend ["y"]) = some (.string "new") ∧
      (m.setPath p v).getPath (p.extend ["y", "z"]) = none ∧
      (m.setPath p v).getPath q = some (.boolean true) ∧
      (m.setPath p v).setPath q .null = (m.setPath q .null).setPath p v ∧
      m.setPath q (.boolean true) = m := by
  intro m p q v
  have hapart : Apart p.segments q.segments := by
    unfold Apart
    decide
  have hordered : (map m).Ordered := by decide
  obtain ⟨-, hbelow, -, -, hbeside⟩ := setPath_lens m p q v .null
  obtain ⟨-, -, -, hagain, -⟩ := setPath_lens m q p (.boolean true) .null
  obtain ⟨hother, hcomm⟩ := hbeside hapart
  exact ⟨hapart, hordered, hbelow ["y"], hbelow ["y", "z"], hother, hcomm, hagain hordered rfl⟩

end Value

end Firestore
