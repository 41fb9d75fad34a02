import Firestore.Source.Answer
import Mathlib.Data.List.Forall2

/-!
# Steps that succeed or fail

How a sequence of steps goes on after a success and stops at a failure, and what
the success of a sequence says about its steps.  What all steps of a sequence fail
with, the sequence fails with (`FailsWith`).  A stored value locates failures only, so
`locate` leaves a success as it is.
-/

namespace Firestore

variable {ε α β : Type}

@[simp]
theorem ok_bind (a : α) (f : α → Except ε β) : (Except.ok a >>= f) = f a := rfl

@[simp]
theorem error_bind (e : ε) (f : α → Except ε β) : (Except.error e >>= f) = .error e := rfl

@[simp]
theorem map_ok (f : α → β) (a : α) : (f <$> (Except.ok a : Except ε α)) = .ok (f a) := rfl

@[simp]
theorem map_error (f : α → β) (e : ε) : (f <$> (Except.error e : Except ε α)) = .error e := rfl

@[simp]
theorem pure_eq_ok (a : α) : (pure a : Except ε α) = .ok a := rfl

@[simp]
theorem throw_eq_error (e : ε) : (throw e : Except ε α) = .error e := rfl

/-- A sequence of two steps succeeds if both do. -/
theorem bind_eq_ok {x : Except ε α} {f : α → Except ε β} {b : β} :
    (x >>= f) = .ok b ↔ ∃ a, x = .ok a ∧ f a = .ok b := by
  cases x <;> simp

/-- After a success, what would have been refused first is not the case. -/
theorem check_eq_ok {c : Prop} [Decidable c] {e : ε} {x : Except ε α} {a : α} :
    (if c then .error e else x) = .ok a ↔ ¬ c ∧ x = .ok a := by
  split <;> simp [*]

/-- After a success, what had to be the case first is the case. -/
theorem unless_eq_ok {c : Prop} [Decidable c] {e : ε} {x : Except ε α} {a : α} :
    (if c then x else (throw e >>= fun _ : PUnit => x)) = .ok a ↔ c ∧ x = .ok a := by
  split <;> simp [*]

theorem map_eq_ok {x : Except ε α} {f : α → β} {b : β} :
    f <$> x = .ok b ↔ ∃ a, x = .ok a ∧ f a = b := by
  cases x <;> simp

/-- What is made of a result that can only be one. -/
theorem map_eq_ok_of_known {x : Except ε α} {a : α} {good : Prop}
    (h : ∀ c, x = .ok c ↔ c = a ∧ good) (f : α → β) (b : β) :
    f <$> x = .ok b ↔ b = f a ∧ good := by
  rw [map_eq_ok]
  constructor
  · rintro ⟨c, hc, rfl⟩
    obtain ⟨rfl, hgood⟩ := (h c).mp hc
    exact ⟨rfl, hgood⟩
  · rintro ⟨rfl, hgood⟩
    exact ⟨a, (h a).mpr ⟨rfl, hgood⟩, rfl⟩

/-- Steps taken for each member of a list succeed if each one does. -/
theorem mapM_eq_ok {f : α → Except ε β} {as : List α} {bs : List β} :
    as.mapM f = .ok bs ↔ List.Forall₂ (fun a b => f a = .ok b) as bs := by
  induction as generalizing bs with
  | nil => simp [eq_comm]
  | cons a rest ih =>
      simp only [List.mapM_cons, bind_eq_ok, pure_eq_ok, List.forall₂_cons_left_iff, ← ih]
      constructor
      · rintro ⟨b, hb, more, hmore, ⟨⟩⟩
        exact ⟨b, more, hb, hmore, rfl⟩
      · rintro ⟨b, more, hb, hmore, rfl⟩
        exact ⟨b, hb, more, hmore, rfl⟩

/-- A step inside a value succeeds if the step does. -/
theorem inside_eq_ok {segment : String} {x : Except Error α} {a : α} :
    inside segment x = .ok a ↔ x = .ok a := by
  cases x <;> simp

/-- A pass over numbered parts succeeds if the step does for each part. -/
theorem indexed_eq_ok (pass : Nat → List α → Except Error (List β)) (step : α → Except Error β)
    (hnil : ∀ index, pass index [] = .ok [])
    (hcons : ∀ index a rest, pass index (a :: rest) =
      (inside (toString index) (step a) >>= fun b =>
        pass (index + 1) rest >>= fun bs => .ok (b :: bs)))
    {index : Nat} {as : List α} {bs : List β} :
    pass index as = .ok bs ↔ List.Forall₂ (fun a b => step a = .ok b) as bs := by
  induction as generalizing index bs with
  | nil => simp [hnil, eq_comm]
  | cons a rest ih =>
      simp only [hcons, bind_eq_ok, inside_eq_ok, ih, List.forall₂_cons_left_iff]
      constructor
      · rintro ⟨b, hb, others, hothers, ⟨⟩⟩
        exact ⟨b, others, hb, hothers, rfl⟩
      · rintro ⟨b, others, hb, hothers, rfl⟩
        exact ⟨b, hb, others, hothers, rfl⟩

/-- A pass over named parts succeeds if the step does for each part, and keeps the names. -/
theorem named_eq_ok (pass : List (String × α) → Except Error (List (String × β)))
    (step : α → Except Error β) (hnil : pass [] = .ok [])
    (hcons : ∀ part rest, pass (part :: rest) =
      (inside part.1 (step part.2) >>= fun b =>
        pass rest >>= fun bs => .ok ((part.1, b) :: bs)))
    {parts : List (String × α)} {made : List (String × β)} :
    pass parts = .ok made ↔
      List.Forall₂ (fun part b => b.1 = part.1 ∧ step part.2 = .ok b.2) parts made := by
  induction parts generalizing made with
  | nil => simp [hnil, eq_comm]
  | cons part rest ih =>
      simp only [hcons, bind_eq_ok, inside_eq_ok, ih, List.forall₂_cons_left_iff]
      constructor
      · rintro ⟨b, hb, others, hothers, ⟨⟩⟩
        exact ⟨(part.1, b), others, ⟨rfl, hb⟩, hothers, rfl⟩
      · rintro ⟨⟨name, b⟩, others, ⟨rfl, hb⟩, hothers, rfl⟩
        exact ⟨b, hb, others, hothers, rfl⟩

theorem exists_of_mem_forall₂ {Good : α → β → Prop} {items : List α} {results : List β}
    (h : List.Forall₂ Good items results) {c : β} (hc : c ∈ results) :
    ∃ b ∈ items, Good b c := by
  induction h with
  | nil => cases hc
  | @cons b d items results hgood _ ih =>
      rcases List.mem_cons.mp hc with rfl | hlater
      · exact ⟨b, List.mem_cons_self, hgood⟩
      · obtain ⟨other, hother, hgood⟩ := ih hlater
        exact ⟨other, List.mem_cons_of_mem _ hother, hgood⟩

/-- Every member of a list has a result just if there is a list of results. -/
theorem exists_forall₂_iff {Good : α → β → Prop} {items : List α} :
    (∃ results, List.Forall₂ Good items results) ↔ ∀ a ∈ items, ∃ b, Good a b := by
  induction items with
  | nil => exact ⟨fun _ => nofun, fun _ => ⟨[], .nil⟩⟩
  | cons a rest ih =>
      rw [List.forall_mem_cons, ← ih]
      constructor
      · rintro ⟨_, _ | ⟨hgood, hrest⟩⟩
        exact ⟨⟨_, hgood⟩, _, hrest⟩
      · rintro ⟨⟨b, hgood⟩, results, hrest⟩
        exact ⟨b :: results, .cons hgood hrest⟩

theorem toOption_eq_some {x : Except ε α} {a : α} : x.toOption = some a ↔ x = .ok a := by
  cases x <;> simp [Except.toOption]

theorem exists_error_iff {x : Except ε α} : (∃ e, x = .error e) ↔ ¬ ∃ a, x = .ok a := by
  cases x <;> simp

theorem exists_map_ok {x : Except ε α} {f : α → β} :
    (∃ b, f <$> x = .ok b) ↔ ∃ a, x = .ok a := by
  cases x <;> simp

theorem exists_bind_ok {x : Except ε α} {f : α → β} :
    (∃ b, (x >>= fun a => .ok (f a)) = .ok b) ↔ ∃ a, x = .ok a := by
  cases x <;> simp

/-- Two steps that do not depend on each other succeed together if both do. -/
theorem exists_bind_bind_ok {γ : Type} {x : Except ε α} {y : Except ε β} {f : α → β → γ} :
    (∃ c, (x >>= fun a => y >>= fun b => .ok (f a b)) = .ok c) ↔
      (∃ a, x = .ok a) ∧ ∃ b, y = .ok b := by
  cases x <;> cases y <;> simp

theorem exists_mapM_eq_ok {f : α → Except ε β} {as : List α} :
    (∃ bs, as.mapM f = .ok bs) ↔ ∀ a ∈ as, ∃ b, f a = .ok b := by
  induction as with
  | nil => simp
  | cons a rest ih =>
      rw [List.mapM_cons, List.forall_mem_cons, ← ih]
      cases f a <;> cases rest.mapM f <;> simp

/-- What each step of a run preserves, the whole run preserves. -/
theorem foldlM_invariant {f : β → α → Except ε β} {p : β → Prop} {as : List α}
    (hstep : ∀ a ∈ as, ∀ b next, p b → f b a = .ok next → p next) {b last : β} (hb : p b)
    (h : as.foldlM f b = .ok last) : p last := by
  induction as generalizing b with
  | nil =>
      cases h
      exact hb
  | cons a rest ih =>
      obtain ⟨ha, hrest⟩ := List.forall_mem_cons.mp hstep
      rw [List.foldlM_cons] at h
      obtain ⟨next, hnext, h⟩ := bind_eq_ok.mp h
      exact ih hrest (ha b next hb hnext) h

/-! ## How steps fail -/

/-- Whatever error a step fails with has some property. -/
def FailsWith (p : ε → Prop) (x : Except ε α) : Prop := ∀ e, x = .error e → p e

/-- An error that finds fault with what was given. -/
def Error.IsInvalidArgument (e : Error) : Prop := e.code = .invalidArgument

/-- An error that finds fault with what was given, at no place inside it. -/
def Error.BlamesWhole (e : Error) : Prop := e.code = .invalidArgument ∧ e.trail = []

namespace FailsWith

variable {p : ε → Prop}

theorem ok (a : α) : FailsWith p (Except.ok a) := fun _ h => by contradiction

theorem error {e : ε} (h : p e) : FailsWith p (Except.error e : Except ε α) := by
  rintro _ ⟨rfl⟩
  exact h

theorem imp {q : ε → Prop} {x : Except ε α} (h : FailsWith p x) (hpq : ∀ e, p e → q e) :
    FailsWith q x :=
  fun e he => hpq e (h e he)

theorem bind {x : Except ε α} {f : α → Except ε β} (hx : FailsWith p x)
    (hf : ∀ a, FailsWith p (f a)) : FailsWith p (x >>= f) := by
  cases x with
  | ok a => exact hf a
  | error e => exact error (hx e rfl)

/-- The second step need only be looked at after a success of the first one. -/
theorem bind_of_ok {x : Except ε α} {f : α → Except ε β} (hx : FailsWith p x)
    (hf : ∀ a, x = .ok a → FailsWith p (f a)) : FailsWith p (x >>= f) := by
  cases x with
  | ok a => exact hf a rfl
  | error e => exact error (hx e rfl)

theorem map {x : Except ε α} (h : FailsWith p x) (f : α → β) : FailsWith p (f <$> x) := by
  cases x with
  | ok a => exact ok (f a)
  | error e => exact error (h e rfl)

theorem mapM {f : α → Except ε β} {as : List α} (hf : ∀ a ∈ as, FailsWith p (f a)) :
    FailsWith p (as.mapM f) := by
  induction as with
  | nil => exact ok []
  | cons a rest ih =>
      obtain ⟨ha, hrest⟩ := List.forall_mem_cons.mp hf
      rw [List.mapM_cons]
      exact ha.bind fun b => (ih hrest).bind fun bs => ok (b :: bs)

theorem foldlM {f : β → α → Except ε β} (hf : ∀ b a, FailsWith p (f b a)) (b : β) (as : List α) :
    FailsWith p (as.foldlM f b) := by
  induction as generalizing b with
  | nil => exact ok b
  | cons a rest ih =>
      rw [List.foldlM_cons]
      exact (hf b a).bind fun next => ih next

end FailsWith

/-! ## What a step fails with -/

/-- The error of a step that fails. -/
def failure? (x : Except ε α) : Option ε :=
  match x with
  | .ok _ => none
  | .error e => some e

theorem failure?_eq_some {x : Except ε α} {e : ε} : failure? x = some e ↔ x = .error e := by
  cases x <;> simp [failure?]

theorem failure?_eq_none {x : Except ε α} : failure? x = none ↔ ∃ a, x = .ok a := by
  cases x <;> simp [failure?]

/-- A sequence of two steps fails with what the first one fails with, else with what the second
one fails with. -/
theorem failure?_bind_bind_ok {γ : Type} (x : Except ε α) (y : Except ε β) (f : α → β → γ) :
    failure? (x >>= fun a => y >>= fun b => .ok (f a b)) = (failure? x).or (failure? y) := by
  cases x <;> cases y <;> rfl

theorem failure?_bind_ok (x : Except ε α) (f : α → β) :
    failure? (x >>= fun a => .ok (f a)) = failure? x := by
  cases x <;> rfl

theorem failure?_map (f : α → β) (x : Except ε α) : failure? (f <$> x) = failure? x := by
  cases x <;> rfl

theorem failure?_inside (segment : String) (x : Except Error α) :
    failure? (inside segment x) = (failure? x).map (Error.within segment) := by
  cases x <;> rfl

theorem findSome?_cons_eq_or (f : α → Option β) (a : α) (as : List α) :
    (a :: as).findSome? f = (f a).or (as.findSome? f) := by
  rw [List.findSome?_cons]
  cases f a <;> rfl

/-- If each thing is refused with one more segment when it is seen from outside, so is the first
one that is refused. -/
theorem findSome?_map_within {refusal? : α → Option Error} {segment : String} {under : α → α}
    (h : ∀ a, refusal? (under a) = (refusal? a).map (Error.within segment)) (as : List α) :
    (as.map under).findSome? refusal? = (as.findSome? refusal?).map (Error.within segment) := by
  rw [List.findSome?_map, List.map_findSome?]
  exact congrArg (List.findSome? · as) (funext h)

/-! ## Stored values -/

@[simp]
theorem locate_ok (format : Format) (segment : String) (a : α) :
    format.locate segment (.ok a) = .ok a := by
  cases format <;> rfl

@[simp]
theorem finish_stored (read left : Nat) (collection : String) :
    Format.stored.finish read left collection = .ok () := rfl

end Firestore
