import Firestore.Proofs.Number.Decimal

/-!
# Floating-point literals

The grammar of the literals, apart from the way in which they are read: a word for
infinity or for no number in letters of any size, or a mantissa and an exponent that
may be missing, after a sign that may be missing.  The reader takes digits as long as
there are any, and neither a point nor an exponent starts with one, so it splits a
literal where the grammar does.  It reads a number just from the literals
(`exists_readDouble_iff`).
-/

namespace Firestore.Numeral

/-! ## The grammar -/

/-- Digits with a point that may be missing, one digit at least. -/
inductive IsMantissa : List Char → Prop
  | whole {digits : List Char} (h : IsDigits digits) : IsMantissa digits
  | pointed {whole fraction : List Char} (h : IsDigits (whole ++ fraction)) :
      IsMantissa (whole ++ '.' :: fraction)

/-- An exponent, which may be missing. -/
inductive IsExponent : List Char → Prop
  | missing : IsExponent []
  | present {e : Char} {cs : List Char} (he : e = 'e' ∨ e = 'E')
      (hdigits : WithSign (fun _ digits => IsDigits digits) cs) : IsExponent (e :: cs)

/-- A word for infinity or for no number, in letters of any size. -/
def IsWord (cs : List Char) : Prop :=
  String.ofList (cs.map Char.toLower) ∈ ["inf", "infinity", "nan"]

/-- A literal without its sign. -/
inductive IsUnsigned : List Char → Prop
  | word {cs : List Char} (h : IsWord cs) : IsUnsigned cs
  | number {mantissa exponent : List Char} (hmantissa : IsMantissa mantissa)
      (hexponent : IsExponent exponent) : IsUnsigned (mantissa ++ exponent)

/-- A floating-point literal. -/
def IsLiteral (s : String) : Prop := WithSign (fun _ cs => IsUnsigned cs) s.toList

theorem IsExponent.no_point {cs : List Char} (h : IsExponent cs) (tail : List Char) :
    cs ≠ '.' :: tail := by
  rintro rfl
  cases h with
  | present he _ => rcases he with he | he <;> contradiction

theorem isWord_iff {cs : List Char} :
    IsWord cs ↔ (String.ofList (cs.map Char.toLower) = "inf" ∨
      String.ofList (cs.map Char.toLower) = "infinity") ∨
        String.ofList (cs.map Char.toLower) = "nan" := by
  rw [IsWord, List.mem_cons, List.mem_cons, List.mem_singleton, or_assoc]

/-- A mantissa starts with a digit or with the point. -/
theorem IsMantissa.exists_head {cs : List Char} (h : IsMantissa cs) :
    ∃ c rest, cs = c :: rest ∧ (c.isDigit = true ∨ c = '.') := by
  cases h with
  | whole h =>
      obtain ⟨c, rest, rfl⟩ := List.exists_cons_of_ne_nil h.1
      exact ⟨c, rest, rfl, .inl (h.2 c List.mem_cons_self)⟩
  | @pointed whole fraction h =>
      cases whole with
      | nil => exact ⟨'.', fraction, rfl, .inr rfl⟩
      | cons c rest =>
          exact ⟨c, rest ++ '.' :: fraction, rfl, .inl (h.2 c List.mem_cons_self)⟩

/-- A word starts with one of two letters. -/
theorem IsWord.exists_head {cs : List Char} (h : IsWord cs) :
    ∃ c rest, cs = c :: rest ∧ c.toLower ∈ ['i', 'n'] := by
  have hwords : ∀ word ∈ ["inf", "infinity", "nan"],
      ∃ first rest, word.toList = first :: rest ∧ first ∈ ['i', 'n'] := by simp
  obtain ⟨first, rest, hfirst, hmem⟩ := hwords _ h
  rw [String.toList_ofList] at hfirst
  obtain ⟨c, rest, rfl, rfl, -⟩ := List.map_eq_cons_iff.mp hfirst
  exact ⟨c, rest, rfl, hmem⟩

theorem not_isUnsigned_nil : ¬IsUnsigned [] := by
  intro h
  generalize hcs : ([] : List Char) = cs at h
  cases h with
  | word h =>
      obtain ⟨c, rest, rfl, -⟩ := h.exists_head
      contradiction
  | number hmantissa _ =>
      obtain ⟨c, rest, rfl, -⟩ := hmantissa.exists_head
      contradiction

theorem not_isUnsigned_cons {c : Char} {cs : List Char} (hdigit : c.isDigit ≠ true)
    (hpoint : c ≠ '.') (hletter : c.toLower ∉ ['i', 'n']) : ¬IsUnsigned (c :: cs) := by
  intro h
  generalize hcs : c :: cs = text at h
  cases h with
  | word h =>
      obtain ⟨c, rest, rfl, hc⟩ := h.exists_head
      cases hcs
      contradiction
  | number hmantissa _ =>
      obtain ⟨c, rest, rfl, hc⟩ := hmantissa.exists_head
      cases hcs
      exact hc.elim hdigit hpoint

/-! ## Runs of digits -/

/-- Whether something does not go on with a digit. -/
def NoDigit (cs : List Char) : Prop := ∀ c rest, cs = c :: rest → c.isDigit = false

theorem IsExponent.noDigit {cs : List Char} (h : IsExponent cs) : NoDigit cs := by
  rintro c rest rfl
  cases h with
  | present he _ => rcases he with rfl | rfl <;> decide

section Runs

variable {digits rest : List Char}

theorem isDigits_iff_of (h : ∀ c ∈ digits, c.isDigit = true) : IsDigits digits ↔ digits ≠ [] :=
  and_iff_left h

theorem takeWhile_digits (h : ∀ c ∈ digits, c.isDigit = true) (hrest : NoDigit rest) :
    (digits ++ rest).takeWhile Char.isDigit = digits := by
  rw [List.takeWhile_append_of_pos h]
  cases rest with
  | nil => simp
  | cons c rest => simp [hrest c rest rfl]

theorem dropWhile_digits (h : ∀ c ∈ digits, c.isDigit = true) (hrest : NoDigit rest) :
    (digits ++ rest).dropWhile Char.isDigit = rest := by
  rw [List.dropWhile_append_of_pos h]
  cases rest with
  | nil => simp
  | cons c rest => simp [hrest c rest rfl]

/-- Every text is some digits and something that does not go on with a digit. -/
theorem exists_digits (cs : List Char) :
    ∃ digits rest, cs = digits ++ rest ∧ (∀ c ∈ digits, c.isDigit = true) ∧ NoDigit rest := by
  induction cs with
  | nil => exact ⟨[], [], rfl, nofun, nofun⟩
  | cons c cs ih =>
      by_cases hdigit : c.isDigit = true
      · obtain ⟨digits, rest, rfl, hdigits, hrest⟩ := ih
        exact ⟨c :: digits, rest, rfl, List.forall_mem_cons.mpr ⟨hdigit, hdigits⟩, hrest⟩
      · refine ⟨[], c :: cs, rfl, nofun, ?_⟩
        rintro _ _ ⟨rfl⟩
        exact Bool.not_eq_true _ ▸ hdigit

end Runs

/-! ## Exponents -/

theorem isExponent_cons {e : Char} {cs : List Char} :
    IsExponent (e :: cs) ↔ (e = 'e' ∨ e = 'E') ∧ WithSign (fun _ digits => IsDigits digits) cs := by
  constructor
  · intro h
    cases h with
    | present he hdigits => exact ⟨he, hdigits⟩
  · exact fun ⟨he, hdigits⟩ => .present he hdigits

/-- A test for digits gives an answer just for digits. -/
private theorem exists_of_digits_iff {α : Type} {digits : List Char} (a : α) :
    (∃ b, (if (digits.isEmpty || !digits.all Char.isDigit) = true then none else some a) = some b) ↔
      IsDigits digits := by
  rw [IsDigits, ← List.isEmpty_eq_false_iff, ← List.all_eq_true]
  cases digits.isEmpty <;> cases digits.all Char.isDigit <;> simp

theorem exists_readExponent_iff {cs : List Char} :
    (∃ exponent, readExponent cs = some exponent) ↔ IsExponent cs := by
  cases cs with
  | nil => exact ⟨fun _ => .missing, fun _ => ⟨0, rfl⟩⟩
  | cons e rest =>
      rw [isExponent_cons]
      by_cases he : e = 'e' ∨ e = 'E'
      · simp only [readExponent, if_pos he]
        rw [and_iff_right he]
        -- a sign is passed over if there is one, and digits have to follow either way
        split
        · rw [withSign_plus]
          · exact exists_of_digits_iff _
          · exact not_isDigits_plus _
        · rw [withSign_minus]
          · exact exists_of_digits_iff _
          · exact not_isDigits_minus _
        · rename_i hplus hminus
          rw [withSign_missing hplus hminus]
          exact exists_of_digits_iff _
      · simp [readExponent, he]

/-! ## Literals -/

section Unsigned

variable {negative : Bool}

theorem exists_readUnsigned_word {cs : List Char} (hword : IsWord cs) :
    ∃ x, readUnsigned negative cs = some x := by
  rcases isWord_iff.mp hword with hinfinite | hnan
  · exact ⟨.infinite negative, by simp only [readUnsigned, if_pos hinfinite]⟩
  · refine ⟨.nan, ?_⟩
    rw [readUnsigned, hnan]
    rfl

/-- A number is made of some digits and an exponent. -/
private theorem exists_of_exponent_iff {missing : Bool} {rest : List Char} (number : Int → Double) :
    (∃ x, (if missing = true then none else (readExponent rest).map number) = some x) ↔
      missing = false ∧ IsExponent rest := by
  rw [← exists_readExponent_iff]
  cases missing <;> cases readExponent rest <;> simp

/-- A text without a point is split behind its digits. -/
theorem exists_readUnsigned_whole {digits rest : List Char} (hword : ¬IsWord (digits ++ rest))
    (hdigits : ∀ c ∈ digits, c.isDigit = true) (hrest : NoDigit rest)
    (hpoint : ∀ tail, rest ≠ '.' :: tail) :
    (∃ x, readUnsigned negative (digits ++ rest) = some x) ↔
      IsDigits digits ∧ IsExponent rest := by
  obtain ⟨hinfinite, hnan⟩ := not_or.mp (mt isWord_iff.mpr hword)
  -- the match on the point takes its other branch by `hpoint`
  simp only [readUnsigned, if_neg hinfinite, if_neg hnan, takeWhile_digits hdigits hrest,
    dropWhile_digits hdigits hrest]
  rw [exists_of_exponent_iff, isDigits_iff_of hdigits]
  simp

/-- A text with a point is split behind the digits after the point. -/
theorem exists_readUnsigned_pointed {whole fraction rest : List Char}
    (hword : ¬IsWord (whole ++ '.' :: fraction ++ rest))
    (hdigits : ∀ c ∈ whole ++ fraction, c.isDigit = true) (hrest : NoDigit rest) :
    (∃ x, readUnsigned negative (whole ++ '.' :: fraction ++ rest) = some x) ↔
      IsDigits (whole ++ fraction) ∧ IsExponent rest := by
  obtain ⟨hinfinite, hnan⟩ := not_or.mp (mt isWord_iff.mpr hword)
  obtain ⟨hwhole, hfraction⟩ := List.forall_mem_append.mp hdigits
  have hpoint : NoDigit ('.' :: (fraction ++ rest)) := by
    rintro c tail ⟨rfl⟩
    decide
  have happend : whole ++ '.' :: fraction ++ rest = whole ++ '.' :: (fraction ++ rest) := by
    simp
  rw [happend] at hinfinite hnan ⊢
  simp only [readUnsigned, if_neg hinfinite, if_neg hnan, takeWhile_digits hwhole hpoint,
    dropWhile_digits hwhole hpoint, takeWhile_digits hfraction hrest,
    dropWhile_digits hfraction hrest]
  rw [exists_of_exponent_iff, isDigits_iff_of hdigits]
  cases whole <;> simp

/-- Every text is digits, perhaps with a point, and something that does not go on with a digit. -/
theorem exists_mantissa (cs : List Char) :
    (∃ digits rest, cs = digits ++ rest ∧ (∀ c ∈ digits, c.isDigit = true) ∧ NoDigit rest ∧
      ∀ tail, rest ≠ '.' :: tail) ∨
    ∃ whole fraction rest, cs = whole ++ '.' :: fraction ++ rest ∧
      (∀ c ∈ whole ++ fraction, c.isDigit = true) ∧ NoDigit rest := by
  obtain ⟨digits, left, rfl, hdigits, hleft⟩ := exists_digits cs
  by_cases hpoint : ∃ tail, left = '.' :: tail
  · obtain ⟨tail, rfl⟩ := hpoint
    obtain ⟨fraction, rest, rfl, hfraction, hrest⟩ := exists_digits tail
    exact .inr ⟨digits, fraction, rest, by simp, List.forall_mem_append.mpr ⟨hdigits, hfraction⟩,
      hrest⟩
  · exact .inl ⟨digits, left, rfl, hdigits, hleft, not_exists.mp hpoint⟩

theorem exists_readUnsigned_iff {cs : List Char} :
    (∃ x, readUnsigned negative cs = some x) ↔ IsUnsigned cs := by
  by_cases hword : IsWord cs
  · exact ⟨fun _ => .word hword, fun _ => exists_readUnsigned_word hword⟩
  constructor
  · intro h
    -- a text that is no word is cut behind its digits, with a point among them or without
    rcases exists_mantissa cs with ⟨digits, rest, rfl, hdigits, hrest, hpoint⟩ |
      ⟨whole, fraction, rest, rfl, hdigits, hrest⟩
    · obtain ⟨hsome, hexponent⟩ := (exists_readUnsigned_whole hword hdigits hrest hpoint).mp h
      exact .number (.whole hsome) hexponent
    · obtain ⟨hsome, hexponent⟩ := (exists_readUnsigned_pointed hword hdigits hrest).mp h
      exact .number (.pointed hsome) hexponent
  · intro h
    cases h with
    | word h => exact absurd h hword
    | number hmantissa hexponent =>
        cases hmantissa with
        | whole hsome =>
            have hpoint : ∀ tail, _ ≠ '.' :: tail := hexponent.no_point
            exact (exists_readUnsigned_whole hword hsome.2 hexponent.noDigit hpoint).mpr
              ⟨hsome, hexponent⟩
        | pointed hsome =>
            exact (exists_readUnsigned_pointed hword hsome.2 hexponent.noDigit).mpr
              ⟨hsome, hexponent⟩

end Unsigned

/-- **A text is read as a double just if it is a literal.** -/
theorem exists_readDouble_iff (s : String) : (∃ x, readDouble s = .ok x) ↔ IsLiteral s := by
  rw [readDouble, IsLiteral]
  split
  · rename_i hs
    rw [hs, withSign_missing (by simp) (by simp)]
    exact ⟨nofun, fun h => absurd h not_isUnsigned_nil⟩
  · rename_i rest hs
    rw [hs, withSign_plus, ← exists_readUnsigned_iff]
    · cases readUnsigned false rest <;> simp
    · exact not_isUnsigned_cons (by decide) (by decide) (by decide)
  · rename_i rest hs
    rw [hs, withSign_minus, ← exists_readUnsigned_iff]
    · cases readUnsigned true rest <;> simp
    · exact not_isUnsigned_cons (by decide) (by decide) (by decide)
  · rename_i hplus hminus
    rw [withSign_missing hplus hminus, ← exists_readUnsigned_iff]
    cases readUnsigned false s.toList <;> simp

end Firestore.Numeral
