import Firestore.Number.Numeral
import Firestore.Proofs.Steps
import Mathlib.Algebra.Group.Int.Defs

/-!
# Decimal texts of whole numbers

The reader of whole numbers takes digits one by one and checks the 64-bit range at
each of them.  What has been read so far is closer to zero than the number, so digits
of a number in the range never leave it before their end.  A text is therefore read as
a word just if it is the word in decimal: a sign that may be missing (`WithSign`), and
digits with any number of zeros in front (`readInt64_eq_ok`).
-/

namespace Firestore.Numeral

/-- A size with a sign. -/
def signed (negative : Bool) (size : Nat) : Int :=
  if negative then -size else size

/-- Whether a size with a sign is in the 64-bit range. -/
def Fits (negative : Bool) (size : Nat) : Prop :=
  Int64.minValue.toInt ≤ signed negative size ∧ signed negative size ≤ Int64.maxValue.toInt

/-- A smaller size of the same sign is in the range too. -/
theorem Fits.mono {negative : Bool} {size smaller : Nat} (h : Fits negative size)
    (hle : smaller ≤ size) : Fits negative smaller := by
  have hmin : Int64.minValue.toInt = -2 ^ 63 := Int64.toInt_minValue
  have hmax : Int64.maxValue.toInt = 2 ^ 63 - 1 := Int64.toInt_maxValue
  unfold Fits signed at *
  cases negative <;> simp only [Bool.false_eq_true, if_false, if_true] at * <;> omega

theorem fits_zero (negative : Bool) : Fits negative 0 := by
  cases negative <;> exact ⟨by decide, by decide⟩

/-! ## Digits -/

/-- Decimal digits, one at least. -/
def IsDigits (cs : List Char) : Prop := cs ≠ [] ∧ ∀ c ∈ cs, c.isDigit = true

/-- The digits stand after each other. -/
theorem toNat_of_isDigit {c : Char} (h : c.isDigit = true) : 48 ≤ c.toNat ∧ c.toNat ≤ 57 := by
  simpa [Char.isDigit, Char.le_def, UInt32.le_iff_toNat_le] using h

theorem isDigits_toDigits (n : Nat) : IsDigits (Nat.toDigits 10 n) :=
  ⟨Nat.toDigits_ne_nil, fun _ hc => Nat.isDigit_of_mem_toDigits (by decide) (by decide) hc⟩

theorem not_isDigits_plus (cs : List Char) : ¬IsDigits ('+' :: cs) :=
  fun h => absurd (h.2 _ List.mem_cons_self) (by decide)

theorem not_isDigits_minus (cs : List Char) : ¬IsDigits ('-' :: cs) :=
  fun h => absurd (h.2 _ List.mem_cons_self) (by decide)

theorem le_ofDigitChars (digits : List Char) (size : Nat) :
    size ≤ Nat.ofDigitChars 10 digits size := by
  rw [Nat.ofDigitChars_eq_ofDigitChars_zero]
  have hpos : 0 < 10 ^ digits.length := Nat.pow_pos (by decide)
  exact Nat.le_add_right_of_le (Nat.le_mul_of_pos_left size hpos)

section Digits

variable {negative : Bool} {size : Nat} {value : Int}

/-- A digit is taken just if the number stays in the range with it. -/
theorem pushDigit_eq_ok {c : Char} :
    pushDigit negative (signed negative size) c = .ok value ↔
      c.isDigit = true ∧ Fits negative (size * 10 + (c.toNat - '0'.toNat)) ∧
        value = signed negative (size * 10 + (c.toNat - '0'.toNat)) := by
  by_cases hdigit : c.isDigit = true
  · have hnext (d : Nat) : (if negative then signed negative size * 10 - (d : Int)
        else signed negative size * 10 + d) = signed negative (size * 10 + d) := by
      cases negative <;> simp only [signed, Bool.false_eq_true, if_false, if_true] <;> omega
    simp only [pushDigit, digit?, if_pos hdigit, hnext, Fits]
    split
    · rename_i hlow
      exact ⟨nofun, fun h => absurd h.2.1.1 (Int.not_le.mpr hlow)⟩
    · rename_i hlow
      split
      · rename_i hhigh
        exact ⟨nofun, fun h => absurd h.2.1.2 (Int.not_le.mpr hhigh)⟩
      · rename_i hhigh
        have hfits := And.intro (Int.not_lt.mp hlow) (Int.not_lt.mp hhigh)
        exact ⟨fun h => ⟨hdigit, hfits, (Except.ok.inj h).symm⟩, fun h => by rw [h.2.2]⟩
  · simp [pushDigit, digit?, hdigit]

/-- Some digits are taken just if the number stays in the range with all of them. -/
theorem foldlM_pushDigit_eq_ok {digits : List Char} (hfits : Fits negative size) :
    digits.foldlM (pushDigit negative) (signed negative size) = .ok value ↔
      (∀ c ∈ digits, c.isDigit = true) ∧ Fits negative (Nat.ofDigitChars 10 digits size) ∧
        value = signed negative (Nat.ofDigitChars 10 digits size) := by
  induction digits generalizing size with
  | nil =>
      rw [List.foldlM_nil, pure_eq_ok, Nat.ofDigitChars_nil]
      exact ⟨fun h => ⟨nofun, hfits, (Except.ok.inj h).symm⟩, fun h => by rw [h.2.2]⟩
  | cons c digits ih =>
      rw [List.foldlM_cons, bind_eq_ok, Nat.ofDigitChars_cons, List.forall_mem_cons,
        Nat.mul_comm 10 size]
      constructor
      · rintro ⟨next, hpush, hrest⟩
        obtain ⟨hdigit, hnext, rfl⟩ := pushDigit_eq_ok.mp hpush
        obtain ⟨hdigits, hlast, rfl⟩ := (ih hnext).mp hrest
        exact ⟨⟨hdigit, hdigits⟩, hlast, rfl⟩
      · rintro ⟨⟨hdigit, hdigits⟩, hlast, rfl⟩
        have hnext := hlast.mono (le_ofDigitChars digits _)
        exact ⟨_, pushDigit_eq_ok.mpr ⟨hdigit, hnext, rfl⟩, (ih hnext).mpr ⟨hdigits, hlast, rfl⟩⟩

/-- The number that some digits show. -/
theorem readDigits_eq_ok {digits : List Char} :
    readDigits negative digits = .ok value ↔
      IsDigits digits ∧ Fits negative (Nat.ofDigitChars 10 digits 0) ∧
        value = signed negative (Nat.ofDigitChars 10 digits 0) := by
  cases digits with
  | nil => exact ⟨nofun, fun h => absurd rfl h.1.1⟩
  | cons c digits =>
      have hzero : (0 : Int) = signed negative 0 := by
        cases negative <;> rfl
      rw [readDigits, hzero, foldlM_pushDigit_eq_ok (fits_zero negative)]
      · simp [IsDigits]
      · simp

end Digits

/-! ## Signs -/

/-- The sign of a number, which may be missing, and whether the number is negative. -/
inductive IsSign : List Char → Bool → Prop
  | missing : IsSign [] false
  | plus : IsSign ['+'] false
  | minus : IsSign ['-'] true

/-- A sign, and after it something that is good for a number of this sign. -/
def WithSign (good : Bool → List Char → Prop) (cs : List Char) : Prop :=
  ∃ sign negative rest, IsSign sign negative ∧ cs = sign ++ rest ∧ good negative rest

section WithSign

variable {good : Bool → List Char → Prop} {cs : List Char}

theorem withSign_plus (h : ¬good false ('+' :: cs)) :
    WithSign good ('+' :: cs) ↔ good false cs := by
  constructor
  · rintro ⟨_, _, rest, hsign, heq, hgood⟩
    cases hsign with
    | missing =>
        rw [List.nil_append] at heq
        exact absurd (heq ▸ hgood) h
    | plus =>
        cases heq
        exact hgood
    | minus => simp at heq
  · exact fun hgood => ⟨_, _, cs, .plus, rfl, hgood⟩

theorem withSign_minus (h : ¬good false ('-' :: cs)) :
    WithSign good ('-' :: cs) ↔ good true cs := by
  constructor
  · rintro ⟨_, _, rest, hsign, heq, hgood⟩
    cases hsign with
    | missing =>
        rw [List.nil_append] at heq
        exact absurd (heq ▸ hgood) h
    | plus => simp at heq
    | minus =>
        cases heq
        exact hgood
  · exact fun hgood => ⟨_, _, cs, .minus, rfl, hgood⟩

theorem withSign_missing (hplus : ∀ rest, cs ≠ '+' :: rest) (hminus : ∀ rest, cs ≠ '-' :: rest) :
    WithSign good cs ↔ good false cs := by
  constructor
  · rintro ⟨_, _, rest, hsign, rfl, hgood⟩
    cases hsign with
    | missing => exact hgood
    | plus => exact absurd rfl (hplus rest)
    | minus => exact absurd rfl (hminus rest)
  · exact fun hgood => ⟨_, _, cs, .missing, rfl, hgood⟩

end WithSign

/-! ## Whole texts -/

/-- A whole number in decimal. -/
def IsDecimal (s : String) (n : Int) : Prop :=
  WithSign (fun negative digits =>
    IsDigits digits ∧ n = signed negative (Nat.ofDigitChars 10 digits 0)) s.toList

theorem isDecimal_toString (n : Int) : IsDecimal (toString n) n := by
  rw [Int.toString_eq_repr, Int.repr_eq_if]
  split
  · rename_i hsign
    refine ⟨[], false, Nat.toDigits 10 n.toNat, .missing, by simp [Nat.toList_repr],
      isDigits_toDigits _, ?_⟩
    rw [Nat.ofDigitChars_ten_toDigits, signed, if_neg (by decide), Int.toNat_of_nonneg hsign]
  · rename_i hsign
    refine ⟨['-'], true, Nat.toDigits 10 (-n).toNat, .minus, by simp, isDigits_toDigits _, ?_⟩
    rw [Nat.ofDigitChars_ten_toDigits, signed, if_pos rfl]
    omega

/-- A text is one number in decimal at most. -/
theorem IsDecimal.unique {s : String} {m n : Int} (hm : IsDecimal s m) (hn : IsDecimal s n) :
    m = n := by
  unfold IsDecimal at hm hn
  generalize s.toList = cs at hm hn
  by_cases hplus : ∃ rest, cs = '+' :: rest
  · obtain ⟨rest, rfl⟩ := hplus
    rw [withSign_plus (fun h => not_isDigits_plus _ h.1)] at hm hn
    rw [hm.2, hn.2]
  by_cases hminus : ∃ rest, cs = '-' :: rest
  · obtain ⟨rest, rfl⟩ := hminus
    rw [withSign_minus (fun h => not_isDigits_minus _ h.1)] at hm hn
    rw [hm.2, hn.2]
  rw [not_exists] at hplus hminus
  rw [withSign_missing hplus hminus] at hm hn
  rw [hm.2, hn.2]

/-- Numbers of one decimal text are the same. -/
theorem toString_injective {m n : Int} (h : toString m = toString n) : m = n :=
  (isDecimal_toString m).unique (h ▸ isDecimal_toString n)

/-- The digits of a word are read as the word. -/
private theorem map_readDigits_eq_ok {negative : Bool} {digits : List Char} {n : Int64} :
    Int64.ofInt <$> readDigits negative digits = .ok n ↔
      IsDigits digits ∧ n.toInt = signed negative (Nat.ofDigitChars 10 digits 0) := by
  rw [map_eq_ok]
  constructor
  · rintro ⟨value, hread, rfl⟩
    obtain ⟨hdigits, ⟨hlow, hhigh⟩, rfl⟩ := readDigits_eq_ok.mp hread
    exact ⟨hdigits, Int64.toInt_ofInt_of_le hlow (Int.lt_of_le_of_lt hhigh (by decide))⟩
  · rintro ⟨hdigits, hvalue⟩
    have hfits : Fits negative (Nat.ofDigitChars 10 digits 0) := by
      rw [Fits, ← hvalue]
      exact ⟨n.minValue_le_toInt, n.toInt_le⟩
    exact ⟨n.toInt, readDigits_eq_ok.mpr ⟨hdigits, hfits, hvalue⟩, Int64.ofInt_toInt n⟩

/-- **A text is read as a word just if it is the word in decimal.** -/
theorem readInt64_eq_ok {s : String} {n : Int64} : readInt64 s = .ok n ↔ IsDecimal s n.toInt := by
  rw [readInt64, IsDecimal]
  split
  · rename_i hs
    rw [hs, withSign_missing (by simp) (by simp)]
    exact ⟨nofun, fun h => absurd rfl h.1.1⟩
  · rename_i hs
    rw [hs, withSign_plus (fun h => not_isDigits_plus _ h.1), map_readDigits_eq_ok]
  · rename_i hs
    rw [hs, withSign_minus (fun h => not_isDigits_minus _ h.1), map_readDigits_eq_ok]
  · rename_i hnoPlus hnoMinus
    rw [withSign_missing hnoPlus hnoMinus, map_readDigits_eq_ok]

/-- The decimal text of a word is read as the word. -/
theorem readInt64_toString (n : Int64) : readInt64 (toString n.toInt) = .ok n :=
  readInt64_eq_ok.mpr (isDecimal_toString n.toInt)

end Firestore.Numeral
