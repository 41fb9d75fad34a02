import Firestore.Proofs.Time.Moment
import Firestore.Proofs.Time.Rfc3339

/-!
# What a text can be read as

The widths and ranges of the parts of a text bound the moment that it stands for: the
calendar has it, and with it the timestamp (`exists_toDateTime?_of_read`).

The offset can move a moment past the years of four digits, and so can a leap second.
The text of such a moment starts with the sign of its year, and no text that stands for a
time does, so it is not read back (`read_write_iff`).
-/

namespace Firestore

namespace Rfc3339

/-! ## The parts of a text -/

/-- Every digit takes one of the places that are left. -/
theorem ofDigitChars_lt {cs : List Char} (h : ∀ c ∈ cs, c.isDigit = true) (value : Nat) :
    Nat.ofDigitChars 10 cs value < (value + 1) * 10 ^ cs.length := by
  induction cs generalizing value with
  | nil => simp
  | cons c cs ih =>
      obtain ⟨hc, hcs⟩ := List.forall_mem_cons.mp h
      have hdigit : c.toNat - '0'.toNat < 10 := by
        have hrange := Numeral.toNat_of_isDigit hc
        have hzero : '0'.toNat = 48 := rfl
        omega
      have hvalue : 10 * value + (c.toNat - '0'.toNat) + 1 ≤ (value + 1) * 10 := by omega
      rw [Nat.ofDigitChars_cons, List.length_cons]
      calc Nat.ofDigitChars 10 cs (10 * value + (c.toNat - '0'.toNat))
          < (10 * value + (c.toNat - '0'.toNat) + 1) * 10 ^ cs.length := ih hcs _
        _ ≤ (value + 1) * 10 * 10 ^ cs.length := Nat.mul_le_mul_right _ hvalue
        _ = (value + 1) * 10 ^ (cs.length + 1) := by rw [Nat.mul_assoc, Nat.pow_succ']

theorem IsField.lt {width n : Nat} {cs : List Char} (h : IsField width n cs) : n < 10 ^ width := by
  have hlt := ofDigitChars_lt h.digits 0
  rwa [← h.value, h.length, Nat.zero_add, Nat.one_mul] at hlt

theorem IsDate.bounds {date : Date} {cs : List Char} (h : IsDate date cs) :
    date.isValid = true ∧ 0 ≤ date.year ∧ date.year ≤ 9999 := by
  cases h with
  | @intro year _ _ _ _ _ hyear _ _ hvalid =>
      have hlt := hyear.lt
      refine ⟨hvalid, Int.natCast_nonneg year, ?_⟩
      show (year : Int) ≤ 9999
      omega

theorem isDigit_of_mem_takeD {digits : List Char} (h : ∀ c ∈ digits, c.isDigit = true)
    (places : Nat) : ∀ c ∈ digits.takeD places '0', c.isDigit = true := by
  induction places generalizing digits with
  | zero => simp
  | succ places ih =>
      cases digits with
      | nil =>
          intro c hc
          rw [List.takeD_nil] at hc
          rw [List.eq_of_mem_replicate hc]
          rfl
      | cons d digits =>
          obtain ⟨hd, hdigits⟩ := List.forall_mem_cons.mp h
          exact List.forall_mem_cons.mpr ⟨hd, ih hdigits⟩

theorem IsFraction.lt {nanos : Nat} {cs : List Char} (h : IsFraction nanos cs) :
    nanos < 10 ^ 9 := by
  cases h with
  | missing => decide
  | @present digits hdigits =>
      have hlt := ofDigitChars_lt (isDigit_of_mem_takeD hdigits.2 9) 0
      rwa [List.takeD_length, Nat.zero_add, Nat.one_mul] at hlt

theorem IsTimeOfDay.bounds {time : Nat × Nat} {cs : List Char} (h : IsTimeOfDay time cs) :
    time.1 < 86400 ∧ time.2 < 2000000000 := by
  obtain ⟨-, -, -, hfraction, hrange⟩ := h
  have hnanos := hfraction.lt
  simp only [timeParts]
  split
  · exact ⟨by simp only; omega, by simp only; omega⟩
  · exact ⟨by simp only; omega, by simp only; omega⟩

/-- A text stands for a moment that is less than a day away from the years of four digits. -/
theorem IsMoment.bounds {d : DateTime} {cs : List Char} (h : IsMoment d cs) :
    -62167305600 < d.seconds ∧ d.seconds < 253402387200 ∧ d.nanos < 2000000000 := by
  obtain ⟨hdate, -, htime, -, hshift⟩ := h
  obtain ⟨hvalid, hlow, hhigh⟩ := hdate.bounds
  obtain ⟨hfirst, hlast⟩ := Date.toDays_bounds hvalid hlow hhigh
  obtain ⟨hseconds, hnanos⟩ := htime.bounds
  simp only [DateTime.secondsPerDay]
  omega

/-- The calendar has the moment that a text is read as. -/
theorem exists_toDateTime?_of_read {s : String} {d : DateTime} (h : read s = .ok d) :
    ∃ shown, (Timestamp.ofDateTime d).toDateTime? = some shown := by
  obtain ⟨hlow, hhigh, hnanos⟩ := (read_eq_ok.mp h).bounds
  obtain ⟨hcarry, hrest⟩ :=
    Timestamp.parts_ofDateTime (d := d) (by omega) (by omega) (by omega)
  unfold Timestamp.nanosPerSecond at hcarry hrest
  rw [Timestamp.toDateTime?, DateTime.make?, hcarry, hrest, DateTime.firstSecond_eq,
    DateTime.lastSecond_eq, if_pos (by omega)]
  exact ⟨_, rfl⟩

/-! ## Texts of other years -/

/-- A text that stands for a time starts with a digit. -/
theorem IsMoment.isDigit_head {d : DateTime} {c : Char} {cs : List Char}
    (h : IsMoment d (c :: cs)) :
    c.isDigit = true := by
  generalize hcs : c :: cs = text at h
  obtain ⟨⟨hyear, -, -, -⟩, -, -, -, -⟩ := h
  rename_i years _ _
  cases years with
  | nil =>
      have hlength := hyear.length
      contradiction
  | cons first rest =>
      obtain ⟨rfl, -⟩ := List.cons.inj hcs
      exact hyear.digits c List.mem_cons_self

/-- Years outside four digits start with a sign. -/
theorem exists_sign_yearText {year : Int} (h : ¬(0 ≤ year ∧ year ≤ 9999)) :
    ∃ c cs, (yearText year).toList = c :: cs ∧ c.isDigit = false := by
  rw [yearText, if_neg h, String.toList_append]
  by_cases hnegative : year < 0
  · rw [if_pos hnegative]
    exact ⟨'-', _, rfl, rfl⟩
  · rw [if_neg hnegative]
    exact ⟨'+', _, rfl, rfl⟩

/-- A written text is read only if its year has four digits. -/
theorem year_of_read_write {d e : DateTime} (h : read (write d) = .ok e) :
    0 ≤ (Date.ofDays (d.seconds / DateTime.secondsPerDay)).year ∧
      (Date.ofDays (d.seconds / DateTime.secondsPerDay)).year ≤ 9999 := by
  by_contra hother
  obtain ⟨c, cs, hyear, hsign⟩ := exists_sign_yearText hother
  have hmoment := read_eq_ok.mp h
  rw [toList_write rfl rfl, hyear] at hmoment
  simp only [List.cons_append] at hmoment
  exact Bool.false_ne_true (hsign.symm.trans hmoment.isDigit_head)

/-- **The calendar's moments are read back from their texts just if their years have four
digits.** -/
theorem read_write_iff {d : DateTime} (hcalendar : DateTime.make? d.seconds d.nanos = some d)
    (e : DateTime) :
    read (write d) = .ok e ↔
      e = d ∧ -62167219200 ≤ d.seconds ∧ d.seconds ≤ 253402300799 := by
  constructor
  · intro h
    have hyear := year_of_read_write h
    obtain ⟨hlow, hhigh⟩ := Date.toDays_bounds (Date.isValid_ofDays _) hyear.1 hyear.2
    rw [Date.toDays_ofDays] at hlow hhigh
    have hday : DateTime.secondsPerDay = 86400 := rfl
    rw [hday] at hlow hhigh
    have hfirst : -62167219200 ≤ d.seconds := by omega
    have hlast : d.seconds ≤ 253402300799 := by omega
    rw [read_write hcalendar hfirst hlast] at h
    exact ⟨(Except.ok.inj h).symm, hfirst, hlast⟩
  · rintro ⟨rfl, hfirst, hlast⟩
    exact read_write hcalendar hfirst hlast

end Rfc3339

end Firestore
