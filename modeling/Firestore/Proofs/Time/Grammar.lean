import Firestore.Proofs.Number.Decimal
import Firestore.Proofs.Text.Bytes
import Firestore.Time.Rfc3339
import Mathlib.Data.List.TakeDrop

/-!
# The grammar of RFC 3339

The texts that stand for times, and the times that they stand for, apart from the way in
which they are read: a date, a time of day with a fraction that may be missing, and an
offset.  Small letters are as good as capitals, a space may stand before the time, the
sixtieth second is a leap second in any minute, and the minus sign of an offset may be the
mathematical one.

`Takes p good` says that the characters which a step of reading takes are good for what it
makes of them, and `Reads p cs rest a` that it takes the characters `cs` in front of `rest`
and makes `a` of them.  Both are handed on from step to step, so the reader takes the texts
of the grammar and no others (`read_eq_ok`).
-/

namespace Firestore.Rfc3339

open Text Numeral

/-! ## The grammar -/

/-- A number of a fixed width. -/
structure IsField (width n : Nat) (cs : List Char) : Prop where
  length : cs.length = width
  digits : ∀ c ∈ cs, c.isDigit = true
  value : n = Nat.ofDigitChars 10 cs 0

/-- A date that the calendar has. -/
inductive IsDate : Date → List Char → Prop
  | intro {year month day : Nat} {years months days : List Char} (hyear : IsField 4 year years)
      (hmonth : IsField 2 month months) (hday : IsField 2 day days)
      (hvalid : Date.isValid ⟨year, month, day⟩ = true) :
      IsDate ⟨year, month, day⟩ (years ++ '-' :: months ++ '-' :: days)

/-- A fraction of a second, which may be missing; nine places count. -/
inductive IsFraction : Nat → List Char → Prop
  | missing : IsFraction 0 []
  | present {digits : List Char} (h : IsDigits digits) :
      IsFraction (Nat.ofDigitChars 10 (digits.takeD 9 '0') 0) ('.' :: digits)

/-- The time of some parts; a sixtieth second is a leap second. -/
def timeParts (hour minute second nanos : Nat) : Nat × Nat :=
  let start := hour * 3600 + minute * 60
  if second = 60 then (start + 59, nanos + 1000000000) else (start + second, nanos)

/-- A time of day: its seconds, and the nanoseconds on top of them. -/
inductive IsTimeOfDay : Nat × Nat → List Char → Prop
  | intro {hour minute second nanos : Nat} {hours minutes seconds fraction : List Char}
      (hhour : IsField 2 hour hours) (hminute : IsField 2 minute minutes)
      (hsecond : IsField 2 second seconds) (hfraction : IsFraction nanos fraction)
      (hrange : hour < 24 ∧ minute < 60 ∧ second ≤ 60) :
      IsTimeOfDay (timeParts hour minute second nanos)
        (hours ++ ':' :: minutes ++ ':' :: seconds ++ fraction)

/-- The size of an offset, in seconds. -/
inductive IsShift : Int → List Char → Prop
  | intro {hour minute : Nat} {hours minutes : List Char} (hhour : IsField 2 hour hours)
      (hminute : IsField 2 minute minutes) (hrange : minute < 60) :
      IsShift (hour * 3600 + minute * 60) (hours ++ ':' :: minutes)

/-- An offset from universal time, in seconds. -/
inductive IsOffset : Int → List Char → Prop
  | zulu {mark : Char} (hmark : mark = 'Z' ∨ mark = 'z') : IsOffset 0 [mark]
  | ahead {size : Int} {cs : List Char} (hsize : IsShift size cs) : IsOffset size ('+' :: cs)
  | behind {sign : Char} {size : Int} {cs : List Char} (hsign : sign = '-' ∨ sign = '\u2212')
      (hsize : IsShift size cs) : IsOffset (-size) (sign :: cs)

/-- A text that stands for a time. -/
inductive IsMoment : DateTime → List Char → Prop
  | intro {date : Date} {time : Nat × Nat} {shift : Int} {mark : Char}
      {dates times offset : List Char} (hdate : IsDate date dates)
      (hmark : mark ∈ ['T', 't', ' ']) (htime : IsTimeOfDay time times)
      (hoffset : IsOffset shift offset) (hshift : shift.natAbs < 24 * 3600) :
      IsMoment ⟨date.toDays * DateTime.secondsPerDay + time.1 - shift, time.2⟩
        (dates ++ mark :: times ++ offset)

/-! ## What is taken -/

variable {α β : Type}

/-- The characters that a step of reading takes are good for what it makes of them. -/
def Takes (p : Scan α) (good : α → List Char → Prop) : Prop :=
  ∀ bs a rest, p.run bs = .ok (a, rest) → ∃ cs, bs = utf8 cs ++ rest ∧ good a cs

namespace Takes

variable {good : α → List Char → Prop} {better : β → List Char → Prop}

theorem pure {a : α} (h : good a []) : Takes (pure a) good := by
  rintro bs _ _ ⟨rfl⟩
  exact ⟨[], rfl, h⟩

theorem throw (fault : Fault) : Takes (throw fault) good :=
  fun _ _ _ h => by contradiction

/-- The characters of two steps stand after each other. -/
theorem bind {p : Scan α} {f : α → Scan β} (hp : Takes p good)
    (hf : ∀ a front, good a front → Takes (f a) fun b cs => better b (front ++ cs)) :
    Takes (p >>= f) better := by
  intro bs b rest h
  rw [StateT.run_bind] at h
  obtain ⟨⟨a, left⟩, hfirst, hsecond⟩ := bind_eq_ok.mp h
  obtain ⟨front, rfl, hfront⟩ := hp bs a left hfirst
  obtain ⟨cs, rfl, hcs⟩ := hf a front hfront left b rest hsecond
  exact ⟨front ++ cs, by rw [utf8_append, List.append_assoc], hcs⟩

/-- Nothing comes after a refusal. -/
theorem refused (fault : Fault) (f : α → Scan β) :
    Takes (MonadExcept.throw fault >>= f) better := by
  have hnothing : Takes (MonadExcept.throw fault : Scan α) fun _ _ => False := throw fault
  exact hnothing.bind fun _ _ h => h.elim

/-- Either side of a check takes good characters. -/
theorem check {c : Prop} [Decidable c] {p q : Scan α} (hp : c → Takes p good)
    (hq : ¬c → Takes q good) : Takes (if c then p else q) good := by
  split
  · rename_i hc
    exact hp hc
  · rename_i hc
    exact hq hc

theorem imp {worse : α → List Char → Prop} {p : Scan α} (h : Takes p good)
    (himp : ∀ a cs, good a cs → worse a cs) : Takes p worse := by
  intro bs a rest hrun
  obtain ⟨cs, hbs, hgood⟩ := h bs a rest hrun
  exact ⟨cs, hbs, himp a cs hgood⟩

end Takes

/-! ### Digits -/

/-- The byte of a digit is a digit of the same value. -/
theorem exists_digit_of_digit? {b : UInt8} {d : Nat} (h : digit? b = some d) :
    ∃ c : Char, String.utf8EncodeChar c = [b] ∧ c.isDigit = true ∧ d = c.toNat - '0'.toNat := by
  have hall : ∀ i : Fin 256, ∀ d ∈ digit? (.ofNat i.val),
      String.utf8EncodeChar (Char.ofNat i.val) = [.ofNat i.val] ∧
        (Char.ofNat i.val).isDigit = true ∧ d = (Char.ofNat i.val).toNat - '0'.toNat := by
    decide +kernel
  have hb := hall ⟨b.toNat, b.toNat_lt⟩
  rw [UInt8.ofNat_toNat] at hb
  exact ⟨_, hb d h⟩

theorem takes_digit :
    Takes digit fun d cs => ∃ c, cs = [c] ∧ c.isDigit = true ∧ d = c.toNat - '0'.toNat := by
  intro bs d rest h
  cases bs with
  | nil => contradiction
  | cons b bs =>
      have hnext : next.run (b :: bs) = .ok (b, bs) := rfl
      rw [digit, StateT.run_bind, hnext, ok_bind] at h
      cases hdigit : digit? b with
      | none =>
          simp only [hdigit] at h
          contradiction
      | some e =>
          simp only [hdigit] at h
          cases h
          obtain ⟨c, hc, hgood⟩ := exists_digit_of_digit? hdigit
          exact ⟨[c], by simp [utf8_cons, hc], c, rfl, hgood⟩

theorem takes_digits (value width : Nat) :
    Takes (digits value width) fun n cs =>
      cs.length = width ∧ (∀ c ∈ cs, c.isDigit = true) ∧ n = Nat.ofDigitChars 10 cs value := by
  induction width generalizing value with
  | zero => exact Takes.pure ⟨rfl, nofun, rfl⟩
  | succ width ih =>
      refine takes_digit.bind fun d front hfront => ?_
      obtain ⟨c, rfl, hc, rfl⟩ := hfront
      refine (ih _).imp fun n cs hcs => ?_
      obtain ⟨hlength, hdigits, rfl⟩ := hcs
      refine ⟨by simp [hlength], List.forall_mem_cons.mpr ⟨hc, hdigits⟩, ?_⟩
      rw [List.singleton_append, Nat.ofDigitChars_cons, Nat.mul_comm 10 value]

theorem takes_field (width : Nat) : Takes (digits 0 width) (IsField width) :=
  (takes_digits 0 width).imp fun _ _ ⟨hlength, hdigits, hvalue⟩ => ⟨hlength, hdigits, hvalue⟩

/-- One of some characters of ASCII. -/
theorem takes_oneOf {marks : List Char} (hascii : ∀ c ∈ marks, c.toNat < 128) :
    Takes (oneOf marks) fun _ cs => ∃ c ∈ marks, cs = [c] := by
  intro bs _ rest h
  cases bs with
  | nil => contradiction
  | cons b bs =>
      have hnext : next.run (b :: bs) = .ok (b, bs) := rfl
      rw [oneOf, StateT.run_bind, hnext, ok_bind] at h
      by_cases hmark : (marks.any fun c => c.toNat == b.toNat) = true
      · simp only [if_pos hmark] at h
        cases h
        obtain ⟨c, hc, hcode⟩ := List.any_eq_true.mp hmark
        refine ⟨[c], ?_, c, hc, rfl⟩
        rw [utf8_cons, utf8_of_lt (hascii c hc), beq_iff_eq.mp hcode, UInt8.ofNat_toNat]
        rfl
      · simp only [if_neg hmark] at h
        contradiction

theorem takes_mark {mark : Char} (hascii : mark.toNat < 128) :
    Takes (oneOf [mark]) fun _ cs => cs = [mark] := by
  have hall : ∀ c ∈ [mark], c.toNat < 128 := by simpa using hascii
  exact (takes_oneOf hall).imp fun _ cs ⟨c, hc, hcs⟩ => List.mem_singleton.mp hc ▸ hcs

/-! ### Fractions -/

/-- Whether something does not go on with a digit. -/
def EndsDigits (rest : List UInt8) : Prop := ∀ b tail, rest = b :: tail → digit? b = none

section Runs

variable {cs : List Char} {rest : List UInt8}

theorem digit?_ofNat {c : Char} (h : c.isDigit = true) :
    digit? (.ofNat c.toNat) = some (c.toNat - '0'.toNat) := by
  have hrange := toNat_of_isDigit h
  have hbyte : (UInt8.ofNat c.toNat).toNat = c.toNat := by
    rw [UInt8.toNat_ofNat']
    omega
  rw [digit?, hbyte, if_pos hrange]
  rfl

theorem utf8_digit {c : Char} (h : c.isDigit = true) :
    String.utf8EncodeChar c = [.ofNat c.toNat] := by
  have hrange := toNat_of_isDigit h
  exact utf8_of_lt (by omega)

/-- Some bytes are those of some digits and something that does not go on with a digit. -/
theorem exists_utf8_digits (bs : List UInt8) :
    ∃ cs rest, bs = utf8 cs ++ rest ∧ (∀ c ∈ cs, c.isDigit = true) ∧ EndsDigits rest := by
  induction bs with
  | nil => exact ⟨[], [], rfl, nofun, nofun⟩
  | cons b bs ih =>
      cases hdigit : digit? b with
      | none =>
          refine ⟨[], b :: bs, rfl, nofun, ?_⟩
          rintro _ _ ⟨rfl⟩
          exact hdigit
      | some d =>
          obtain ⟨c, hc, hgood, -⟩ := exists_digit_of_digit? hdigit
          obtain ⟨cs, rest, rfl, hcs, hrest⟩ := ih
          exact ⟨c :: cs, rest, by rw [utf8_cons, hc]; rfl, List.forall_mem_cons.mpr ⟨hgood, hcs⟩,
            hrest⟩

theorem fractionDigits_utf8 (h : ∀ c ∈ cs, c.isDigit = true) (hrest : EndsDigits rest)
    (value places : Nat) :
    fractionDigits value places (utf8 cs ++ rest) =
      (Nat.ofDigitChars 10 (cs.takeD places '0') value, utf8 (cs.drop places) ++ rest) := by
  induction places generalizing cs value with
  | zero => simp [fractionDigits]
  | succ places ih =>
      cases cs with
      | nil =>
          -- the places that are missing count as zeros
          have hzeros : Nat.ofDigitChars 10 (List.takeD (places + 1) [] '0') value =
              value * Nat.pow 10 (places + 1) := by
            rw [List.takeD_nil, Nat.ofDigitChars_replicate_zero, Nat.mul_comm]
            rfl
          rw [hzeros]
          cases rest with
          | nil => rfl
          | cons b tail => simp [fractionDigits, hrest b tail rfl]
      | cons c cs =>
          obtain ⟨hc, hcs⟩ := List.forall_mem_cons.mp h
          rw [utf8_cons, utf8_digit hc, List.append_assoc, List.singleton_append, fractionDigits,
            digit?_ofNat hc]
          simp only
          rw [ih hcs]
          simp [List.takeD, Nat.ofDigitChars_cons, Nat.mul_comm 10]

theorem dropWhile_utf8 (h : ∀ c ∈ cs, c.isDigit = true) (hrest : EndsDigits rest) :
    (utf8 cs ++ rest).dropWhile (fun b => (digit? b).isSome) = rest := by
  induction cs with
  | nil =>
      cases rest with
      | nil => rfl
      | cons b tail => simp [hrest b tail rfl]
  | cons c cs ih =>
      obtain ⟨hc, hcs⟩ := List.forall_mem_cons.mp h
      rw [utf8_cons, utf8_digit hc, List.append_assoc, List.singleton_append,
        List.dropWhile_cons_of_pos (by simp [digit?_ofNat hc]), ih hcs]

theorem run_digit {c : Char} (h : c.isDigit = true) (cs : List Char) (rest : List UInt8) :
    digit.run (utf8 (c :: cs) ++ rest) = .ok (c.toNat - '0'.toNat, utf8 cs ++ rest) := by
  have hnext : next.run (utf8 (c :: cs) ++ rest) = .ok (.ofNat c.toNat, utf8 cs ++ rest) := by
    rw [utf8_cons, utf8_digit h]
    rfl
  rw [digit, StateT.run_bind, hnext, ok_bind]
  simp only [digit?_ofNat h]
  rfl

/-- What is made of some digits after a point, of which the first is looked at beforehand. -/
theorem run_fraction (h : ∀ c ∈ cs, c.isDigit = true) (hrest : EndsDigits rest) :
    fraction.run (46 :: (utf8 cs ++ rest)) =
      (digit.run (utf8 cs ++ rest) >>= fun _ =>
        .ok (Nat.ofDigitChars 10 (cs.takeD 9 '0') 0, rest)) := by
  have hdot : ¬UInt8.toNat 46 ≠ '.'.toNat := by decide
  have hdrop : ∀ c ∈ cs.drop 9, c.isDigit = true := fun c hc => h c (List.mem_of_mem_drop hc)
  rw [fraction, StateT.run_bind, StateT.run_get, pure_eq_ok, ok_bind]
  simp only [if_neg hdot, fractionDigits_utf8 h hrest, dropWhile_utf8 hdrop hrest]
  rw [StateT.run_bind, StateT.run_set, pure_eq_ok, ok_bind, StateT.run_bind]
  rfl

end Runs

theorem takes_fraction : Takes fraction IsFraction := by
  intro bs nanos rest h
  cases bs with
  | nil =>
      cases h
      exact ⟨[], rfl, .missing⟩
  | cons b bs =>
      by_cases hpoint : b = 46
      · obtain ⟨cs, left, rfl, hcs, hleft⟩ := exists_utf8_digits bs
        rw [hpoint, run_fraction hcs hleft] at h
        obtain ⟨_, hdigit, h⟩ := bind_eq_ok.mp h
        cases h
        -- one digit was read behind the point, so there are some
        have hsome : cs ≠ [] := by
          rintro rfl
          obtain ⟨_, hbytes, c, rfl, hc, -⟩ := takes_digit _ _ _ hdigit
          rw [utf8_cons, utf8_digit hc] at hbytes
          have hnone := hleft _ _ hbytes
          rw [digit?_ofNat hc] at hnone
          exact Option.some_ne_none _ hnone
        refine ⟨'.' :: cs, ?_, .present ⟨hsome, hcs⟩⟩
        rw [hpoint, utf8_cons]
        rfl
      · have hother : b.toNat ≠ '.'.toNat := fun h => hpoint (UInt8.toNat_inj.mp h)
        rw [fraction, StateT.run_bind, StateT.run_get, pure_eq_ok, ok_bind] at h
        simp only [if_pos hother] at h
        cases h
        exact ⟨[], rfl, .missing⟩

/-! ### Dates, times of day and offsets -/

theorem takes_date : Takes date IsDate := by
  have hdash : Takes (oneOf ['-']) fun _ cs => cs = ['-'] := takes_mark (by decide)
  refine (takes_field 4).bind fun year years hyear => ?_
  refine hdash.bind fun _ _ hfirst => ?_
  refine (takes_field 2).bind fun month months hmonth => ?_
  refine hdash.bind fun _ _ hsecond => ?_
  refine (takes_field 2).bind fun day days hday => ?_
  refine Takes.check (fun hvalid => Takes.pure ?_) fun _ => Takes.throw _
  subst hfirst hsecond
  simpa using IsDate.intro hyear hmonth hday hvalid

theorem takes_timeOfDay : Takes timeOfDay IsTimeOfDay := by
  have hcolon : Takes (oneOf [':']) fun _ cs => cs = [':'] := takes_mark (by decide)
  refine (takes_field 2).bind fun hour hours hhour => ?_
  refine hcolon.bind fun _ _ hfirst => ?_
  refine (takes_field 2).bind fun minute minutes hminute => ?_
  refine hcolon.bind fun _ _ hsecond => ?_
  refine (takes_field 2).bind fun second seconds hseconds => ?_
  refine takes_fraction.bind fun nanos fraction hfraction => ?_
  refine Takes.check (fun hrange => Takes.pure ?_) fun _ => Takes.refused _ _
  subst hfirst hsecond
  simpa [timeParts] using IsTimeOfDay.intro hhour hminute hseconds hfraction hrange

theorem takes_offsetPart : Takes offsetPart (IsField 2) := by
  intro bs size rest h
  rw [offsetPart, StateT.run_bind, StateT.run_get, pure_eq_ok, ok_bind] at h
  by_cases hshort : bs.length < 2
  · simp only [if_pos hshort] at h
    contradiction
  · simp only [if_neg hshort] at h
    exact takes_field 2 bs size rest h

theorem takes_offsetSize : Takes offsetSize IsShift := by
  have hcolon : Takes (oneOf [':']) fun _ cs => cs = [':'] := takes_mark (by decide)
  refine takes_offsetPart.bind fun hour hours hhour => ?_
  refine hcolon.bind fun _ _ hmark => ?_
  refine takes_offsetPart.bind fun minute minutes hminute => ?_
  refine Takes.check (fun hrange => Takes.pure ?_) fun _ => Takes.throw _
  subst hmark
  simpa using IsShift.intro hhour hminute hrange

theorem takes_offset : Takes offset IsOffset := by
  have hbehind : Takes (do return -(← offsetSize)) fun shift cs =>
      ∃ size, shift = -size ∧ IsShift size cs :=
    takes_offsetSize.bind fun size cs hsize => Takes.pure ⟨size, rfl, by simpa using hsize⟩
  intro bs shift rest h
  rw [offset, StateT.run_bind, StateT.run_get, pure_eq_ok, ok_bind] at h
  simp only at h
  split at h
  · rename_i tail
    rw [StateT.run_bind, StateT.run_set, pure_eq_ok, ok_bind] at h
    obtain ⟨cs, rfl, size, rfl, hsize⟩ := hbehind _ _ _ h
    exact ⟨'\u2212' :: cs, rfl, .behind (.inr rfl) hsize⟩
  · cases bs with
    | nil => contradiction
    | cons b tail =>
        have hnext : next.run (b :: tail) = .ok (b, tail) := rfl
        -- the minus sign above is three bytes long; each other mark is the byte of its character
        have hbyte {c : Char} (hascii : c.toNat < 128) (hc : b.toNat = c.toNat) (cs : List Char) :
            utf8 (c :: cs) = b :: utf8 cs := by
          rw [utf8_cons, utf8_of_lt hascii, ← hc, UInt8.ofNat_toNat]
          rfl
        rw [StateT.run_bind, hnext, ok_bind] at h
        split at h
        · rename_i hmark
          cases h
          rcases hmark with hmark | hmark
          · exact ⟨['Z'], (hbyte (by decide) hmark []).symm ▸ rfl, .zulu (.inl rfl)⟩
          · exact ⟨['z'], (hbyte (by decide) hmark []).symm ▸ rfl, .zulu (.inr rfl)⟩
        · split at h
          · rename_i hsign
            obtain ⟨cs, rfl, hsize⟩ := takes_offsetSize _ _ _ h
            exact ⟨'+' :: cs, (hbyte (by decide) hsign cs).symm ▸ rfl, .ahead hsize⟩
          · split at h
            · rename_i hsign
              obtain ⟨cs, rfl, size, rfl, hsize⟩ := hbehind _ _ _ h
              exact ⟨'-' :: cs, (hbyte (by decide) hsign cs).symm ▸ rfl, .behind (.inl rfl) hsize⟩
            · contradiction

/-! ### Whole texts -/

/-- The parts of a text that is long enough. -/
def parts : Scan (Date × (Nat × Nat) × Int) := do
  let date ← date
  oneOf ['T', 't', ' ']
  let time ← timeOfDay
  let shift ← offset
  return (date, time, shift)

theorem run_moment (bs : List UInt8) :
    moment.run bs = if bs.length < shortest then .error .tooShort else parts.run bs := by
  rw [moment, StateT.run_bind, StateT.run_get, pure_eq_ok, ok_bind]
  split <;> rfl

/-- The text of some parts. -/
def ArePartsOf (parts : Date × (Nat × Nat) × Int) (cs : List Char) : Prop :=
  ∃ mark dates times offset, cs = dates ++ mark :: times ++ offset ∧ mark ∈ ['T', 't', ' '] ∧
    IsDate parts.1 dates ∧ IsTimeOfDay parts.2.1 times ∧ IsOffset parts.2.2 offset

theorem takes_parts : Takes parts ArePartsOf := by
  refine takes_date.bind fun date dates hdate => ?_
  refine (takes_oneOf (by simp)).bind fun _ _ hmark => ?_
  refine takes_timeOfDay.bind fun time times htime => ?_
  refine takes_offset.bind fun shift offset hoffset => ?_
  obtain ⟨mark, hmark, rfl⟩ := hmark
  exact Takes.pure ⟨mark, dates, times, offset, by simp, hmark, hdate, htime, hoffset⟩

/-- A text that is read stands for the time. -/
theorem isMoment_of_read {s : String} {d : DateTime} (h : read s = .ok d) :
    IsMoment d s.toList := by
  rw [read] at h
  obtain ⟨⟨⟨date, time, shift⟩, rest⟩, hrun, h⟩ := bind_eq_ok.mp h
  rw [run_moment, check_eq_ok] at hrun
  obtain ⟨cs, hbytes, mark, dates, times, offset, rfl, hmark, hdate, htime, hoffset⟩ :=
    takes_parts _ _ _ hrun.2
  -- the two refusals that are left come after the parts were read
  by_cases hrest : rest.isEmpty = true
  · by_cases hshift : shift.natAbs < 24 * 3600
    · simp only [if_pos hrest, if_pos hshift] at h
      cases h
      rw [List.isEmpty_iff.mp hrest, List.append_nil] at hbytes
      rw [eq_of_utf8 hbytes]
      exact .intro hdate hmark htime hoffset hshift
    · simp only [if_pos hrest, if_neg hshift] at h
      contradiction
  · simp only [if_neg hrest] at h
    contradiction

/-! ## What is read -/

/-- A step of reading takes some characters and leaves the rest. -/
def Reads (p : Scan α) (cs : List Char) (rest : List UInt8) (a : α) : Prop :=
  p.run (utf8 cs ++ rest) = .ok (a, rest)

theorem reads_pure (a : α) (rest : List UInt8) : Reads (pure a) [] rest a := rfl

/-- Steps after each other take their characters after each other. -/
theorem Reads.bind {p : Scan α} {f : α → Scan β} {cs ds : List Char} {rest : List UInt8} {a : α}
    {b : β} (hp : Reads p cs (utf8 ds ++ rest) a) (hf : Reads (f a) ds rest b) :
    Reads (p >>= f) (cs ++ ds) rest b := by
  rw [Reads, utf8_append, List.append_assoc, StateT.run_bind, hp, ok_bind]
  exact hf

/-- A step that only makes something of what was taken. -/
theorem Reads.then {p : Scan α} {f : α → Scan β} {cs : List Char} {rest : List UInt8} {a : α}
    {b : β} (hp : Reads p cs rest a) (hf : Reads (f a) [] rest b) : Reads (p >>= f) cs rest b := by
  have hboth := @Reads.bind α β p f cs [] rest a b hp hf
  rwa [List.append_nil] at hboth

/-! ### Digits and marks -/

theorem reads_digits {cs : List Char} (h : ∀ c ∈ cs, c.isDigit = true) (value : Nat)
    (rest : List UInt8) :
    Reads (digits value cs.length) cs rest (Nat.ofDigitChars 10 cs value) := by
  induction cs generalizing value with
  | nil =>
      rw [Nat.ofDigitChars_nil]
      exact reads_pure value rest
  | cons c cs ih =>
      obtain ⟨hc, hcs⟩ := List.forall_mem_cons.mp h
      have hdigit : Reads digit [c] (utf8 cs ++ rest) (c.toNat - '0'.toNat) := run_digit hc [] _
      rw [Nat.ofDigitChars_cons, List.length_cons, digits, Nat.mul_comm 10 value]
      exact hdigit.bind (ih hcs _)

theorem reads_field {width n : Nat} {cs : List Char} (h : IsField width n cs) (rest : List UInt8) :
    Reads (digits 0 width) cs rest n := by
  obtain ⟨rfl, hdigits, rfl⟩ := h
  exact reads_digits hdigits 0 rest

theorem reads_oneOf {marks : List Char} {mark : Char} (hmark : mark ∈ marks)
    (hascii : mark.toNat < 128) (rest : List UInt8) : Reads (oneOf marks) [mark] rest () := by
  have hbyte : (UInt8.ofNat mark.toNat).toNat = mark.toNat := by
    rw [UInt8.toNat_ofNat']
    omega
  have hany : (marks.any fun c => c.toNat == (UInt8.ofNat mark.toNat).toNat) = true :=
    List.any_eq_true.mpr ⟨mark, hmark, by rw [hbyte, beq_self_eq_true]⟩
  have hnext : next.run (utf8 [mark] ++ rest) = .ok (.ofNat mark.toNat, rest) := by
    rw [utf8_cons, utf8_of_lt hascii]
    rfl
  rw [Reads, oneOf, StateT.run_bind, hnext, ok_bind]
  simp only [if_pos hany]
  rfl

/-! ### Fractions -/

/-- Whether something goes on neither with a digit nor with a point. -/
structure EndsFraction (rest : List UInt8) : Prop where
  digits : EndsDigits rest
  point : ∀ b tail, rest = b :: tail → b.toNat ≠ '.'.toNat

theorem reads_fraction {nanos : Nat} {cs : List Char} (h : IsFraction nanos cs)
    {rest : List UInt8} (hrest : EndsFraction rest) : Reads fraction cs rest nanos := by
  cases h with
  | missing =>
      cases rest with
      | nil => rfl
      | cons b tail =>
          have hother := hrest.point b tail rfl
          rw [Reads, fraction, StateT.run_bind, utf8_nil, List.nil_append, StateT.run_get,
            pure_eq_ok, ok_bind]
          simp only [if_pos hother]
          rfl
  | @present digits h =>
      obtain ⟨c, others, rfl⟩ := List.exists_cons_of_ne_nil h.1
      have hpoint : utf8 ('.' :: c :: others) ++ rest = 46 :: (utf8 (c :: others) ++ rest) := rfl
      rw [Reads, hpoint, run_fraction h.2 hrest.digits, run_digit (h.2 c List.mem_cons_self),
        ok_bind]

/-! ### Dates, times of day and offsets -/

theorem reads_date {d : Date} {cs : List Char} (h : IsDate d cs) (rest : List UInt8) :
    Reads date cs rest d := by
  obtain ⟨hyear, hmonth, hday, hvalid⟩ := h
  rename_i year month day years months days
  have hdash : ∀ left, Reads (oneOf ['-']) ['-'] left () := reads_oneOf (by simp) (by decide)
  have hparts : years ++ '-' :: months ++ '-' :: days =
      years ++ (['-'] ++ (months ++ (['-'] ++ days))) := by simp
  rw [hparts]
  refine (reads_field hyear _).bind ?_
  refine (hdash _).bind ?_
  refine (reads_field hmonth _).bind ?_
  refine (hdash _).bind ?_
  refine (reads_field hday _).then ?_
  simp only [if_pos hvalid]
  exact reads_pure _ rest

theorem reads_timeOfDay {time : Nat × Nat} {cs : List Char} (h : IsTimeOfDay time cs)
    {rest : List UInt8} (hrest : EndsFraction rest) : Reads timeOfDay cs rest time := by
  obtain ⟨hhour, hminute, hsecond, hfraction, hrange⟩ := h
  rename_i hour minute second nanos hours minutes seconds fraction
  have hcolon : ∀ left, Reads (oneOf [':']) [':'] left () := reads_oneOf (by simp) (by decide)
  have hparts : hours ++ ':' :: minutes ++ ':' :: seconds ++ fraction =
      hours ++ ([':'] ++ (minutes ++ ([':'] ++ (seconds ++ fraction)))) := by simp
  rw [hparts]
  refine (reads_field hhour _).bind ?_
  refine (hcolon _).bind ?_
  refine (reads_field hminute _).bind ?_
  refine (hcolon _).bind ?_
  refine (reads_field hsecond _).bind ?_
  refine (reads_fraction hfraction hrest).then ?_
  simp only [if_pos hrange]
  exact reads_pure _ rest

theorem reads_offsetPart {n : Nat} {cs : List Char} (h : IsField 2 n cs) (rest : List UInt8) :
    Reads offsetPart cs rest n := by
  have hlong : ¬(utf8 cs ++ rest).length < 2 := by
    have hchars := length_le_utf8 cs
    rw [h.length] at hchars
    rw [List.length_append]
    omega
  rw [Reads, offsetPart, StateT.run_bind, StateT.run_get, pure_eq_ok, ok_bind]
  simp only [if_neg hlong]
  exact reads_field h rest

theorem reads_offsetSize {size : Int} {cs : List Char} (h : IsShift size cs) (rest : List UInt8) :
    Reads offsetSize cs rest size := by
  obtain ⟨hhour, hminute, hrange⟩ := h
  rename_i hour minute hours minutes
  have hcolon : ∀ left, Reads (oneOf [':']) [':'] left () := reads_oneOf (by simp) (by decide)
  have hparts : hours ++ ':' :: minutes = hours ++ ([':'] ++ minutes) := rfl
  rw [hparts]
  refine (reads_offsetPart hhour _).bind ?_
  refine (hcolon _).bind ?_
  refine (reads_offsetPart hminute _).then ?_
  simp only [if_pos hrange]
  exact reads_pure _ rest

theorem reads_offset {shift : Int} {cs : List Char} (h : IsOffset shift cs) (rest : List UInt8) :
    Reads offset cs rest shift := by
  cases h with
  | zulu hmark => rcases hmark with rfl | rfl <;> rfl
  | ahead hsize => exact reads_offsetSize hsize rest
  | @behind sign size cs hsign hsize =>
      have hbehind : Reads (do return -(← offsetSize)) cs rest (-size) :=
        (reads_offsetSize hsize rest).then (reads_pure _ rest)
      rcases hsign with rfl | rfl <;> exact hbehind

/-! ### Whole texts -/

theorem IsOffset.endsFraction {shift : Int} {cs : List Char} (h : IsOffset shift cs)
    (rest : List UInt8) : EndsFraction (utf8 cs ++ rest) := by
  have hends : ∀ b tail, utf8 cs ++ rest = b :: tail → digit? b = none ∧ b.toNat ≠ '.'.toNat := by
    rintro b tail hhead
    cases h with
    | zulu hmark => rcases hmark with rfl | rfl <;> (cases hhead; decide)
    | ahead _ =>
        cases hhead
        decide
    | behind hsign _ => rcases hsign with rfl | rfl <;> (cases hhead; decide)
  exact ⟨fun b tail h => (hends b tail h).1, fun b tail h => (hends b tail h).2⟩

theorem reads_parts {given : Date × (Nat × Nat) × Int} {cs : List Char} (h : ArePartsOf given cs) :
    Reads parts cs [] given := by
  obtain ⟨mark, dates, times, offset, rfl, hmark, hdate, htime, hoffset⟩ := h
  have hascii : ∀ c ∈ ['T', 't', ' '], c.toNat < 128 := by simp
  have hsplit : dates ++ mark :: times ++ offset = dates ++ ([mark] ++ (times ++ offset)) := by simp
  rw [hsplit]
  refine (reads_date hdate _).bind ?_
  refine (reads_oneOf hmark (hascii mark hmark) _).bind ?_
  refine (reads_timeOfDay htime (hoffset.endsFraction [])).bind ?_
  refine (reads_offset hoffset []).then ?_
  exact reads_pure _ []

theorem IsDate.length {d : Date} {cs : List Char} (h : IsDate d cs) : cs.length = 10 := by
  obtain ⟨hyear, hmonth, hday, -⟩ := h
  simp [hyear.length, hmonth.length, hday.length]

theorem IsTimeOfDay.length {time : Nat × Nat} {cs : List Char} (h : IsTimeOfDay time cs) :
    8 ≤ cs.length := by
  obtain ⟨hhour, hminute, hsecond, -, -⟩ := h
  simp [hhour.length, hminute.length, hsecond.length]
  omega

/-- **A text is read as a time just if it stands for the time.** -/
theorem read_eq_ok {s : String} {d : DateTime} : read s = .ok d ↔ IsMoment d s.toList := by
  refine ⟨isMoment_of_read, fun h => ?_⟩
  generalize hs : s.toList = cs at h
  obtain ⟨hdate, hmark, htime, hoffset, hshift⟩ := h
  rename_i date time shift mark dates times offset
  have hlong : ¬(bytes s).length < shortest := by
    have hchars := length_le_utf8 s.toList
    rw [hs, List.length_append, List.length_append, List.length_cons, hdate.length] at hchars
    have htimes := htime.length
    rw [bytes_eq_utf8, hs, shortest]
    omega
  have hparts : parts.run (bytes s) = .ok ((date, time, shift), []) := by
    have hreads : Reads parts _ [] (date, time, shift) :=
      reads_parts ⟨mark, dates, times, offset, rfl, hmark, hdate, htime, hoffset⟩
    rwa [Reads, List.append_nil, ← hs] at hreads
  rw [read, run_moment, if_neg hlong, hparts, ok_bind]
  simp [hshift]

end Firestore.Rfc3339
