import Firestore.Base64
import Firestore.Proofs.Steps

/-!
# Base64 is read back

The bytes of a text of symbols are the codes of the symbols, and a code tells its six
bits (`value?_code`).  Group by group, the six-bit pieces that the writer makes of
three bytes are put together again by the reader, and the pieces of a last group of
one or two bytes leave no bits over.  That holds with padding and without; the writer
pads, and so the reader of padded texts takes every text that it makes
(`decodeText_encode`).
-/

namespace Firestore.Base64

/-! ## Symbols and their codes -/

/-- The byte of the symbol of six bits. -/
def code (n : Nat) : UInt8 := .ofNat (symbol n).toNat

theorem value?_code {n : Nat} (h : n < 64) : value? (code n) = some n := by
  have hall : ∀ i : Fin 64, value? (code i.val) = some i.val := by decide
  exact hall ⟨n, h⟩

theorem utf8_symbol {n : Nat} (h : n < 64) : String.utf8EncodeChar (symbol n) = [code n] := by
  have hall : ∀ i : Fin 64, String.utf8EncodeChar (symbol i.val) = [code i.val] := by decide
  exact hall ⟨n, h⟩

theorem code_ne_pad {n : Nat} (h : n < 64) : code n ≠ pad := by
  intro heq
  have hvalue := value?_code h
  rw [heq] at hvalue
  cases hvalue

theorem symbolAt_code {n : Nat} (h : n < 64) (offset : Nat) : symbolAt offset (code n) = .ok n := by
  rw [symbolAt, value?_code h]

/-! ## Pieces of six bits -/

section Pieces

variable (a b c : UInt8)

theorem first_lt : a.toNat / 4 < 64 := by
  have ha := a.toNat_lt
  omega

theorem second_lt : a.toNat % 4 * 16 + b.toNat / 16 < 64 := by
  have hb := b.toNat_lt
  omega

theorem third_lt : b.toNat % 16 * 4 + c.toNat / 64 < 64 := by
  have hc := c.toNat_lt
  omega

theorem fourth_lt : c.toNat % 64 < 64 := Nat.mod_lt _ (by decide)

theorem second_alone_lt : a.toNat % 4 * 16 < 64 := by omega

theorem third_alone_lt : b.toNat % 16 * 4 < 64 := by omega

/-- The first byte from the first two pieces. -/
theorem first_byte :
    UInt8.ofNat (a.toNat / 4 * 4 + (a.toNat % 4 * 16 + b.toNat / 16) / 16) = a := by
  have hb := b.toNat_lt
  have hsum : a.toNat / 4 * 4 + (a.toNat % 4 * 16 + b.toNat / 16) / 16 = a.toNat := by omega
  rw [hsum, UInt8.ofNat_toNat]

/-- The second byte from the second and the third piece. -/
theorem second_byte :
    UInt8.ofNat ((a.toNat % 4 * 16 + b.toNat / 16) % 16 * 16 +
      (b.toNat % 16 * 4 + c.toNat / 64) / 4) = b := by
  have hb := b.toNat_lt
  have hc := c.toNat_lt
  have hsum : (a.toNat % 4 * 16 + b.toNat / 16) % 16 * 16 +
      (b.toNat % 16 * 4 + c.toNat / 64) / 4 = b.toNat := by omega
  rw [hsum, UInt8.ofNat_toNat]

/-- The third byte from the last two pieces. -/
theorem third_byte :
    UInt8.ofNat ((b.toNat % 16 * 4 + c.toNat / 64) % 4 * 64 + c.toNat % 64) = c := by
  have hc := c.toNat_lt
  have hsum : (b.toNat % 16 * 4 + c.toNat / 64) % 4 * 64 + c.toNat % 64 = c.toNat := by omega
  rw [hsum, UInt8.ofNat_toNat]

end Pieces

/-! ## The bytes of a text -/

/-- The signs that stand for the missing symbols of a last group. -/
def Padding.signs (padding : Padding) (missing : Nat) : List UInt8 :=
  match padding with
  | .required => List.replicate missing pad
  | .forbidden => []

/-- The bytes of the base64 text of some bytes. -/
def encodeBytes (padding : Padding) : List UInt8 → List UInt8
  | [] => []
  | [a] => code (a.toNat / 4) :: code (a.toNat % 4 * 16) :: padding.signs 2
  | [a, b] =>
      code (a.toNat / 4) :: code (a.toNat % 4 * 16 + b.toNat / 16) :: code (b.toNat % 16 * 4) ::
        padding.signs 1
  | a :: b :: c :: rest =>
      code (a.toNat / 4) :: code (a.toNat % 4 * 16 + b.toNat / 16) ::
        code (b.toNat % 16 * 4 + c.toNat / 64) :: code (c.toNat % 64) :: encodeBytes padding rest

theorem bytes_encode (bs : List UInt8) : Text.bytes (encode bs) = encodeBytes .required bs := by
  have hpad : String.utf8EncodeChar '=' = [pad] := by decide
  rw [Text.bytes, encode, String.toList_ofList]
  induction bs using encodeChars.induct with
  | case1 => rfl
  | case2 a =>
      simp only [encodeChars, List.flatMap_cons, List.flatMap_nil, hpad, utf8_symbol (first_lt a),
        utf8_symbol (second_alone_lt a)]
      rfl
  | case3 a b =>
      simp only [encodeChars, List.flatMap_cons, List.flatMap_nil, hpad, utf8_symbol (first_lt a),
        utf8_symbol (second_lt a b), utf8_symbol (third_alone_lt b)]
      rfl
  | case4 a b c rest ih =>
      simp only [encodeChars, List.flatMap_cons, utf8_symbol (first_lt a),
        utf8_symbol (second_lt a b), utf8_symbol (third_lt b c), utf8_symbol (fourth_lt c), ih]
      rfl

/-- No symbol makes a group of its own. -/
theorem length_encodeBytes (padding : Padding) (bs : List UInt8) :
    (encodeBytes padding bs).length % 4 ≠ 1 := by
  induction bs using encodeBytes.induct with
  | case1 => simp [encodeBytes]
  | case2 a => cases padding <;> simp [encodeBytes, Padding.signs]
  | case3 a b => cases padding <;> simp [encodeBytes, Padding.signs]
  | case4 a b c rest ih =>
      rw [encodeBytes]
      simp only [List.length_cons]
      omega

/-! ## Reading -/

theorem decodeGroup_codes (a b c : UInt8) (offset : Nat) :
    decodeGroup offset (code (a.toNat / 4)) (code (a.toNat % 4 * 16 + b.toNat / 16))
      (code (b.toNat % 16 * 4 + c.toNat / 64)) (code (c.toNat % 64)) = .ok [a, b, c] := by
  rw [decodeGroup, symbolAt_code (first_lt a), ok_bind, symbolAt_code (second_lt a b), ok_bind,
    symbolAt_code (third_lt b c), ok_bind, symbolAt_code (fourth_lt c), ok_bind,
    first_byte, second_byte, third_byte]
  rfl

/-- A symbol of the last group, before any padding. -/
theorem lastSymbols_code {n : Nat} (h : n < 64) (offset index : Nat) (rest : List UInt8) :
    lastSymbols offset index none (code n :: rest) =
      (do return (code n, n) :: (← lastSymbols offset (index + 1) none rest)) := by
  rw [lastSymbols, if_neg (code_ne_pad h)]
  show (symbolAt (offset + index) (code n) >>= fun v =>
    lastSymbols offset (index + 1) none rest >>= fun left => .ok ((code n, v) :: left)) = _
  rw [symbolAt_code h, ok_bind]
  rfl

/-! ### The last group -/

theorem lastBytes_one (a : UInt8) : lastBytes [a.toNat / 4, a.toNat % 4 * 16] = ([a], 0) := by
  have hbyte : UInt8.ofNat (a.toNat / 4 * 4 + a.toNat % 4 * 16 / 16) = a := first_byte a 0
  have hleft : a.toNat % 4 * 16 % 16 = 0 := by omega
  rw [lastBytes, hbyte, hleft]

theorem lastBytes_two (a b : UInt8) :
    lastBytes [a.toNat / 4, a.toNat % 4 * 16 + b.toNat / 16, b.toNat % 16 * 4] = ([a, b], 0) := by
  have hsecond : UInt8.ofNat ((a.toNat % 4 * 16 + b.toNat / 16) % 16 * 16 +
      b.toNat % 16 * 4 / 4) = b := second_byte a b 0
  have hleft : b.toNat % 16 * 4 % 4 = 0 := by omega
  rw [lastBytes, first_byte, hsecond, hleft]

theorem lastBytes_three (a b c : UInt8) :
    lastBytes [a.toNat / 4, a.toNat % 4 * 16 + b.toNat / 16, b.toNat % 16 * 4 + c.toNat / 64,
      c.toNat % 64] = ([a, b, c], 0) := by
  rw [lastBytes, first_byte, second_byte, third_byte]

/-- The symbols of a last group, with the signs behind them. -/
theorem lastSymbols_signs (padding : Padding) (offset : Nat) {index : Nat} (h : 2 ≤ index)
    (missing : Nat) : lastSymbols offset index none (padding.signs missing) = .ok [] := by
  have hpads (place : Option Nat) :
      lastSymbols offset index place (List.replicate missing pad) = .ok [] := by
    induction missing generalizing index place with
    | zero => rfl
    | succ missing ih =>
        rw [List.replicate_succ, lastSymbols.eq_def]
        simp only [if_pos, if_neg (Nat.not_lt.mpr h)]
        exact ih (by omega) _
  cases padding with
  | required => exact hpads none
  | forbidden => rfl

theorem decodeLast_one (padding : Padding) (a : UInt8) (offset : Nat) :
    decodeLast padding offset (encodeBytes padding [a]) = .ok [a] := by
  have hsymbols : lastSymbols offset 0 none (encodeBytes padding [a]) =
      .ok [(code (a.toNat / 4), a.toNat / 4), (code (a.toNat % 4 * 16), a.toNat % 4 * 16)] := by
    rw [encodeBytes, lastSymbols_code (first_lt a), lastSymbols_code (second_alone_lt a),
      lastSymbols_signs padding offset (by decide)]
    rfl
  rw [decodeLast, hsymbols, ok_bind]
  cases padding <;> simp [lastBytes_one, encodeBytes, Padding.signs]

theorem decodeLast_two (padding : Padding) (a b : UInt8) (offset : Nat) :
    decodeLast padding offset (encodeBytes padding [a, b]) = .ok [a, b] := by
  have hsymbols : lastSymbols offset 0 none (encodeBytes padding [a, b]) =
      .ok [(code (a.toNat / 4), a.toNat / 4),
        (code (a.toNat % 4 * 16 + b.toNat / 16), a.toNat % 4 * 16 + b.toNat / 16),
        (code (b.toNat % 16 * 4), b.toNat % 16 * 4)] := by
    rw [encodeBytes, lastSymbols_code (first_lt a), lastSymbols_code (second_lt a b),
      lastSymbols_code (third_alone_lt b), lastSymbols_signs padding offset (by decide)]
    rfl
  rw [decodeLast, hsymbols, ok_bind]
  cases padding <;> simp [lastBytes_two, encodeBytes, Padding.signs]

theorem decodeLast_three (padding : Padding) (a b c : UInt8) (offset : Nat) :
    decodeLast padding offset (encodeBytes padding [a, b, c]) = .ok [a, b, c] := by
  have hsymbols : lastSymbols offset 0 none (encodeBytes padding [a, b, c]) =
      .ok [(code (a.toNat / 4), a.toNat / 4),
        (code (a.toNat % 4 * 16 + b.toNat / 16), a.toNat % 4 * 16 + b.toNat / 16),
        (code (b.toNat % 16 * 4 + c.toNat / 64), b.toNat % 16 * 4 + c.toNat / 64),
        (code (c.toNat % 64), c.toNat % 64)] := by
    rw [encodeBytes, encodeBytes, lastSymbols_code (first_lt a), lastSymbols_code (second_lt a b),
      lastSymbols_code (third_lt b c), lastSymbols_code (fourth_lt c)]
    rfl
  rw [decodeLast, hsymbols, ok_bind]
  cases padding <;> simp [lastBytes_three, encodeBytes]

theorem decodeFrom_encodeBytes (padding : Padding) (bs : List UInt8) (offset : Nat) :
    decodeFrom padding offset (encodeBytes padding bs) = .ok bs := by
  induction bs using encodeBytes.induct generalizing offset with
  | case1 => cases padding <;> rfl
  | case2 a =>
      have hread := decodeLast_one padding a offset
      cases padding <;> exact hread
  | case3 a b =>
      have hread := decodeLast_two padding a b offset
      cases padding <;> exact hread
  | case4 a b c rest ih =>
      rw [encodeBytes]
      cases hrest : encodeBytes padding rest with
      | nil =>
          -- The group is the last one, which the reader treats apart.
          have hnil : rest = [] := by
            have hread := ih 0
            rw [hrest] at hread
            cases padding <;> exact (Except.ok.inj hread).symm
          rw [hnil]
          exact decodeLast_three padding a b c offset
      | cons d more =>
          have hread := ih (offset + 4)
          rw [hrest] at hread
          rw [decodeFrom, decodeGroup_codes, ok_bind, hread, ok_bind]
          rfl

/-- The text of some bytes is read as those bytes, with padding and without. -/
theorem decode_encodeBytes (padding : Padding) (bs : List UInt8) :
    decode padding (encodeBytes padding bs) = .ok bs := by
  have hstray : strayByte? (encodeBytes padding bs) = none := by
    rw [strayByte?]
    split
    · rw [if_neg]
      rintro ⟨hone, -⟩
      exact length_encodeBytes padding bs hone
    · rfl
  rw [decode, hstray]
  exact decodeFrom_encodeBytes padding bs 0

/-- **The base64 text of some bytes is read as those bytes.** -/
theorem decodeText_encode (bs : List UInt8) : decodeText (encode bs) = .ok bs := by
  rw [decodeText, bytes_encode]
  exact decode_encodeBytes .required bs

end Firestore.Base64
