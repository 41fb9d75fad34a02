import Firestore.Proofs.Base64.Strict
import Mathlib.Data.List.DropRight

/-!
# Base64 up to its padding

A lenient reader tries two readers in turn: the one that demands padding takes the text
as it stands, the one that forbids it takes what is before the padding signs at the end.
Each takes the text of some bytes in its own spelling and nothing else, and without the
signs at the end both spellings are the same.  So the second reader never takes a text
for which the first one has another answer, and a text is read as some bytes just if it
is their base64 text up to the signs at the end (`decodeLenient_accepts`).

Before these signs stand symbols only: whole groups, or a last one of two or three
symbols that leaves no bits over (`AreWhole`).
-/

namespace Firestore.Base64

/-! ## Signs at the end -/

/-- A text without the padding signs at its end. -/
def unpadded (s : String) : String := String.ofList (s.toList.rdropWhile (· == '='))

private theorem rdropWhile_append_replicate {α : Type} [BEq α] [LawfulBEq α] (a : α)
    (as : List α) (count : Nat) :
    (as ++ List.replicate count a).rdropWhile (· == a) = as.rdropWhile (· == a) := by
  induction count with
  | zero => rw [List.replicate_zero, List.append_nil]
  | succ count ih =>
      rw [List.replicate_succ', ← List.append_assoc]
      exact (List.rdropWhile_concat_pos (· == a) _ _ (beq_self_eq_true a)).trans ih

theorem trimPadding_append_signs (bs : List UInt8) (count : Nat) :
    trimPadding (bs ++ List.replicate count pad) = trimPadding bs :=
  rdropWhile_append_replicate pad bs count

/-- Signs may be put behind a text at will. -/
theorem unpadded_append_signs (s : String) (count : Nat) :
    unpadded (unpadded s ++ String.ofList (List.replicate count '=')) = unpadded s := by
  simp only [unpadded, String.toList_append, String.toList_ofList]
  rw [rdropWhile_append_replicate, List.rdropWhile_idempotent]

theorem trimPadding_append {bs last : List UInt8} (hne : last ≠ []) (h : pad ∉ last) :
    trimPadding (bs ++ last) = bs ++ last := by
  apply List.rdropWhile_eq_self_iff.mpr
  intro hall hpad
  apply h
  rw [← beq_iff_eq.mp hpad, List.getLast_append_of_ne_nil hall hne]
  exact List.getLast_mem hne

/-- Of all characters the padding sign alone has its byte. -/
theorem pad_not_mem_utf8 {c : Char} (h : c ≠ '=') : pad ∉ String.utf8EncodeChar c := by
  intro hmem
  by_cases hascii : c.toNat < 128
  · rw [Text.utf8_of_lt hascii, List.mem_singleton] at hmem
    have hcode : c.toNat = '='.toNat := by
      have hbyte := congrArg UInt8.toNat hmem
      rw [UInt8.toNat_ofNat_of_lt' (by show c.toNat < 256; omega)] at hbyte
      exact hbyte.symm
    apply h
    rw [← Char.ofNat_toNat c, hcode, Char.ofNat_toNat]
  · have hhigh := Text.le_of_mem_utf8 (Nat.not_lt.mp hascii) hmem
    exact absurd hhigh (by decide)

theorem trimPadding_utf8 (cs : List Char) :
    trimPadding (Text.utf8 cs) = Text.utf8 (cs.rdropWhile (· == '=')) := by
  -- on the characters from the end, as the signs are dropped
  induction cs using List.reverseRecOn with
  | nil => rfl
  | append_singleton cs c ih =>
      rw [Text.utf8_append]
      by_cases hc : c = '='
      · rw [List.rdropWhile_concat_pos _ _ _ (by simpa using hc), ← ih, hc]
        exact trimPadding_append_signs (Text.utf8 cs) 1
      · rw [List.rdropWhile_concat_neg _ _ _ (by simpa using hc), Text.utf8_append]
        apply trimPadding_append
        · simp [Text.utf8_cons]
        · simpa [Text.utf8_cons] using pad_not_mem_utf8 hc

theorem bytes_unpadded (s : String) : Text.bytes (unpadded s) = trimPadding (Text.bytes s) := by
  rw [Text.bytes_eq_utf8, Text.bytes_eq_utf8, unpadded, String.toList_ofList, trimPadding_utf8]

/-! ## Pieces of six bits -/

/-- Pieces of six bits that bytes are made of: none makes a group of its own, and the last one
leaves no bits over. -/
def AreWhole : List Nat → Prop
  | [] => True
  | [_] => False
  | [_, w] => w % 16 = 0
  | [_, _, x] => x % 4 = 0
  | _ :: _ :: _ :: _ :: rest => AreWhole rest

theorem bytes_symbols {pieces : List Nat} (h : ∀ v ∈ pieces, v < 64) :
    Text.bytes (String.ofList (pieces.map symbol)) = pieces.map code := by
  rw [Text.bytes_eq_utf8, String.toList_ofList]
  induction pieces with
  | nil => rfl
  | cons v rest ih =>
      obtain ⟨hv, hrest⟩ := List.forall_mem_cons.mp h
      rw [List.map_cons, Text.utf8_cons, utf8_symbol hv, ih hrest]
      rfl

/-- Some bytes are written as whole pieces of six bits. -/
theorem exists_pieces (bs : List UInt8) :
    ∃ pieces : List Nat, encodeBytes .forbidden bs = pieces.map code ∧ (∀ v ∈ pieces, v < 64) ∧
      AreWhole pieces := by
  induction bs using encodeBytes.induct with
  | case1 => exact ⟨[], rfl, List.forall_mem_nil _, trivial⟩
  | case2 a =>
      refine ⟨[a.toNat / 4, a.toNat % 4 * 16], rfl, ?_, ?_⟩
      · simpa using ⟨first_lt a, second_alone_lt a⟩
      · show a.toNat % 4 * 16 % 16 = 0
        omega
  | case3 a b =>
      refine ⟨[a.toNat / 4, a.toNat % 4 * 16 + b.toNat / 16, b.toNat % 16 * 4], rfl, ?_, ?_⟩
      · simpa using ⟨first_lt a, second_lt a b, third_alone_lt b⟩
      · show b.toNat % 16 * 4 % 4 = 0
        omega
  | case4 a b c rest ih =>
      obtain ⟨pieces, hcodes, hlt, hwhole⟩ := ih
      refine ⟨a.toNat / 4 :: (a.toNat % 4 * 16 + b.toNat / 16) ::
        (b.toNat % 16 * 4 + c.toNat / 64) :: c.toNat % 64 :: pieces, ?_, ?_, hwhole⟩
      · rw [encodeBytes, hcodes]
        rfl
      · simpa using ⟨first_lt a, second_lt a b, third_lt b c, fourth_lt c, hlt⟩

/-- Whole pieces of six bits are what some bytes are written as. -/
theorem exists_bytes {pieces : List Nat} (hlt : ∀ v ∈ pieces, v < 64) (hwhole : AreWhole pieces) :
    ∃ bs, encodeBytes .forbidden bs = pieces.map code := by
  induction pieces using AreWhole.induct with
  | case1 => exact ⟨[], rfl⟩
  | case2 v => exact hwhole.elim
  | case3 v w =>
      have hread : lastBytes [v, w] = ((lastBytes [v, w]).1, 0) := Prod.ext rfl hwhole
      exact ⟨_, encodeBytes_of_lastBytes .forbidden hlt (by simp) (by simp) hread⟩
  | case4 v w x =>
      have hread : lastBytes [v, w, x] = ((lastBytes [v, w, x]).1, 0) := Prod.ext rfl hwhole
      exact ⟨_, encodeBytes_of_lastBytes .forbidden hlt (by simp) (by simp) hread⟩
  | case5 v w x y rest ih =>
      obtain ⟨hv, hw, hx, hy, hrest⟩ : v < 64 ∧ w < 64 ∧ x < 64 ∧ y < 64 ∧ ∀ u ∈ rest, u < 64 := by
        simpa using hlt
      obtain ⟨bs, hbs⟩ := ih hrest hwhole
      refine ⟨.ofNat (v * 4 + w / 16) :: .ofNat (w % 16 * 16 + x / 4) :: .ofNat (x % 4 * 64 + y) ::
        bs, ?_⟩
      rw [encodeBytes, first_piece hv hw, second_piece hw hx, third_piece hx hy, fourth_piece hy,
        hbs]
      rfl

/-! ## Two spellings -/

theorem exists_signs (padding : Padding) (bs : List UInt8) :
    ∃ count, encodeBytes padding bs =
      encodeBytes .forbidden bs ++ List.replicate count pad := by
  cases padding with
  | forbidden => exact ⟨0, (List.append_nil _).symm⟩
  | required =>
      induction bs using encodeBytes.induct with
      | case1 => exact ⟨0, rfl⟩
      | case2 a => exact ⟨2, rfl⟩
      | case3 a b => exact ⟨1, rfl⟩
      | case4 a b c rest ih =>
          obtain ⟨count, hrest⟩ := ih
          refine ⟨count, ?_⟩
          rw [encodeBytes, encodeBytes, hrest]
          rfl

/-- But for the signs at the end, both spellings are the one without padding. -/
theorem trimPadding_encodeBytes (padding : Padding) (bs : List UInt8) :
    trimPadding (encodeBytes padding bs) = encodeBytes .forbidden bs := by
  obtain ⟨count, hsigns⟩ := exists_signs padding bs
  obtain ⟨pieces, hcodes, hlt, -⟩ := exists_pieces bs
  rw [hsigns, trimPadding_append_signs, hcodes]
  cases pieces with
  | nil => rfl
  | cons v rest =>
      apply @trimPadding_append [] (List.map code (v :: rest)) (List.cons_ne_nil _ _)
      intro hmem
      obtain ⟨w, hw, hpad⟩ := List.mem_map.mp hmem
      exact code_ne_pad (hlt w hw) hpad

theorem encodeBytes_injective {padding : Padding} {bs cs : List UInt8}
    (h : encodeBytes padding bs = encodeBytes padding cs) : bs = cs := by
  have hread := decode_encodeBytes padding bs
  rw [h, decode_encodeBytes padding cs] at hread
  exact (Except.ok.inj hread).symm

/-! ## What is read -/

theorem decodeLenient_eq_ok {s : String} {bytes : List UInt8} :
    decodeLenient s = .ok bytes ↔ trimPadding (Text.bytes s) = encodeBytes .forbidden bytes := by
  rw [decodeLenient]
  cases hread : decodeText s with
  | error fault => exact decode_eq_ok
  | ok found =>
      have htrim : trimPadding (Text.bytes s) = encodeBytes .forbidden found := by
        rw [decodeText_eq_ok.mp hread, bytes_encode, trimPadding_encodeBytes]
      rw [htrim]
      constructor
      · rintro ⟨⟩
        rfl
      · intro h
        rw [encodeBytes_injective h]

theorem unpadded_eq_iff {s t : String} :
    unpadded s = unpadded t ↔ trimPadding (Text.bytes s) = trimPadding (Text.bytes t) := by
  rw [← bytes_unpadded, ← bytes_unpadded]
  exact ⟨congrArg Text.bytes, Text.eq_of_bytes⟩

/-- **The padding signs at the end do not matter to a lenient reader, all else does.**  A text is
read as some bytes just if it is their base64 text up to these signs; so their text is read as it
is written, without padding, and with any number of signs.  A text is read at all just if symbols
only stand before the signs, none in a group of its own, and the last one leaves no bits over. -/
theorem decodeLenient_accepts (s : String) (bytes : List UInt8) :
    (decodeLenient s = .ok bytes ↔ unpadded s = unpadded (encode bytes)) ∧
      decodeLenient (encode bytes) = .ok bytes ∧
      (∀ count, decodeLenient (unpadded (encode bytes) ++
        String.ofList (List.replicate count '=')) = .ok bytes) ∧
      ((∃ found, decodeLenient s = .ok found) ↔
        ∃ pieces : List Nat, unpadded s = String.ofList (pieces.map symbol) ∧
          (∀ v ∈ pieces, v < 64) ∧ AreWhole pieces) := by
  have hspelling : ∀ s bytes, decodeLenient s = .ok bytes ↔
      unpadded s = unpadded (encode bytes) := by
    intro s bytes
    rw [decodeLenient_eq_ok, unpadded_eq_iff, bytes_encode, trimPadding_encodeBytes]
  refine ⟨hspelling s bytes, (hspelling _ _).mpr rfl, ?_, ?_⟩
  · intro count
    exact (hspelling _ _).mpr (unpadded_append_signs _ count)
  · constructor
    · rintro ⟨found, hfound⟩
      obtain ⟨pieces, hcodes, hlt, hwhole⟩ := exists_pieces found
      refine ⟨pieces, ?_, hlt, hwhole⟩
      apply Text.eq_of_bytes
      rw [bytes_unpadded, bytes_symbols hlt, ← hcodes]
      exact decodeLenient_eq_ok.mp hfound
    · rintro ⟨pieces, hpieces, hlt, hwhole⟩
      obtain ⟨found, hfound⟩ := exists_bytes hlt hwhole
      refine ⟨found, decodeLenient_eq_ok.mpr ?_⟩
      rw [← bytes_unpadded, hpieces, bytes_symbols hlt, hfound]

example : decodeLenient "AQIDBA===" = .ok [1, 2, 3, 4] := rfl

end Firestore.Base64
