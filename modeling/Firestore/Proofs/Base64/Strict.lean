import Firestore.Proofs.Base64
import Firestore.Proofs.Text.Bytes

/-!
# Only base64 is read

Three bytes that were put together from pieces of six bits are written as these pieces,
and a last group leaves no bits over, so what a reader takes is the text of the bytes
that it gives, with padding or without.  Together with `decode_encodeBytes` this says
which texts are read, and as what (`decode_eq_ok`, `decodeText_eq_ok`).
-/

namespace Firestore.Base64

/-! ## Symbols -/

/-- A byte with six bits is the code of a symbol. -/
theorem eq_code_of_value? {b : UInt8} {v : Nat} (h : value? b = some v) : v < 64 ∧ b = code v := by
  have hall : ∀ i : Fin 256, ∀ v ∈ value? (.ofNat i.val), v < 64 ∧ .ofNat i.val = code v := by
    decide +kernel
  have hb := hall ⟨b.toNat, b.toNat_lt⟩
  rw [UInt8.ofNat_toNat] at hb
  exact hb v h

theorem eq_code_of_symbolAt {offset : Nat} {b : UInt8} {v : Nat} (h : symbolAt offset b = .ok v) :
    v < 64 ∧ b = code v := by
  rw [symbolAt] at h
  split at h
  · rename_i w hw
    cases h
    exact eq_code_of_value? hw
  · contradiction

/-! ## The pieces of what was put together -/

section PutTogether

variable {v w x y : Nat}

/-- The first piece of a byte that was put together. -/
theorem first_piece (hv : v < 64) (hw : w < 64) : (UInt8.ofNat (v * 4 + w / 16)).toNat / 4 = v := by
  rw [UInt8.toNat_ofNat']
  omega

/-- The second piece lies in two bytes. -/
theorem second_piece (hw : w < 64) (hx : x < 64) :
    (UInt8.ofNat (v * 4 + w / 16)).toNat % 4 * 16 +
      (UInt8.ofNat (w % 16 * 16 + x / 4)).toNat / 16 = w := by
  rw [UInt8.toNat_ofNat', UInt8.toNat_ofNat']
  omega

/-- The third piece lies in two bytes. -/
theorem third_piece (hx : x < 64) (hy : y < 64) :
    (UInt8.ofNat (w % 16 * 16 + x / 4)).toNat % 16 * 4 +
      (UInt8.ofNat (x % 4 * 64 + y)).toNat / 64 = x := by
  rw [UInt8.toNat_ofNat', UInt8.toNat_ofNat']
  omega

theorem fourth_piece (hy : y < 64) : (UInt8.ofNat (x % 4 * 64 + y)).toNat % 64 = y := by
  rw [UInt8.toNat_ofNat']
  omega

/-- The second piece of a last byte, if no bits are left over. -/
theorem second_piece_alone (hw : w < 64) (hleft : w % 16 = 0) :
    (UInt8.ofNat (v * 4 + w / 16)).toNat % 4 * 16 = w := by
  rw [UInt8.toNat_ofNat']
  omega

/-- The third piece of a last byte, if no bits are left over. -/
theorem third_piece_alone (hx : x < 64) (hleft : x % 4 = 0) :
    (UInt8.ofNat (w % 16 * 16 + x / 4)).toNat % 16 * 4 = x := by
  rw [UInt8.toNat_ofNat']
  omega

end PutTogether

/-! ## Groups -/

theorem encodeBytes_of_decodeGroup {offset : Nat} {a b c d : UInt8} {bytes : List UInt8}
    (h : decodeGroup offset a b c d = .ok bytes) (padding : Padding) (rest : List UInt8) :
    encodeBytes padding (bytes ++ rest) = a :: b :: c :: d :: encodeBytes padding rest := by
  obtain ⟨v, ha, h⟩ := bind_eq_ok.mp h
  obtain ⟨w, hb, h⟩ := bind_eq_ok.mp h
  obtain ⟨x, hc, h⟩ := bind_eq_ok.mp h
  obtain ⟨y, hd, h⟩ := bind_eq_ok.mp h
  cases h
  obtain ⟨hv, rfl⟩ := eq_code_of_symbolAt ha
  obtain ⟨hw, rfl⟩ := eq_code_of_symbolAt hb
  obtain ⟨hx, rfl⟩ := eq_code_of_symbolAt hc
  obtain ⟨hy, rfl⟩ := eq_code_of_symbolAt hd
  simp only [List.cons_append, List.nil_append, encodeBytes, first_piece hv hw,
    second_piece hw hx, third_piece hx hy, fourth_piece hy]

/-- Behind a padding sign of the last group nothing but padding is read. -/
theorem eq_pads_of_lastSymbols {offset index place : Nat} {group : List UInt8}
    {symbols : List (UInt8 × Nat)} (h : lastSymbols offset index (some place) group = .ok symbols) :
    symbols = [] ∧ group = List.replicate group.length pad := by
  induction group generalizing index with
  | nil =>
      cases h
      exact ⟨rfl, rfl⟩
  | cons b rest ih =>
      rw [lastSymbols] at h
      by_cases hpad : b = pad
      · rw [if_pos hpad, check_eq_ok] at h
        obtain ⟨hsymbols, hrest⟩ := ih h.2
        refine ⟨hsymbols, ?_⟩
        rw [List.length_cons, List.replicate_succ, ← hrest, hpad]
      · rw [if_neg hpad] at h
        contradiction

/-- The last group is symbols with padding behind them. -/
theorem exists_pieces_of_lastSymbols {offset index : Nat} {group : List UInt8}
    {symbols : List (UInt8 × Nat)} (h : lastSymbols offset index none group = .ok symbols) :
    ∃ (pieces : List Nat) (pads : Nat), symbols = pieces.map (fun v => (code v, v)) ∧
      (∀ v ∈ pieces, v < 64) ∧ group = pieces.map code ++ List.replicate pads pad := by
  induction group generalizing index symbols with
  | nil =>
      cases h
      exact ⟨[], 0, rfl, nofun, rfl⟩
  | cons b rest ih =>
      rw [lastSymbols] at h
      by_cases hpad : b = pad
      · rw [if_pos hpad, check_eq_ok] at h
        -- after the first sign of padding there is nothing but padding
        obtain ⟨rfl, hrest⟩ := eq_pads_of_lastSymbols h.2
        refine ⟨[], rest.length + 1, rfl, nofun, ?_⟩
        rw [List.replicate_succ, ← hrest, hpad]
        rfl
      · rw [if_neg hpad] at h
        obtain ⟨v, hv, h⟩ := bind_eq_ok.mp h
        obtain ⟨left, hleft, h⟩ := bind_eq_ok.mp h
        cases h
        obtain ⟨pieces, pads, rfl, hpieces, rfl⟩ := ih hleft
        obtain ⟨hlt, rfl⟩ := eq_code_of_symbolAt hv
        exact ⟨v :: pieces, pads, rfl, List.forall_mem_cons.mpr ⟨hlt, hpieces⟩, rfl⟩

/-- Whether a group of some symbols may have so many signs behind them. -/
def Padding.Allows (padding : Padding) (symbols signs : Nat) : Prop :=
  match padding with
  | .required => (symbols + signs) % 4 = 0
  | .forbidden => signs = 0

/-- What is asked of the last group: it has two symbols if it has any, is padded as it has to be,
and leaves no bits over. -/
theorem exists_pieces_of_decodeLast {padding : Padding} {offset : Nat} {group bytes : List UInt8}
    (h : decodeLast padding offset group = .ok bytes) :
    ∃ (pieces : List Nat) (pads : Nat), group = pieces.map code ++ List.replicate pads pad ∧
      (∀ v ∈ pieces, v < 64) ∧ (group = [] ∨ 2 ≤ pieces.length) ∧
      padding.Allows pieces.length pads ∧ lastBytes pieces = (bytes, 0) := by
  obtain ⟨symbols, hsymbols, h⟩ := bind_eq_ok.mp h
  obtain ⟨pieces, pads, rfl, hpieces, hgroup⟩ := exists_pieces_of_lastSymbols hsymbols
  refine ⟨pieces, pads, hgroup, hpieces, ?_⟩
  have hsnd : (pieces.map fun v => (code v, v)).map Prod.snd = pieces := by
    rw [List.map_map]
    exact List.map_id pieces
  -- the padding is checked on the length of the group, the bits left over on its symbols
  have hlength : group.length = pieces.length + pads := by simp [hgroup]
  simp only [hsnd, List.length_map] at h
  split at h
  · contradiction
  · rename_i hcount
    have hsymbols : group = [] ∨ 2 ≤ pieces.length := by
      by_cases hnone : group = []
      · exact .inl hnone
      · refine .inr (Nat.not_lt.mp fun hfew => hcount ?_)
        simp [hnone, hfew]
    obtain ⟨hpadded, hbytes⟩ := unless_eq_ok.mp h
    refine ⟨hsymbols, ?_, ?_⟩
    · cases padding with
      | required =>
          rw [Padding.Allows, ← hlength]
          exact beq_iff_eq.mp hpadded
      | forbidden =>
          have hbare : group.length = pieces.length := beq_iff_eq.mp hpadded
          exact Nat.add_eq_left.mp (hlength.symm.trans hbare)
    · cases pieces with
      | nil =>
          cases hbytes
          rfl
      | cons v rest =>
          rw [List.map_cons, List.getLast?_cons] at hbytes
          simp only at hbytes
          split at hbytes
          · rename_i hleft
            cases hbytes
            exact Prod.ext rfl hleft
          · contradiction

/-- Some last bytes are written as the pieces that they were made of. -/
theorem encodeBytes_of_lastBytes (padding : Padding) {pieces : List Nat} {bytes : List UInt8}
    (hpieces : ∀ v ∈ pieces, v < 64) (hlow : 2 ≤ pieces.length) (hhigh : pieces.length ≤ 4)
    (h : lastBytes pieces = (bytes, 0)) :
    encodeBytes padding bytes = pieces.map code ++ padding.signs (4 - pieces.length) := by
  match pieces with
  | [v, w] =>
      obtain ⟨hv, hw⟩ : v < 64 ∧ w < 64 := by simpa using hpieces
      obtain ⟨rfl, hleft⟩ := Prod.mk.inj h
      rw [encodeBytes, first_piece hv hw, second_piece_alone hw hleft]
      rfl
  | [v, w, x] =>
      obtain ⟨hv, hw, hx⟩ : v < 64 ∧ w < 64 ∧ x < 64 := by simpa using hpieces
      obtain ⟨rfl, hleft⟩ := Prod.mk.inj h
      rw [encodeBytes, first_piece hv hw, second_piece hw hx, third_piece_alone hx hleft]
      rfl
  | [v, w, x, y] =>
      obtain ⟨hv, hw, hx, hy⟩ : v < 64 ∧ w < 64 ∧ x < 64 ∧ y < 64 := by simpa using hpieces
      obtain ⟨rfl, -⟩ := Prod.mk.inj h
      rw [encodeBytes, first_piece hv hw, second_piece hw hx, third_piece hx hy,
        fourth_piece hy]
      cases padding <;> rfl

theorem encodeBytes_of_decodeLast {padding : Padding} {offset : Nat} {group bytes : List UInt8}
    (hlength : group.length ≤ 4) (h : decodeLast padding offset group = .ok bytes) :
    encodeBytes padding bytes = group := by
  obtain ⟨pieces, pads, rfl, hpieces, hcount, hpadded, hbytes⟩ := exists_pieces_of_decodeLast h
  rcases hcount with hnone | hcount
  · rw [hnone]
    obtain rfl := List.map_eq_nil_iff.mp (List.append_eq_nil_iff.mp hnone).1
    cases hbytes
    rfl
  · simp only [List.length_append, List.length_map, List.length_replicate] at hlength
    have hsigns : List.replicate pads pad = padding.signs (4 - pieces.length) := by
      cases padding with
      | required =>
          have hwhole : (pieces.length + pads) % 4 = 0 := hpadded
          have hpads : pads = 4 - pieces.length := by omega
          rw [hpads]
          rfl
      | forbidden =>
          rw [show pads = 0 from hpadded]
          rfl
    rw [encodeBytes_of_lastBytes padding hpieces hcount (by omega) hbytes, hsigns]

theorem encodeBytes_of_decodeFrom {padding : Padding} {offset : Nat} {input bytes : List UInt8}
    (h : decodeFrom padding offset input = .ok bytes) : encodeBytes padding bytes = input := by
  induction offset, input using decodeFrom.induct generalizing bytes with
  | case1 offset a b c d e rest ih =>
      rw [decodeFrom] at h
      obtain ⟨group, hgroup, h⟩ := bind_eq_ok.mp h
      obtain ⟨left, hleft, h⟩ := bind_eq_ok.mp h
      cases h
      rw [encodeBytes_of_decodeGroup hgroup, ih hleft]
  | case2 offset group hshort =>
      have hlength : group.length ≤ 4 := by
        rcases group with _ | ⟨a, _ | ⟨b, _ | ⟨c, _ | ⟨d, _ | ⟨e, rest⟩⟩⟩⟩⟩
        case cons.cons.cons.cons.cons => exact (hshort a b c d e rest rfl).elim
        all_goals simp
      rw [decodeFrom.eq_2 _ _ _ hshort] at h
      exact encodeBytes_of_decodeLast hlength h

/-- **A reader takes the text of some bytes, padded as it has to be, and nothing else.** -/
theorem decode_eq_ok {padding : Padding} {input bytes : List UInt8} :
    decode padding input = .ok bytes ↔ input = encodeBytes padding bytes := by
  constructor
  · intro h
    rw [decode] at h
    split at h
    · contradiction
    · exact (encodeBytes_of_decodeFrom h).symm
  · rintro rfl
    exact decode_encodeBytes padding bytes

/-- **A text is read as some bytes just if it is their base64 text.** -/
theorem decodeText_eq_ok {s : String} {bytes : List UInt8} :
    decodeText s = .ok bytes ↔ s = encode bytes := by
  rw [decodeText, decode_eq_ok, ← bytes_encode]
  exact ⟨Text.eq_of_bytes, congrArg Text.bytes⟩

end Firestore.Base64
