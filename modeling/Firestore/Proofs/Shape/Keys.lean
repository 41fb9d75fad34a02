import Firestore.Proofs.Number.Decimal
import Firestore.Proofs.Shape.RoundTrip

/-!
# Keys of maps, written and read

A key is written as a text: texts and names of variants as they stand, a character as
the text of it alone, an integer in decimal.  Different keys of one type are written
differently (`KeyShape.Has.eq_of_written`), so a map has as many fields as entries.

Reading is another matter.  The reader of a key is shown the name of the field, which is
a text.  Readers of texts, characters and variants find their keys in it
(`Reader.key_written`), but a reader of integers does not read digits and refuses
(`Reader.key_int`).  So maps under integers are written, and none but the empty one is
read back.
-/

namespace Firestore

namespace KeyShape

/-- The keys of a type. -/
inductive Has : KeyShape → Key → Prop where
  | text (s : String) : Has .text (.text s)
  | char (c : Char) : Has .char (.char c)
  | int {t : IntType} {n : Int} (holds : t.holds n = true) : Has (.int t) (.int n)
  | symbol {enum name : String} {names : List String} (mem : name ∈ names) :
      Has (.symbol enum names) (.symbol name)

/-- No two variants have the same name. -/
def Distinct : KeyShape → Prop
  | .symbol _ names => names.Nodup
  | _ => True

/-- The type of keys that are integers. -/
def integer? : KeyShape → Option IntType
  | .int t => some t
  | _ => none

/-- Keys of one type that are written alike are the same. -/
theorem Has.eq_of_written {keys : KeyShape} {k l : Key} (hk : keys.Has k) (hl : keys.Has l)
    (h : k.written = l.written) : k = l := by
  cases hk with
  | text s =>
      cases hl
      exact congrArg Key.text h
  | char c =>
      cases hl with
      | char d =>
          have hchars : [c] = [d] := by simpa [Key.written] using congrArg String.toList h
          rw [List.cons.inj hchars |>.1]
  | int =>
      cases hl
      exact congrArg Key.int (Numeral.toString_injective h)
  | symbol =>
      cases hl
      exact congrArg Key.symbol h

/-- Different keys of one type are written differently. -/
theorem nodup_written {keys : KeyShape} {entries : List (Key × Datum)}
    (hkeys : ∀ entry ∈ entries, keys.Has entry.1) (hnodup : (entries.map Prod.fst).Nodup) :
    (entries.map fun entry => entry.1.written).Nodup := by
  have hwritten : ((entries.map Prod.fst).map Key.written).Nodup := by
    refine hnodup.map_on fun k hk l hl heq => ?_
    obtain ⟨first, hfirst, rfl⟩ := List.mem_map.mp hk
    obtain ⟨second, hsecond, rfl⟩ := List.mem_map.mp hl
    exact (hkeys first hfirst).eq_of_written (hkeys second hsecond) heq
  rwa [List.map_map] at hwritten

end KeyShape

namespace Reader

/-! ## One key -/

/-- A key that is no integer is read back from the text that it was written as. -/
theorem key_written {keys : KeyShape} {k : Key} (hdistinct : keys.Distinct) (hk : keys.Has k)
    (hint : keys.integer? = none) : key keys .storedName (.text k.written) = .ok k := by
  cases hk with
  | text s => rw [key, Source.readText_text, map_ok, Key.written]
  | char c =>
      have hanswer : (Source.text c.toString).answer .storedName .text =
          .ok (.text c.toString) := rfl
      rw [key, Key.written, Source.readChar, hanswer, ok_bind]
      simp
  | int => cases hint
  | @symbol enum name names hmem =>
      have hvariant : variantOf enum .storedName (.text name) = .ok (.text name, none) := rfl
      rw [key, Key.written, hvariant, ok_bind]
      simp only [variantName_text hdistinct hmem, ok_bind]
      rfl

/-- A text is no integer, whatever its digits are. -/
theorem key_int (t : IntType) (name : String) :
    key (.int t) .storedName (.text name) =
      .error (.typeMismatch t.name s!"string {Text.quoted name}") := rfl

end Reader

namespace Shape

/-! ## All keys of a map -/

variable {keys : KeyShape} {content : Shape} {entries : List (Key × Datum)}

/-- The first key is read before anything else, and is no integer. -/
private theorem decode_map_int (t : IntType) (name : String) (v : Value) (rest : Fields Value) :
    (Shape.map (.int t) content).decode (.map ((name, v) :: rest)) =
      .error (.typeMismatch t.name s!"string {Text.quoted name}") := by
  show Datum.ofEntries <$> Reader.entries (Reader.key (.int t)) content.reader .stored
    ((.text name, .ofValue v) :: Source.ofFields rest) = _
  rw [Reader.entries, show Format.stored.keys = .storedName from rfl, Reader.key_int, error_bind,
    map_error]

/-- **Maps are written under keys of every type, and read back unless the keys are integers.**
Every entry has a field of its own.  Of keys that are integers, the reader refuses the first
one that it meets. -/
theorem map_keys (hdistinct : keys.Distinct) (hkeys : ∀ entry ∈ entries, keys.Has entry.1)
    (hnodup : (entries.map Prod.fst).Nodup)
    (hcontent : ∀ entry ∈ entries, content.RoundTrips entry.2) :
    ∃ fields : Fields Value, (Shape.map keys content).encode (.map entries) = .ok (.map fields) ∧
      fields.length = entries.length ∧
      (keys.integer? = none ∨ entries = [] → ∃ back, back.Perm entries ∧
        (Shape.map keys content).decode (.map fields) = .ok (.map back)) ∧
      ∀ t, keys.integer? = some t → entries ≠ [] → ∃ name, fields.names.head? = some name ∧
        (Shape.map keys content).decode (.map fields) =
          .error (.typeMismatch t.name s!"string {Text.quoted name}") := by
  obtain ⟨fields, back, hwrite, hperm, hordered, hread⟩ :=
    exists_map (KeyShape.nodup_written hkeys hnodup) hcontent
  have hlength : fields.length = entries.length := by
    rw [← hread.length_eq, hperm.length_eq]
  refine ⟨fields, hwrite, hlength, fun hcase => ⟨back, hperm, decode_map ?_ hordered hread⟩, ?_⟩
  · intro entry hentry
    have hmem : entry ∈ entries := hperm.mem_iff.mp hentry
    rcases hcase with hnone | rfl
    · exact Reader.key_written hdistinct (hkeys entry hmem) hnone
    · cases hmem
  · intro t ht hne
    have hint : keys = .int t := by
      cases keys <;> cases ht
      rfl
    cases fields with
    | nil => exact absurd (List.length_eq_zero_iff.mp hlength.symm) hne
    | cons field rest => exact ⟨field.1, rfl, hint ▸ decode_map_int t field.1 field.2 rest⟩

/-- Roles, not in the order of their names, and the numbers of their holders. -/
theorem map_keys_roles :
    let role : KeyShape := .symbol "Role" ["member", "admin"]
    let holders : List (Key × Datum) := [(.symbol "member", .int 12), (.symbol "admin", .int 2)]
    (role.Distinct ∧ (∀ entry ∈ holders, role.Has entry.1) ∧ (holders.map Prod.fst).Nodup ∧
      ∀ entry ∈ holders, (Shape.int .i64).RoundTrips entry.2) ∧
      ∃ fields back, (Shape.map role (.int .i64)).encode (.map holders) = .ok (.map fields) ∧
        back.Perm holders ∧
          (Shape.map role (.int .i64)).decode (.map fields) = .ok (.map back) := by
  intro role holders
  have hdistinct : role.Distinct := by
    show ["member", "admin"].Nodup
    decide
  have hkeys : ∀ entry ∈ holders, role.Has entry.1 := by
    simpa [holders] using And.intro (KeyShape.Has.symbol (by simp)) (KeyShape.Has.symbol (by simp))
  have hnodup : (holders.map Prod.fst).Nodup := by decide
  have hcontent : ∀ entry ∈ holders, (Shape.int .i64).RoundTrips entry.2 := by
    simpa [holders] using And.intro (RoundTrips.int (by decide) (by decide))
      (RoundTrips.int (by decide) (by decide))
  obtain ⟨fields, hwrite, -, hread, -⟩ := map_keys hdistinct hkeys hnodup hcontent
  obtain ⟨back, hperm, hback⟩ := hread (.inl rfl)
  exact ⟨⟨hdistinct, hkeys, hnodup, hcontent⟩, fields, back, hwrite, hperm, hback⟩

/-- A text under the number seven is written, and refused when it is read. -/
theorem map_keys_refused :
    let named : Shape := .map (.int .u32) .text
    KeyShape.Has (.int .u32) (.int 7) ∧ Shape.text.RoundTrips (.text "seven") ∧
      named.encode (.map [(.int 7, .text "seven")]) = .ok (.map [("7", .string "seven")]) ∧
      named.decode (.map [("7", .string "seven")]) =
        .error (.typeMismatch "u32" "string \"7\"") := by
  intro named
  have hkey : KeyShape.Has (.int .u32) (.int 7) := .int (by decide)
  have hquoted : Error.typeMismatch IntType.u32.name ("string " ++ Text.quoted "7") =
      .typeMismatch "u32" "string \"7\"" := by decide +kernel
  refine ⟨hkey, ⟨.string "seven", rfl, rfl⟩, rfl, ?_⟩
  exact (decode_map_int .u32 "7" (.string "seven") []).trans (congrArg Except.error hquoted)

end Shape

end Firestore
