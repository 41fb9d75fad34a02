import Firestore.Proofs.Shape.Readers
import Firestore.Proofs.Source.Buffered

/-!
# Records that gather what they do not know

A record reads its own fields where they stand among the stored ones, and keeps all
others.  When the stored fields are at their end, what was kept is read as a map of any
values.  `openRecord_takes` says that the record then holds each stored field once: its
own as its readers take them, and the others as normal forms, under their names.
-/

namespace Firestore

open Source (KeptAs)

namespace Reader

/-! ## One field -/

/-- A field that the record knows is read at once. -/
theorem openEntries_known {fields : List FieldReader} (hnodup : (fields.map FieldReader.name).Nodup)
    {field : FieldReader} (hmem : field ∈ fields) (seen : List (String × Datum))
    (others : List (Source × Source)) (s : Source) (rest : List (Source × Source)) :
    openEntries fields .stored seen others ((.text field.name, s) :: rest) =
      (newField field seen .stored s >>= fun seen =>
        openEntries fields .stored seen others rest) := by
  have hfind : (fields.find? fun other => other.name == field.name) = some field := by
    obtain ⟨before, after, rfl⟩ := List.append_of_mem hmem
    rw [List.map_append, List.map_cons, List.nodup_append] at hnodup
    rw [List.find?_append, List.find?_eq_none.mpr ?_, Option.none_or,
      List.find?_cons_of_pos (by simp)]
    intro other hother heq
    exact hnodup.2.2 _ (List.mem_map_of_mem hother) _ List.mem_cons_self (beq_iff_eq.mp heq)
  simp only [openEntries, Source.shown, hfind]

/-- What stands under any other name is kept. -/
theorem openEntries_other {fields : List FieldReader} {name : String}
    (hout : name ∉ fields.map FieldReader.name) (seen : List (String × Datum))
    (others : List (Source × Source)) (s : Source) (rest : List (Source × Source)) :
    openEntries fields .stored seen others ((.text name, s) :: rest) =
      (s.buffer .stored >>= fun kept =>
        openEntries fields .stored seen ((.text name, kept) :: others) rest) := by
  have hfind : (fields.find? fun other => other.name == name) = none := by
    rw [List.find?_eq_none]
    intro other hother heq
    exact hout (beq_iff_eq.mp heq ▸ List.mem_map_of_mem hother)
  simp only [openEntries, Source.shown, hfind]
  rfl

/-! ## All fields -/

/-- The stored fields that a record does not know, as it holds them. -/
def gathered (names : List String) (stored : Fields Value) : List (Key × Datum) :=
  (stored.filter fun pair => pair.1 ∉ names).map fun pair => (.text pair.1, .value pair.2.normalize)

theorem gathered_cons_known {names : List String} {pair : String × Value} (hmem : pair.1 ∈ names)
    (stored : Fields Value) : gathered names (pair :: stored) = gathered names stored := by
  simp [gathered, hmem]

theorem gathered_cons_other {names : List String} {pair : String × Value} (hout : pair.1 ∉ names)
    (stored : Fields Value) :
    gathered names (pair :: stored) =
      (.text pair.1, .value pair.2.normalize) :: gathered names stored := by
  simp [gathered, hout]

/-- What was kept is read under its name, before what was kept later. -/
theorem entries_kept_cons {name : String} {s : Source} {v : Value} {kept : List (Source × Source)}
    {data : List (Key × Datum)} (hv : s.readValue .buffered = .ok v)
    (hread : entries (key .text) Shape.value.reader .buffered kept = .ok data) :
    entries (key .text) Shape.value.reader .buffered ((.text name, s) :: kept) =
      .ok ((.text name, .value v) :: data) := by
  have hkey : key .text Format.buffered.keys (.text name) = .ok (.text name) := rfl
  have hvalue : Shape.value.reader .buffered s = .ok (.value v) := by
    show Datum.value <$> s.readValue .buffered = _
    rw [hv, map_ok]
  rw [entries, hkey, ok_bind, hvalue]
  show (entries (key .text) Shape.value.reader .buffered kept >>= fun more =>
    .ok ((Key.text name, Datum.value v) :: more)) = _
  rw [hread, ok_bind]

/-- Each stored field is either read or kept. -/
theorem openEntries_stored {fields : List FieldReader} {data : List (String × Datum)}
    {stored : Fields Value} (hnodup : (fields.map FieldReader.name).Nodup)
    (hstored : (stored.map Prod.fst).Nodup)
    (hknown : ∀ pair ∈ stored, ∀ field ∈ fields, field.name = pair.1 →
      ∃ d, data.lookup pair.1 = some d ∧ field.read.Takes pair.2 d)
    (hother : ∀ pair ∈ stored, pair.1 ∉ fields.map FieldReader.name →
      KeptAs (.ofValue pair.2) pair.2.normalize)
    (seen : List (String × Datum)) (others : List (Source × Source))
    (hnew : ∀ pair ∈ stored, seen.lookup pair.1 = none) :
    ∃ all kept, openEntries fields .stored seen others (Source.ofFields stored) =
        .ok (all, others.reverse ++ kept) ∧
      (∀ name ∈ fields.map FieldReader.name, all.lookup name =
        if name ∈ stored.map Prod.fst then data.lookup name else seen.lookup name) ∧
      entries (key .text) Shape.value.reader .buffered kept =
        .ok (gathered (fields.map FieldReader.name) stored) := by
  -- on the stored fields; a field that is read extends `seen`, any other one extends `others`
  induction stored generalizing seen others with
  | nil => exact ⟨seen, [], by simp [Source.ofFields, openEntries], by simp, rfl⟩
  | cons pair rest ih =>
      obtain ⟨name, v⟩ := pair
      obtain ⟨hknownHere, hknownRest⟩ := List.forall_mem_cons.mp hknown
      obtain ⟨hotherHere, hotherRest⟩ := List.forall_mem_cons.mp hother
      obtain ⟨hnewHere, hnewRest⟩ := List.forall_mem_cons.mp hnew
      obtain ⟨hout, hnodupRest⟩ := List.nodup_cons.mp hstored
      by_cases hname : name ∈ fields.map FieldReader.name
      · obtain ⟨field, hfield, rfl⟩ := List.mem_map.mp hname
        obtain ⟨d, hlookup, htakes⟩ := hknownHere field hfield rfl
        obtain ⟨all, kept, hopen, hlook, hread⟩ :=
          ih hnodupRest hknownRest hotherRest _ others (unread_cons hout hnewRest d)
        refine ⟨all, kept, ?_, fun other hother => ?_, ?_⟩
        · rw [Source.ofFields, openEntries_known hnodup hfield, newField_takes hnewHere htakes,
            ok_bind, hopen]
        · rw [hlook other hother, List.map_cons, lookup_step hout hlookup]
        · rw [gathered_cons_known hname, hread]
      · obtain ⟨s, hs, hv⟩ := hotherHere hname
        obtain ⟨all, kept, hopen, hlook, hread⟩ :=
          ih hnodupRest hknownRest hotherRest seen ((.text name, s) :: others) hnewRest
        refine ⟨all, (.text name, s) :: kept, ?_, fun other hother => ?_, ?_⟩
        · rw [Source.ofFields, openEntries_other hname, hs, ok_bind, hopen]
          simp
        · have hne : other ≠ name := fun heq => hname (heq ▸ hother)
          rw [hlook other hother, List.map_cons]
          simp only [List.mem_cons, hne, false_or]
        · rw [gathered_cons_other hname, entries_kept_cons hv hread]

theorem pairwise_gathered {stored : Fields Value} (h : Fields.Sorted stored) (names : List String) :
    (gathered names stored).Pairwise fun a b => a.1.written < b.1.written :=
  List.pairwise_map.mpr (h.sublist List.filter_sublist)

/-- **A record that gathers holds every stored field**: its own fields as they are read, and
the others as normal forms. -/
theorem openRecord_takes {fields : List FieldReader} {data : List (String × Datum)}
    {stored : Fields Value} (hnodup : (fields.map FieldReader.name).Nodup)
    (hnames : fields.map FieldReader.name = data.map Prod.fst) (hsorted : Fields.Sorted stored)
    (hall : ∀ entry ∈ data, entry.1 ∈ stored.map Prod.fst)
    (hknown : ∀ pair ∈ stored, ∀ field ∈ fields, field.name = pair.1 →
      ∃ d, data.lookup pair.1 = some d ∧ field.read.Takes pair.2 d)
    (hother : ∀ pair ∈ stored, pair.1 ∉ fields.map FieldReader.name →
      KeptAs (.ofValue pair.2) pair.2.normalize)
    (name rest : String) :
    (openRecord name fields rest).Takes (.map stored)
      (.record (data ++ [(rest, .map (gathered (fields.map FieldReader.name) stored))])) := by
  have hdata : (data.map Prod.fst).Nodup := hnames ▸ hnodup
  obtain ⟨all, kept, hopen, hlook, hread⟩ :=
    openEntries_stored hnodup hsorted.nodup_names hknown hother [] [] fun pair _ => rfl
  -- what was seen has each field of the record, as every name stands in the map
  have hseen : ∀ entry ∈ data, all.lookup entry.1 = some entry.2 := by
    intro entry hentry
    rw [hlook entry.1 (hnames ▸ List.mem_map_of_mem hentry), if_pos (hall entry hentry),
      lookup_eq_get?]
    exact Fields.get?_of_mem hdata hentry
  calc openRecord name fields rest .stored (.ofValue (.map stored))
      = (openEntries fields .stored [] [] (Source.ofFields stored) >>= fun read =>
          collect read.1 fields >>= fun own =>
            entries (key .text) Shape.value.reader .buffered read.2 >>= fun others =>
              .ok (.record (own ++ [(rest, .ofEntries others)]))) := rfl
    _ = (collect all fields >>= fun own =>
          entries (key .text) Shape.value.reader .buffered kept >>= fun others =>
            .ok (.record (own ++ [(rest, .ofEntries others)]))) := by
        rw [hopen]
        rfl
    _ = .ok (.record (data ++ [(rest,
          .ofEntries (gathered (fields.map FieldReader.name) stored))])) := by
        rw [collect_seen hnames hseen, ok_bind, hread, ok_bind]
    _ = .ok (.record (data ++ [(rest, .map (gathered (fields.map FieldReader.name) stored))])) := by
        rw [ofEntries_eq_map (pairwise_gathered hsorted _)]

end Reader

namespace Shape

open Value

/-- **A record of one text gathers all other fields of a document as they are**, but for
moments that are not normal, if no map inside them starts with a reserved name. -/
theorem decodeFields_gathered {stored : Fields Value} {known s : String}
    (hordered : (Value.map stored).Ordered) (hknown : stored.get? known = some (.string s))
    (hfree : ∀ field ∈ stored, field.1 ≠ known → field.2.Everywhere StartsFree)
    (name rest : String) :
    (Shape.openRecord name [{ name := known, shape := .text }] rest).decodeFields stored =
      .ok (.record [(known, .text s), (rest, .map ((stored.filter fun field => field.1 ≠ known).map
        fun field => (.text field.1, .value field.2.normalize)))]) := by
  obtain ⟨hsorted, hfields⟩ := ordered_map.mp hordered
  have hmem : (known, .string s) ∈ stored := Fields.mem_of_get? hknown
  have hrecord := @Reader.openRecord_takes (fieldReaders [{ name := known, shape := .text }])
    [(known, .text s)] stored (by simp [fieldReaders]) rfl hsorted ?_ ?_ ?_ name rest
  · have hgathered : Reader.gathered [known] stored =
        (stored.filter fun field => field.1 ≠ known).map
          fun field => (.text field.1, .value field.2.normalize) := by
      simp [Reader.gathered]
    rw [← hgathered]
    exact hrecord
  · intro entry hentry
    rw [List.mem_singleton.mp hentry]
    exact List.mem_map_of_mem hmem
  · -- the stored text is the only field of its name
    intro pair hpair field hfield hname
    rw [fieldReaders, fieldReaders, List.mem_singleton] at hfield
    subst hfield
    have hget : stored.get? pair.1 = some pair.2 := hsorted.get?_eq_some_iff.mpr hpair
    rw [← hname, hknown] at hget
    refine ⟨.text s, by simp [← hname], ?_⟩
    rw [← Option.some.inj hget]
    exact congrArg (Datum.text <$> ·) (Source.readText_text .stored s)
  · intro pair hpair hout
    have hne : pair.1 ≠ known := by simpa [fieldReaders] using hout
    exact Source.keptAs_normalize (hfields pair hpair) (hfree pair hpair hne)

/-- Leaves in an array and among operands, a moment before its second, and a reserved name
beside the text. -/
theorem decodeFields_gathered_leaves :
    let north : Value := .geoPoint ⟨.ofRank false rightAngle, .ofRank true 0, by decide, by decide⟩
    let before (t : Timestamp) : Fields Value :=
      [("$__firestore_map", .bytes [1, 2]), ("at", .array [.timestamp t, .reference "a/b"])]
    let after (t : Timestamp) : Fields Value :=
      [("sum", .map [("all", .transform (.arrayUnion [.timestamp t, north]))])]
    let stored : Fields Value := before ⟨1, -1⟩ ++ ("id", .string "x") :: after ⟨1, -1⟩
    (Value.map stored).Ordered ∧ stored.get? "id" = some (.string "x") ∧
      (∀ field ∈ stored, field.1 ≠ "id" → field.2.Everywhere StartsFree) ∧
      (Shape.openRecord "Entry" [{ name := "id", shape := .text }] "rest").decodeFields stored =
        .ok (.record [("id", .text "x"),
          ("rest", .map ((before ⟨0, 999999999⟩ ++ after ⟨0, 999999999⟩).map
            fun field => (.text field.1, .value field.2)))]) := by
  intro north before after stored
  have hordered : (Value.map stored).Ordered := by decide
  have hknown : stored.get? "id" = some (.string "x") := by
    simp [stored, before, Fields.get?_cons]
  have hfree : ∀ field ∈ stored, field.1 ≠ "id" → field.2.Everywhere StartsFree := by decide
  have hothers : (stored.filter fun field => field.1 ≠ "id") = before ⟨1, -1⟩ ++ after ⟨1, -1⟩ := by
    simp [stored, before, after]
  refine ⟨hordered, hknown, hfree, ?_⟩
  rw [decodeFields_gathered hordered hknown hfree "Entry" "rest", hothers]
  rfl

end Shape

end Firestore
