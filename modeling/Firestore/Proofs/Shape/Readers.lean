import Firestore.Proofs.Fields
import Firestore.Proofs.Source.AnyValue
import Firestore.Shape.Reading
import Mathlib.Data.List.Forall2
import Mathlib.Data.List.Nodup

/-!
# Composed readers of stored values

`Reader.Takes read v d` says that a reader makes the datum `d` of the stored value
`v`.  Each lemma here is about one kind of composed reader and says which value it
takes, given the values that the readers of its parts take.

A record reads its fields in the order of their stored names and only then puts them
into the order of its own; `fieldEntries_stored` says what it has seen in between, as
a lookup of names, so that neither order matters to the rest (`record_takes`).
-/

namespace Firestore.Reader

/-- A reader makes a datum of a stored value. -/
def Takes (read : Reader) (v : Value) (d : Datum) : Prop :=
  read .stored (.ofValue v) = .ok d

/-! ## Options, wrappers and sequences -/

theorem option_null (read : Reader) : (option read).Takes .null .absent := rfl

/-- What is not null is present. -/
theorem option_takes {read : Reader} {v : Value} {d : Datum} (h : read.Takes v d)
    (hv : v ≠ .null) : (option read).Takes v (.present d) := by
  have hanswer : (Source.ofValue v).answer .stored .option = .ok (.present (.ofValue v)) := by
    cases v with
    | null => exact absurd rfl hv
    | transform t => cases t <;> rfl
    | _ => rfl
  unfold Takes option
  rw [hanswer, ok_bind]
  show Datum.present <$> read .stored (.ofValue v) = .ok (.present d)
  rw [show read .stored (.ofValue v) = .ok d from h, map_ok]

theorem wrapper_takes {read : Reader} {v : Value} {d : Datum} {name : String}
    (hfree : Marker.ofName? name = none) (h : read.Takes v d) : (wrapper name read).Takes v d := by
  unfold Takes
  rw [wrapper_ofValue hfree]
  exact h

private theorem readEach_stored {read : Reader} {elements : List Value} {data : List Datum}
    (h : List.Forall₂ (fun d v => read.Takes v d) data elements) (index : Nat) :
    Source.readEach read .stored index (Source.ofValues elements) = .ok data := by
  induction h generalizing index with
  | nil => rfl
  | @cons d v _ _ hd _ ih =>
      rw [Source.ofValues, Source.readEach, show read .stored (.ofValue v) = .ok d from hd,
        locate_ok, ok_bind, ih, ok_bind]
      rfl

/-- A list is read item by item. -/
theorem list_takes {read : Reader} {elements : List Value} {data : List Datum}
    (h : List.Forall₂ (fun d v => read.Takes v d) data elements) :
    (list read).Takes (.array elements) (.seq data) := by
  show Datum.seq <$> Source.readEach read .stored 0 (Source.ofValues elements) = _
  rw [readEach_stored h, map_ok]

private theorem items_stored {reads : List Reader} {elements : List Value} {data : List Datum}
    (hlength : reads.length = data.length)
    (h : List.Forall₂ (fun pair v => pair.1.Takes v pair.2) (reads.zip data) elements)
    (expected : String) (index : Nat) :
    items expected .stored index reads (Source.ofValues elements) = .ok data := by
  induction reads generalizing data elements index with
  | nil =>
      rw [List.eq_nil_of_length_eq_zero hlength.symm]
      rfl
  | cons read reads ih =>
      cases data with
      | nil => simp at hlength
      | cons d data =>
          cases h with
          | @cons _ v _ elements hd hrest =>
              have hread : read .stored (.ofValue v) = .ok d := hd
              have hitems := ih (by simpa using hlength) hrest (index + 1)
              rw [Source.ofValues, items, hread, locate_ok, ok_bind, hitems, ok_bind]
              rfl

/-- A sequence of fixed length is read item by item, each in its own way. -/
theorem tuple_takes {reads : List Reader} {elements : List Value} {data : List Datum}
    (hlength : reads.length = data.length)
    (h : List.Forall₂ (fun pair v => pair.1.Takes v pair.2) (reads.zip data) elements)
    (expected lengthText : String) :
    (tuple expected lengthText reads).Takes (.array elements) (.seq data) := by
  show itemsOf lengthText reads .stored (Source.ofValues elements) = _
  rw [itemsOf, items_stored hlength h]
  rfl

/-! ## Maps -/

/-- An entry whose key is written after all others goes to the end. -/
private theorem insertEntry_eq_append {entries : List (Key × Datum)} {k : Key} (d : Datum)
    (h : ∀ entry ∈ entries, entry.1.written < k.written) :
    Datum.insertEntry entries k d = entries ++ [(k, d)] := by
  induction entries with
  | nil => rfl
  | cons first rest ih =>
      obtain ⟨l, e⟩ := first
      obtain ⟨hl, hrest⟩ := List.forall_mem_cons.mp h
      rw [Datum.insertEntry, if_neg (ne_of_gt hl), if_neg (lt_asymm hl), ih hrest, List.cons_append]

/-- Entries in the order of their written keys are their own map. -/
theorem ofEntries_eq_map {entries : List (Key × Datum)}
    (hsorted : entries.Pairwise fun a b => a.1.written < b.1.written) :
    Datum.ofEntries entries = .map entries := by
  have hfold : ∀ kept : List (Key × Datum),
      (kept ++ entries).Pairwise (fun a b => a.1.written < b.1.written) →
      entries.foldl (fun entries entry => Datum.insertEntry entries entry.1 entry.2) kept =
        kept ++ entries := by
    clear hsorted
    induction entries with
    | nil => simp
    | cons entry rest ih =>
        intro kept hsorted
        have hlast : ∀ other ∈ kept, other.1.written < entry.1.written := fun other hother =>
          (List.pairwise_append.mp hsorted).2.2 other hother entry List.mem_cons_self
        rw [List.foldl_cons, insertEntry_eq_append entry.2 hlast, ih _ (by simpa using hsorted)]
        simp
  exact congrArg Datum.map (hfold [] hsorted)

/-- Keys that are read back are read with what stands under them. -/
theorem entries_stored {keys : KeyShape} {read : Reader} {stored : List (String × Value)}
    {data : List (Key × Datum)}
    (h : List.Forall₂ (fun entry pair => key keys .storedName (.text pair.1) = .ok entry.1 ∧
      read.Takes pair.2 entry.2) data stored) :
    entries (key keys) read .stored (Source.ofFields stored) = .ok data := by
  induction h with
  | nil => rfl
  | @cons entry pair _ _ hentry _ ih =>
      obtain ⟨hkey, htakes⟩ := hentry
      have hread : read .stored (.ofValue pair.2) = .ok entry.2 := htakes
      rw [Source.ofFields, entries, show Format.stored.keys = .storedName from rfl, hkey, ok_bind,
        hread, locate_ok, ok_bind, ih, ok_bind]
      rfl

/-- A map is read field by field, if the keys of its entries are in order. -/
theorem map_takes {keys : KeyShape} {read : Reader} {stored : List (String × Value)}
    {data : List (Key × Datum)}
    (hsorted : data.Pairwise fun a b => a.1.written < b.1.written)
    (h : List.Forall₂ (fun entry pair => key keys .storedName (.text pair.1) = .ok entry.1 ∧
      read.Takes pair.2 entry.2) data stored) :
    (map keys read).Takes (.map stored) (.map data) := by
  show Datum.ofEntries <$> entries (key keys) read .stored (Source.ofFields stored) = _
  rw [entries_stored h, map_ok, ofEntries_eq_map hsorted]

/-! ## Records -/

theorem lookup_eq_get? {α : Type} (pairs : List (String × α)) (name : String) :
    pairs.lookup name = Fields.get? pairs name := by
  induction pairs with
  | nil => rfl
  | cons pair rest ih =>
      obtain ⟨k, a⟩ := pair
      rw [List.lookup_cons, Fields.get?_cons, ih]
      by_cases hk : k = name
      · simp [hk]
      · rw [beq_false_of_ne (Ne.symm hk), if_neg hk]

/-- Among different names, each is known at its own place. -/
theorem place_known {names : List String} (hnodup : names.Nodup) (expected : String) {index : Nat}
    (hindex : index < names.length) :
    place expected names .storedName (.text names[index]) = .ok (.known index) := by
  have hfind : names.findIdx? (· == names[index]) = some index := by
    rw [List.findIdx?_eq_some_iff_getElem]
    refine ⟨hindex, by simp, ?_⟩
    -- the look-up stops at the first place of the name, which is its only one
    intro other hother heq
    have hsame : other = index :=
      (List.Nodup.getElem_inj_iff hnodup).mp (beq_iff_eq.mp heq)
    omega
  have hanswer : (Source.text names[index]).answer .storedName .text =
      .ok (.text names[index]) := rfl
  rw [place, hanswer, ok_bind]
  simp only [hfind, pure_eq_ok]

theorem fieldAt_name {fields : List FieldReader} {field : FieldReader}
    (hnodup : (fields.map FieldReader.name).Nodup) (hmem : field ∈ fields) (strict : Bool) :
    fieldAt fields strict .storedName (.text field.name) = .ok (some field) := by
  obtain ⟨index, hindex, rfl⟩ := List.getElem_of_mem hmem
  have hplace := @place_known _ hnodup "field identifier" index (by simpa using hindex)
  rw [List.getElem_map] at hplace
  rw [fieldAt, hplace, ok_bind]
  show Except.ok fields[index]? = _
  rw [List.getElem?_eq_getElem hindex]

/-- A field that was not read before is read as what its reader takes. -/
theorem newField_takes {field : FieldReader} {seen : List (String × Datum)} {v : Value} {d : Datum}
    (hnew : seen.lookup field.name = none) (h : field.read.Takes v d) :
    newField field seen .stored (.ofValue v) = .ok ((field.name, d) :: seen) := by
  have hread : field.read .stored (.ofValue v) = .ok d := h
  rw [newField, hnew, hread]
  rfl

/-- Names under which nothing was read stay so when another one is read. -/
theorem unread_cons {seen : List (String × Datum)} {stored : List (String × Value)} {name : String}
    (hout : name ∉ stored.map Prod.fst) (hnew : ∀ pair ∈ stored, seen.lookup pair.1 = none)
    (d : Datum) : ∀ pair ∈ stored, ((name, d) :: seen).lookup pair.1 = none := by
  intro pair hpair
  have hne : pair.1 ≠ name := fun heq => hout (heq ▸ List.mem_map_of_mem hpair)
  rw [List.lookup_cons, beq_false_of_ne hne]
  exact hnew pair hpair

/-- What is seen under a name once it is read, whatever is read later. -/
theorem lookup_step {seen data : List (String × Datum)} {name : String} {later : List String}
    {d : Datum} (hout : name ∉ later) (hlookup : data.lookup name = some d) (other : String) :
    (if other ∈ later then data.lookup other else ((name, d) :: seen).lookup other) =
      if other ∈ name :: later then data.lookup other else seen.lookup other := by
  rw [List.lookup_cons]
  by_cases hk : other = name
  · subst hk
    simp [hout, hlookup]
  · rw [beq_false_of_ne hk]
    simp only [List.mem_cons, hk, false_or]

/-- Fields that have not been read are read in the order of the stored names; what
has been read under a name is then what the record has there. -/
private theorem fieldEntries_stored {fields : List FieldReader} {data : List (String × Datum)}
    {stored : List (String × Value)} (hnodup : (fields.map FieldReader.name).Nodup)
    (hstored : (stored.map Prod.fst).Nodup)
    (h : ∀ pair ∈ stored, ∃ field ∈ fields, field.name = pair.1 ∧
      ∃ d, data.lookup pair.1 = some d ∧ field.read.Takes pair.2 d)
    (strict : Bool) (seen : List (String × Datum))
    (hnew : ∀ pair ∈ stored, seen.lookup pair.1 = none) :
    ∃ all, fieldEntries fields strict .stored seen (Source.ofFields stored) = .ok all ∧
      ∀ name, all.lookup name =
        if name ∈ stored.map Prod.fst then data.lookup name else seen.lookup name := by
  -- on the stored fields; what was seen before keeps its look-up, since no name comes twice
  induction stored generalizing seen with
  | nil => exact ⟨seen, rfl, fun name => by simp⟩
  | cons pair rest ih =>
      obtain ⟨⟨field, hmem, hname, d, hlookup, htakes⟩, hrest⟩ := List.forall_mem_cons.mp h
      obtain ⟨hpair, hnewRest⟩ := List.forall_mem_cons.mp hnew
      obtain ⟨hout, hnodupRest⟩ := List.nodup_cons.mp hstored
      have hfield : fieldAt fields strict Format.stored.keys (.text pair.1) = .ok (some field) := by
        rw [← hname]
        exact fieldAt_name hnodup hmem strict
      have hstep : newField field seen .stored (.ofValue pair.2) = .ok ((pair.1, d) :: seen) := by
        rw [← hname] at hpair ⊢
        exact newField_takes hpair htakes
      obtain ⟨all, hall, hlook⟩ := ih hnodupRest hrest _ (unread_cons hout hnewRest d)
      refine ⟨all, ?_, ?_⟩
      · rw [Source.ofFields, fieldEntries, hfield, ok_bind]
        show (newField field seen .stored (.ofValue pair.2) >>= fun seen =>
          fieldEntries fields strict .stored seen (Source.ofFields rest)) = _
        rw [hstep, ok_bind, hall]
      · intro name
        rw [hlook, List.map_cons, lookup_step hout hlookup]

/-- Fields that all have been read are put into the order of the record. -/
theorem collect_seen {fields : List FieldReader} {data seen : List (String × Datum)}
    (hnames : fields.map FieldReader.name = data.map Prod.fst)
    (h : ∀ entry ∈ data, seen.lookup entry.1 = some entry.2) :
    collect seen fields = .ok data := by
  induction fields generalizing data with
  | nil =>
      have hnil : data = [] := by simpa using hnames.symm
      rw [hnil]
      rfl
  | cons field rest ih =>
      cases data with
      | nil => simp at hnames
      | cons entry data =>
          obtain ⟨hname, hrest⟩ := List.cons.inj hnames
          obtain ⟨hentry, hdata⟩ := List.forall_mem_cons.mp h
          have hfield : seen.lookup field.name = some entry.2 := by
            rw [show field.name = entry.1 from hname, hentry]
          rw [collect, hfield]
          show (collect seen rest >>= fun fields => .ok ((field.name, entry.2) :: fields)) = _
          rw [ih hrest hdata, ok_bind, show field.name = entry.1 from hname]

/-- **A record is read whatever the order of its stored fields**, if each of them
holds what its reader takes. -/
theorem record_takes {fields : List FieldReader} {data : List (String × Datum)}
    {stored : List (String × Value)} (hnodup : (fields.map FieldReader.name).Nodup)
    (hnames : fields.map FieldReader.name = data.map Prod.fst)
    (hperm : (stored.map Prod.fst).Perm (data.map Prod.fst))
    (h : ∀ pair ∈ stored, ∃ field ∈ fields, field.name = pair.1 ∧
      ∃ d, data.lookup pair.1 = some d ∧ field.read.Takes pair.2 d)
    (title : String) (strict : Bool) :
    recordOf title fields strict .stored (.map (Source.ofFields stored)) =
      .ok (.record data) := by
  have hdata : (data.map Prod.fst).Nodup := hnames ▸ hnodup
  have hstored : (stored.map Prod.fst).Nodup := hperm.nodup_iff.mpr hdata
  obtain ⟨all, hall, hlook⟩ :=
    fieldEntries_stored hnodup hstored h strict [] fun pair _ => rfl
  have hseen : ∀ entry ∈ data, all.lookup entry.1 = some entry.2 := by
    intro entry hentry
    have hmem : entry.1 ∈ stored.map Prod.fst :=
      hperm.mem_iff.mpr (List.mem_map_of_mem hentry)
    rw [hlook, if_pos hmem, lookup_eq_get?]
    exact Fields.get?_of_mem hdata hentry
  show (fieldEntries fields strict .stored [] (Source.ofFields stored) >>= fun seen =>
    Datum.record <$> collect seen fields) = _
  rw [hall, ok_bind, collect_seen hnames hseen, map_ok]

/-! ## Variants -/

/-- Among different names, a variant is known by its own. -/
theorem variantName_text {names : List String} (hnodup : names.Nodup) {name : String}
    (hmem : name ∈ names) : variantName names .storedName (.text name) = .ok name := by
  obtain ⟨index, hindex, rfl⟩ := List.getElem_of_mem hmem
  rw [variantName, place_known hnodup _ hindex, ok_bind]
  show Except.ok (names.getD index "") = _
  rw [List.getD_eq_getElem?_getD, List.getElem?_eq_getElem hindex, Option.getD_some]

variable {name chosen : String} {variants : List (String × PayloadReader)} {read : PayloadReader}

private theorem lookup_variant (hnodup : (variants.map Prod.fst).Nodup)
    (hmem : (chosen, read) ∈ variants) : variants.lookup chosen = some read := by
  rw [lookup_eq_get?]
  exact Fields.get?_of_mem hnodup hmem

/-- What names a variant is read with the payload that it carries. -/
private theorem enum_stored {s : Source} {carried : Option Source} {d : Datum}
    (hnodup : (variants.map Prod.fst).Nodup) (hmem : (chosen, read) ∈ variants)
    (hvariant : variantOf name .stored s = .ok (.text chosen, carried))
    (h : payload name chosen read .stored carried = .ok d) :
    enum name variants .stored s = .ok d := by
  have hname : variantName (variants.map Prod.fst) Format.stored.keys (.text chosen) = .ok chosen :=
    variantName_text hnodup (List.mem_map_of_mem hmem)
  simp only [enum, hvariant, ok_bind, hname, lookup_variant hnodup hmem]
  exact h

/-- A variant without payload is stored as its name. -/
theorem enum_symbol (hnodup : (variants.map Prod.fst).Nodup)
    (hmem : (chosen, .unit) ∈ variants) :
    (enum name variants).Takes (.string chosen) (.symbol chosen) := by
  have hvariant : variantOf name .stored (.text chosen) = .ok (.text chosen, none) := rfl
  exact enum_stored hnodup hmem hvariant rfl

/-- A variant with a payload is stored as a map of one field. -/
theorem enum_variant {v : Value} {d : Datum} (hnodup : (variants.map Prod.fst).Nodup)
    (hmem : (chosen, read) ∈ variants)
    (h : payload name chosen read .stored (some (.ofValue v)) = .ok d) :
    (enum name variants).Takes (.map [(chosen, v)]) d := by
  have hvariant : variantOf name .stored (.ofValue (.map [(chosen, v)])) =
      .ok (.text chosen, some (.ofValue v)) := rfl
  exact enum_stored hnodup hmem hvariant h

theorem payload_one {read : Reader} {v : Value} {d : Datum} (h : read.Takes v d) :
    payload name chosen (.one read) .stored (some (.ofValue v)) = .ok (.variant chosen d) := by
  have hread : read .stored (.ofValue v) = .ok d := h
  show Datum.variant chosen <$> Format.stored.locate chosen (read .stored (.ofValue v)) = _
  rw [hread, locate_ok, map_ok]

theorem payload_tuple {reads : List Reader} {v : Value} {d : Datum}
    (h : ∀ expected lengthText, (tuple expected lengthText reads).Takes v d) :
    payload name chosen (.tuple reads) .stored (some (.ofValue v)) = .ok (.variant chosen d) :=
  @payload_one name chosen _ v d (h _ _)

theorem payload_record {fields : List FieldReader} {stored : List (String × Value)} {d : Datum}
    (h : ∀ title, recordOf title fields false .stored (.map (Source.ofFields stored)) = .ok d) :
    payload name chosen (.record fields) .stored (some (.ofValue (.map stored))) =
      .ok (.variant chosen d) := by
  show Datum.variant chosen <$> Format.stored.locate chosen
    (recordOf s!"struct variant {name}::{chosen}" fields false .stored
      (.map (Source.ofFields stored))) = _
  rw [h, locate_ok, map_ok]

end Firestore.Reader

namespace Firestore.Shape

/-! ## Readers of several shapes -/

theorem readers_eq_map (shapes : List Shape) : readers shapes = shapes.map reader := by
  induction shapes with
  | nil => rfl
  | cons shape rest ih => rw [readers, ih, List.map_cons]

/-- The reader of a field. -/
def fieldReader (field : Field Shape) : FieldReader :=
  { name := field.name
    read := field.shape.reader
    whenEnded := field.whenMissing
    whenMissing := field.whenMissing <|> field.shape.whenMissing }

theorem fieldReaders_eq_map (fields : List (Field Shape)) :
    fieldReaders fields = fields.map fieldReader := by
  induction fields with
  | nil => rfl
  | cons field rest ih =>
      rw [fieldReaders, ih]
      rfl

theorem fieldReaders_names (fields : List (Field Shape)) :
    (fieldReaders fields).map FieldReader.name = fields.map Field.name := by
  rw [fieldReaders_eq_map, List.map_map]
  rfl

theorem variantReaders_eq_map (variants : List (String × Payload Shape)) :
    variantReaders variants = variants.map fun variant => (variant.1, payloadReader variant.2) := by
  induction variants with
  | nil => rfl
  | cons variant rest ih => rw [variantReaders, ih, List.map_cons]

theorem variantReaders_names (variants : List (String × Payload Shape)) :
    (variantReaders variants).map Prod.fst = variants.map Prod.fst := by
  rw [variantReaders_eq_map, List.map_map]
  rfl

end Firestore.Shape
