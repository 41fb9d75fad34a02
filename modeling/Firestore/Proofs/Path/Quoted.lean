import Firestore.Proofs.Path.Field

/-!
# The quoted text of a field path is read back

A reader of quoted texts goes through the characters one by one.  It knows three
modes: a dot ends a segment only outside quotes, a backquote opens and closes quotes,
and after a backslash inside quotes the next character stands for itself.

What `step` makes of one character carries over to runs of characters, since a run
over a text followed by another one is one run after the other (`run_append`).  A plain
segment has neither dots nor backquotes, so a run only collects it (`run_plain`).
Inside quotes each character comes with the backslash it needs, so a run collects the
characters as they were before (`run_escapeQuoted`).  Either way a run over a segment
ends outside quotes with that segment (`run_quoteSegment`), and the dot that follows is
one between segments.

Hence the keys of a path are found in its quoted text, whatever characters they have,
and two paths of one quoted text are one path (`quoted_unambiguous`).
-/

namespace Firestore

/-- Where a reader of a quoted text stands: outside quotes, inside them, or inside them
after a backslash. -/
inductive QuoteMode where
  | outside
  | inside
  | escaped

/-- A reader of a quoted text: the segments it has finished, and what it has of the next one. -/
structure QuoteReader where
  finished : List String
  current : List Char
  mode : QuoteMode

namespace QuoteReader

/-- A reader at the start of a segment. -/
def start (finished : List String) : QuoteReader := ⟨finished, [], .outside⟩

/-- The segments, the one that is being read included. -/
def segments (r : QuoteReader) : List String := r.finished ++ [String.ofList r.current]

/-- The reader with one more character of the segment, in a mode. -/
def take (r : QuoteReader) (c : Char) (mode : QuoteMode) : QuoteReader :=
  ⟨r.finished, r.current ++ [c], mode⟩

/-- Reads one character. -/
def step (r : QuoteReader) (c : Char) : QuoteReader :=
  match r.mode with
  | .outside =>
      if c = '.' then start r.segments
      else if c = '\x60' then { r with mode := .inside }
      else r.take c .outside
  | .inside =>
      if c = '\\' then { r with mode := .escaped }
      else if c = '\x60' then { r with mode := .outside }
      else r.take c .inside
  | .escaped => r.take c .inside

/-- Reads some characters. -/
def run (r : QuoteReader) (cs : List Char) : QuoteReader := cs.foldl step r

theorem run_cons (r : QuoteReader) (c : Char) (cs : List Char) :
    r.run (c :: cs) = (r.step c).run cs := rfl

theorem run_append (r : QuoteReader) (first second : List Char) :
    r.run (first ++ second) = (r.run first).run second :=
  List.foldl_append

end QuoteReader

namespace FieldPath

open QuoteReader

/-- The keys that a quoted text has. -/
def segmentsOfQuoted (text : String) : List String :=
  ((start []).run text.toList).segments

/-! ## Quoting -/

/-- Puts a backslash before each place of a character. -/
def mark (m : Char) (cs : List Char) : List Char :=
  cs.flatMap fun c => if c = m then ['\\', c] else [c]

theorem mark_cons (m c : Char) (cs : List Char) :
    mark m (c :: cs) = (if c = m then ['\\', c] else [c]) ++ mark m cs := rfl

/-- Escaping is marking the backslashes and then the backquotes.  In the other order the marks
of the backquotes would be marked themselves. -/
theorem escapeQuoted_eq_mark (cs : List Char) :
    escapeQuoted cs = mark '\x60' (mark '\\' cs) := by
  induction cs with
  | nil => rfl
  | cons c rest ih =>
      rw [mark_cons, escapeQuoted, ih]
      by_cases hslash : c = '\\'
      · subst hslash
        rfl
      · rw [if_neg hslash, List.singleton_append, mark_cons]
        by_cases hquote : c = '\x60'
        · subst hquote
          rfl
        · simp [hslash, hquote]

/-- The characters of an identifier are letters, digits and underscores. -/
private theorem plain_of_isIdentifier {cs : List Char} (h : isIdentifier cs = true) {c : Char}
    (hc : c ∈ cs) : c ≠ '.' ∧ c ≠ '\x60' := by
  have hword : c.isAlphanum = true ∨ c = '_' := by
    cases cs with
    | nil => cases hc
    | cons first rest =>
        simp only [isIdentifier, Bool.and_eq_true, Bool.or_eq_true, beq_iff_eq,
          List.all_eq_true] at h
        obtain ⟨hfirst, hrest⟩ := h
        rcases List.mem_cons.mp hc with rfl | hlater
        · refine hfirst.imp_left fun halpha => ?_
          rw [Char.isAlphanum, halpha, Bool.true_or]
        · exact hrest c hlater
  constructor
  · rintro rfl
    exact absurd hword (by decide)
  · rintro rfl
    exact absurd hword (by decide)

/-! ## Reading what was quoted -/

/-- Outside quotes, characters that are neither dots nor backquotes are collected. -/
private theorem run_plain {cs : List Char} (h : ∀ c ∈ cs, c ≠ '.' ∧ c ≠ '\x60')
    (finished : List String) (current : List Char) :
    QuoteReader.run ⟨finished, current, .outside⟩ cs = ⟨finished, current ++ cs, .outside⟩ := by
  induction cs generalizing current with
  | nil => simp [run]
  | cons c rest ih =>
      obtain ⟨⟨hdot, hquote⟩, hrest⟩ := List.forall_mem_cons.mp h
      have hstep : step ⟨finished, current, .outside⟩ c = ⟨finished, current ++ [c], .outside⟩ := by
        simp only [step, if_neg hdot, if_neg hquote, take]
      rw [run_cons, hstep, ih hrest, List.append_assoc, List.singleton_append]

/-- Inside quotes, characters are collected without the backslashes put before them. -/
private theorem run_escapeQuoted (cs : List Char) (finished : List String) (current : List Char) :
    QuoteReader.run ⟨finished, current, .inside⟩ (escapeQuoted cs) =
      ⟨finished, current ++ cs, .inside⟩ := by
  induction cs generalizing current with
  | nil => simp [run, escapeQuoted]
  | cons c rest ih =>
      have hcollected : current ++ c :: rest = current ++ [c] ++ rest := by simp
      rw [escapeQuoted, hcollected, ← ih (current ++ [c])]
      by_cases hmarked : c = '\\' ∨ c = '\x60'
      · -- the backslash changes the mode only, and the character is then taken as it is
        have hescape : (c == '\\' || c == '\x60') = true := by simpa using hmarked
        rw [if_pos hescape, run_cons, run_cons]
        rfl
      · have hplain : ¬ (c == '\\' || c == '\x60') = true := by simpa using hmarked
        rw [not_or] at hmarked
        rw [if_neg hplain, run_cons]
        simp only [step, if_neg hmarked.1, if_neg hmarked.2, take]

/-- **A segment is read back**, whether it was quoted or not. -/
theorem run_quoteSegment (finished : List String) (segment : String) :
    (start finished).run (quoteSegment segment).toList =
      ⟨finished, segment.toList, .outside⟩ := by
  unfold quoteSegment
  split
  · rename_i hidentifier
    exact run_plain (fun c hc => plain_of_isIdentifier hidentifier hc) finished []
  · rw [String.toList_ofList, List.cons_append, run_cons, run_append]
    have hopen : (start finished).step '\x60' = ⟨finished, [], .inside⟩ := rfl
    rw [hopen, run_escapeQuoted, List.nil_append]
    rfl

/-- Segments with dots between them are read back one after the other. -/
private theorem run_intercalate {segments : List String} (hsegments : segments ≠ [])
    (finished : List String) :
    ((start finished).run (".".intercalate (segments.map quoteSegment)).toList).segments =
      finished ++ segments := by
  -- on the segments; what has been finished grows by the first one at its dot
  induction segments generalizing finished with
  | nil => exact absurd rfl hsegments
  | cons segment rest ih =>
      have hsegment : QuoteReader.segments ⟨finished, segment.toList, .outside⟩ =
          finished ++ [segment] := by
        rw [QuoteReader.segments, String.ofList_toList]
      cases rest with
      | nil =>
          rw [List.map_singleton, String.intercalate_singleton, run_quoteSegment, hsegment]
      | cons next others =>
          have hmore : (next :: others).map quoteSegment ≠ [] := by simp
          rw [List.map_cons, String.intercalate_cons_of_ne_nil hmore, String.toList_append,
            String.toList_append, run_append, run_append, run_quoteSegment]
          have hdot : QuoteReader.run ⟨finished, segment.toList, .outside⟩ ".".toList =
              start (finished ++ [segment]) := by
            rw [← hsegment]
            rfl
          rw [hdot, ih (by simp), List.append_assoc, List.singleton_append]

/-- **Quoted texts are unambiguous.**  The keys of a path can be read from its quoted text,
whatever characters they have, so different paths have different quoted texts. -/
theorem quoted_unambiguous (p q : FieldPath) :
    segmentsOfQuoted p.quoted = p.segments ∧ (p.quoted = q.quoted ↔ p = q) := by
  have hread (r : FieldPath) : segmentsOfQuoted r.quoted = r.segments :=
    run_intercalate r.nonempty []
  refine ⟨hread p, ?_, congrArg quoted⟩
  intro hsame
  apply ext_segments
  calc p.segments
      = segmentsOfQuoted p.quoted := (hread p).symm
    _ = segmentsOfQuoted q.quoted := congrArg segmentsOfQuoted hsame
    _ = q.segments := hread q

/-- A dot, a backquote after a backslash, and an empty key. -/
example : segmentsOfQuoted "a.\x60b.c\\\\\\\x60\x60.\x60\x60" = ["a", "b.c\\\x60", ""] := by decide

end FieldPath

end Firestore
