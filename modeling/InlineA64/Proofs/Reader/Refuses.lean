import InlineA64.Operand.Run
import InlineA64.Proofs.Embeds
import InlineA64.Proofs.Step

/-!
# What a reader cannot start with

A reader that wants a register, a keyword or a blank fails before anything else if there is none.
`Reader.refuses` tells so from the reader and the little that is left of the text, so that a table
of readers can be searched for those that fail there (`Reader.error_of_refuses`).
-/

namespace InlineA64

variable {σ Slot α β : Type} {s : Cursor} {rest : List Byte}

/-! ## The rest of a text -/

namespace Cursor

/-- From an offset on the text is `rest`, either case of a letter counting as the other. -/
structure EndsAs (s : Cursor) (i : Nat) (rest : List Byte) : Prop where
  size : i + rest.length = s.text.size
  byte (k : Nat) : (s.byteAt (i + k)).lower = (rest.getD k 0).lower

namespace EndsAs

variable {i : Nat} {b : Byte}

theorem nil : s.EndsAs s.text.size [] where
  size := rfl
  byte _ := congrArg Byte.lower (byteAt_of_size_le (Nat.le_add_right _ _))

theorem cons (h : s.EndsAs (i + 1) rest) (hb : (s.byteAt i).lower = b.lower) :
    s.EndsAs i (b :: rest) where
  size := by
    have hsize := h.size
    rw [List.length_cons]
    omega
  byte k := by
    cases k with
    | zero => exact hb
    | succ k => rw [Nat.add_comm k, ← Nat.add_assoc, h.byte k, Nat.add_comm 1, List.getD_cons_succ]

theorem drop (h : s.EndsAs i rest) {n : Nat} (hn : n ≤ rest.length) :
    s.EndsAs (i + n) (rest.drop n) where
  size := by
    have hsize := h.size
    rw [List.length_drop]
    omega
  byte k := by
    rw [Nat.add_assoc, h.byte, List.getD_eq_getElem?_getD, List.getD_eq_getElem?_getD,
      List.getElem?_drop]

theorem advance {n : Nat} (h : s.EndsAs (s.pos + n) rest) :
    (s.advance n).EndsAs (s.advance n).pos rest := by
  have hpos : (s.advance n).pos = s.pos + n := Nat.min_eq_left (h.size ▸ Nat.le_add_right _ _)
  rw [hpos]
  exact ⟨h.size, h.byte⟩

theorem peek (h : s.EndsAs s.pos rest) : s.peek.lower = (rest.headD 0).lower := by
  have hhead := h.byte 0
  cases rest <;> exact hhead

theorem isEmpty (h : s.EndsAs s.pos rest) : rest.isEmpty = true ↔ s.pos = s.text.size := by
  have hsize := h.size
  rw [List.isEmpty_iff_length_eq_zero]
  omega

/-- A letter or a digit, or the end of the text, is told from a blank and an end of a statement. -/
theorem peek_class (h : s.EndsAs s.pos rest)
    (hhead : rest.head?.all (·.lower.isAlphanumeric) = true) :
    s.peek.isBlank = false ∧ s.peek.endsStatement = rest.isEmpty := by
  cases rest with
  | nil =>
    have hpeek : s.peek = 0 := byteAt_of_size_le (Nat.le_of_eq (h.isEmpty.mp rfl).symm)
    rw [hpeek]
    exact ⟨rfl, rfl⟩
  | cons b rest =>
    have hlower : s.peek.lower.isAlphanumeric = true := h.peek ▸ hhead
    -- neither a blank nor what ends a statement is alphanumeric
    have hclass : ∀ c ∈ 0x20 :: 0x09 :: Byte.stops, c.lower.isAlphanumeric = false := by decide
    have hother {c : Byte} (hc : s.peek = c) : c ∉ 0x20 :: 0x09 :: Byte.stops := by
      rintro hmem
      rw [hc, hclass c hmem] at hlower
      cases hlower
    have hpeek := hother rfl
    simp only [List.mem_cons, not_or] at hpeek
    refine ⟨?_, ?_⟩
    · rw [Byte.isBlank, beq_eq_false_iff_ne.mpr hpeek.1, beq_eq_false_iff_ne.mpr hpeek.2.1]
      rfl
    · exact Bool.eq_false_iff.mpr fun hstop => hpeek.2.2 (Byte.mem_stops.mpr hstop)

end EndsAs

/-- The text `rest` starts with a word, ignoring case. -/
def startsRest (word rest : List Byte) : Bool :=
  (word.map Byte.lower).isPrefixOf (rest.map Byte.lower)

theorem startsRest_of_agreesAt {word : List Byte} {i : Nat} (h : s.EndsAs i rest)
    (hagrees : s.agreesAt word i = true) : startsRest word rest = true := by
  induction word generalizing i rest with
  | nil => exact List.isPrefixOf_nil_left
  | cons b word ih =>
    rw [agreesAt, Bool.and_eq_true, Option.any_eq_true] at hagrees
    obtain ⟨⟨c, hc, hlower⟩, hagrees⟩ := hagrees
    have hbyte : s.byteAt i = c := by
      rw [byteAt, Array.getD_eq_getD_getElem?, hc, Option.getD_some]
    cases rest with
    | nil =>
      -- no byte of a word stands behind the text
      obtain rfl : i = s.text.size := h.size
      rw [Array.getElem?_eq_none (Nat.le_refl _)] at hc
      cases hc
    | cons d rest =>
      have hhead : d.lower = b.lower := by
        rw [← beq_iff_eq.mp hlower, ← hbyte]
        exact (h.byte 0).symm
      have htail := ih (h.drop (n := 1) (Nat.le_add_left 1 _)) hagrees
      rw [startsRest, List.map_cons, List.map_cons, List.isPrefixOf_cons_cons, hhead,
        beq_self_eq_true, Bool.true_and]
      exact htail

/-! ## Words -/

/-- No keyword of the table starts the text `rest`. -/
def noneStarts (table : List (String × β)) (rest : List Byte) : Bool :=
  table.all fun entry => !startsRest (bytesOf entry.1) rest

variable {table : List (String × β)}

theorem startsWith_of_noneStarts (hrest : s.EndsAs s.pos rest)
    (h : noneStarts table rest = true) {entry : String × β} (hentry : entry ∈ table) :
    s.startsWith entry.1 = false := by
  refine Bool.eq_false_iff.mpr fun hstarts => ?_
  have hnone := List.all_eq_true.mp h entry hentry
  rw [startsRest_of_agreesAt hrest hstarts] at hnone
  cases hnone

theorem keyword?_of_noneStarts (hrest : s.EndsAs s.pos rest) (hblank : s.peek.isBlank = false)
    (h : noneStarts table rest = true) : s.keyword? table = (none, s) := by
  have hmatch : s.lastMatch? table = none := by
    rw [lastMatch?, List.find?_eq_none]
    intro entry hentry
    rw [startsWith_of_noneStarts hrest h (List.mem_reverse.mp hentry)]
    exact Bool.false_ne_true
  simp only [keyword?, skipBlanks_of_not_blank hblank, hmatch]

theorem wholeWord?_of_noneStarts (hrest : s.EndsAs s.pos rest) (hblank : s.peek.isBlank = false)
    (h : noneStarts table rest = true) : s.wholeWord? table = (none, s) := by
  rw [wholeWord?, skipBlanks_of_not_blank hblank, keyword?_of_noneStarts hrest hblank h]

end Cursor

open Cursor (EndsAs)

/-! ## Registers -/

namespace Register

/-- No register starts the text `rest`. -/
def noneStarts (rest : List Byte) : Bool :=
  Cursor.noneStarts named rest && (widthOfLetter? (rest.headD 0)).isNone

theorem scan?_of_noneStarts (hrest : s.EndsAs s.pos rest) (h : noneStarts rest = true) :
    scan? s = none := by
  rw [noneStarts, Bool.and_eq_true, Option.isNone_iff_eq_none] at h
  obtain ⟨hnamed, hletter⟩ := h
  have hfind : named.find? (s.startsWith ·.1) = none := by
    rw [List.find?_eq_none]
    intro entry hentry
    rw [Cursor.startsWith_of_noneStarts hrest hnamed hentry]
    exact Bool.false_ne_true
  have hwidth : widthOfLetter? s.peek = none := by
    rw [widthOfLetter?] at hletter ⊢
    rwa [hrest.peek]
  simp only [scan?, hfind, numbered?, hwidth, Option.bind_eq_bind, Option.bind_none]

/-- Where no register starts, taking one fails. -/
theorem readFor_of_noneStarts (hrest : s.EndsAs s.pos rest) (hblank : s.peek.isBlank = false)
    (h : noneStarts rest = true) (mnemonic : String) :
    ∃ failure s', readFor mnemonic s = .error failure s' := by
  have hskip := Cursor.skipBlanks_of_not_blank hblank
  rw [readFor, modify_bind, get_bind, hskip]
  split
  · exact ⟨_, _, rfl⟩
  · rw [Register.read, modify_bind, get_bind, hskip, scan?_of_noneStarts hrest h]
    exact ⟨_, _, rfl⟩

end Register

/-! ## Readers -/

namespace Reader

/-- The reader, having noted `marks` positions, fails where the text is `rest` from the cursor on,
before it takes anything. -/
def refuses (rest : List Byte) : (marks : Nat) → Reader α → Bool
  | _, .done _ => false
  | _, .fail _ _ => true
  | marks, .ask .mark next => (next ⟨marks⟩).refuses rest (marks + 1)
  | marks, .ask (.acceptJoined p) next =>
    !p.matchesByte (rest.headD 0) && (next false).refuses rest marks
  | marks, .ask .atBlank next => (next false).refuses rest marks
  | marks, .ask .atEnd next => (next rest.isEmpty).refuses rest marks
  | marks, .ask (.keyword v) next =>
    Cursor.noneStarts v.entries rest && (next none).refuses rest marks
  | marks, .ask (.wholeWord v) next =>
    Cursor.noneStarts v.entries rest && (next none).refuses rest marks
  | _, .ask .register _ => Register.noneStarts rest
  | _, .ask _ _ => false

/-- A reader that refuses the rest of the text fails. -/
theorem error_of_refuses {around : Surroundings σ Slot} {x : Reader α} {r : Reading σ}
    (hrest : r.cursor.EndsAs r.cursor.pos rest)
    (hblank : r.cursor.peek.isBlank = false)
    (hend : r.cursor.peek.endsStatement = rest.isEmpty)
    (h : x.refuses rest r.marks.length = true) :
    ∃ failure r', x.run around r = .error failure r' := by
  induction x generalizing r with
  | done a => exact absurd h Bool.false_ne_true
  | fail fault at? => exact ⟨_, _, rfl⟩
  | ask q next ih =>
    -- a request with an answer that leaves the cursor where it is
    have hnext {b : _} (hanswer : q.answer around r = .ok b r)
        (h : (next b).refuses rest r.marks.length = true) :
        ∃ failure r', (Reader.ask q next).run around r = .error failure r' := by
      obtain ⟨failure, r', hrun⟩ := ih b hrest hblank hend h
      exact ⟨failure, r', (bind_of_ok hanswer).trans hrun⟩
    cases q with
    | mark =>
      have hlength : (r.marks ++ [r.cursor.pos]).length = r.marks.length + 1 :=
        List.length_append
      exact ih ⟨r.marks.length⟩ hrest hblank hend (hlength ▸ h)
    | acceptJoined p =>
      rw [refuses, Bool.and_eq_true, Bool.not_eq_true'] at h
      refine hnext ?_ h.2
      have hmatches : p.matchesByte r.cursor.peek = false := by
        have hhead := h.1
        rw [Punctuation.matchesByte] at hhead ⊢
        rwa [hrest.peek]
      change Reading.step p.take r = _
      rw [Reading.step, Punctuation.take, hmatches]
      rfl
    | atBlank =>
      refine hnext ?_ h
      change Reading.step (fun s => (s.peek.isBlank, s)) r = _
      rw [Reading.step, hblank]
    | atEnd =>
      refine hnext ?_ h
      change Reading.step (Cursor.look Cursor.atEnd) r = _
      rw [Reading.step, Cursor.look, Cursor.skipBlanks_of_not_blank hblank, Cursor.atEnd, hend]
    | register =>
      obtain ⟨failure, s', hread⟩ := Register.readFor_of_noneStarts hrest hblank h around.mnemonic
      refine ⟨failure, { r with cursor := s' }, bind_of_error ?_⟩
      change Reading.scan (Register.readFor around.mnemonic) r = _
      rw [Reading.scan, hread]
    | keyword v =>
      rw [refuses, Bool.and_eq_true] at h
      refine hnext ?_ h.2
      change Reading.step (·.keyword? v.entries) r = _
      rw [Reading.step, Cursor.keyword?_of_noneStarts hrest hblank h.1]
    | wholeWord v =>
      rw [refuses, Bool.and_eq_true] at h
      refine hnext ?_ h.2
      change Reading.step (·.wholeWord? v.entries) r = _
      rw [Reading.step, Cursor.wholeWord?_of_noneStarts hrest hblank h.1]
    | _ => exact absurd h Bool.false_ne_true

end Reader

end InlineA64
