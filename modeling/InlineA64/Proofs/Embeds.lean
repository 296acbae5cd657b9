import InlineA64.Proofs.Cursor
import Mathlib.Data.List.Find

/-!
# A text inside a longer one

A text can be part of a longer one, with bytes before and behind it. Two cursors at one place of
both see the same bytes until the text ends; there a byte that ends statements has to follow, if any
does (`Cursor.Embeds`). No byte class that readers ask for tells the end of the text from such a
byte, and no keyword has one in it. So the two cursors stay together over whatever a reader takes.

A text is inside itself, so all of this holds of two cursors that are one as well.
-/

namespace InlineA64

namespace Byte

/-- The bytes that end a statement, the first standing for the end of the text. -/
def stops : List Byte :=
  [0, 0x0d, 0x0a, ':'.toUInt8, ']'.toUInt8, ';'.toUInt8, remToken]

/-- Whether all bytes of a list have a property is decided on the list. There are finitely many
bytes, so without this instance it can be decided on all of them instead. -/
instance decidableForallMem (p : Byte → Prop) [DecidablePred p] (bytes : List Byte) :
    Decidable (∀ b ∈ bytes, p b) :=
  List.decidableBAll p bytes

theorem mem_stops {b : Byte} : b ∈ stops ↔ b.endsStatement = true := by
  simp only [stops, endsStatement, isBreak, List.mem_cons, List.not_mem_nil, Bool.or_eq_true,
    beq_iff_eq, or_false, or_assoc]

theorem lower_of_mem_stops : ∀ b ∈ stops, b.lower = b := by
  decide

theorem digit?_of_mem_stops (base : Nat) {b : Byte} (h : b ∈ stops) : b.digit? base = none := by
  have hclass : ∀ b ∈ stops, b.isDigit = false ∧ b.isLetter = false := by decide
  obtain ⟨hdigit, hletter⟩ := hclass b h
  rw [digit?, hdigit, hletter]
  rfl

end Byte

namespace Cursor

/-- The text of the first cursor is in the text of the second, between `before` and `behind`, and
the two cursors are at one place of it. -/
structure Embeds (before behind : Array Byte) (s s' : Cursor) : Prop where
  text : s'.text = before ++ s.text ++ behind
  pos : s'.pos = before.size + s.pos
  inside : s.pos ≤ s.text.size
  stop : ∀ b ∈ behind[0]?, b ∈ Byte.stops

variable {before behind : Array Byte} {s s' t t' : Cursor} {p : Byte → Bool}

theorem embeds_self (h : s.pos ≤ s.text.size) : Embeds #[] #[] s s where
  text := by simp only [Array.empty_append, Array.append_empty]
  pos := (Nat.zero_add _).symm
  inside := h
  stop := fun b hb => by simp at hb

/-- Where there is nothing before and behind, the two cursors are one. -/
theorem Embeds.eq (h : Embeds #[] #[] s s') : s' = s := by
  have htext := h.text
  have hpos := h.pos
  simp only [Array.empty_append, Array.append_empty] at htext
  simp only [List.size_toArray, List.length_nil, Nat.zero_add] at hpos
  cases s'
  cases s
  simp only [mk.injEq]
  exact ⟨htext, hpos⟩

namespace Embeds

variable (h : Embeds before behind s s')
include h

/-! ## Looking -/

theorem size : s'.text.size = before.size + s.text.size + behind.size := by
  rw [h.text, Array.size_append, Array.size_append]

theorem remaining : s'.remaining = s.remaining + behind.size := by
  have hsize := h.size
  have hpos := h.pos
  have hinside := h.inside
  rw [Cursor.remaining, Cursor.remaining]
  omega

theorem getElem?_text {i : Nat} (hi : i < s.text.size) :
    s'.text[before.size + i]? = s.text[i]? := by
  rw [h.text, Array.append_assoc, Array.getElem?_append_right (Nat.le_add_right _ _),
    Nat.add_sub_cancel_left, Array.getElem?_append_left hi]

/-- Where the text ends, the first byte behind it follows. -/
theorem getElem?_end : s'.text[before.size + s.text.size]? = behind[0]? := by
  rw [h.text, Array.getElem?_append_right (Nat.le_of_eq Array.size_append), Array.size_append,
    Nat.sub_self]

theorem byteAt_of_lt {i : Nat} (hi : i < s.text.size) :
    s'.byteAt (before.size + i) = s.byteAt i := by
  rw [byteAt, byteAt, Array.getD_eq_getD_getElem?, Array.getD_eq_getD_getElem?,
    h.getElem?_text hi]

theorem byteAt_end : s'.byteAt (before.size + s.text.size) = behind[0]?.getD 0 := by
  rw [byteAt, Array.getD_eq_getD_getElem?, h.getElem?_end]

theorem byteAt_end_mem : s'.byteAt (before.size + s.text.size) ∈ Byte.stops := by
  rw [h.byteAt_end]
  rcases hb : behind[0]? with _ | b
  · exact List.mem_cons_self
  · exact h.stop b hb

/-- The bytes at one place are the same, but for the end of the text. -/
theorem byteAt_cases {i : Nat} (hi : i ≤ s.text.size) :
    s'.byteAt (before.size + i) = s.byteAt i ∨
      s.byteAt i = 0 ∧ s'.byteAt (before.size + i) ∈ Byte.stops := by
  rcases Nat.lt_or_eq_of_le hi with hi | rfl
  · exact .inl (h.byteAt_of_lt hi)
  · exact .inr ⟨byteAt_of_size_le (Nat.le_refl _), h.byteAt_end_mem⟩

/-- What does not tell the ends of statements apart does not tell these bytes apart. -/
theorem test_byteAt {α : Type} {f : Byte → α} (hf : ∀ c ∈ Byte.stops, f c = f 0) {i : Nat}
    (hi : i ≤ s.text.size) : f (s'.byteAt (before.size + i)) = f (s.byteAt i) := by
  rcases h.byteAt_cases hi with hsame | ⟨hend, hstop⟩
  · rw [hsame]
  · rw [hend, hf _ hstop]

theorem test_ahead {α : Type} {f : Byte → α} (hf : ∀ c ∈ Byte.stops, f c = f 0) {n : Nat}
    (hn : s.pos + n ≤ s.text.size) : f (s'.ahead n) = f (s.ahead n) := by
  rw [ahead, ahead, h.pos, Nat.add_assoc]
  exact h.test_byteAt hf hn

theorem test_peek {α : Type} {f : Byte → α} (hf : ∀ c ∈ Byte.stops, f c = f 0) :
    f s'.peek = f s.peek :=
  h.test_ahead hf h.inside

theorem peek_of_lt (hpos : s.pos < s.text.size) : s'.peek = s.peek := by
  rw [peek, peek, ahead, ahead, h.pos, Nat.add_zero, Nat.add_zero]
  exact h.byteAt_of_lt hpos

theorem peek_eq (hpeek : s.peek ≠ 0) : s'.peek = s.peek :=
  h.peek_of_lt (pos_lt_of_peek hpeek)

/-- Where the text ends, the first byte behind it is seen. -/
theorem peek_of_end (hend : s.pos = s.text.size) : s'.peek = behind[0]?.getD 0 := by
  rw [peek, ahead, h.pos, Nat.add_zero, hend]
  exact h.byteAt_end

omit h in
/-- With nothing behind the text, both cursors see its end. -/
theorem peek_eq_of_empty (h : Embeds before #[] s s') : s'.peek = s.peek := by
  rcases Nat.lt_or_eq_of_le h.inside with hlt | hend
  · exact h.peek_of_lt hlt
  · rw [h.peek_of_end hend]
    exact (byteAt_of_size_le (Nat.le_of_eq hend.symm)).symm

/-- A byte that does not end statements is there on both sides or on neither. -/
theorem peek_beq {b : Byte} (hb : b ∉ Byte.stops) : (s'.peek == b) = (s.peek == b) := by
  have hne {c : Byte} (hc : c ∈ Byte.stops) : (c == b) = false :=
    beq_eq_false_iff_ne.mpr fun heq => hb (heq ▸ hc)
  exact h.test_peek (f := (· == b)) fun c hc => (hne hc).trans (hne List.mem_cons_self).symm

theorem slice {i j : Nat} (hj : j ≤ s.text.size) :
    s'.slice (before.size + i) (before.size + j) = s.slice i j := by
  rw [Cursor.slice, Cursor.slice]
  congr 1
  refine Array.ext_getElem? fun k => ?_
  have hsize := h.size
  simp only [Array.getElem?_extract]
  have hlt : k < min (before.size + j) s'.text.size - (before.size + i) ↔
      k < min j s.text.size - i := by omega
  by_cases hk : k < min j s.text.size - i
  · rw [if_pos hk, if_pos (hlt.mpr hk), Nat.add_assoc]
    exact h.getElem?_text (by omega)
  · rw [if_neg hk, if_neg fun hk' => hk (hlt.mp hk')]

theorem rest : s'.rest.toList = s.rest.toList ++ behind.toList := by
  have hinside := h.inside
  rw [Cursor.rest, Cursor.rest, h.size, h.pos, h.text, ← Array.toList_append]
  congr 1
  refine Array.ext_getElem? fun k => ?_
  simp only [Array.getElem?_extract, Array.getElem?_append, Array.size_extract, Array.size_append]
  grind

/-! ## Moving -/

theorem advance {n : Nat} (hn : s.pos + n ≤ s.text.size) :
    Embeds before behind (s.advance n) (s'.advance n) where
  text := h.text
  pos := by
    have hsize := h.size
    have hpos := h.pos
    simp only [Cursor.advance]
    omega
  inside := by
    simp only [Cursor.advance]
    omega
  stop := h.stop

theorem advance_one (hpeek : s.peek ≠ 0) : Embeds before behind (s.advance 1) (s'.advance 1) :=
  h.advance (pos_lt_of_peek hpeek)

theorem advanceTo (ht : Embeds before behind t t') (htext : t.text = s.text) :
    Embeds before behind (s.advanceTo t.pos) (s'.advanceTo t'.pos) where
  text := h.text
  pos := by
    have hsize := h.size
    have hpos := h.pos
    have hpos' := ht.pos
    have hinside := h.inside
    have hinside' := ht.inside
    rw [htext] at hinside'
    simp only [Cursor.advanceTo, seek]
    omega
  inside := Nat.min_le_right _ _
  stop := h.stop

/-- A run that comes to the end of the text has to end there, whatever follows. -/
theorem endOfRun (hzero : p 0 = false) {fuel fuel' i : Nat} (hi : i + fuel = s.text.size)
    (hfuel : fuel ≤ fuel')
    (hend : s.endOfRun p fuel i = s.text.size → ∀ c ∈ behind[0]?, p c = false) :
    s'.endOfRun p fuel' (before.size + i) = before.size + s.endOfRun p fuel i := by
  induction fuel generalizing fuel' i with
  | zero =>
    -- the first text has ended, and what is behind it ends the run in the second
    obtain rfl : i = s.text.size := hi
    refine endOfRun_of_false ?_
    rw [h.byteAt_end]
    rcases hc : behind[0]? with _ | c
    · exact hzero
    · exact hend rfl c hc
  | succ fuel ih =>
    obtain ⟨fuel', rfl⟩ : ∃ n, fuel' = n + 1 := ⟨fuel' - 1, by omega⟩
    rw [Cursor.endOfRun] at hend
    rw [Cursor.endOfRun, Cursor.endOfRun, h.byteAt_of_lt (by omega : i < s.text.size)]
    split
    · next hp => exact ih (i := i + 1) (by omega) (by omega) (by rwa [if_pos hp] at hend)
    · rfl

theorem skipWhile_of_end (hzero : p 0 = false)
    (hend : (s.skipWhile p).pos = s.text.size → ∀ c ∈ behind[0]?, p c = false) :
    Embeds before behind (s.skipWhile p) (s'.skipWhile p) where
  text := h.text
  pos := by
    have hrun := h.endOfRun hzero (i := s.pos) (Nat.add_sub_of_le h.inside)
      (h.remaining.symm ▸ Nat.le_add_right _ _ : s.remaining ≤ s'.remaining) hend
    rwa [← h.pos] at hrun
  inside := (s.onward_skipWhile p).inside h.inside
  stop := h.stop

theorem skipWhile (hp : ∀ c ∈ Byte.stops, p c = false) :
    Embeds before behind (s.skipWhile p) (s'.skipWhile p) :=
  h.skipWhile_of_end (hp 0 List.mem_cons_self) fun _ c hc => hp c (h.stop c hc)

theorem skipBlanks : Embeds before behind s.skipBlanks s'.skipBlanks :=
  h.skipWhile (by decide)

/-- A mark that is there in the text is there in the longer one. -/
theorem accept_of_true {b : Byte} (hb : b ≠ 0) (htrue : (s.accept b).1 = true) :
    (s'.accept b).1 = true ∧ Embeds before behind (s.accept b).2 (s'.accept b).2 := by
  rw [Cursor.accept] at htrue ⊢
  rw [Cursor.accept]
  split at htrue
  · next hpeek =>
    have hne : s.skipBlanks.peek ≠ 0 := fun hzero => hb (hzero ▸ (beq_iff_eq.mp hpeek).symm)
    rw [h.skipBlanks.peek_eq hne, if_pos hpeek, if_pos hpeek]
    refine ⟨rfl, h.text, ?_, pos_lt_of_peek hne, h.stop⟩
    rw [h.skipBlanks.pos, Nat.add_assoc]
  · cases htrue

/-! ## Words -/

/-- A word without an end of a statement is there on both sides or on neither. -/
theorem agreesAt {word : List Byte} (hword : ∀ b ∈ word, b.lower ∉ Byte.stops) {i : Nat}
    (hi : i ≤ s.text.size) : s'.agreesAt word (before.size + i) = s.agreesAt word i := by
  induction word generalizing i with
  | nil => rfl
  | cons b word ih =>
    rw [Cursor.agreesAt, Cursor.agreesAt]
    rcases Nat.lt_or_eq_of_le hi with hi | rfl
    · rw [h.getElem?_text hi, Nat.add_assoc,
        ih (fun b hb => hword b (List.mem_cons_of_mem _ hb)) hi]
    · -- the text has ended, and what follows is no part of the word
      rw [Array.getElem?_eq_none (Nat.le_refl s.text.size), h.getElem?_end]
      rcases hc : behind[0]? with _ | c
      · rfl
      · have hlower : c.lower = c := Byte.lower_of_mem_stops c (h.stop c hc)
        have hne : c.lower ≠ b.lower := fun heq =>
          hword b List.mem_cons_self (heq ▸ hlower.symm ▸ h.stop c hc)
        rw [Option.any_some, Option.any_none, Bool.false_and, beq_eq_false_iff_ne.mpr hne,
          Bool.false_and]

theorem startsWith {word : String} (hword : ∀ b ∈ bytesOf word, b.lower ∉ Byte.stops) :
    s'.startsWith word = s.startsWith word := by
  rw [Cursor.startsWith, Cursor.startsWith, h.pos]
  exact h.agreesAt hword h.inside

end Embeds

/-- A word that is there is in the text. -/
theorem le_size_of_agreesAt {word : List Byte} {i : Nat} (h : s.agreesAt word i = true)
    (hi : i ≤ s.text.size) : i + word.length ≤ s.text.size := by
  induction word generalizing i with
  | nil => exact hi
  | cons b word ih =>
    rw [agreesAt, Bool.and_eq_true] at h
    have hlt : i < s.text.size := by
      refine Nat.lt_of_not_le fun hle => ?_
      rw [Array.getElem?_eq_none hle] at h
      cases h.1
    have hrest := ih h.2 hlt
    rw [List.length_cons]
    omega

section Keywords

variable {β : Type} {table : List (String × β)}

/-- No keyword of the table has an end of a statement in it. -/
def plainWords (table : List (String × β)) : Bool :=
  table.all fun entry => (bytesOf entry.1).all fun b => !b.lower.endsStatement

theorem lower_not_mem_of_plainWords (htable : plainWords table = true) {entry : String × β}
    (hentry : entry ∈ table) : ∀ b ∈ bytesOf entry.1, b.lower ∉ Byte.stops := fun b hb hstop => by
  have hplain := List.all_eq_true.mp (List.all_eq_true.mp htable entry hentry) b hb
  rw [Byte.mem_stops.mp hstop] at hplain
  cases hplain

namespace Embeds

variable (h : Embeds before behind s s') (htable : plainWords table = true)
include h htable

theorem lastMatch? : s'.lastMatch? table = s.lastMatch? table := by
  rw [Cursor.lastMatch?, Cursor.lastMatch?]
  refine List.find?_congr fun entry hentry => ?_
  exact h.startsWith (lower_not_mem_of_plainWords htable (List.mem_reverse.mp hentry))

/-- A keyword is there on both sides or on neither. -/
theorem keyword? : (s'.keyword? table).1 = (s.keyword? table).1 ∧
    Embeds before behind (s.keyword? table).2 (s'.keyword? table).2 := by
  rw [Cursor.keyword?, Cursor.keyword?]
  simp only [h.skipBlanks.lastMatch? htable]
  split
  · next word meaning hmatch =>
    refine ⟨rfl, h.skipBlanks.advance ?_⟩
    have hagrees : s.skipBlanks.startsWith word = true := by
      rw [Cursor.lastMatch?] at hmatch
      exact List.find?_some (a := (word, meaning)) hmatch
    exact le_size_of_agreesAt hagrees h.skipBlanks.inside
  · exact ⟨rfl, h.skipBlanks⟩

/-- A keyword that is a whole word is there on both sides or on neither. -/
theorem wholeWord? : (s'.wholeWord? table).1 = (s.wholeWord? table).1 ∧
    Embeds before behind (s.wholeWord? table).2 (s'.wholeWord? table).2 := by
  obtain ⟨hmeaning, hcursor⟩ := h.skipBlanks.keyword? htable
  rw [Cursor.wholeWord?, Cursor.wholeWord?]
  rcases hword : s.skipBlanks.keyword? table with ⟨_ | meaning, t⟩
  · rcases hword' : s'.skipBlanks.keyword? table with ⟨meaning', t'⟩
    rw [hword, hword'] at hmeaning
    obtain rfl : meaning' = none := hmeaning
    exact ⟨rfl, h.skipBlanks⟩
  · rcases hword' : s'.skipBlanks.keyword? table with ⟨meaning', t'⟩
    rw [hword, hword'] at hmeaning hcursor
    obtain rfl : meaning' = some meaning := hmeaning
    have hcontinues : t'.peek.continuesWord = t.peek.continuesWord :=
      hcursor.test_peek (f := Byte.continuesWord) (by decide)
    simp only [hcontinues]
    split
    · exact ⟨rfl, h.skipBlanks⟩
    · exact ⟨rfl, hcursor⟩

end Embeds

end Keywords

end Cursor

end InlineA64
