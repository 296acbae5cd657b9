import InlineA64.Text.Cursor
import Mathlib.Order.Defs.Unbundled
import Mathlib.Tactic.Basic

/-!
# Cursors that move

Skipping stops at the first byte that is not to be skipped, or at the end of the text, so there is
nothing left to skip there. Whatever reads the text moves the cursor onward in it (`Cursor.Onward`),
and whoever takes a byte leaves fewer.
-/

namespace InlineA64.Cursor

variable {s : Cursor} {p : Byte → Bool}

theorem endOfRun_of_false {fuel i : Nat} (h : p (s.byteAt i) = false) :
    s.endOfRun p fuel i = i := by
  cases fuel with
  | zero => rfl
  | succ fuel => rw [endOfRun, h, if_neg Bool.false_ne_true]

/-- A run ends at a byte that does not belong to it, or when the fuel does. -/
theorem endOfRun_spec (fuel i : Nat) :
    p (s.byteAt (s.endOfRun p fuel i)) = false ∨ s.endOfRun p fuel i = i + fuel := by
  induction fuel generalizing i with
  | zero => exact .inr rfl
  | succ fuel ih =>
    rw [endOfRun]
    split
    · rcases ih (i + 1) with h | h
      · exact .inl h
      · right
        omega
    · next h => exact .inl (Bool.eq_false_iff.mpr h)

theorem skipWhile_of_false (h : p s.peek = false) : s.skipWhile p = s := by
  have hpos : p (s.byteAt s.pos) = false := h
  rw [skipWhile, endOfRun_of_false hpos]

@[simp]
theorem skipWhile_skipWhile (s : Cursor) (p : Byte → Bool) :
    (s.skipWhile p).skipWhile p = s.skipWhile p := by
  rcases endOfRun_spec (s := s) (p := p) s.remaining s.pos with h | h
  · exact skipWhile_of_false h
  · -- the run goes on to the end of the text, so nothing remains behind it
    have hremaining : (s.skipWhile p).remaining = 0 := by
      simp only [remaining, skipWhile] at h ⊢
      omega
    rw [skipWhile, hremaining]
    rfl

theorem skipBlanks_of_not_blank (h : s.peek.isBlank = false) : s.skipBlanks = s :=
  skipWhile_of_false h

@[simp]
theorem skipBlanks_skipBlanks (s : Cursor) : s.skipBlanks.skipBlanks = s.skipBlanks :=
  skipWhile_skipWhile s Byte.isBlank

/-! ## Onward -/

/-- The second cursor is in the same text with no more bytes ahead of it, and it has not left the
text. -/
structure Onward (s s' : Cursor) : Prop where
  text : s'.text = s.text
  remaining_le : s'.remaining ≤ s.remaining
  inside : s.pos ≤ s.text.size → s'.pos ≤ s.text.size

namespace Onward

variable {s s' s'' : Cursor}

theorem refl (s : Cursor) : s.Onward s :=
  ⟨rfl, Nat.le_refl _, id⟩

theorem trans (h : s.Onward s') (h' : s'.Onward s'') : s.Onward s'' where
  text := h'.text.trans h.text
  remaining_le := Nat.le_trans h'.remaining_le h.remaining_le
  inside := fun hs => by
    have hs'' := h'.inside (h.text ▸ h.inside hs)
    rwa [h.text] at hs''

/-- Inside of a text, onward is not back. -/
theorem pos_le (h : s.Onward s') (hs : s.pos ≤ s.text.size) : s.pos ≤ s'.pos := by
  have hremaining := h.remaining_le
  simp only [remaining, h.text] at hremaining
  omega

instance : IsPreorder Cursor Onward where
  refl := refl
  trans _ _ _ := trans

/-- A cursor in the text is moved on inside the text. -/
theorem of_pos_le {pos : Nat} (hle : s.pos ≤ pos ∨ s.text.size ≤ pos)
    (hinside : s.pos ≤ s.text.size → pos ≤ s.text.size) : s.Onward { s with pos } where
  text := rfl
  remaining_le := by
    simp only [remaining]
    omega
  inside := hinside

end Onward

theorem onward_advance (s : Cursor) (n : Nat) : s.Onward (s.advance n) :=
  .of_pos_le (by omega) (by omega)

theorem onward_advanceTo (s : Cursor) (offset : Nat) : s.Onward (s.advanceTo offset) :=
  .of_pos_le (by omega) (by omega)

theorem le_endOfRun (fuel i : Nat) : i ≤ s.endOfRun p fuel i ∧ s.endOfRun p fuel i ≤ i + fuel := by
  induction fuel generalizing i with
  | zero => exact ⟨Nat.le_refl _, Nat.le_refl _⟩
  | succ fuel ih =>
    rw [endOfRun]
    split
    · have := ih (i + 1)
      omega
    · omega

theorem onward_skipWhile (s : Cursor) (p : Byte → Bool) : s.Onward (s.skipWhile p) := by
  have hle := le_endOfRun (s := s) (p := p) s.remaining s.pos
  refine .of_pos_le (.inl hle.1) fun hs => Nat.le_trans hle.2 ?_
  rw [remaining]
  omega

theorem onward_skipBlanks (s : Cursor) : s.Onward s.skipBlanks :=
  s.onward_skipWhile Byte.isBlank

/-- There is no byte behind the text. -/
theorem byteAt_of_size_le {i : Nat} (h : s.text.size ≤ i) : s.byteAt i = 0 := by
  rw [byteAt, Array.getD_eq_getD_getElem?, Array.getElem?_eq_none h, Option.getD_none]

/-- There is a byte under the cursor only inside the text. -/
theorem pos_lt_of_peek (h : s.peek ≠ 0) : s.pos < s.text.size :=
  Nat.lt_of_not_le fun hs => h (byteAt_of_size_le hs)

theorem remaining_advance_lt (h : s.peek ≠ 0) {n : Nat} (hn : 0 < n) :
    (s.advance n).remaining < s.remaining := by
  have hpos := pos_lt_of_peek h
  simp only [remaining, advance]
  omega

/-- Skipping takes the byte under the cursor if that is to be skipped. -/
theorem remaining_skipWhile_lt (h : s.peek ≠ 0) (hp : p s.peek = true) :
    (s.skipWhile p).remaining < s.remaining := by
  have hpos := pos_lt_of_peek h
  obtain ⟨fuel, hfuel⟩ : ∃ fuel, s.remaining = fuel + 1 := ⟨s.remaining - 1, by
    rw [remaining]
    omega⟩
  have hle := (le_endOfRun (s := s) (p := p) fuel (s.pos + 1)).1
  -- the byte under the cursor belongs to the run, which goes on behind it
  have hnext : s.endOfRun p s.remaining s.pos = s.endOfRun p fuel (s.pos + 1) := by
    rw [hfuel, endOfRun]
    exact if_pos hp
  simp only [remaining, skipWhile] at hnext ⊢
  rw [hnext]
  omega

/-! ## What readers do -/

theorem onward_accept (s : Cursor) {b : Byte} (hb : b ≠ 0) : s.Onward (s.accept b).2 := by
  rw [accept]
  split
  · next hpeek =>
    have hpos : s.skipBlanks.pos < s.skipBlanks.text.size :=
      pos_lt_of_peek (by rw [beq_iff_eq.mp hpeek]; exact hb)
    exact s.onward_skipBlanks.trans (.of_pos_le (.inl (Nat.le_succ _)) fun _ => hpos)
  · exact s.onward_skipBlanks

variable {β : Type}

theorem onward_keyword? (s : Cursor) (table : List (String × β)) :
    s.Onward (s.keyword? table).2 := by
  rw [keyword?]
  split
  · exact s.onward_skipBlanks.trans (onward_advance _ _)
  · exact s.onward_skipBlanks

theorem onward_wholeWord? (s : Cursor) (table : List (String × β)) :
    s.Onward (s.wholeWord? table).2 := by
  have hkeyword := s.onward_skipBlanks.trans (onward_keyword? s.skipBlanks table)
  rw [wholeWord?]
  split
  · next heq =>
    rw [heq] at hkeyword
    -- a keyword that goes on as a longer word is given back
    split
    · exact s.onward_skipBlanks
    · exact hkeyword
  · exact s.onward_skipBlanks

end InlineA64.Cursor
