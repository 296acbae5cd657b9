import InlineA64.Proofs.Block.Watched
import InlineA64.Proofs.Expression.Onward
import InlineA64.Proofs.Machine

/-!
# No text leads out of bounds

Wherever in a text a block starts, assembling it never looks outside of the text and comes to an
end. Every item but the last takes a byte at least (`Block.pos_lt_of_step`), so there are no more
items than bytes and one.

* `Machine.assemble_in_bounds`: this for machines, whose expressions and names leave the cursor
  inside of the text as well.
-/

namespace InlineA64

namespace Block

variable {σ Slot : Type} [DecidableEq Slot] {env : Environment σ Slot} {b b' : Block σ Slot}
  {n : Nat}

/-- An item with others behind it takes a byte at least, and what is taken lies inside of the
text. -/
theorem pos_lt_of_step (hb : b.Sound) (h : step env b = .ok .more b') :
    b.cursor.pos < b'.cursor.pos := by
  have hless := remaining_lt_of_step h
  have htext := ((leads_step_onward b).of_eq_ok h).1.text
  have hinside := hb.inside
  simp only [Cursor.remaining, htext] at hless
  omega

/-- A run of items goes on in the text, and takes a byte with each of them. -/
theorem follows_of_items {blocks : Nat → Block σ Slot} (hsound : (blocks 0).Sound)
    (h : ∀ i < n, step env (blocks i) = .ok .more (blocks (i + 1))) (i : Nat) (hi : i ≤ n) :
    (blocks 0).Follows (blocks i) ∧ (blocks 0).cursor.pos + i ≤ (blocks i).cursor.pos := by
  -- the position grows with the number of items that have been dealt with
  induction i with
  | zero => exact ⟨Std.Refl.refl _, Nat.le_refl _⟩
  | succ i ih =>
    obtain ⟨hfollows, hle⟩ := ih (Nat.le_of_succ_le hi)
    have hstep := h i hi
    have hnext := ((closed_follows env).reaches_step follows_withOptions _).of_eq_ok hstep
    have hlt := pos_lt_of_step (hfollows.sound hsound) hstep
    exact ⟨IsTrans.trans _ _ _ hfollows hnext, by omega⟩

/-- A block ends onward from where it starts, whether it succeeds or fails. -/
theorem onward_assemble (env : Environment σ Slot) (placement : Placement) (state : σ)
    (s : Cursor) : s.Onward (assemble env placement state s).cursor := by
  have hsteps := (closed_onward env).reaches_steps (fun b _ => .refl b.cursor)
    ((opened placement state s : Block σ Slot).cursor.remaining + 1) (opened placement state s)
  have hopened : s.Onward (opened placement state s : Block σ Slot).cursor := s.onward_skipBlanks
  rcases hrun : complete env (opened placement state s) with ⟨next, b⟩ | ⟨failure, b⟩
  · rw [assemble_of_ok hrun]
    exact hopened.trans (hsteps.of_eq_ok hrun)
  · rw [assemble_of_error hrun]
    exact hopened.trans (hsteps.of_eq_error hrun)

end Block

namespace Machine

open Block (opened)

/-- An expression leaves the cursor in the text, and so does the name of a variable. -/
theorem reaches_evaluate (context : Context) :
    Reaches (fun p q => p.1.Onward q.1) (environment.evaluate context) := by
  rintro ⟨s, w⟩
  exact leads_evaluate (Expression.reaches_read ⟨context, w.vars⟩ s)

theorem reaches_slot : Reaches (fun p q => p.1.Onward q.1) environment.slot := by
  rintro ⟨s, w⟩
  exact leads_slot (Expression.reaches_name s) (.refl s)

/-- Wherever in a text a block starts,

* the machine moves the cursor onward inside of the text;
* under watch the block is assembled as it is without, so the cursor never leaves the text, and no
  slice of it is out of bounds;
* each item but the last moves the cursor on, so that there are no more such items than bytes;
* dealing with one item more than there are bytes is dealing with all of them, which ends the block
  or fails;
* the cursor is left inside of the text. -/
theorem assemble_in_bounds (placement : Placement) (w : Machine) {s : Cursor}
    (hs : s.pos ≤ s.text.size) :
    (∀ context, Reaches (fun p q => p.1.Onward q.1) (environment.evaluate context)) ∧
    Reaches (fun p q => p.1.Onward q.1) environment.slot ∧
    Block.Watched.run environment (.ofPlacement placement w s) =
      unwatched (Block.run environment) (.ofPlacement placement w s) ∧
    (∀ (n : Nat) (blocks : Nat → Block Machine Name), blocks 0 = opened placement w s →
      (∀ i < n, Block.step environment (blocks i) = .ok .more (blocks (i + 1))) →
      (∀ i < n, (blocks i).cursor.pos < (blocks (i + 1)).cursor.pos) ∧
        n ≤ s.text.size - s.pos) ∧
    (∀ fuel > s.text.size, Block.steps environment fuel (opened placement w s) =
      Block.run environment (.ofPlacement placement w s)) ∧
    (∀ b, Block.run environment (.ofPlacement placement w s) ≠ .ok .more b) ∧
    let stop := (Block.assemble environment placement w s).cursor
    stop.text = s.text ∧ s.pos ≤ stop.pos ∧ stop.pos ≤ s.text.size := by
  have hopened : s.Onward (opened placement w s : Block Machine Name).cursor := s.onward_skipBlanks
  have hsound : (opened placement w s : Block Machine Name).Sound :=
    ⟨Nat.le_refl _, by
      rw [hopened.text]
      exact hopened.inside hs⟩
  have hend := Block.onward_assemble environment placement w s
  refine ⟨reaches_evaluate, reaches_slot, Block.agrees_run placement w hs, ?_, fun fuel hfuel => ?_,
    fun b hb => ?_, hend.text, hend.pos_le hs, hend.inside hs⟩
  · rintro n blocks h₀ hsteps
    rw [← h₀] at hsound hopened
    refine ⟨fun i hi => ?_, ?_⟩
    · have hfollows := (Block.follows_of_items hsound hsteps i hi.le).1
      exact Block.pos_lt_of_step (hfollows.sound hsound) (hsteps i hi)
    · -- the last of the blocks has its cursor in the text, and has taken a byte for each item
      obtain ⟨hfollows, hle⟩ := Block.follows_of_items hsound hsteps n (Nat.le_refl n)
      have hinside := (hfollows.sound hsound).inside
      have hstart := hopened.pos_le hs
      rw [hfollows.onward.text, hopened.text] at hinside
      omega
  · have hremaining := hopened.remaining_le
    refine Block.steps_eq_steps ?_ (Nat.lt_succ_self _)
    simp only [Cursor.remaining] at hremaining ⊢
    omega
  · rw [Block.run_eq_complete] at hb
    have hnext := Block.next_of_steps (Nat.lt_succ_self _) hb
    cases hnext

/-- A block from the second statement of a text on, listed, up to a mnemonic that is none. -/
theorem assemble_in_bounds_unknown :
    let placement := (Placement.ofOrigin 0x8000).withOptions (.ofInt 3)
    let s := (Cursor.ofString "RET:.on NOP:FROB 1").advance 4
    s.pos ≤ s.text.size ∧
      Block.Watched.run environment (.ofPlacement placement (ofBase 0x8000) s) =
        unwatched (Block.run environment) (.ofPlacement placement (ofBase 0x8000) s) ∧
      (Block.assemble environment placement (ofBase 0x8000) s).failure.map Failure.fault =
        some (.unknownMnemonic "FROB") ∧
      (Block.assemble environment placement (ofBase 0x8000) s).cursor.pos = 12 ∧
      (Block.assemble environment placement (ofBase 0x8000) s).state.listing =
        #["0000000000008000 D503201F .on         NOP"] ∧
      (Block.assemble environment placement (ofBase 0x8000) s).cursor.pos ≤ s.text.size := by
  intro placement s
  have hs : s.pos ≤ s.text.size := by decide +kernel
  obtain ⟨-, -, hwatched, -, -, -, -, -, hinside⟩ :=
    assemble_in_bounds placement (ofBase 0x8000) hs
  refine ⟨hs, hwatched, ?_, ?_, ?_, hinside⟩
  · decide +kernel
  · decide +kernel
  · decide +kernel

end Machine

end InlineA64
