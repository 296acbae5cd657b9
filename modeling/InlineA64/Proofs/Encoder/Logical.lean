import InlineA64.Proofs.Encoder.Arithmetic
import InlineA64.Proofs.Bitmask

/-!
# Encoders of bitwise operations and moves fill their formats
-/

namespace InlineA64.Encoder

open Reader Format

/-! ## Bitwise operations -/

section Logical

variable {op : LogicalOp} {invert : Bool} {d n : Register} {taken : List Register}

/-- The triple of a bitmask has 13 bits. -/
theorem bitmaskField_lt {width : Width} {value field : ℕ}
    (h : bitmaskField width value = .ok field) : field < 2 ^ 13 := by
  rw [bitmaskField] at h
  split at h
  next b hb =>
    cases h
    exact Bitmask.toNat_lt_of_encode? hb
  next => cases h

theorem logicalField_lt {width : Width} {value : Int} {field : ℕ}
    (h : logicalField width invert value = .ok field) : field < 2 ^ 13 := by
  obtain ⟨reduced, -, h⟩ := except_bind_eq_ok.mp h
  exact bitmaskField_lt h

theorem logicalImmediate_fills (hd : d.Valid) (hn : Role.plain.Admits n) (htaken : taken ⊆ [d, n]) :
    (logicalImmediate op invert d n).Ensures taken
      (Fills [Formats.logicalImmediate op, Formats.logicalRegister op invert]) := by
  simp only [logicalImmediate, ensures_ite, ensures_malformed, implies_true, true_and, ensures_bind,
    ensures_here, ensures_immediate, ensures_liftAt, ensures_pure]
  intro hroles _ _ field hfield
  have hd : (Formats.destinationRole op.setsFlags).Admits d := by
    simp only [Bool.or_eq_true, not_or, Bool.and_eq_true, Bool.not_eq_true', not_and,
      Bool.not_eq_true] at hroles
    cases hflags : op.setsFlags with
    | false => exact ⟨hd, hroles.2 hflags⟩
    | true => exact ⟨hd, hroles.1 hflags⟩
  refine .of_mem (.head _) ((Describes.of _).constant 29 2 op.code |>.sf d
    |>.operand (logicalField_lt hfield) 10 |>.rn hn |>.rd hd) ?_
  exact List.Subset.trans htaken (by simp [Encoding.bitmask])

theorem logicalRegister_fills (hd : d.Valid) (hn : Role.plain.Admits n) (htaken : taken ⊆ [d, n]) :
    (logicalRegister op invert d n).Ensures taken
      (Fills [Formats.logicalImmediate op, Formats.logicalRegister op invert]) := by
  simp only [logicalRegister, ensures_ite, ensures_malformed, implies_true, true_and, ensures_bind,
    ensures_registerOf]
  intro hsp m hm _
  have hd : Role.plain.Admits d := ⟨hd, Bool.eq_false_of_not_eq_true hsp⟩
  refine ensures_optionalShift fun shift amount hamount => ?_
  have hshift : shift.code < 2 ^ 2 := by cases shift <;> decide
  have hamount : amount < 2 ^ 6 := lt_of_lt_of_le hamount d.width.bits_le
  refine .of_mem (.tail _ (.head _)) ((Describes.of _).constant 29 2 op.code
    |>.optionIf invert _ |>.sf d |>.operand hshift 22 |>.rm hm |>.operand hamount 10 |>.rn hn
    |>.rd hd) ?_
  exact List.append_subset.mpr ⟨List.Subset.trans htaken (by simp), by simp⟩

end Logical

theorem destinationAndSource_plain {P : List Register → Register × Register → Prop}
    {compare : Bool}
    (h : ∀ taken d n, d.Valid → Role.plain.Admits n → taken ⊆ [d, n] → P taken (d, n)) :
    (destinationAndSource compare plainRegister).Ensures [] P := by
  simp only [destinationAndSource, ensures_ite, ensures_bind, ensures_register,
    ensures_plainRegister, ensures_comma, ensures_requireSameWidth, ensures_pure]
  refine ⟨fun _ n hn => ?_, fun _ d hd n hn _ => ?_⟩
  · exact h _ _ _ (Register.valid_zeroOf _) hn (by simp)
  · exact h _ _ _ hd hn (by simp)

theorem logical_fills (op : LogicalOp) (invert test : Bool) :
    (logical op invert test).Ensures []
      (Fills [Formats.logicalImmediate op, Formats.logicalRegister op invert]) := by
  rw [logical, ensures_bind]
  refine destinationAndSource_plain fun taken d n hd hn htaken => ?_
  simp only [ensures_bind, ensures_comma, ensures_sees, ensures_ite]
  exact fun _ => ⟨fun _ => logicalImmediate_fills hd hn htaken,
    fun _ => logicalRegister_fills hd hn htaken⟩

/-! ## Moves -/

section Move

variable {d : Register}

theorem laneMove_describes (base : UInt32) (hd : Role.plain.Admits d) {lane held : ℕ}
    (hlane : lane < 4) (hheld : held < 2 ^ 16) :
    (Formats.laneMove base).Describes (laneMove base d lane held) :=
  (Describes.of base).sf d |>.operand (show lane < 2 ^ 2 from hlane) 21 |>.operand hheld 5 |>.rd hd

@[simp]
theorem registers_laneMove (base : UInt32) (d : Register) (lane held : ℕ) :
    (laneMove base d lane held).registers = [d] := by
  simp [laneMove, Encoding.hw, Encoding.imm16]

/-- A lane is one of those of the register and holds 16 bits. -/
theorem lane?_lt {width : Width} {value lane held : ℕ}
    (h : Immediate.lane? width value = some (lane, held)) : lane < 4 ∧ held < 2 ^ 16 := by
  rw [Immediate.lane?] at h
  obtain ⟨lane', hmem, h⟩ := List.exists_of_findSome?_eq_some h
  dsimp only at h
  split at h
  next =>
    cases h
    have hbits := width.bits_le
    have hrange := List.mem_range.mp hmem
    exact ⟨by omega, Nat.mod_lt _ (by decide)⟩
  next => cases h

theorem bitmaskMove_fills (hd : Role.address.Admits d) {value : ℕ} {e : Encoding}
    (h : bitmaskMove d value = .ok e) : Fills Formats.move [d] e := by
  obtain ⟨field, hfield, ⟨⟩⟩ := except_bind_eq_ok.mp h
  exact .of_mem (.tail _ (.tail _ (.head _)))
    ((Describes.of _).sf d |>.operand (bitmaskField_lt hfield) 10 |>.rd hd)
    (by simp [Encoding.bitmask])

theorem moveImmediate_fills (hd : d.Valid) {value : Int} {e : Encoding}
    (h : moveImmediate d value = .ok e) : Fills Formats.move [d] e := by
  obtain ⟨reduced, -, h⟩ := except_bind_eq_ok.mp h
  split at h
  next hsp =>
    refine bitmaskMove_fills ⟨hd, ?_⟩ h
    simp only [Register.isStackPointer, Bool.and_eq_true, Bool.not_eq_true'] at hsp
    exact hsp.2
  next hsp =>
    have hplain : Role.plain.Admits d := ⟨hd, Bool.eq_false_of_not_eq_true hsp⟩
    split at h
    next lane held _ hlane =>
      cases h
      obtain ⟨hlane, hheld⟩ := lane?_lt hlane
      exact .of_mem (.head _) (laneMove_describes _ hplain hlane hheld) (by simp)
    next lane held _ hlane =>
      cases h
      obtain ⟨hlane, hheld⟩ := lane?_lt hlane
      exact .of_mem (.tail _ (.head _)) (laneMove_describes _ hplain hlane hheld) (by simp)
    next =>
      split at h
      next => cases h
      next hzero => exact bitmaskMove_fills ⟨hd, Bool.eq_false_of_not_eq_true hzero⟩ h

theorem moveRegister_fills {s : Register} (hd : d.Valid) (hs : s.Valid) :
    (moveRegister d s).Ensures [d, s] (Fills Formats.move) := by
  simp only [moveRegister, ensures_bind, ensures_requireSameWidth, ensures_ite, ensures_malformed,
    ensures_pure, implies_true, true_and, Bool.or_eq_true, not_or, Bool.not_eq_true]
  refine fun _ => ⟨fun _ hzero => ?_, fun hsp => ?_⟩
  · have hd : Role.address.Admits d := ⟨hd, hzero.1⟩
    have hs : Role.address.Admits s := ⟨hs, hzero.2⟩
    exact .of_mem (.tail _ (.tail _ (.tail _ (.head _))))
      ((Describes.of _).sf d |>.rn hs |>.rd hd) (by simp)
  · have hd : Role.plain.Admits d := ⟨hd, hsp.1⟩
    have hs : Role.plain.Admits s := ⟨hs, hsp.2⟩
    exact .of_mem (.tail _ (.tail _ (.tail _ (.tail _ (.head _)))))
      ((Describes.of _).sf d |>.rm hs |>.rd hd) (by simp)

theorem move_fills : move.Ensures [] (Fills Formats.move) := by
  simp only [move, ensures_bind, ensures_register, ensures_comma, ensures_sees, ensures_ite,
    ensures_here, ensures_immediate, ensures_liftAt]
  refine fun d hd _ => ⟨fun _ _ _ e he => moveImmediate_fills hd he, fun _ s hs => ?_⟩
  exact moveRegister_fills hd hs

theorem optionalLane_ensures {taken : List Register} {N : List Register → ℕ → Prop}
    {width : Width} (h : ∀ lane < 4, N taken lane) : (optionalLane width).Ensures taken N := by
  -- a register has at most four lanes
  have hshift {shift : Int} {lane : ℕ} (hlane : laneOfShift? width shift = some lane) :
      lane < 4 := by
    rw [laneOfShift?] at hlane
    split at hlane
    next hrange =>
      have hbits := width.bits_le
      simp only [Bool.and_eq_true, decide_eq_true_eq] at hrange
      cases hlane
      omega
    next => cases hlane
  simp only [optionalLane, ensures_bind, ensures_accept, ensures_ite, ensures_keyword,
    ensures_malformed, ensures_pure, true_and]
  refine fun _ => ⟨?_, fun _ => h 0 (by decide)⟩
  rintro - ⟨⟩ -
  rw [ensures_immediate]
  intro shift
  split
  next lane hlane => exact h lane (hshift hlane)
  next => trivial

theorem wideMove_fills (base : UInt32) :
    (wideMove base).Ensures [] (Fills [Formats.laneMove base]) := by
  simp only [wideMove, ensures_bind, ensures_plainRegister, ensures_comma]
  refine fun d hd => ensures_constant fun held hheld => optionalLane_ensures fun lane hlane => ?_
  exact .single (laneMove_describes base hd hlane (Nat.lt_succ_of_le hheld)) (by simp)

end Move

end InlineA64.Encoder
