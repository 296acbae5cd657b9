import InlineA64.Proofs.Format.Instruction
import InlineA64.Proofs.Reader.Operands

/-!
# Encoders of conditional selection and comparison fill their formats
-/

namespace InlineA64.Encoder

open Reader Format

theorem select_fills (base : UInt32) : (select base).Ensures [] (Fills [Formats.select base]) := by
  simp only [select, ensures_bind, ensures_plainRegister, ensures_comma, ensures_registerOf]
  intro d hd n hn _ m hm _
  refine ensures_condition fun code hcode => ?_
  exact .single ((Describes.of base).sf d |>.rm hm |>.operand (show code < 2 ^ 4 from hcode) 12
    |>.rn hn |>.rd hd) (by simp [Encoding.cond])

theorem selectOpposite_fills (base : UInt32) :
    (selectOpposite base).Ensures [] (Fills [Formats.select base]) := by
  simp only [selectOpposite, ensures_bind, ensures_plainRegister, ensures_comma, ensures_registerOf]
  intro d hd n hn _
  refine ensures_oppositeCondition fun code hcode => ?_
  exact .single ((Describes.of base).sf d |>.rm hn |>.operand (show code < 2 ^ 4 from hcode) 12
    |>.rn hn |>.rd hd) (by simp [Encoding.cond])

theorem setOnCondition_fills (base : UInt32) :
    (setOnCondition base).Ensures [] (Fills [Formats.setOnCondition base]) := by
  simp only [setOnCondition, ensures_bind, ensures_plainRegister, ensures_comma]
  intro d hd
  refine ensures_oppositeCondition fun code hcode => ?_
  exact .single ((Describes.of base).sf d |>.operand (show code < 2 ^ 4 from hcode) 12 |>.rd hd)
    (by simp [Encoding.cond])

theorem conditionalCompare_fills (base : UInt32) :
    (conditionalCompare base).Ensures [] (Fills (Formats.conditionalCompare base)) := by
  -- The flags and the condition follow whichever way the second source is written.
  have hfills {taken : List Register} {f : Format} {e : Encoding}
      (hmem : (f.operand 12 4 |>.operand 0 4) ∈ Formats.conditionalCompare base)
      (h : f.Describes e) (htaken : taken ⊆ e.registers) :
      Reader.Ensures (do
        comma
        let flags ← constant 15 .flags
        comma
        let code ← condition
        return e.cond code |>.field 0 4 flags) taken (Fills (Formats.conditionalCompare base)) := by
    rw [ensures_bind, ensures_comma, ensures_bind]
    refine ensures_constant fun flags hflags => ?_
    rw [ensures_bind, ensures_comma, ensures_bind]
    refine ensures_condition fun code hcode => ?_
    have hflags : flags < 2 ^ 4 := Nat.lt_succ_of_le hflags
    exact .of_mem hmem (h.operand (show code < 2 ^ 4 from hcode) 12 |>.operand hflags 0)
      (List.Subset.trans htaken (by simp [Encoding.cond]))
  rw [conditionalCompare, ensures_bind, ensures_plainRegister]
  intro n hn
  rw [ensures_bind, ensures_comma, ensures_bind, compareOperand, ensures_bind, ensures_sees]
  refine fun _ => ensures_ite.mpr ⟨fun _ => ?_, fun _ => ?_⟩
  · rw [ensures_bind]
    refine ensures_constant fun imm himm => hfills (.head _) ?_ (by simp)
    exact (Describes.of base).sf n |>.rn hn |>.option _
      |>.operand (show imm < 2 ^ 5 from Nat.lt_succ_of_le himm) 16
  · rw [ensures_bind, ensures_registerOf]
    refine fun m hm _ => hfills (.tail _ (.head _)) ?_ (by simp)
    exact (Describes.of base).sf n |>.rn hn |>.rm hm

end InlineA64.Encoder
