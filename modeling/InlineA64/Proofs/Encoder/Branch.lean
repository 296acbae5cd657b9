import InlineA64.Proofs.Format.Instruction
import InlineA64.Proofs.Reader.Operands

/-!
# Encoders of branches, exceptions and pointer authentication fill their formats
-/

namespace InlineA64.Encoder

open Reader Format

/-! ## Branches to labels -/

theorem conditionalBranch_fills :
    conditionalBranch.Ensures [] (Fills [Formats.conditionalBranch]) := by
  rw [conditionalBranch, ensures_bind]
  refine ensures_condition fun code hcode => ?_
  simp only [ensures_bind, ensures_target, ensures_pure]
  intro distance
  exact .single ((Describes.of _).operand (field_lt .literal _) 5
    |>.operand (show code < 2 ^ 4 from hcode) 0) (by simp)

theorem plainBranch_fills (link : Bool) :
    (plainBranch link).Ensures [] (Fills [Formats.plainBranch link]) := by
  simp only [plainBranch, ensures_bind, ensures_request, Request.Allows, Request.registers,
    List.append_nil, true_implies, ensures_ite, ensures_target, ensures_pure]
  refine fun _ => ⟨fun _ distance => ?_, fun _ => trivial⟩
  exact .single ((Describes.of _).operand (field_lt .branch _) 0) (by simp)

theorem branch_fills (link : Bool) : (branch link).Ensures [] (Fills (Formats.branch link)) := by
  cases link with
  | true => exact plainBranch_fills true
  | false =>
    simp only [branch, Bool.false_eq_true, if_false, ensures_bind, ensures_request, Request.Allows,
      Request.registers, List.append_nil, true_implies, ensures_ite]
    refine fun _ => ⟨fun _ => ?_, fun _ => ?_⟩
    · exact conditionalBranch_fills.mono fun _ _ h => h.subset (by simp [Formats.branch])
    · exact (plainBranch_fills false).mono fun _ _ h => h.subset (by simp [Formats.branch])

theorem compareBranch_fills (base : UInt32) :
    (compareBranch base).Ensures [] (Fills [Formats.compareBranch base]) := by
  simp only [compareBranch, ensures_bind, ensures_plainRegister, ensures_comma, ensures_target,
    ensures_pure]
  intro t ht distance
  exact .single ((Describes.of base).sf t |>.operand (field_lt .literal _) 5 |>.rt ht)
    (by simp [Encoding.imm19])

theorem testBranch_fills (base : UInt32) :
    (testBranch base).Ensures [] (Fills [Formats.testBranch base]) := by
  simp only [testBranch, ensures_bind, ensures_plainRegister, ensures_comma, ensures_hash,
    ensures_here, ensures_value, ensures_ite, ensures_malformedAt, ensures_distance, ensures_liftAt,
    ensures_pure, implies_true, true_and]
  intro t ht _ bit _ _ distance offset hoffset
  have hbit : bit.toInt.toNat % 32 < 2 ^ 5 := Nat.mod_lt _ (by decide)
  exact .single ((Describes.of base).choice _ _ |>.operand hbit 19
    |>.operand (encode_lt (d := .test) hoffset) 5 |>.rt ht) (by simp)

/-! ## Branches to registers -/

theorem registerBranch_fills (base : UInt32) :
    (registerBranch base).Ensures [] (Fills [Formats.registerBranch base]) := by
  simp only [registerBranch, ensures_bind, ensures_wideRegister, ensures_pure]
  intro n hn _
  exact .single ((Describes.of base).rn hn) (by simp)

theorem authenticatedBranch_fills (base : UInt32) :
    (authenticatedBranch base).Ensures [] (Fills [Formats.authenticatedBranch base]) := by
  simp only [authenticatedBranch, ensures_bind, ensures_wideRegister, ensures_comma,
    ensures_addressRegister, ensures_pure]
  intro n hn _ m hm _
  exact .single ((Describes.of base).rn hn |>.rd hm) (by simp)

theorem ret_fills : ret.Ensures [] (Fills [Formats.registerBranch 0xd65f0000]) := by
  simp only [ret, ensures_bind, ensures_request, Request.Allows, Request.registers,
    List.append_nil, true_implies, ensures_ite, ensures_wideRegister, ensures_pure]
  refine fun _ => ⟨fun _ => ?_, fun _ n hn _ => ?_⟩
  · have hlink : Role.plain.Admits .link := ⟨Register.valid_link, by decide⟩
    exact .single ((Describes.of _).rn hlink) (by simp)
  · exact .single ((Describes.of _).rn hn) (by simp)

/-! ## Exceptions and hints -/

theorem profilingBarrier_fills :
    profilingBarrier.Ensures [] (Fills [Format.of 0xd503223f]) := by
  simp only [profilingBarrier, ensures_bind, ensures_keyword, ensures_malformed, true_and]
  rintro ⟨⟩ -
  exact .single (Describes.of _) (by simp)

theorem exception_fills (base : UInt32) :
    (exception base).Ensures [] (Fills [Formats.exception base]) := by
  rw [exception, ensures_bind]
  refine ensures_constant fun imm himm => ?_
  exact .single ((Describes.of base).operand (show imm < 2 ^ 16 from Nat.lt_succ_of_le himm) 5)
    (by simp)

theorem debugState_fills (base : UInt32) :
    (debugState base).Ensures [] (Fills [Formats.exception base]) := by
  rw [debugState, ensures_bind]
  refine ensures_optionalConstant (by decide) fun imm himm => ?_
  exact .single ((Describes.of base).operand (show imm < 2 ^ 16 from Nat.lt_succ_of_le himm) 5)
    (by simp)

theorem hint_fills : hint.Ensures [] (Fills [Formats.hint]) := by
  rw [hint, ensures_bind]
  refine ensures_constant fun number hnumber => ?_
  exact .single ((Describes.of _).operand (show number < 2 ^ 7 from Nat.lt_succ_of_le hnumber) 5)
    (by simp)

/-! ## Pointer authentication -/

theorem authenticate_fills (base : UInt32) :
    (authenticate base).Ensures [] (Fills [Formats.authenticate base]) := by
  simp only [authenticate, ensures_bind, ensures_wideRegister, ensures_comma,
    ensures_addressRegister, ensures_pure]
  intro d hd _ n hn _
  exact .single ((Describes.of base).rn hn |>.rd hd) (by simp)

theorem authenticateZero_fills (base : UInt32) :
    (authenticateZero base).Ensures [] (Fills [Formats.authenticateZero base]) := by
  simp only [authenticateZero, ensures_bind, ensures_wideRegister, ensures_pure]
  intro d hd _
  exact .single ((Describes.of base).rd hd) (by simp)

theorem genericAuthentication_fills :
    genericAuthentication.Ensures [] (Fills [Formats.genericAuthentication]) := by
  simp only [genericAuthentication, ensures_bind, ensures_registerOf, ensures_comma,
    ensures_addressRegister, ensures_pure]
  intro d hd _ n hn _ m hm _
  exact .single ((Describes.of _).rm hm |>.rn hn |>.rd hd) (by simp)

end InlineA64.Encoder
