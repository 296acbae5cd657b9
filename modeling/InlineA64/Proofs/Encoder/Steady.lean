import InlineA64.Encoder
import InlineA64.Proofs.Reader.Steady

/-!
# Encoders are steady

What an encoder asks for depends on marks, keywords and registers, and on nothing else: values can
only decide what word it describes and whether it fails. So an instruction takes the same text in
any two runs that both assemble it.
-/

namespace InlineA64

open Reader

namespace Encoder

/-! ## Arithmetic -/

theorem steady_threeRegister (base : UInt32) : (threeRegister base).Steady :=
  textual_plainRegister.bind fun _ => textual_comma.bind fun _ =>
    (textual_registerOf _).bind fun _ => textual_comma.bind fun _ =>
      (textual_registerOf _).bind fun _ => steady_pure _

theorem silent_additionShifted (subtract setsFlags : Bool) (d n m : Register) (shift : Shift)
    (amount : Int) : (additionShifted subtract setsFlags d n m shift amount).Silent :=
  .bind (.ite (silent_pure _) (silent_failHere _)) fun _ =>
    .ite (silent_failHere _) (.ite (silent_failHere _) (silent_pure _))

theorem silent_additionExtended (subtract setsFlags : Bool) (d n m : Register) (start : Mark)
    (modifier : Option Modifier) (amount : Int) :
    (additionExtended subtract setsFlags d n m start modifier amount).Silent := by
  refine .ite (silent_failHere _) ?_
  split
  · exact silent_failHere _
  · exact .ite (silent_failAt _ _) (.ite (silent_failHere _) (silent_pure _))

theorem steady_addendShift : addendShift.Steady := by
  refine (textual_keyword _).bind fun shift? => ?_
  cases shift? with
  | none => exact (textual_failHere _).steady
  | some _ =>
    refine steady_immediate.bind_silent ?_ ?_
    all_goals
      intro shift
      split
      · exact silent_pure _
      · exact silent_pure _
      · exact silent_failHere _

theorem steady_additionImmediate (subtract setsFlags : Bool) (d n : Register) :
    (additionImmediate subtract setsFlags d n).Steady := by
  refine .ite (textual_failHere _).steady ?_
  refine textual_here.bind fun start => steady_immediate.bind fun written written' => ?_
  -- the addend can be refused for its value, and nothing is asked for behind it
  refine Agree.bind (R := fun _ _ => True) ?_ fun addend addend' _ => .of_silent ?_ ?_
  · refine (textual_accept _).bind fun _ => .ite ?_ (.pure trivial)
    exact steady_addendShift.bind fun _ _ => .pure trivial
  all_goals exact .bind (silent_liftAt _ _) fun _ => silent_pure _

theorem steady_additionModifier : additionModifier.Steady := by
  refine (textual_accept _).bind fun _ => .ite ?_ (steady_pure _)
  refine (textual_keyword _).bind fun modifier? => ?_
  cases modifier? with
  | none => exact (textual_failHere _).steady
  | some modifier =>
    refine (textual_sees _).bind fun _ => .ite ?_ (steady_pure _)
    exact steady_immediate.bind fun _ _ => .pure trivial

theorem steady_additionRegister (subtract setsFlags : Bool) (d n : Register) :
    (additionRegister subtract setsFlags d n).Steady := by
  refine textual_here.bind fun start => textual_register.bind fun m => ?_
  refine .ite (textual_failAt _ _).steady ?_
  -- which of the two forms it is has no influence on the text, which has been read by then
  refine steady_additionModifier.bind_silent ?_ ?_
  all_goals
    rintro ⟨modifier, amount⟩
    refine .ite (silent_additionExtended ..) ?_
    split
    · exact silent_additionExtended ..
    · exact silent_additionShifted ..
    · exact silent_additionShifted ..

theorem textual_destinationAndSource (compare : Bool) {source : Reader Register}
    (hsource : source.Textual) : (destinationAndSource compare source).Textual := by
  refine .ite (hsource.bind fun _ => textual_pure _) ?_
  exact textual_register.bind fun _ => textual_comma.bind fun _ => hsource.bind fun _ =>
    (textual_requireSameWidth _ _).bind fun _ => textual_pure _

theorem steady_addition (subtract setsFlags compare : Bool) :
    (addition subtract setsFlags compare).Steady := by
  refine (textual_destinationAndSource compare textual_register).bind fun (d, n) => ?_
  refine textual_comma.bind fun _ => (textual_sees _).bind fun _ => ?_
  exact .ite (steady_additionImmediate ..) (steady_additionRegister ..)

theorem steady_shiftedMove (base : UInt32) (rotate : Bool) : (shiftedMove base rotate).Steady :=
  textual_plainRegister.bind fun _ => textual_comma.bind fun _ =>
    (textual_registerOf _).bind fun _ => (steady_optionalShift _ _).bind fun _ _ => .pure trivial

theorem steady_negateWithCarry (base : UInt32) : (negateWithCarry base).Steady :=
  textual_plainRegister.bind fun _ => textual_comma.bind fun _ =>
    (textual_registerOf _).bind fun _ => steady_pure _

theorem steady_multiplyAdd (base : UInt32) : (multiplyAdd base).Steady :=
  textual_plainRegister.bind fun _ => textual_comma.bind fun _ =>
    (textual_registerOf _).bind fun _ => textual_comma.bind fun _ =>
      (textual_registerOf _).bind fun _ => textual_comma.bind fun _ =>
        (textual_registerOf _).bind fun _ => steady_pure _

theorem steady_wideningMultiply (base : UInt32) (accumulate : Bool) :
    (wideningMultiply base accumulate).Steady := by
  refine textual_here.bind fun _ => ?_
  refine textual_plainRegister.bind fun _ => textual_comma.bind fun _ => ?_
  refine textual_plainRegister.bind fun _ => textual_comma.bind fun _ => ?_
  refine textual_plainRegister.bind fun _ => .ite ?_ ?_
  · refine textual_comma.bind fun _ => textual_plainRegister.bind fun _ => ?_
    exact .ite (steady_pure _) (textual_failAt _ _).steady
  · exact .ite (steady_pure _) (textual_failAt _ _).steady

theorem steady_multiplyHigh (base : UInt32) : (multiplyHigh base).Steady :=
  (textual_registerOf _).bind fun _ => textual_comma.bind fun _ =>
    (textual_registerOf _).bind fun _ => textual_comma.bind fun _ =>
      (textual_registerOf _).bind fun _ => steady_pure _

theorem steady_checksum (base : UInt32) (wide : Bool) : (checksum base wide).Steady := by
  refine textual_narrowRegister.bind fun _ => textual_comma.bind fun _ => ?_
  refine textual_narrowRegister.bind fun _ => textual_comma.bind fun _ => ?_
  exact .ite (textual_wideRegister.bind fun _ => steady_pure _)
    (textual_narrowRegister.bind fun _ => steady_pure _)

theorem steady_address (page : Bool) : (Encoder.address page).Steady := by
  refine textual_wideRegister.bind fun _ => textual_comma.bind fun _ => .ite ?_ ?_
  · refine textual_here.bind fun _ => (steady_request .pageDistance).bind fun _ _ => ?_
    exact (agree_reachable _ _ _ _).bind fun _ _ _ => .pure trivial
  · exact (steady_target _).bind fun _ _ => .pure trivial

/-! ## Bitwise operations and moves -/

theorem steady_logicalImmediate (op : LogicalOp) (invert : Bool) (d n : Register) :
    (logicalImmediate op invert d n).Steady := by
  refine .ite (textual_failHere _).steady ?_
  refine textual_here.bind fun _ => steady_immediate.bind_silent ?_ ?_
  all_goals exact fun _ => .bind (silent_liftAt _ _) fun _ => silent_pure _

theorem steady_logicalRegister (op : LogicalOp) (invert : Bool) (d n : Register) :
    (logicalRegister op invert d n).Steady := by
  refine .ite (textual_failHere _).steady ?_
  refine (textual_registerOf _).bind fun _ => ?_
  exact (steady_optionalShift _ _).bind fun _ _ => .pure trivial

theorem steady_logical (op : LogicalOp) (invert test : Bool) : (logical op invert test).Steady := by
  refine (textual_destinationAndSource test textual_plainRegister).bind fun (d, n) => ?_
  refine textual_comma.bind fun _ => (textual_sees _).bind fun _ => ?_
  exact .ite (steady_logicalImmediate ..) (steady_logicalRegister ..)

theorem steady_moveRegister (d s : Register) : (moveRegister d s).Steady :=
  (textual_requireSameWidth _ _).bind fun _ =>
    .ite (.ite (textual_failHere _).steady (steady_pure _)) (steady_pure _)

theorem steady_move : move.Steady := by
  refine textual_register.bind fun _ => textual_comma.bind fun _ => ?_
  refine (textual_sees _).bind fun _ => .ite ?_ ?_
  · refine textual_here.bind fun _ => steady_immediate.bind_silent ?_ ?_
    all_goals exact fun _ => silent_liftAt _ _
  · exact textual_register.bind fun _ => steady_moveRegister _ _

theorem steady_optionalLane (width : Width) : (optionalLane width).Steady := by
  refine (textual_accept _).bind fun _ => .ite ?_ (steady_pure _)
  refine (textual_keyword _).bind fun shift? => ?_
  cases shift? with
  | none => exact (textual_failHere _).steady
  | some _ =>
    refine steady_immediate.bind_silent ?_ ?_
    all_goals
      intro shift
      split
      · exact silent_pure _
      · exact silent_failHere _

theorem steady_wideMove (base : UInt32) : (wideMove base).Steady :=
  textual_plainRegister.bind fun _ => textual_comma.bind fun _ =>
    (steady_constant _ _).bind fun _ _ => (steady_optionalLane _).bind fun _ _ => .pure trivial

/-! ## Shifts and bitfields -/

theorem steady_shift (kind : Shift) : (Encoder.shift kind).Steady := by
  refine textual_plainRegister.bind fun _ => textual_comma.bind fun _ => ?_
  refine (textual_registerOf _).bind fun _ => textual_comma.bind fun _ => ?_
  refine (textual_sees _).bind fun _ => .ite ?_ ?_
  · exact (steady_shiftAmount _).bind fun _ _ => .pure trivial
  · exact (textual_registerOf _).bind fun _ => steady_pure _

theorem agree_fieldOperand (form : FieldSpelling) (width : Width) (first first' : Nat) :
    Agree (fun _ _ => True) (fieldOperand form width first) (fieldOperand form width first') := by
  refine .ite ((steady_bitNumber _).bind fun _ _ => .pure trivial) ?_
  refine (steady_constant _ _).bind_silent ?_ ?_
  all_goals exact fun _ => .ite (silent_failHere _) (silent_pure _)

theorem steady_bitfield (op : BitfieldOp) (form : FieldSpelling) : (bitfield op form).Steady := by
  refine textual_plainRegister.bind fun d => textual_comma.bind fun _ => ?_
  refine Agree.bind (R := Eq) ?_ fun n _ hn => ?_
  · refine .ite (textual_pure _) ?_
    exact (textual_registerOf _).bind fun _ => textual_comma.bind fun _ => textual_pure _
  · refine (steady_bitNumber _).bind fun first first' => textual_comma.bind fun _ => ?_
    exact (agree_fieldOperand _ _ _ _).bind fun _ _ _ => .pure trivial

theorem steady_extension (signed : Bool) (source : Nat) : (extension signed source).Steady := by
  refine textual_here.bind fun _ => textual_plainRegister.bind fun _ => ?_
  refine .ite (textual_failAt _ _).steady ?_
  exact textual_comma.bind fun _ => (textual_registerOf _).bind fun _ => steady_pure _

theorem steady_extract : extract.Steady :=
  textual_plainRegister.bind fun _ => textual_comma.bind fun _ =>
    (textual_registerOf _).bind fun _ => textual_comma.bind fun _ =>
      (textual_registerOf _).bind fun _ => textual_comma.bind fun _ =>
        (steady_bitNumber _).bind fun _ _ => .pure trivial

theorem steady_bitOperation (base wideBits : UInt32) (wideOnly : Bool) :
    (bitOperation base wideBits wideOnly).Steady := by
  refine textual_here.bind fun _ => textual_plainRegister.bind fun _ => ?_
  refine .ite (textual_failAt _ _).steady ?_
  exact textual_comma.bind fun _ => (textual_registerOf _).bind fun _ => steady_pure _

/-! ## Conditional operations -/

theorem steady_select (base : UInt32) : (select base).Steady :=
  textual_plainRegister.bind fun _ => textual_comma.bind fun _ =>
    (textual_registerOf _).bind fun _ => textual_comma.bind fun _ =>
      (textual_registerOf _).bind fun _ => textual_comma.bind fun _ =>
        textual_condition.bind fun _ => steady_pure _

theorem steady_selectOpposite (base : UInt32) : (selectOpposite base).Steady :=
  textual_plainRegister.bind fun _ => textual_comma.bind fun _ =>
    (textual_registerOf _).bind fun _ => textual_comma.bind fun _ =>
      textual_oppositeCondition.bind fun _ => steady_pure _

theorem steady_setOnCondition (base : UInt32) : (setOnCondition base).Steady :=
  textual_plainRegister.bind fun _ => textual_comma.bind fun _ =>
    textual_oppositeCondition.bind fun _ => steady_pure _

theorem steady_compareOperand (n : Register) (e : Encoding) : (compareOperand n e).Steady := by
  refine (textual_sees _).bind fun _ => .ite ?_ ?_
  · exact (steady_constant _ _).bind fun _ _ => .pure trivial
  · exact (textual_registerOf _).bind fun _ => steady_pure _

theorem steady_conditionalCompare (base : UInt32) : (conditionalCompare base).Steady :=
  textual_plainRegister.bind fun _ => textual_comma.bind fun _ =>
    (steady_compareOperand _ _).bind fun _ _ => textual_comma.bind fun _ =>
      (steady_constant _ _).bind fun _ _ => textual_comma.bind fun _ =>
        textual_condition.bind fun _ => .pure trivial

/-! ## Branches, exceptions and pointer authentication -/

theorem steady_conditionalBranch : conditionalBranch.Steady :=
  textual_condition.bind fun _ => (steady_target _).bind fun _ _ => .pure trivial

theorem steady_plainBranch (link : Bool) : (plainBranch link).Steady := by
  refine (textual_request (q := .atBlank) trivial).bind fun _ => ?_
  refine .ite ?_ (textual_failHere _).steady
  exact (steady_target _).bind fun _ _ => .pure trivial

theorem steady_branch (link : Bool) : (branch link).Steady := by
  refine .ite (steady_plainBranch true) ?_
  refine (textual_request (q := .acceptJoined .dot) trivial).bind fun _ => ?_
  exact .ite steady_conditionalBranch (steady_plainBranch false)

theorem steady_compareBranch (base : UInt32) : (compareBranch base).Steady :=
  textual_plainRegister.bind fun _ => textual_comma.bind fun _ =>
    (steady_target _).bind fun _ _ => .pure trivial

theorem steady_testBranch (base : UInt32) : (testBranch base).Steady := by
  refine textual_plainRegister.bind fun t => textual_comma.bind fun _ => ?_
  refine textual_hash.bind fun _ => textual_here.bind fun start => ?_
  refine steady_value.bind fun bit bit' => ?_
  -- one of the two bits can be refused where the other is not
  by_cases hbit : !(0 ≤ bit && bit < t.bits)
  · rw [if_pos hbit]
    exact .failLeft _ _ _
  by_cases hbit' : !(0 ≤ bit' && bit' < t.bits)
  · rw [if_pos hbit']
    exact .failRight _ _ _
  rw [if_neg hbit, if_neg hbit']
  refine textual_comma.bind fun _ => textual_here.bind fun _ => ?_
  refine steady_distance.bind fun _ _ => .of_silent ?_ ?_
  all_goals exact .bind (silent_liftAt _ _) fun _ => silent_pure _

theorem steady_registerBranch (base : UInt32) : (registerBranch base).Steady :=
  textual_wideRegister.bind fun _ => steady_pure _

theorem steady_authenticatedBranch (base : UInt32) : (authenticatedBranch base).Steady :=
  textual_wideRegister.bind fun _ => textual_comma.bind fun _ =>
    textual_addressRegister.bind fun _ => steady_pure _

theorem steady_ret : ret.Steady := by
  refine Agree.bind (R := Eq) ?_ fun _ _ _ => .pure trivial
  refine (textual_request (q := .atEnd) trivial).bind fun _ => ?_
  exact .ite (textual_pure _) textual_wideRegister

theorem steady_profilingBarrier : profilingBarrier.Steady := by
  refine (textual_keyword _).bind fun operand? => ?_
  cases operand? with
  | none => exact (textual_failHere _).steady
  | some _ => exact steady_pure _

theorem steady_exception (base : UInt32) : (exception base).Steady :=
  (steady_constant _ _).bind fun _ _ => .pure trivial

theorem steady_debugState (base : UInt32) : (debugState base).Steady :=
  (steady_optionalConstant _ _).bind fun _ _ => .pure trivial

theorem steady_hint : hint.Steady :=
  (steady_constant _ _).bind fun _ _ => .pure trivial

theorem steady_authenticate (base : UInt32) : (authenticate base).Steady :=
  textual_wideRegister.bind fun _ => textual_comma.bind fun _ =>
    textual_addressRegister.bind fun _ => steady_pure _

theorem steady_authenticateZero (base : UInt32) : (authenticateZero base).Steady :=
  textual_wideRegister.bind fun _ => steady_pure _

theorem steady_genericAuthentication : genericAuthentication.Steady :=
  (textual_registerOf _).bind fun _ => textual_comma.bind fun _ =>
    (textual_registerOf _).bind fun _ => textual_comma.bind fun _ =>
      textual_addressRegister.bind fun _ => steady_pure _

/-! ## Barriers, system registers and maintenance -/

theorem steady_barrierOption (instruction : Bool) : (barrierOption instruction).Steady := by
  refine (textual_sees _).bind fun _ => .ite (steady_constant _ _) (.ite ?_ ?_)
  · exact (textual_keyword _).bind fun _ => steady_pure _
  · refine (textual_wholeWord _).bind fun option? => ?_
    cases option? with
    | none => exact (textual_failHere _).steady
    | some option => exact steady_pure _

theorem steady_barrier (base : UInt32) (instruction : Bool) : (barrier base instruction).Steady :=
  (steady_barrierOption _).bind fun _ _ => .pure trivial

theorem steady_clearExclusive : clearExclusive.Steady :=
  (steady_optionalConstant _ _).bind fun _ _ => .pure trivial

theorem steady_readSystemRegister : readSystemRegister.Steady :=
  textual_wideRegister.bind fun _ => textual_comma.bind fun _ =>
    (textual_request (q := .systemRegister) trivial).bind fun _ => steady_pure _

theorem steady_writeSystemRegister : writeSystemRegister.Steady := by
  refine (textual_wholeWord _).bind fun field? => ?_
  cases field? with
  | some field =>
    exact textual_comma.bind fun _ => (steady_constant _ _).bind fun _ _ => .pure trivial
  | none =>
    refine (textual_request (q := .systemRegister) trivial).bind fun _ => ?_
    exact textual_comma.bind fun _ => textual_wideRegister.bind fun _ => steady_pure _

theorem steady_controlRegister : controlRegister.Steady := by
  refine (textual_accept _).bind fun _ => .ite ?_ (textual_failHere _).steady
  refine textual_here.bind fun _ => steady_value.bind_silent ?_ ?_
  all_goals exact fun _ => silent_liftAt _ _

theorem steady_system (result : Bool) : (system result).Steady := by
  refine Agree.bind (R := Eq) ?_ fun destination _ hdestination => ?_
  · refine .ite ?_ (textual_pure _)
    exact textual_wideRegister.bind fun _ => textual_comma.bind fun _ => textual_pure _
  · refine (steady_constant _ _).bind fun _ _ => textual_comma.bind fun _ => ?_
    refine steady_controlRegister.bind fun _ _ => textual_comma.bind fun _ => ?_
    refine steady_controlRegister.bind fun _ _ => textual_comma.bind fun _ => ?_
    refine (steady_constant _ _).bind fun _ _ => ?_
    refine Agree.bind (R := fun _ _ => True) ?_ fun _ _ _ => .pure trivial
    refine .ite (.pure trivial) ?_
    exact (textual_accept _).bind fun _ => .ite textual_wideRegister.steady (.pure trivial)

theorem steady_maintenance (kind : Maintenance) : (maintenance kind).Steady := by
  refine (textual_wholeWord _).bind fun operation? => ?_
  cases operation? with
  | none => exact (textual_failHere _).steady
  | some operation =>
    -- whether a register is written is told by the comma, or by the operation alone
    refine Agree.bind (R := Eq) (.ite (textual_pure _) (textual_sees _)) fun written _ h => ?_
    subst h
    refine Agree.bind (R := Eq) (.ite ?_ (textual_pure _)) fun _ _ _ => .pure trivial
    exact textual_comma.bind fun _ => textual_wideRegister

/-! ## Loads and stores -/

theorem textual_transferRegister (rule : TransferRule) : (transferRegister rule).Textual := by
  refine textual_here.bind fun _ => textual_plainRegister.bind fun t => ?_
  split
  · exact textual_pure _
  · exact textual_failAt _ _

theorem agree_literalLoad (base : UInt32) (start : Mark) (m n : Int) (t : Register) :
    Agree (fun _ _ => True) (literalLoad base start m t) (literalLoad base start n t) :=
  (agree_reachable _ _ _ _).bind fun _ _ _ => .pure trivial

theorem steady_transfer (scale? : Option Nat) (load : Bool) : (transfer scale? load).Steady := by
  refine textual_here.bind fun _ => textual_plainRegister.bind fun t => ?_
  refine .ite (textual_failAt _ _).steady ?_
  refine textual_comma.bind fun _ => textual_here.bind fun start => ?_
  refine agree_address_bind (fun m n => ?_) ?_ ?_
  -- whether there is a literal form is a matter of the instruction
  · cases load && scale?.isNone with
    | true => exact (agree_literalLoad _ _ _ _ _).bind fun _ _ _ => .pure trivial
    | false =>
      refine .of_silent ?_ ?_
      all_goals exact .bind (silent_liftAt _ _) fun _ => silent_pure _
  all_goals
    intro operand hbase
    split
    · exact absurd rfl hbase
    · exact .bind (silent_liftAt _ _) fun _ => silent_pure _

theorem steady_signedLoad (scale : Nat) : (signedLoad scale).Steady := by
  refine (textual_transferRegister _).bind fun (t, bits) => textual_comma.bind fun _ => ?_
  refine textual_here.bind fun start => ?_
  refine agree_address_bind (fun m n => ?_) ?_ ?_
  · cases scale == 2 with
    | true => exact agree_literalLoad _ _ _ _ _
    | false =>
      refine .of_silent ?_ ?_
      all_goals exact .bind (silent_liftAt _ _) fun _ => silent_pure _
  all_goals
    intro operand hbase
    split
    · exact absurd rfl hbase
    · exact .bind (silent_liftAt _ _) fun _ => silent_pure _

theorem steady_unscaledTransfer (base : UInt32) (rule : TransferRule) :
    (unscaledTransfer base rule).Steady := by
  refine (textual_transferRegister rule).bind fun (t, bits) => textual_comma.bind fun _ => ?_
  refine textual_here.bind fun _ => agree_address.bind fun operand operand' _ => .of_silent ?_ ?_
  all_goals
    split
    · exact .bind (silent_liftAt _ _) fun _ => silent_pure _
    · exact silent_failAt _ _

theorem steady_pairTransfer (base : UInt32) (kind : PairRule) :
    (pairTransfer base kind).Steady := by
  refine textual_here.bind fun _ => textual_plainRegister.bind fun _ => ?_
  refine .ite (textual_failAt _ _).steady ?_
  refine textual_comma.bind fun _ => (textual_registerOf _).bind fun _ => ?_
  refine textual_comma.bind fun _ => textual_here.bind fun _ => ?_
  refine agree_address.bind fun operand operand' _ => .of_silent ?_ ?_
  all_goals
    split
    · exact silent_failAt _ _
    · exact .bind (silent_liftAt _ _) fun _ => silent_pure _

theorem steady_ordered (base : UInt32) (rule : TransferRule) : (ordered base rule).Steady :=
  (textual_transferRegister rule).bind fun (_, _) => textual_comma.bind fun _ =>
    textual_plainAddress.bind fun _ => steady_pure _

theorem steady_exclusiveStore (base : UInt32) (rule : TransferRule) :
    (exclusiveStore base rule).Steady :=
  textual_narrowRegister.bind fun _ => textual_comma.bind fun _ =>
    (textual_transferRegister rule).bind fun (_, _) => textual_comma.bind fun _ =>
      textual_plainAddress.bind fun _ => steady_pure _

theorem steady_exclusivePairLoad (base : UInt32) : (exclusivePairLoad base).Steady :=
  textual_plainRegister.bind fun _ => textual_comma.bind fun _ =>
    (textual_registerOf _).bind fun _ => textual_comma.bind fun _ =>
      textual_plainAddress.bind fun _ => steady_pure _

theorem steady_exclusivePairStore (base : UInt32) : (exclusivePairStore base).Steady :=
  textual_narrowRegister.bind fun _ => textual_comma.bind fun _ =>
    textual_plainRegister.bind fun _ => textual_comma.bind fun _ =>
      (textual_registerOf _).bind fun _ => textual_comma.bind fun _ =>
        textual_plainAddress.bind fun _ => steady_pure _

theorem steady_atomic (base : UInt32) (rule : TransferRule) : (atomic base rule).Steady :=
  (textual_transferRegister rule).bind fun (_, _) => textual_comma.bind fun _ =>
    (textual_registerOf _).bind fun _ => textual_comma.bind fun _ =>
      textual_plainAddress.bind fun _ => steady_pure _

theorem steady_atomicStore (base : UInt32) (rule : TransferRule) :
    (atomicStore base rule).Steady :=
  (textual_transferRegister rule).bind fun (_, _) => textual_comma.bind fun _ =>
    textual_plainAddress.bind fun _ => steady_pure _

theorem steady_compareAndSwapPairs (base : UInt32) : (compareAndSwapPairs base).Steady := by
  refine textual_here.bind fun _ => ?_
  refine textual_plainRegister.bind fun _ => textual_comma.bind fun _ => ?_
  refine textual_plainRegister.bind fun _ => textual_comma.bind fun _ => ?_
  refine textual_plainRegister.bind fun _ => textual_comma.bind fun _ => ?_
  refine textual_plainRegister.bind fun _ => textual_comma.bind fun _ => ?_
  refine textual_plainAddress.bind fun _ => ?_
  exact .ite (steady_pure _) (textual_failAt _ _).steady

theorem steady_authenticatedLoad (base : UInt32) : (authenticatedLoad base).Steady := by
  refine textual_wideRegister.bind fun _ => textual_comma.bind fun _ => ?_
  refine textual_here.bind fun _ => agree_address.bind fun operand operand' _ => .of_silent ?_ ?_
  all_goals
    split
    · exact silent_failAt _ _
    · exact .bind (silent_liftAt _ _) fun _ => silent_pure _

theorem steady_prefetchOperation : prefetchOperation.Steady := by
  refine (textual_sees _).bind fun _ => .ite (steady_constant _ _) ?_
  refine textual_here.bind fun _ => (textual_keyword _).bind fun _ => ?_
  refine (textual_keyword _).bind fun _ => (textual_keyword _).bind fun _ => ?_
  split
  · exact steady_pure _
  · exact (textual_failAt _ _).steady

theorem steady_prefetch : prefetch.Steady := by
  refine steady_prefetchOperation.bind fun operation operation' => textual_comma.bind fun _ => ?_
  refine textual_here.bind fun start => agree_address_bind (fun m n => ?_) ?_ ?_
  · exact (agree_reachable _ _ _ _).bind fun _ _ _ => .pure trivial
  all_goals
    intro operand hbase
    split
    · exact absurd rfl hbase
    · exact .bind (silent_liftAt _ _) fun _ => silent_pure _

end Encoder

/-- Every instruction takes the same text whatever the values in its operands are. -/
theorem Instruction.steady_encoder (i : Instruction) : i.encoder.Steady := by
  cases i with
  | threeRegister base => exact Encoder.steady_threeRegister base
  | addition subtract setsFlags compare => exact Encoder.steady_addition subtract setsFlags compare
  | logical op invert test => exact Encoder.steady_logical op invert test
  | shiftedMove base rotate => exact Encoder.steady_shiftedMove base rotate
  | negateWithCarry base => exact Encoder.steady_negateWithCarry base
  | move => exact Encoder.steady_move
  | wideMove base => exact Encoder.steady_wideMove base
  | shift kind => exact Encoder.steady_shift kind
  | bitfield op form => exact Encoder.steady_bitfield op form
  | extension signed source => exact Encoder.steady_extension signed source
  | extract => exact Encoder.steady_extract
  | multiplyAdd base => exact Encoder.steady_multiplyAdd base
  | wideningMultiply base accumulate => exact Encoder.steady_wideningMultiply base accumulate
  | multiplyHigh base => exact Encoder.steady_multiplyHigh base
  | select base => exact Encoder.steady_select base
  | selectOpposite base => exact Encoder.steady_selectOpposite base
  | setOnCondition base => exact Encoder.steady_setOnCondition base
  | conditionalCompare base => exact Encoder.steady_conditionalCompare base
  | bitOperation base wideBits wideOnly => exact Encoder.steady_bitOperation base wideBits wideOnly
  | checksum base wide => exact Encoder.steady_checksum base wide
  | address page => exact Encoder.steady_address page
  | branch link => exact Encoder.steady_branch link
  | compareBranch base => exact Encoder.steady_compareBranch base
  | testBranch base => exact Encoder.steady_testBranch base
  | registerBranch base => exact Encoder.steady_registerBranch base
  | authenticatedBranch base => exact Encoder.steady_authenticatedBranch base
  | ret => exact Encoder.steady_ret
  | fixed word => exact steady_pure _
  | profilingBarrier => exact Encoder.steady_profilingBarrier
  | exception base => exact Encoder.steady_exception base
  | debugState base => exact Encoder.steady_debugState base
  | hint => exact Encoder.steady_hint
  | barrier base instruction => exact Encoder.steady_barrier base instruction
  | clearExclusive => exact Encoder.steady_clearExclusive
  | readSystemRegister => exact Encoder.steady_readSystemRegister
  | writeSystemRegister => exact Encoder.steady_writeSystemRegister
  | system result => exact Encoder.steady_system result
  | maintenance kind => exact Encoder.steady_maintenance kind
  | authenticate base => exact Encoder.steady_authenticate base
  | authenticateZero base => exact Encoder.steady_authenticateZero base
  | genericAuthentication => exact Encoder.steady_genericAuthentication
  | transfer scale load => exact Encoder.steady_transfer scale load
  | signedLoad scale => exact Encoder.steady_signedLoad scale
  | unscaledTransfer base rule => exact Encoder.steady_unscaledTransfer base rule
  | pairTransfer base kind => exact Encoder.steady_pairTransfer base kind
  | ordered base rule => exact Encoder.steady_ordered base rule
  | exclusiveStore base rule => exact Encoder.steady_exclusiveStore base rule
  | exclusivePairLoad base => exact Encoder.steady_exclusivePairLoad base
  | exclusivePairStore base => exact Encoder.steady_exclusivePairStore base
  | atomic base rule => exact Encoder.steady_atomic base rule
  | atomicStore base rule => exact Encoder.steady_atomicStore base rule
  | compareAndSwapPairs base => exact Encoder.steady_compareAndSwapPairs base
  | authenticatedLoad base => exact Encoder.steady_authenticatedLoad base
  | prefetch => exact Encoder.steady_prefetch

end InlineA64
