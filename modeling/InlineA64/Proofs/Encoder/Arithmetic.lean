import InlineA64.Proofs.Format.Instruction
import InlineA64.Proofs.Reader.Operands

/-!
# Arithmetic encoders fill their formats
-/

namespace InlineA64.Encoder

open Reader Format

theorem threeRegister_fills (base : UInt32) :
    (threeRegister base).Ensures [] (Fills [Formats.threeRegister base]) := by
  simp only [threeRegister, ensures_bind, ensures_plainRegister, ensures_comma, ensures_registerOf,
    ensures_pure]
  intro d hd n hn _ m hm _
  exact .single ((Describes.of base).sf d |>.rm hm |>.rn hn |>.rd hd) (by simp)

/-! ## Addition and subtraction -/

section Addition

variable {subtract setsFlags : Bool} {d n m : Register} {taken : List Register}

theorem additionOf_describes (base : UInt32) (subtract setsFlags : Bool) :
    (Formats.additionOf base subtract setsFlags).Describes (additionOf base subtract setsFlags) :=
  (Describes.of base).optionIf subtract _ |>.optionIf setsFlags _

@[simp]
theorem registers_additionOf (base : UInt32) (subtract setsFlags : Bool) :
    (additionOf base subtract setsFlags).registers = [] := by
  simp only [additionOf, Encoding.registers_optionIf, Encoding.registers_of]

/-- The registers that the immediate and the extended form take have the roles of their fields. -/
theorem admits_of_admitsStackPointer (hd : d.Valid) (hn : n.Valid)
    (h : admitsStackPointer setsFlags d n = true) :
    (Formats.destinationRole setsFlags).Admits d ∧ Role.address.Admits n := by
  simp only [admitsStackPointer, Bool.not_eq_true', Bool.or_eq_false_iff] at h
  obtain ⟨⟨hzero, hsp⟩, hdzero⟩ := h
  cases setsFlags with
  | false => exact ⟨⟨hd, hdzero⟩, hn, hzero⟩
  | true => exact ⟨⟨hd, hsp⟩, hn, hzero⟩

theorem addendShift_ensures {B : List Register → Bool → Prop} (h : ∀ b, B taken b) :
    addendShift.Ensures taken B := by
  simp only [addendShift, ensures_bind, ensures_keyword, ensures_malformed, true_and]
  rintro ⟨⟩ -
  rw [ensures_immediate]
  intro value
  split
  · exact h _
  · exact h _
  · trivial

theorem additionImmediate_fills (hd : d.Valid) (hn : n.Valid) (htaken : taken ⊆ [d, n]) :
    (additionImmediate subtract setsFlags d n).Ensures taken
      (Fills (Formats.addition subtract setsFlags)) := by
  simp only [additionImmediate, ensures_ite, ensures_malformed, implies_true, true_and,
    Bool.not_eq_true', Bool.not_eq_false, ensures_bind, ensures_here, ensures_immediate,
    ensures_accept, ensures_pure, ensures_liftAt]
  intro hadmits _ written
  obtain ⟨hd, hn⟩ := admits_of_admitsStackPointer hd hn hadmits
  have hfills (addend : Int) (shifted : Bool) (imm : ℕ)
      (himm : Immediate.unsigned 4095 .addend addend = .ok imm) :
      Fills (Formats.addition subtract setsFlags) taken
        (additionOf 0x11000000 subtract setsFlags
          |>.sf d |>.optionIf shifted 0x400000 |>.imm12 imm |>.rn n |>.rd d) := by
    have hlt : imm < 2 ^ 12 := Nat.lt_succ_of_le (unsigned_le himm)
    refine .of_mem (.head _)
      ((additionOf_describes _ _ _).sf d |>.choice shifted _ |>.operand hlt 10 |>.rn hn |>.rd hd) ?_
    exact List.Subset.trans htaken (by simp [Encoding.imm12])
  exact fun _ => ⟨fun _ => addendShift_ensures fun shifted => hfills _ shifted, fun _ => hfills _ _⟩

theorem additionModifier_ensures {P : List Register → Option Modifier × Int → Prop}
    (h : ∀ modifier amount, (∀ option, modifier = some (.extension option) → option < 8) →
      P taken (modifier, amount)) : additionModifier.Ensures taken P := by
  have hoption : ∀ modifier ∈ Vocabulary.modifiers.entries.map Prod.snd, ∀ option,
      modifier = .extension option → option < 8 := by
    rintro modifier hmem option rfl
    simp only [Vocabulary.entries, Vocabulary.extensions, Vocabulary.shiftKinds,
      List.map_cons, List.map_nil, List.cons_append, List.nil_append, List.mem_cons,
      Modifier.extension.injEq, reduceCtorEq, List.not_mem_nil, or_false] at hmem
    omega
  simp only [additionModifier, ensures_bind, ensures_accept, ensures_ite, ensures_keyword,
    ensures_malformed, ensures_sees, ensures_immediate, ensures_pure, true_and]
  refine fun _ => ⟨fun _ modifier hmodifier _ => ?_, fun _ => h none 0 (by simp)⟩
  have hsome (option : ℕ) (heq : some modifier = some (.extension option)) : option < 8 :=
    hoption modifier hmodifier option (Option.some.inj heq)
  exact ⟨fun _ _ => h _ _ hsome, fun _ => h _ _ hsome⟩

theorem extensionOf_lt {modifier : Option Modifier}
    (hmodifier : ∀ option, modifier = some (.extension option) → option < 8) {option : ℕ}
    (h : extensionOf d modifier = some option) : option < 8 := by
  rw [extensionOf.eq_def] at h
  split at h
  next option' =>
    cases h
    exact hmodifier option rfl
  next =>
    split at h <;> cases h <;> decide
  next =>
    split at h <;> cases h <;> decide
  next => cases h

theorem additionExtended_fills (hd : d.Valid) (hn : n.Valid) (hm : Role.plain.Admits m)
    (htaken : taken ⊆ [d, n, m]) (start : Mark) {modifier : Option Modifier}
    (hmodifier : ∀ option, modifier = some (.extension option) → option < 8) (amount : Int) :
    (additionExtended subtract setsFlags d n m start modifier amount).Ensures taken
      (Fills (Formats.addition subtract setsFlags)) := by
  rw [additionExtended, ensures_ite]
  refine ⟨fun _ => trivial, fun hadmits => ?_⟩
  rw [Bool.not_eq_true', Bool.not_eq_false] at hadmits
  obtain ⟨hd, hn⟩ := admits_of_admitsStackPointer hd hn hadmits
  split
  next => trivial
  next option hextension =>
    simp only [ensures_ite, ensures_malformedAt, ensures_beyond, ensures_pure, implies_true,
      true_and]
    intro _ hamount
    have hoption : option < 2 ^ 3 := extensionOf_lt hmodifier hextension
    have hamount : amount.toNat < 2 ^ 3 := by
      simp only [Bool.not_eq_true', Bool.not_eq_false, Bool.and_eq_true, decide_eq_true_eq]
        at hamount
      omega
    refine .of_mem (.tail _ (.head _)) ((additionOf_describes _ _ _).sf d |>.rm hm
      |>.operand hoption 13 |>.operand hamount 10 |>.rn hn |>.rd hd) ?_
    exact List.Subset.trans htaken (by simp)

theorem additionShifted_fills (hd : Role.plain.Admits d) (hn : Role.plain.Admits n)
    (hm : Role.plain.Admits m) (htaken : taken ⊆ [d, n, m]) (shift : Shift) (amount : Int) :
    (additionShifted subtract setsFlags d n m shift amount).Ensures taken
      (Fills (Formats.addition subtract setsFlags)) := by
  simp only [additionShifted, ensures_bind, ensures_requireSameWidth, ensures_ite,
    ensures_malformed, ensures_beyond, ensures_pure, implies_true, true_and]
  intro _ _ hamount
  have hshift : shift.code < 2 ^ 2 := by cases shift <;> decide
  have hamount : amount.toNat < 2 ^ 6 := by
    have hbits : d.bits ≤ 64 := d.width.bits_le
    simp only [Bool.not_eq_true', Bool.not_eq_false, Bool.and_eq_true, decide_eq_true_eq]
      at hamount
    omega
  refine .of_mem (.tail _ (.tail _ (.head _))) ((additionOf_describes _ _ _).sf d
    |>.operand hshift 22 |>.rm hm |>.operand hamount 10 |>.rn hn |>.rd hd) ?_
  exact List.Subset.trans htaken (by simp)

theorem additionRegister_fills (hd : d.Valid) (hn : n.Valid) (htaken : taken ⊆ [d, n]) :
    (additionRegister subtract setsFlags d n).Ensures taken
      (Fills (Formats.addition subtract setsFlags)) := by
  simp only [additionRegister, ensures_bind, ensures_here, ensures_register, ensures_ite,
    ensures_malformedAt, implies_true, true_and]
  intro start m hm hsp
  have htaken : taken ++ [m] ⊆ [d, n, m] :=
    List.append_subset.mpr ⟨List.Subset.trans htaken (by simp), by simp⟩
  have hm : Role.plain.Admits m := ⟨hm, Bool.eq_false_of_not_eq_true hsp⟩
  refine additionModifier_ensures fun modifier amount hmodifier => ?_
  have hextended : (additionExtended subtract setsFlags d n m start modifier amount).Ensures _
      (Fills (Formats.addition subtract setsFlags)) :=
    additionExtended_fills hd hn hm htaken start hmodifier amount
  refine ⟨fun _ => hextended, fun hplain => ?_⟩
  simp only [Bool.or_eq_true, not_or, Bool.not_eq_true] at hplain
  dsimp only
  split
  · exact hextended
  · exact additionShifted_fills ⟨hd, hplain.2⟩ ⟨hn, hplain.1⟩ hm htaken _ amount
  · exact additionShifted_fills ⟨hd, hplain.2⟩ ⟨hn, hplain.1⟩ hm htaken _ amount

end Addition

/-! ## The other families -/

theorem destinationAndSource_register {P : List Register → Register × Register → Prop}
    {compare : Bool}
    (h : ∀ taken d n, d.Valid → n.Valid → taken ⊆ [d, n] → P taken (d, n)) :
    (destinationAndSource compare register).Ensures [] P := by
  simp only [destinationAndSource, ensures_ite, ensures_bind, ensures_register, ensures_comma,
    ensures_requireSameWidth, ensures_pure]
  refine ⟨fun _ n hn => ?_, fun _ d hd n hn _ => ?_⟩
  · exact h _ _ _ (Register.valid_zeroOf _) hn (by simp)
  · exact h _ _ _ hd hn (by simp)

theorem addition_fills (subtract setsFlags compare : Bool) :
    (addition subtract setsFlags compare).Ensures []
      (Fills (Formats.addition subtract setsFlags)) := by
  rw [addition, ensures_bind]
  refine destinationAndSource_register fun taken d n hd hn htaken => ?_
  simp only [ensures_bind, ensures_comma, ensures_sees, ensures_ite]
  exact fun _ => ⟨fun _ => additionImmediate_fills hd hn htaken,
    fun _ => additionRegister_fills hd hn htaken⟩

theorem shiftedMove_fills (base : UInt32) (rotate : Bool) :
    (shiftedMove base rotate).Ensures [] (Fills [Formats.shiftedMove base]) := by
  simp only [shiftedMove, ensures_bind, ensures_plainRegister, ensures_comma, ensures_registerOf,
    ensures_pure]
  intro d hd m hm _
  refine ensures_optionalShift fun shift amount hamount => ?_
  have hshift : shift.code < 2 ^ 2 := by cases shift <;> decide
  have hamount : amount < 2 ^ 6 := lt_of_lt_of_le hamount d.width.bits_le
  exact .single ((Describes.of base).sf d |>.operand hshift 22 |>.rm hm |>.operand hamount 10
    |>.rd hd) (by simp)

theorem negateWithCarry_fills (base : UInt32) :
    (negateWithCarry base).Ensures [] (Fills [Formats.negateWithCarry base]) := by
  simp only [negateWithCarry, ensures_bind, ensures_plainRegister, ensures_comma,
    ensures_registerOf, ensures_pure]
  intro d hd m hm _
  exact .single ((Describes.of base).sf d |>.rm hm |>.rd hd) (by simp)

theorem multiplyAdd_fills (base : UInt32) :
    (multiplyAdd base).Ensures [] (Fills [Formats.multiplyAdd base]) := by
  simp only [multiplyAdd, ensures_bind, ensures_plainRegister, ensures_comma, ensures_registerOf,
    ensures_pure]
  intro d hd n hn _ m hm _ a ha _
  exact .single ((Describes.of base).sf d |>.rm hm |>.rt2 ha |>.rn hn |>.rd hd) (by simp)

theorem wideningMultiply_fills (base : UInt32) (accumulate : Bool) :
    (wideningMultiply base accumulate).Ensures []
      (Fills [Formats.wideningMultiply base accumulate]) := by
  have hproduct {d n m : Register} (hd : Role.plain.Admits d) (hn : Role.plain.Admits n)
      (hm : Role.plain.Admits m) :
      (Formats.product base).Describes (Encoding.of base |>.rm m |>.rn n |>.rd d) :=
    (Describes.of base).rm hm |>.rn hn |>.rd hd
  simp only [wideningMultiply, ensures_bind, ensures_here, ensures_plainRegister, ensures_comma,
    ensures_ite, ensures_malformedAt, ensures_pure, implies_true, and_true]
  intro _ d hd n hn m hm
  refine ⟨fun haccumulate a ha _ => ?_, fun haccumulate _ => ?_⟩
  · rw [Formats.wideningMultiply, if_pos haccumulate]
    exact .single ((hproduct hd hn hm).rt2 ha) (by simp)
  · rw [Formats.wideningMultiply, if_neg haccumulate]
    exact .single (hproduct hd hn hm) (by simp)

theorem multiplyHigh_fills (base : UInt32) :
    (multiplyHigh base).Ensures [] (Fills [Formats.product base]) := by
  simp only [multiplyHigh, ensures_bind, ensures_comma, ensures_registerOf, ensures_pure]
  intro d hd _ n hn _ m hm _
  exact .single ((Describes.of base).rm hm |>.rn hn |>.rd hd) (by simp)

theorem checksum_fills (base : UInt32) (wide : Bool) :
    (checksum base wide).Ensures [] (Fills [Formats.product base]) := by
  simp only [checksum, ensures_bind, ensures_comma, ensures_narrowRegister, ensures_wideRegister,
    ensures_ite, ensures_pure]
  intro d hd _ n hn _
  refine ⟨fun _ m hm _ => ?_, fun _ m hm _ => ?_⟩
  · exact .single ((Describes.of base).rm hm |>.rn hn |>.rd hd) (by simp)
  · exact .single ((Describes.of base).rm hm |>.rn hn |>.rd hd) (by simp)

theorem address_fills (page : Bool) :
    (address page).Ensures []
      (Fills [Formats.labelAddress (if page then 0x90000000 else 0x10000000)]) := by
  have hfills (base : UInt32) (d : Register) (hd : Role.plain.Admits d) (field : ℕ)
      (hfield : field < 2 ^ 21) :
      Fills [Formats.labelAddress base] [d] (labelAddress base d field) :=
    have hlow : field % 4 < 2 ^ 2 := Nat.mod_lt _ (by decide)
    have hhigh : field / 4 < 2 ^ 19 := by omega
    .single ((Describes.of base).operand hlow 29 |>.operand hhigh 5 |>.rd hd)
      (by simp [labelAddress, Encoding.imm19])
  simp only [address, ensures_bind, ensures_comma, ensures_wideRegister, ensures_ite, ensures_here,
    ensures_request, Request.Allows, Request.registers, List.append_nil, true_implies,
    ensures_reachable, ensures_target, ensures_pure]
  intro d hd _
  refine ⟨fun hpage _ pages => ?_, fun hpage distance => ?_⟩
  · rw [if_pos hpage]
    exact hfills _ d hd _ (field_lt .page _)
  · rw [if_neg hpage]
    exact hfills _ d hd _ (field_lt .address _)

end InlineA64.Encoder
