import InlineA64.Proofs.Format.Instruction
import InlineA64.Proofs.Reader.Operands

/-!
# Encoders of shifts and bitfields fill their formats
-/

namespace InlineA64.Encoder

open Reader Format

/-! ## Shifts -/

theorem shiftFields_describes (kind : Shift) {n : Register} (hn : Role.plain.Admits n) {amount : ℕ}
    (hamount : amount < n.bits) :
    (Formats.shiftFields kind).Describes (shiftFields kind n amount) := by
  have hbits : n.bits ≤ 64 := n.width.bits_le
  have hmod : (n.bits - amount) % n.bits < 2 ^ 6 :=
    lt_of_lt_of_le (Nat.mod_lt _ (by omega)) hbits
  have hamount : amount < 2 ^ 6 := by omega
  have hend : n.bits - 1 < 2 ^ 6 := by omega
  have hrest : n.bits - 1 - amount < 2 ^ 6 := by omega
  cases kind with
  | lsl => exact (Describes.of _).operand hmod 16 |>.operand hrest 10
  | lsr | asr => exact (Describes.of _).operand hamount 16 |>.operand hend 10
  | ror => exact (Describes.of _).rm hn |>.operand hamount 10

theorem shift_fills (kind : Shift) :
    (shift kind).Ensures []
      (Fills [Formats.shiftByImmediate kind, Formats.shiftByRegister kind]) := by
  simp only [shift, shiftByRegister, ensures_bind, ensures_plainRegister, ensures_comma,
    ensures_registerOf, ensures_sees, ensures_ite, ensures_pure]
  refine fun d hd n hn hwidth _ => ⟨fun _ => ?_, fun _ m hm _ => ?_⟩
  · refine ensures_shiftAmount fun amount hamount => ?_
    have hfields := shiftFields_describes kind hn (show amount < n.width.bits by rwa [hwidth])
    exact .of_mem (.head _) (hfields.sfAndN d |>.rn hn |>.rd hd) (by simp)
  · exact .of_mem (.tail _ (.head _)) ((Describes.of _).constant 10 2 kind.code |>.sf d |>.rm hm
      |>.rn hn |>.rd hd) (by simp)

/-! ## Bitfields -/

theorem fieldOperand_ensures {taken : List Register} {P : List Register → ℕ × ℕ → Prop}
    {form : FieldSpelling} {width : Width} {first : ℕ} (hfirst : first < width.bits)
    (h : ∀ immr < 64, ∀ imms < 64, P taken (immr, imms)) :
    (fieldOperand form width first).Ensures taken P := by
  have hbits := width.bits_le
  rw [fieldOperand, ensures_ite]
  refine ⟨fun _ => ?_, fun _ => ?_⟩
  · rw [ensures_bind]
    exact ensures_bitNumber fun last hlast => h first (by omega) last (by omega)
  · rw [ensures_bind]
    refine ensures_constant fun count hcount => ?_
    simp only [ensures_ite, ensures_beyond, ensures_pure, implies_true, true_and, not_or, not_lt]
    rintro ⟨hpos, hle⟩
    -- a field that is moved up is rotated right by what is left of the register
    have hmod : (width.bits - first) % width.bits < 64 :=
      lt_of_lt_of_le (Nat.mod_lt _ (by omega)) hbits
    cases form with
    | extract => exact h _ (by omega) _ (by omega)
    | raw | insert | clear => exact h _ hmod _ (by omega)

theorem bitfield_fills (op : BitfieldOp) (form : FieldSpelling) :
    (bitfield op form).Ensures [] (Fills [Formats.bitfield op]) := by
  have hfills {taken : List Register} {d n : Register} (hd : Role.plain.Admits d)
      (hn : Role.plain.Admits n) (htaken : taken ⊆ [d, n]) {immr imms : ℕ} (himmr : immr < 2 ^ 6)
      (himms : imms < 2 ^ 6) :
      Fills [Formats.bitfield op] taken (Encoding.of 0x13000000
        |>.field 29 2 op.code |>.sfAndN d |>.immr immr |>.imms imms |>.rn n |>.rd d) :=
    .single ((Describes.of _).constant 29 2 op.code |>.sfAndN d |>.operand himmr 16
      |>.operand himms 10 |>.rn hn |>.rd hd)
      (List.Subset.trans htaken (by simp [Encoding.immr, Encoding.imms]))
  simp only [bitfield, ensures_bind, ensures_plainRegister, ensures_comma, ensures_ite,
    ensures_registerOf, ensures_pure]
  refine fun d hd => ⟨fun _ => ?_, fun _ n hn _ => ?_⟩
  · have hzero : Role.plain.Admits (.zeroOf d.width) :=
      ⟨Register.valid_zeroOf _, Bool.and_false _⟩
    exact ensures_bitNumber fun first hfirst => fieldOperand_ensures hfirst
      fun _ himmr _ himms => hfills hd hzero (by simp) himmr himms
  · exact ensures_bitNumber fun first hfirst => fieldOperand_ensures hfirst
      fun _ himmr _ himms => hfills hd hn (by simp) himmr himms

theorem extension_fills (signed : Bool) (source : ℕ) :
    (extension signed source).Ensures [] (Fills [Formats.extension signed source]) := by
  simp only [extension, ensures_bind, ensures_here, ensures_plainRegister, ensures_ite,
    ensures_malformedAt, ensures_comma, ensures_registerOf, ensures_pure, implies_true, true_and]
  intro _ d hd _ n hn _
  exact .single ((Describes.of _).sfAndN d |>.constant 10 6 (source - 1) |>.rn hn |>.rd hd)
    (by simp [Encoding.imms])

theorem extract_fills : extract.Ensures [] (Fills [Formats.extract]) := by
  simp only [extract, ensures_bind, ensures_plainRegister, ensures_comma, ensures_registerOf]
  intro d hd n hn _ m hm _
  refine ensures_bitNumber fun lowest hlowest => ?_
  have hlowest : lowest < 2 ^ 6 := lt_of_lt_of_le hlowest d.width.bits_le
  exact .single ((Describes.of _).sfAndN d |>.rm hm |>.operand hlowest 10 |>.rn hn |>.rd hd)
    (by simp [Encoding.imms])

/-! ## Bit operations -/

theorem bitOperation_fills (base wideBits : UInt32) (wideOnly : Bool) :
    (bitOperation base wideBits wideOnly).Ensures []
      (Fills [Formats.bitOperation base wideBits]) := by
  simp only [bitOperation, ensures_bind, ensures_here, ensures_plainRegister, ensures_ite,
    ensures_malformedAt, ensures_comma, ensures_registerOf, ensures_pure, implies_true, true_and]
  intro _ d hd _ n hn _
  exact .single ((Describes.of base).choice d.isWide wideBits |>.rn hn |>.rd hd) (by simp)

end InlineA64.Encoder
