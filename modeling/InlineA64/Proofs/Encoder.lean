import InlineA64.Encoder
import InlineA64.Machine.Basic
import InlineA64.Mnemonic.Table
import InlineA64.Proofs.Encoder.Arithmetic
import InlineA64.Proofs.Encoder.Bitfield
import InlineA64.Proofs.Encoder.Branch
import InlineA64.Proofs.Encoder.Conditional
import InlineA64.Proofs.Encoder.Logical
import InlineA64.Proofs.Encoder.System
import InlineA64.Proofs.Encoder.Transfer
import InlineA64.Proofs.Format.StackPointer

/-!
# Words of instructions

Every encoder fills the formats of its instruction (`Instruction.encoder_ensures`), and the formats
of all mnemonics pass the checks (`Mnemonic.formats_checked`). What the checks are good for then
holds of every word that is assembled. Of the registers written only the second of a pair of
`CASP` has no field of its own.

* `Instruction.register_fields`: number 31 in a register field denotes the register that was
  written, the stack pointer or the zero register.
-/

namespace InlineA64

variable {σ Slot : Type}

namespace Instruction

/-- A register is left without a field: it is the second of a pair whose first has one, and the
instruction works on pairs. -/
def Implied (i : Instruction) (e : Encoding) (r : Register) : Prop :=
  (∃ base, i = compareAndSwapPairs base) ∧ Role.plain.Admits r ∧
    ∃ first ∈ e.registers, Encoder.isPair first r = true

/-- The encoder of an instruction yields encodings of its formats, and loses no register. -/
theorem encoder_ensures (i : Instruction) :
    i.encoder.Ensures [] fun taken e =>
      (∃ f ∈ i.formats, f.Describes e) ∧ ∀ r ∈ taken, r ∈ e.registers ∨ i.Implied e r := by
  have hfills {x : Reader Encoding} (h : x.Ensures [] (Fills i.formats)) :
      x.Ensures [] fun taken e =>
        (∃ f ∈ i.formats, f.Describes e) ∧ ∀ r ∈ taken, r ∈ e.registers ∨ i.Implied e r :=
    h.mono fun _ _ h => ⟨h.describes, fun _ hr => Or.inl (h.registers hr)⟩
  -- all instructions but `CASP` give every register a field
  cases i with
  | threeRegister base => exact hfills (Encoder.threeRegister_fills base)
  | addition subtract setsFlags compare =>
    exact hfills (Encoder.addition_fills subtract setsFlags compare)
  | logical op invert test => exact hfills (Encoder.logical_fills op invert test)
  | shiftedMove base rotate => exact hfills (Encoder.shiftedMove_fills base rotate)
  | negateWithCarry base => exact hfills (Encoder.negateWithCarry_fills base)
  | move => exact hfills Encoder.move_fills
  | wideMove base => exact hfills (Encoder.wideMove_fills base)
  | shift kind => exact hfills (Encoder.shift_fills kind)
  | bitfield op form => exact hfills (Encoder.bitfield_fills op form)
  | extension signed source => exact hfills (Encoder.extension_fills signed source)
  | extract => exact hfills Encoder.extract_fills
  | multiplyAdd base => exact hfills (Encoder.multiplyAdd_fills base)
  | wideningMultiply base accumulate =>
    exact hfills (Encoder.wideningMultiply_fills base accumulate)
  | multiplyHigh base => exact hfills (Encoder.multiplyHigh_fills base)
  | select base => exact hfills (Encoder.select_fills base)
  | selectOpposite base => exact hfills (Encoder.selectOpposite_fills base)
  | setOnCondition base => exact hfills (Encoder.setOnCondition_fills base)
  | conditionalCompare base => exact hfills (Encoder.conditionalCompare_fills base)
  | bitOperation base wideBits wideOnly =>
    exact hfills (Encoder.bitOperation_fills base wideBits wideOnly)
  | checksum base wide => exact hfills (Encoder.checksum_fills base wide)
  | address page => exact hfills (Encoder.address_fills page)
  | branch link => exact hfills (Encoder.branch_fills link)
  | compareBranch base => exact hfills (Encoder.compareBranch_fills base)
  | testBranch base => exact hfills (Encoder.testBranch_fills base)
  | registerBranch base => exact hfills (Encoder.registerBranch_fills base)
  | authenticatedBranch base => exact hfills (Encoder.authenticatedBranch_fills base)
  | ret => exact hfills Encoder.ret_fills
  | fixed word => exact hfills (Fills.single (.of word) (List.nil_subset _))
  | profilingBarrier => exact hfills Encoder.profilingBarrier_fills
  | exception base => exact hfills (Encoder.exception_fills base)
  | debugState base => exact hfills (Encoder.debugState_fills base)
  | hint => exact hfills Encoder.hint_fills
  | barrier base instruction => exact hfills (Encoder.barrier_fills base instruction)
  | clearExclusive => exact hfills Encoder.clearExclusive_fills
  | readSystemRegister => exact hfills Encoder.readSystemRegister_fills
  | writeSystemRegister => exact hfills Encoder.writeSystemRegister_fills
  | system result => exact hfills (Encoder.system_fills result)
  | maintenance kind => exact hfills (Encoder.maintenance_fills kind)
  | authenticate base => exact hfills (Encoder.authenticate_fills base)
  | authenticateZero base => exact hfills (Encoder.authenticateZero_fills base)
  | genericAuthentication => exact hfills Encoder.genericAuthentication_fills
  | transfer scale? load => exact hfills (Encoder.transfer_fills scale? load)
  | signedLoad scale => exact hfills (Encoder.signedLoad_fills scale)
  | unscaledTransfer base rule => exact hfills (Encoder.unscaledTransfer_fills base rule)
  | pairTransfer base kind => exact hfills (Encoder.pairTransfer_fills base kind)
  | ordered base rule => exact hfills (Encoder.ordered_fills base rule)
  | exclusiveStore base rule => exact hfills (Encoder.exclusiveStore_fills base rule)
  | exclusivePairLoad base => exact hfills (Encoder.exclusivePairLoad_fills base)
  | exclusivePairStore base => exact hfills (Encoder.exclusivePairStore_fills base)
  | atomic base rule => exact hfills (Encoder.atomic_fills base rule)
  | atomicStore base rule => exact hfills (Encoder.atomicStore_fills base rule)
  | compareAndSwapPairs base =>
    refine (Encoder.compareAndSwapPairs_describes base).mono fun taken e h => ?_
    exact ⟨⟨_, List.mem_singleton_self _, h.1⟩, fun r hr => (h.2 r hr).imp_right fun himplied =>
      ⟨⟨base, rfl⟩, himplied⟩⟩
  | authenticatedLoad base => exact hfills (Encoder.authenticatedLoad_fills base)
  | prefetch => exact hfills Encoder.prefetch_fills

end Instruction

/-! ## The mnemonic table -/

/-- The formats of a mnemonic pass the checks. -/
def Mnemonic.checked (m : Mnemonic) : Bool :=
  match m.meaning with
  | .instruction i => i.formats.all fun f => f.disjoint && f.rolesAgree
  | .directive _ | .unsupported => true

theorem Mnemonic.all_checked : all.all checked = true := by
  -- a finite table of formats, without any operand in it
  decide +kernel

/-- The slots of every format of a mnemonic are disjoint, and its register slots take the register
that number 31 is there. -/
theorem Mnemonic.formats_checked {m : Mnemonic} (hm : m ∈ all) {i : Instruction}
    (hi : m.meaning = .instruction i) {f : Format} (hf : f ∈ i.formats) :
    f.disjoint = true ∧ f.rolesAgree = true := by
  have hchecked := List.all_eq_true.mp all_checked m hm
  rw [checked, hi] at hchecked
  exact Bool.and_eq_true_iff.mp (List.all_eq_true.mp hchecked f hf)

namespace Instruction

variable {m : Mnemonic} {i : Instruction} {around : Surroundings σ Slot} {r r' : Reading σ}
  {e : Encoding}

/-- In the word of an instruction that is accepted every register field holds the number of the
register that was written for it; the stack pointer is only in fields that read number 31 as the
stack pointer, and the zero register only in fields that read it as the zero register. Every
register written is in such a field, or is the second of a pair and no stack pointer. -/
theorem register_fields (hm : m ∈ Mnemonic.all) (hi : m.meaning = .instruction i)
    (h : i.encoder.run around r = .ok e r') :
    (∀ shift reg, .register shift reg ∈ e.parts →
      slice shift 5 e.word = reg.number ∧
      (reg.isStackPointer = true → readsStackPointer e.word shift = true) ∧
      (reg.zero = true → reg.number = 31 ∧ readsStackPointer e.word shift = false)) ∧
    ∀ reg ∈ i.encoder.registers around r, (∃ shift, .register shift reg ∈ e.parts) ∨
      (∃ base, i = .compareAndSwapPairs base) ∧ reg.isStackPointer = false ∧
        ∃ shift first, .register shift first ∈ e.parts ∧ Encoder.isPair first reg = true := by
  -- the run has filled one of the formats, and that format has passed the checks
  obtain ⟨⟨f, hf, hdescribes⟩, hregisters⟩ := i.encoder_ensures.run h
  rw [List.nil_append] at hregisters
  obtain ⟨hdisjoint, hroles⟩ := Mnemonic.formats_checked hm hi hf
  refine ⟨fun shift reg hpart => ?_, fun reg hreg => ?_⟩
  · obtain ⟨hvalid, hsp, hzero⟩ := hdescribes.readsStackPointer_of_mem hdisjoint hroles hpart
    exact ⟨hdescribes.slice_register hdisjoint hpart, hsp,
      fun h => ⟨hvalid.number_of_zero h, hzero h⟩⟩
  · rcases hregisters reg hreg with hmem | ⟨hbase, hplain, first, hfirst, hpair⟩
    · exact Or.inl (Encoding.mem_registers.mp hmem)
    · obtain ⟨shift, hpart⟩ := Encoding.mem_registers.mp hfirst
      exact Or.inr ⟨hbase, hplain.2, shift, first, hpart, hpair⟩

/-- A store of the zero register to where the stack pointer points. -/
theorem register_fields_store :
    ∃ (e : Encoding) (r' : Reading Machine),
      (transfer none false).encoder.run ⟨Machine.environment, ⟨0, 0, .standard⟩, "STR"⟩
        ⟨.ofString " XZR,[SP]", .ofBase 0, []⟩ = .ok e r' ∧
      .register 5 (.stackPointer .x64) ∈ e.parts ∧ readsStackPointer e.word 5 = true ∧
      .register 0 (.zeroOf .x64) ∈ e.parts ∧ readsStackPointer e.word 0 = false := by
  let e := Encoding.of 0x38000000 |>.option 0x01000000 |>.imm12 0 |>.rn (.stackPointer .x64)
    |>.field 30 2 3 |>.rt (.zeroOf .x64)
  obtain ⟨r', h⟩ : ∃ r', (transfer none false).encoder.run
      ⟨Machine.environment, ⟨0, 0, .standard⟩, "STR"⟩ ⟨.ofString " XZR,[SP]", .ofBase 0, []⟩ =
        .ok e r' := by
    apply run'_eq_some.mp
    decide +kernel
  have hentry : ⟨"STR", .instruction (transfer none false)⟩ ∈ Mnemonic.all := by decide +kernel
  have hbase : .register 5 (.stackPointer .x64) ∈ e.parts := by decide
  have htransfer : .register 0 (.zeroOf .x64) ∈ e.parts := by decide
  obtain ⟨hfields, -⟩ := register_fields hentry rfl h
  exact ⟨e, r', h, hbase, (hfields 5 _ hbase).2.1 rfl, htransfer,
    ((hfields 0 _ htransfer).2.2 rfl).2⟩

end Instruction

end InlineA64
