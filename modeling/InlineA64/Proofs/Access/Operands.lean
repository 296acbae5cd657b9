import InlineA64.Proofs.Access.Word
import InlineA64.Proofs.Reader.Address
import InlineA64.Encoder.Transfer

/-!
# The operands of accesses

The operands of an access are what is moved and a memory operand. `MemoryOperand.Admitted` tells
which memory operands there is an access of, and `AccessOperands.access?` which access that is.

* `AccessOperands.exists_encoding?_iff`: the operands that are encoded are those that are admitted;
* `AccessOperands.number_of_encoding?`: the word is the number of the access that is written.
-/

namespace InlineA64

/-! ## What is written -/

/-- The number of a modifier in the `option` field. An index without a modifier is a doubleword. -/
def IndexModifier.option : Option IndexModifier → ℕ
  | some uxtw => 0b010
  | some lsl | none => 0b011
  | some sxtw => 0b110
  | some sxtx => 0b111

/-- The width of the index that a modifier takes. -/
def IndexModifier.indexWidth : Option IndexModifier → Width
  | some uxtw | some sxtw => .w32
  | some lsl | some sxtx | none => .x64

namespace MemoryOperand

/-- The base register and the mode that are written with an access of `2 ^ scale` bytes. The scaled
form is taken for an offset that is a whole number of accesses and not negative, and an index is
shifted if the size is written as its amount. -/
def mode? (scale : ℕ) : MemoryOperand → Option (Register × AddressMode)
  | offset n v => some (n, if 0 ≤ v ∧ v % 2 ^ scale = 0 then .scaled v else .unscaled v)
  | preIndexed n v => some (n, .preIndexed v)
  | postIndexed n v => some (n, .postIndexed v)
  | indexed n index modifier amount written =>
    some (n, .indexed index (IndexModifier.option modifier) (written && amount == scale))
  | literal _ => none

/-- There is a load or store of `2 ^ scale` bytes at the operand. -/
def Admitted (scale : ℕ) : MemoryOperand → Prop
  | offset _ v => 0 ≤ v ∧ v < 4096 * 2 ^ scale ∧ v % 2 ^ scale = 0 ∨ -256 ≤ v ∧ v ≤ 255
  | preIndexed _ v | postIndexed _ v => -256 ≤ v ∧ v ≤ 255
  | indexed _ index modifier amount written =>
    index.isStackPointer = false ∧ index.width = IndexModifier.indexWidth modifier ∧
      (written = false ∨ amount = 0 ∨ amount = scale)
  | literal _ => False

/-- There is a prefetch at the operand. -/
def AdmittedForPrefetch : MemoryOperand → Prop
  | preIndexed .. | postIndexed .. => False
  | indexed n index modifier amount written =>
    (indexed n index modifier amount written).Admitted 3 ∧ (modifier = some .lsl → written = true)
  | operand => operand.Admitted 3

/-- The base register has 64 bits, and an amount that is not written is 0. -/
def Settled : MemoryOperand → Prop
  | offset n _ | preIndexed n _ | postIndexed n _ => n.width = .x64
  | indexed n _ _ amount written => n.width = .x64 ∧ (written = false → amount = 0)
  | literal _ => True

end MemoryOperand

/-- The operands of an access of `2 ^ scale` bytes. -/
structure AccessOperands where
  /-- The size, as a power of two. -/
  scale : ℕ
  /-- What is moved. -/
  action : AccessAction
  /-- Where the bytes are. -/
  operand : MemoryOperand
deriving DecidableEq, Repr

namespace AccessOperands

/-- The access that is written, unless it is of a label. -/
def access? (ops : AccessOperands) : Option Access :=
  (ops.operand.mode? ops.scale).map fun (n, mode) => ⟨ops.scale, ops.action, n, mode⟩

/-- There is an access with the operands. -/
def Admitted (ops : AccessOperands) : Prop :=
  match ops.action with
  | .store _ | .load .. => ops.operand.Admitted ops.scale
  | .prefetch _ => ops.operand.AdmittedForPrefetch

/-! ## What is encoded -/

end AccessOperands

/-- The word of an access, all but what is moved. -/
def AddressMode.encoding (base : UInt32) (scale : ℕ) (n : Register) : AddressMode → Encoding
  | scaled v => Encoding.of base |>.option 0x01000000 |>.imm12 (v / 2 ^ scale).toNat |>.rn n
  | unscaled v => Encoding.of base |>.imm9 (Displacement.unscaled.field v) |>.rn n
  | preIndexed v =>
    Encoding.of base |>.option 0xc00 |>.imm9 (Displacement.unscaled.field v) |>.rn n
  | postIndexed v =>
    Encoding.of base |>.option 0x400 |>.imm9 (Displacement.unscaled.field v) |>.rn n
  | indexed m option shifted =>
    Encoding.of base |>.option 0x200800 |>.option (.ofNat (option * 2 ^ 13))
      |>.optionIf shifted 0x1000 |>.rm m |>.rn n

namespace AccessAction

/-- The opcode of an action, without its register. -/
def base : AccessAction → UInt32
  | store _ | load false _ => 0x38000000
  | load true _ => 0x38800000
  | prefetch _ => 0xf8800000

/-- What is moved is put into the word. -/
def fill (scale : ℕ) (e : Encoding) : AccessAction → Encoding
  | store t => e.field 30 2 scale |>.rt t
  | load false t => e.field 30 2 scale |>.option 0x400000 |>.rt t
  | load true t => e.field 30 2 scale |>.option (if t.isWide then 0 else 0x400000) |>.rt t
  | prefetch operation => e.field 0 5 operation

end AccessAction

variable {base : UInt32} {scale : ℕ} {operand : MemoryOperand} {e : Encoding}

theorem unscaled_encode_eq_ok {offset : Int} {imm : ℕ} :
    Displacement.unscaled.encode true offset = .ok imm ↔
      (-256 ≤ offset ∧ offset ≤ 255) ∧ Displacement.unscaled.field offset = imm := by
  have hadmits : Displacement.unscaled.admits offset = true ↔ -256 ≤ offset ∧ offset ≤ 255 := by
    simp [Displacement.admits, Displacement.unscaled]
    omega
  rw [← hadmits, Displacement.encode]
  cases Displacement.unscaled.admits offset <;> simp

theorem scaledOffset_eq_ok {offset : Int} {imm : ℕ} (hle : 0 ≤ offset)
    (hdvd : offset % 2 ^ scale = 0) :
    Immediate.scaledOffset scale offset = .ok imm ↔
      offset < 4096 * 2 ^ scale ∧ (offset / 2 ^ scale).toNat = imm := by
  have hunit : (0 : Int) < 2 ^ scale := Int.pow_pos (by decide)
  simp only [Immediate.scaledOffset, Nat.one_shiftLeft, Nat.cast_pow, Nat.cast_ofNat, hle, hdvd,
    ← Int.ediv_lt_iff_lt_mul hunit]
  split
  · next h => simp_all
  · next h => simp_all

theorem offsetOperand_eq_ok {n : Register} {v : Int} :
    Encoder.accessOperand base scale (.offset n v) = .ok e ↔
      (MemoryOperand.offset n v).Admitted scale ∧
        (if 0 ≤ v ∧ v % 2 ^ scale = 0 then AddressMode.scaled v
          else .unscaled v).encoding base scale n = e := by
  have hunit : (0 : Int) < 2 ^ scale := Int.pow_pos (by decide)
  -- whether the offset is scaled depends on the offset alone, not on what would be in reach
  simp only [Encoder.accessOperand, Encoder.offsetOperand, except_bind_eq_ok,
    MemoryOperand.Admitted, Nat.one_shiftLeft, Bool.and_eq_true, decide_eq_true_eq, beq_iff_eq,
    Nat.cast_pow, Nat.cast_ofNat]
  by_cases hscaled : 0 ≤ v ∧ v % 2 ^ scale = 0
  · obtain ⟨hle, hdvd⟩ := hscaled
    -- an offset in reach of the byte form is in reach of the scaled one
    have hadmitted : 0 ≤ v ∧ v < 4096 * 2 ^ scale ∧ v % 2 ^ scale = 0 ∨ -256 ≤ v ∧ v ≤ 255 ↔
        v < 4096 * 2 ^ scale := by omega
    rw [hadmitted]
    simp [hle, hdvd, except_bind_eq_ok, scaledOffset_eq_ok hle hdvd, pure, Except.pure,
      AddressMode.encoding]
  · have hadmitted : 0 ≤ v ∧ v < 4096 * 2 ^ scale ∧ v % 2 ^ scale = 0 ∨ -256 ≤ v ∧ v ≤ 255 ↔
        -256 ≤ v ∧ v ≤ 255 := by omega
    rw [hadmitted]
    simp only [if_neg hscaled, except_bind_eq_ok]
    simp [unscaled_encode_eq_ok, pure, Except.pure, AddressMode.encoding]

theorem indexOperand_eq_ok {n index : Register} {modifier : Option IndexModifier} {amount : Int}
    {written : Bool} (h : written = false → amount = 0) :
    Encoder.accessOperand base scale (.indexed n index modifier amount written) = .ok e ↔
      (MemoryOperand.indexed n index modifier amount written).Admitted scale ∧
        (AddressMode.indexed index (IndexModifier.option modifier)
          (written && amount == scale)).encoding base scale n = e := by
  have hoption : UInt32.ofNat (IndexModifier.option modifier * 2 ^ 13) =
      IndexModifier.optionField modifier := by
    rcases modifier with _ | _ | _ | _ | _ <;> decide
  have hwidth : index.width = IndexModifier.indexWidth modifier ↔
      index.isWide ≠ modifier.any IndexModifier.takesNarrow := by
    unfold Register.isWide
    rcases modifier with _ | _ | _ | _ | _ <;> cases index.width <;> decide
  simp only [Encoder.accessOperand, Encoder.indexOperand, except_bind_eq_ok,
    MemoryOperand.Admitted, hwidth, AddressMode.encoding, hoption, Bool.and_comm written]
  cases hsp : index.isStackPointer with
  | true => simp
  | false =>
    by_cases hindex : index.isWide = modifier.any IndexModifier.takesNarrow
    · simp [hindex]
    · -- an amount that is not written is 0, so one that is refused is written
      have hrefused : (¬amount = scale ∨ written = false) ∧ ¬amount = 0 ↔
          ¬(written = false ∨ amount = 0 ∨ amount = scale) := by tauto
      by_cases hamount : written = false ∨ amount = 0 ∨ amount = scale
      · simp [hindex, hrefused, hamount, pure, Except.pure]
      · simp [hindex, hrefused, hamount]

/-- A memory operand is encoded if there is an access at it, in the mode that is written. -/
theorem accessOperand_eq_ok (h : operand.Settled) :
    Encoder.accessOperand base scale operand = .ok e ↔ operand.Admitted scale ∧
      ∃ n mode, operand.mode? scale = some (n, mode) ∧ mode.encoding base scale n = e := by
  cases operand with
  | offset n v => simp [offsetOperand_eq_ok, MemoryOperand.mode?]
  | preIndexed n v | postIndexed n v =>
    simp [Encoder.accessOperand, except_bind_eq_ok, unscaled_encode_eq_ok,
      MemoryOperand.Admitted, MemoryOperand.mode?, pure, Except.pure, AddressMode.encoding]
  | indexed n index modifier amount written =>
    simp [indexOperand_eq_ok h.2, MemoryOperand.mode?]
  | literal offset => simp [Encoder.accessOperand, MemoryOperand.Admitted]

/-- The memory operand of a prefetch is encoded if there is a prefetch at it. -/
theorem prefetchOperand_eq_ok (h : operand.Settled) :
    Encoder.prefetchOperand operand = .ok e ↔ operand.AdmittedForPrefetch ∧
      ∃ n mode, operand.mode? 3 = some (n, mode) ∧ mode.encoding 0xf8800000 3 n = e := by
  cases operand with
  | offset n v | literal v => exact accessOperand_eq_ok h
  | preIndexed n v | postIndexed n v =>
    simp [Encoder.prefetchOperand, MemoryOperand.AdmittedForPrefetch]
  | indexed n index modifier amount written =>
    have hamount := h.2
    rw [Encoder.prefetchOperand, MemoryOperand.AdmittedForPrefetch]
    -- the check that stands first leaves an access of a doubleword to be refused for the rest
    split
    · next hrefused =>
      simp only [Bool.or_eq_true, Bool.and_eq_true, beq_iff_eq, bne_iff_ne,
        Bool.not_eq_true'] at hrefused
      have hnot : ¬((MemoryOperand.indexed n index modifier amount written).Admitted 3 ∧
          (modifier = some .lsl → written = true)) := by
        rintro ⟨⟨-, -, hsize⟩, hwritten⟩
        push_cast at hsize
        grind
      simp [hnot]
    · next hrefused =>
      simp only [Bool.or_eq_true, Bool.and_eq_true, beq_iff_eq, bne_iff_ne,
        Bool.not_eq_true', not_or] at hrefused
      have hwritten : modifier = some .lsl → written = true := by grind
      rw [accessOperand_eq_ok h, and_iff_left hwritten]

/-! ## The word -/

namespace MemoryOperand

variable {n : Register} {mode : AddressMode}

theorem exists_mode? (h : operand.Admitted scale) :
    ∃ n mode, operand.mode? scale = some (n, mode) := by
  cases operand with
  | offset | preIndexed | postIndexed | indexed => exact ⟨_, _, rfl⟩
  | literal offset => exact h.elim

theorem admitted_of_prefetch (h : operand.AdmittedForPrefetch) : operand.Admitted 3 := by
  cases operand with
  | offset | literal => exact h
  | preIndexed | postIndexed => exact h.elim
  | indexed => exact h.1

/-- A prefetch moves no base register. -/
theorem movesBase_of_prefetch (h : operand.AdmittedForPrefetch)
    (hmode : operand.mode? 3 = some (n, mode)) : mode.movesBase = false := by
  cases operand with
  | offset n v =>
    cases hmode
    split <;> rfl
  | indexed =>
    cases hmode
    rfl
  | preIndexed | postIndexed | literal => exact h.elim

/-- The mode of an operand that is admitted exists. -/
theorem valid_mode (hvalid : operand.Valid) (h : operand.Admitted scale)
    (hmode : operand.mode? scale = some (n, mode)) : mode.Valid scale := by
  have hunit : (0 : Int) < 2 ^ scale := Int.pow_pos (by decide)
  cases operand with
  | offset n v =>
    cases hmode
    -- a multiple of the unit that is not negative is scaled, and the unscaled mode has the rest
    split
    · next hscaled =>
      refine ⟨hscaled.1, hscaled.2, ?_⟩
      rw [Int.ediv_lt_iff_lt_mul hunit]
      simp only [Admitted] at h
      omega
    · next hscaled =>
      simp only [Admitted] at h
      exact ⟨by omega, by omega⟩
  | preIndexed n v | postIndexed n v =>
    cases hmode
    exact h
  | indexed n index modifier amount written =>
    cases hmode
    obtain ⟨hsp, hwidth, -⟩ := h
    refine ⟨⟨hvalid.2, hsp⟩, ?_, ?_, hwidth.trans ?_⟩
    all_goals rcases modifier with _ | _ | _ | _ | _ <;> decide
  | literal offset => cases hmode

/-- The base register of an operand can be the stack pointer, and has 64 bits. -/
theorem admits_base (hvalid : operand.Valid) (hsettled : operand.Settled)
    (hmode : operand.mode? scale = some (n, mode)) :
    Role.address.Admits n ∧ n.width = .x64 := by
  cases operand with
  | offset | preIndexed | postIndexed =>
    cases hmode
    exact ⟨hvalid, hsettled⟩
  | indexed =>
    cases hmode
    exact ⟨hvalid.1, hsettled.1⟩
  | literal => cases hmode

end MemoryOperand

/-- What a mode adds to the opcode. -/
theorem total_encoding {n : Register} {mode : AddressMode} (h : mode.Valid scale) :
    (mode.encoding base scale n).total = base.toNat + mode.number scale + n.number * 2 ^ 5 := by
  cases mode with
  | scaled v => simp [AddressMode.encoding, AddressMode.number, Encoding.imm12]; omega
  | unscaled v => simp [AddressMode.encoding, AddressMode.number, Encoding.imm9]
  | preIndexed v | postIndexed v =>
    simp [AddressMode.encoding, AddressMode.number, Encoding.imm9]
    omega
  | indexed m option shifted =>
    have hoption : (UInt32.ofNat (option * 2 ^ 13)).toNat = option * 2 ^ 13 := by
      have hlt : option < 8 := h.2.1
      exact UInt32.toNat_ofNat_of_lt (by rw [UInt32.size]; omega)
    simp only [AddressMode.encoding, AddressMode.number, Encoding.total_rn, Encoding.total_rm,
      Encoding.total_optionIf, Encoding.total_option, Encoding.total_of, hoption]
    simp
    omega

namespace AccessAction

theorem total_fill {action : AccessAction} {rest : ℕ} (h : action.Valid scale)
    (he : e.total = action.base.toNat + rest) :
    (action.fill scale e).total =
      0x38000000 + scale * 2 ^ 30 + action.opcode * 2 ^ 22 + rest + action.number := by
  rcases action with t | (_ | _) | operation
  case store => simp [fill, opcode, number, he, AccessAction.base]; omega
  case load.false => simp [fill, opcode, number, he, AccessAction.base]; omega
  case load.true t =>
    cases hwide : t.isWide <;> simp [fill, opcode, number, he, AccessAction.base, hwide] <;> omega
  case prefetch =>
    obtain ⟨rfl, -⟩ := h
    have hbase : (prefetch operation).base.toNat = 0x38000000 + 3 * 2 ^ 30 + 2 * 2 ^ 22 := rfl
    rw [fill, Encoding.total_field, he, hbase, opcode, number, Nat.pow_zero, Nat.mul_one]

end AccessAction

namespace AccessOperands

/-- What is known of operands that have been read. -/
structure Valid (ops : AccessOperands) : Prop where
  scale : ops.scale ≤ 3
  action : ops.action.Valid ops.scale
  operand : ops.operand.Valid
  settled : ops.operand.Settled

/-- What is encoded of the memory operand. -/
def operandEncoding (ops : AccessOperands) : Except Fault Encoding :=
  match ops.action with
  | .store _ | .load .. => Encoder.accessOperand ops.action.base ops.scale ops.operand
  | .prefetch _ => Encoder.prefetchOperand ops.operand

/-- The word for operands, if there is an access with them. -/
def encoding? (ops : AccessOperands) : Option Encoding :=
  ops.operandEncoding.toOption.map (ops.action.fill ops.scale)

variable {ops : AccessOperands}

theorem operandEncoding_eq_ok (h : ops.Valid) :
    ops.operandEncoding = .ok e ↔ ops.Admitted ∧ ∃ n mode,
      ops.operand.mode? ops.scale = some (n, mode) ∧
        mode.encoding ops.action.base ops.scale n = e := by
  obtain ⟨scale, action, operand⟩ := ops
  obtain ⟨-, haction, -, hsettled⟩ := h
  cases action with
  | store t | load signed t => exact accessOperand_eq_ok hsettled
  | prefetch operation =>
    obtain rfl : scale = 3 := haction.1
    exact prefetchOperand_eq_ok hsettled

theorem admitted_operand (h : ops.Valid) (hadmitted : ops.Admitted) :
    ops.operand.Admitted ops.scale := by
  obtain ⟨scale, action, operand⟩ := ops
  cases action with
  | store t | load signed t => exact hadmitted
  | prefetch operation =>
    obtain rfl : scale = 3 := h.action.1
    exact MemoryOperand.admitted_of_prefetch hadmitted

theorem movesBase_of_isPrefetch (h : ops.Valid) (hadmitted : ops.Admitted) {n : Register}
    {mode : AddressMode} (hmode : ops.operand.mode? ops.scale = some (n, mode))
    (hprefetch : ops.action.isPrefetch = true) : mode.movesBase = false := by
  obtain ⟨scale, action, operand⟩ := ops
  cases action with
  | store t | load signed t => cases hprefetch
  | prefetch operation =>
    obtain rfl : scale = 3 := h.action.1
    exact MemoryOperand.movesBase_of_prefetch hadmitted hmode

/-- The operands that are encoded are those that are admitted. -/
theorem exists_encoding?_iff (h : ops.Valid) :
    (∃ e, ops.encoding? = some e) ↔ ops.Admitted := by
  simp only [encoding?, Option.map_eq_some_iff, except_toOption_eq_some, operandEncoding_eq_ok h]
  constructor
  · rintro ⟨-, -, ⟨hadmitted, -⟩, -⟩
    exact hadmitted
  · intro hadmitted
    obtain ⟨n, mode, hmode⟩ := MemoryOperand.exists_mode? (admitted_operand h hadmitted)
    exact ⟨_, _, ⟨hadmitted, n, mode, hmode, rfl⟩, rfl⟩

/-- The access that is encoded. -/
theorem number_of_encoding? (h : ops.Valid) (hencoding : ops.encoding? = some e) :
    ∃ access, ops.access? = some access ∧ access.Valid ∧ e.total = access.number := by
  obtain ⟨e', he', rfl⟩ := Option.map_eq_some_iff.mp hencoding
  obtain ⟨hadmitted, n, mode, hmode, rfl⟩ :=
    (operandEncoding_eq_ok h).mp (except_toOption_eq_some.mp he')
  have hmodeValid : mode.Valid ops.scale :=
    MemoryOperand.valid_mode h.operand (admitted_operand h hadmitted) hmode
  obtain ⟨hn, hwide⟩ := MemoryOperand.admits_base h.operand h.settled hmode
  refine ⟨⟨ops.scale, ops.action, n, mode⟩, by rw [access?, hmode]; rfl, ?_, ?_⟩
  · exact ⟨h.scale, hn, hwide, h.action, hmodeValid, movesBase_of_isPrefetch h hadmitted hmode⟩
  · have htotal : (mode.encoding ops.action.base ops.scale n).total =
        ops.action.base.toNat + (mode.number ops.scale + n.number * 2 ^ 5) := by
      rw [total_encoding hmodeValid, Nat.add_assoc]
    rw [AccessAction.total_fill h.action htotal, ← Nat.add_assoc]
    rfl

end AccessOperands

end InlineA64
