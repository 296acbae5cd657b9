import InlineA64.Register

/-!
# Families of instructions

Instructions that take the same operands and differ in their opcode alone form a family. An
`Instruction` names the family of a mnemonic and the constants that tell the mnemonic from the
others of the family; a `Directive` is a mnemonic that lays out data or steers the assembler.
-/

namespace InlineA64

/-- Directives. -/
inductive Directive where
  /-- Align to a word, or to a larger power of two. -/
  | align
  /-- A byte, or the bytes of a string. -/
  | data
  /-- A byte. -/
  | byte
  /-- Two bytes. -/
  | half
  /-- Four bytes, at the next word. -/
  | word
  /-- Eight bytes. -/
  | quad
  /-- The bytes of a string. -/
  | string
  /-- Set the assembly options. -/
  | options
deriving DecidableEq, Repr

/-- The shifts of a register operand. -/
inductive Shift where
  /-- Left, filling with zeros. -/
  | lsl
  /-- Right, filling with zeros. -/
  | lsr
  /-- Right, filling with the sign. -/
  | asr
  /-- Right, filling with what falls out. -/
  | ror
deriving DecidableEq, Repr

namespace Shift

/-- The number of a shift in the `shift` field. -/
def code : Shift → Nat
  | lsl => 0
  | lsr => 1
  | asr => 2
  | ror => 3

end Shift

/-- The bitwise operations. -/
inductive LogicalOp where
  /-- Conjunction. -/
  | and
  /-- Disjunction. -/
  | or
  /-- Exclusive disjunction. -/
  | xor
  /-- Conjunction that sets the flags. -/
  | ands
deriving DecidableEq, Repr

namespace LogicalOp

/-- The number of an operation in the `opc` field. -/
def code : LogicalOp → Nat
  | and => 0
  | or => 1
  | xor => 2
  | ands => 3

/-- The operation sets the flags. -/
def setsFlags : LogicalOp → Bool
  | ands => true
  | _ => false

end LogicalOp

/-- What a bitfield move does with the other bits of its destination. -/
inductive BitfieldOp where
  /-- Copies of the top bit of the field above it, zeros below. -/
  | signed
  /-- The bits that were there. -/
  | keep
  /-- Zeros. -/
  | unsigned
deriving DecidableEq, Repr

namespace BitfieldOp

/-- The number of a move in the `opc` field. -/
def code : BitfieldOp → Nat
  | signed => 0
  | keep => 1
  | unsigned => 2

end BitfieldOp

/-- How the operands of a bitfield move name the field. -/
inductive FieldSpelling where
  /-- As rotation and end, as in the instruction word. -/
  | raw
  /-- As lowest bit and width, the field going to the lowest bit. -/
  | insert
  /-- As lowest bit and width, the field coming from the lowest bit. -/
  | extract
  /-- Like `insert`, of the zero register. -/
  | clear
deriving DecidableEq, Repr

/-- The system instructions that name an operation on addresses, caches or page tables. -/
inductive Maintenance where
  /-- Page-table walks. -/
  | pageWalk
  /-- Data cache. -/
  | dataCache
  /-- Instruction cache. -/
  | instructionCache
  /-- Look-aside buffers of the page tables. -/
  | lookaside
deriving DecidableEq, Repr

/-- The transfer registers that a load or store takes, and how the width shows in the word. -/
inductive TransferRule where
  /-- Either width; bit 30 is set for `X`. -/
  | sized
  /-- A `W` register only. -/
  | narrow
  /-- Either width; bit 22 is set for `W`. -/
  | signExtended
  /-- An `X` register only. -/
  | wide
deriving DecidableEq, Repr

/-- The kinds of register-pair loads and stores. -/
inductive PairRule where
  /-- With the pre- and post-indexed forms. -/
  | indexed
  /-- The same, loading words into `X` registers. -/
  | signedWord
  /-- With the plain offset form alone. -/
  | nonTemporal
deriving DecidableEq, Repr

/-- Instructions by family. `base` is the opcode with every operand field zero. -/
inductive Instruction where
  /-- Operands `Rd, Rn, Rm`, all of one width. -/
  | threeRegister (base : UInt32)
  /-- Addition and subtraction; a comparison discards the result. -/
  | addition (subtract setsFlags compare : Bool)
  /-- Bitwise operations; `invert` complements the last operand, a test discards the result. -/
  | logical (op : LogicalOp) (invert test : Bool)
  /-- Operands `Rd, Rm` with an optional shift, rotation among them if `rotate`. -/
  | shiftedMove (base : UInt32) (rotate : Bool)
  /-- Operands `Rd, Rm` of one width. -/
  | negateWithCarry (base : UInt32)
  /-- The instruction `MOV`. -/
  | move
  /-- The 16-bit immediate moves. -/
  | wideMove (base : UInt32)
  /-- Shifts by an immediate or by a register. -/
  | shift (kind : Shift)
  /-- Bitfield moves. -/
  | bitfield (op : BitfieldOp) (form : FieldSpelling)
  /-- Sign or zero extension of the low `source` bits. -/
  | extension (signed : Bool) (source : Nat)
  /-- The instruction `EXTR`. -/
  | extract
  /-- Operands `Rd, Rn, Rm, Ra`. -/
  | multiplyAdd (base : UInt32)
  /-- Operands `Xd, Wn, Wm`, with `Xa` behind if it accumulates. -/
  | wideningMultiply (base : UInt32) (accumulate : Bool)
  /-- Operands `Xd, Xn, Xm`. -/
  | multiplyHigh (base : UInt32)
  /-- Operands `Rd, Rn, Rm, condition`. -/
  | select (base : UInt32)
  /-- Operands `Rd, Rn, condition`, short for a select on the opposite condition. -/
  | selectOpposite (base : UInt32)
  /-- Operands `Rd, condition`, short for a select of the zero register. -/
  | setOnCondition (base : UInt32)
  /-- Operands `Rn, Rm or immediate, flags, condition`. -/
  | conditionalCompare (base : UInt32)
  /-- Operands `Rd, Rn`; `wideBits` are set for `X` registers. -/
  | bitOperation (base wideBits : UInt32) (wideOnly : Bool)
  /-- The CRC-32 checksums; `wide` takes an `X` register as data. -/
  | checksum (base : UInt32) (wide : Bool)
  /-- The instruction `ADR`, or `ADRP` for a page. -/
  | address (page : Bool)
  /-- The branches `B`, `B` on a condition, and `BL`. -/
  | branch (link : Bool)
  /-- Operands `Rt, label`. -/
  | compareBranch (base : UInt32)
  /-- Operands `Rt, #bit, label`. -/
  | testBranch (base : UInt32)
  /-- Operands `Xn`. -/
  | registerBranch (base : UInt32)
  /-- Operands `Xn, Xm`, the second being the modifier of an authentication. -/
  | authenticatedBranch (base : UInt32)
  /-- The instruction `RET`. -/
  | ret
  /-- No operands. -/
  | fixed (word : UInt32)
  /-- The instruction `PSB CSYNC`. -/
  | profilingBarrier
  /-- A 16-bit constant. -/
  | exception (base : UInt32)
  /-- A 16-bit constant or nothing. -/
  | debugState (base : UInt32)
  /-- The instruction `HINT`. -/
  | hint
  /-- The barriers; `instruction` is `ISB`. -/
  | barrier (base : UInt32) (instruction : Bool)
  /-- The instruction `CLREX`. -/
  | clearExclusive
  /-- The instruction `MRS`. -/
  | readSystemRegister
  /-- The instruction `MSR`. -/
  | writeSystemRegister
  /-- The instruction `SYS`, or `SYSL` with a result. -/
  | system (result : Bool)
  /-- The instructions `AT`, `DC`, `IC` and `TLBI`. -/
  | maintenance (kind : Maintenance)
  /-- Pointer authentication `Xd, Xn` with a modifier. -/
  | authenticate (base : UInt32)
  /-- Pointer authentication `Xd` without a modifier. -/
  | authenticateZero (base : UInt32)
  /-- The instruction `PACGA`. -/
  | genericAuthentication
  /-- The instructions `LDR` and `STR` and their byte and halfword forms, of `2 ^ scale` bytes;
  without a scale the register gives the size. -/
  | transfer (scale : Option Nat) (load : Bool)
  /-- Sign-extending loads of `2 ^ scale` bytes. -/
  | signedLoad (scale : Nat)
  /-- Loads and stores with a 9-bit byte offset only. -/
  | unscaledTransfer (base : UInt32) (rule : TransferRule)
  /-- Loads and stores of register pairs. -/
  | pairTransfer (base : UInt32) (kind : PairRule)
  /-- Operands `Rt, [Xn]`, ordered or exclusive. -/
  | ordered (base : UInt32) (rule : TransferRule)
  /-- Operands `Ws, Rt, [Xn]`. -/
  | exclusiveStore (base : UInt32) (rule : TransferRule)
  /-- Operands `Rt1, Rt2, [Xn]`. -/
  | exclusivePairLoad (base : UInt32)
  /-- Operands `Ws, Rt1, Rt2, [Xn]`. -/
  | exclusivePairStore (base : UInt32)
  /-- Operands `Rs, Rt, [Xn]`. -/
  | atomic (base : UInt32) (rule : TransferRule)
  /-- Operands `Rs, [Xn]`. -/
  | atomicStore (base : UInt32) (rule : TransferRule)
  /-- Operands `Rs, Rs+1, Rt, Rt+1, [Xn]`. -/
  | compareAndSwapPairs (base : UInt32)
  /-- Loads through an authenticated pointer. -/
  | authenticatedLoad (base : UInt32)
  /-- The instruction `PRFM`. -/
  | prefetch
deriving DecidableEq, Repr

end InlineA64
