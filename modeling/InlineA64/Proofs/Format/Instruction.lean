import InlineA64.Proofs.Format.Build
import InlineA64.Encoder.Arithmetic
import InlineA64.Encoder.Logical
import InlineA64.Encoder.Bitfield
import InlineA64.Encoder.Conditional
import InlineA64.Encoder.Branch
import InlineA64.Encoder.System
import InlineA64.Encoder.Transfer

/-!
# The formats of each instruction

`Instruction.formats` lists the formats that the words of an instruction can have, one for each form
of its operands. Slots stand in the order in which the encoder fills them.
-/

namespace InlineA64

namespace Formats

/-! ## Arithmetic -/

/-- Three registers of one width. -/
def threeRegister (base : UInt32) : Format :=
  Format.of base |>.sf |>.rm .plain |>.rn .plain |>.rd .plain

/-- The opcode of an addition. -/
def additionOf (base : UInt32) (subtract setsFlags : Bool) : Format :=
  Format.of base |>.optionIf subtract 0x40000000 |>.optionIf setsFlags 0x20000000

/-- The role of a destination next to which the flags may be set: the stack pointer can be written
unless they are. -/
def destinationRole (setsFlags : Bool) : Role :=
  if setsFlags then .plain else .address

/-- Addition of an immediate. -/
def additionImmediate (subtract setsFlags : Bool) : Format :=
  additionOf 0x11000000 subtract setsFlags
    |>.sf |>.choice 0x400000 |>.operand 10 12 |>.rn .address |>.rd (destinationRole setsFlags)

/-- Addition of an extended register. -/
def additionExtended (subtract setsFlags : Bool) : Format :=
  additionOf 0x0b200000 subtract setsFlags
    |>.sf |>.rm .plain |>.operand 13 3 |>.operand 10 3 |>.rn .address
    |>.rd (destinationRole setsFlags)

/-- Addition of a shifted register. -/
def additionShifted (subtract setsFlags : Bool) : Format :=
  additionOf 0x0b000000 subtract setsFlags
    |>.sf |>.operand 22 2 |>.rm .plain |>.operand 10 6 |>.rn .plain |>.rd .plain

/-- Additions, subtractions and comparisons. -/
def addition (subtract setsFlags : Bool) : List Format :=
  [additionImmediate subtract setsFlags, additionExtended subtract setsFlags,
    additionShifted subtract setsFlags]

/-- A destination and a shifted source. -/
def shiftedMove (base : UInt32) : Format :=
  Format.of base |>.sf |>.operand 22 2 |>.rm .plain |>.operand 10 6 |>.rd .plain

/-- A destination and a source. -/
def negateWithCarry (base : UInt32) : Format :=
  Format.of base |>.sf |>.rm .plain |>.rd .plain

/-- A destination, two factors and an addend. -/
def multiplyAdd (base : UInt32) : Format :=
  Format.of base |>.sf |>.rm .plain |>.rt2 |>.rn .plain |>.rd .plain

/-- Three registers of fixed widths. -/
def product (base : UInt32) : Format :=
  Format.of base |>.rm .plain |>.rn .plain |>.rd .plain

/-- A wide destination, two narrow factors, and a wide addend if it accumulates. -/
def wideningMultiply (base : UInt32) (accumulate : Bool) : Format :=
  if accumulate then (product base).rt2 else product base

/-- The address of a label. -/
def labelAddress (base : UInt32) : Format :=
  Format.of base |>.operand 29 2 |>.operand 5 19 |>.rd .plain

/-! ## Bitwise operations and moves -/

/-- A bitwise operation on an immediate. -/
def logicalImmediate (op : LogicalOp) : Format :=
  Format.of 0x12000000 |>.constant 29 2 op.code |>.sf |>.operand 10 13 |>.rn .plain
    |>.rd (destinationRole op.setsFlags)

/-- A bitwise operation on a shifted register. -/
def logicalRegister (op : LogicalOp) (invert : Bool) : Format :=
  Format.of 0x0a000000 |>.constant 29 2 op.code |>.optionIf invert 0x200000 |>.sf |>.operand 22 2
    |>.rm .plain |>.operand 10 6 |>.rn .plain |>.rd .plain

/-- A move of 16 bits into a lane. -/
def laneMove (base : UInt32) : Format :=
  Format.of base |>.sf |>.operand 21 2 |>.operand 5 16 |>.rd .plain

/-- A disjunction of a bitmask with the zero register. -/
def bitmaskMove : Format :=
  Format.of 0x320003e0 |>.sf |>.operand 10 13 |>.rd .address

/-- A move to or from the stack pointer. -/
def stackPointerMove : Format :=
  Format.of 0x11000000 |>.sf |>.rn .address |>.rd .address

/-- A move of another register. -/
def registerMove : Format :=
  Format.of 0x2a0003e0 |>.sf |>.rm .plain |>.rd .plain

/-- The instruction `MOV`. -/
def move : List Format :=
  [laneMove 0x52800000, laneMove 0x12800000, bitmaskMove, stackPointerMove, registerMove]

/-! ## Shifts and bitfields -/

/-- A shift by a register. -/
def shiftByRegister (kind : Shift) : Format :=
  Format.of 0x1ac02000 |>.constant 10 2 kind.code |>.sf |>.rm .plain |>.rn .plain |>.rd .plain

/-- The opcode and the immediates of a shift by an immediate. -/
def shiftFields : Shift → Format
  | .lsl | .lsr => Format.of 0x53000000 |>.operand 16 6 |>.operand 10 6
  | .asr => Format.of 0x13000000 |>.operand 16 6 |>.operand 10 6
  | .ror => Format.of 0x13800000 |>.rm .plain |>.operand 10 6

/-- A shift by an immediate. -/
def shiftByImmediate (kind : Shift) : Format :=
  shiftFields kind |>.sfAndN |>.rn .plain |>.rd .plain

/-- A bitfield move. -/
def bitfield (op : BitfieldOp) : Format :=
  Format.of 0x13000000 |>.constant 29 2 op.code |>.sfAndN |>.operand 16 6 |>.operand 10 6
    |>.rn .plain |>.rd .plain

/-- An extension of the low `source` bits. -/
def extension (signed : Bool) (source : ℕ) : Format :=
  Format.of (if signed then 0x13000000 else 0x53000000)
    |>.sfAndN |>.constant 10 6 (source - 1) |>.rn .plain |>.rd .plain

/-- Extraction from two registers side by side. -/
def extract : Format :=
  Format.of 0x13800000 |>.sfAndN |>.rm .plain |>.operand 10 6 |>.rn .plain |>.rd .plain

/-- A destination and a source. -/
def bitOperation (base wideBits : UInt32) : Format :=
  Format.of base |>.choice wideBits |>.rn .plain |>.rd .plain

/-! ## Conditions -/

/-- A destination, two sources and a condition. -/
def select (base : UInt32) : Format :=
  Format.of base |>.sf |>.rm .plain |>.operand 12 4 |>.rn .plain |>.rd .plain

/-- A destination and a condition. -/
def setOnCondition (base : UInt32) : Format :=
  Format.of base |>.sf |>.operand 12 4 |>.rd .plain

/-- A comparison with a constant or a register, if the condition holds. -/
def conditionalCompare (base : UInt32) : List Format :=
  [Format.of base |>.sf |>.rn .plain |>.option 0x800 |>.operand 16 5 |>.operand 12 4 |>.operand 0 4,
    Format.of base |>.sf |>.rn .plain |>.rm .plain |>.operand 12 4 |>.operand 0 4]

/-! ## Branches and exceptions -/

/-- A branch on a condition. -/
def conditionalBranch : Format :=
  Format.of 0x54000000 |>.operand 5 19 |>.operand 0 4

/-- A branch without a condition. -/
def plainBranch (link : Bool) : Format :=
  Format.of (if link then 0x94000000 else 0x14000000) |>.operand 0 26

/-- Branches with and without a condition. -/
def branch (link : Bool) : List Format :=
  if link then [plainBranch true] else [conditionalBranch, plainBranch false]

/-- A register and a label. -/
def compareBranch (base : UInt32) : Format :=
  Format.of base |>.sf |>.operand 5 19 |>.rd .plain

/-- A register, the number of a bit in it, and a label. -/
def testBranch (base : UInt32) : Format :=
  Format.of base |>.choice 0x80000000 |>.operand 19 5 |>.operand 5 14 |>.rd .plain

/-- A register to branch to. -/
def registerBranch (base : UInt32) : Format :=
  Format.of base |>.rn .plain

/-- A register to branch to and a modifier. -/
def authenticatedBranch (base : UInt32) : Format :=
  Format.of base |>.rn .plain |>.rd .address

/-- A constant of 16 bits. -/
def exception (base : UInt32) : Format :=
  Format.of base |>.operand 5 16

/-- A hint number. -/
def hint : Format :=
  Format.of 0xd503201f |>.operand 5 7

/-- A pointer and a modifier. -/
def authenticate (base : UInt32) : Format :=
  Format.of base |>.rn .address |>.rd .plain

/-- A pointer. -/
def authenticateZero (base : UInt32) : Format :=
  Format.of base |>.rd .plain

/-- A destination, a source and a modifier. -/
def genericAuthentication : Format :=
  Format.of 0x9ac03000 |>.rm .address |>.rn .plain |>.rd .plain

/-! ## System -/

/-- A constant of four bits. -/
def barrier (base : UInt32) : Format :=
  Format.of base |>.operand 8 4

/-- A system register and the register it is moved to or from. -/
def systemRegister (base : UInt32) : Format :=
  Format.of base |>.choice 0x80000 |>.operand 16 3 |>.operand 12 4 |>.operand 8 4 |>.operand 5 3
    |>.rd .plain

/-- A processor state field and a constant. -/
def stateField : Format :=
  Format.of 0xd500401f |>.operand 16 3 |>.operand 8 4 |>.operand 5 3

/-- A system instruction given by its numbers. -/
def system (result : Bool) : Format :=
  Format.of (if result then 0xd5280000 else 0xd5080000)
    |>.operand 16 3 |>.operand 12 4 |>.operand 8 4 |>.operand 5 3 |>.rd .plain

/-- The bits that the operations of a kind of maintenance can set. -/
def maintenanceMask (kind : Maintenance) : UInt32 :=
  (Vocabulary.maintenanceOperations kind).foldl (fun mask entry => mask ||| entry.2) 0

/-- A maintenance operation and its register. -/
def maintenance (kind : Maintenance) : Format :=
  Format.of (Encoder.maintenanceBase kind) |>.choice (maintenanceMask kind) |>.rd .plain

/-! ## Loads and stores -/

/-- The bits that a transfer register can add to the word. -/
def transferMask : TransferRule → UInt32
  | .sized => 0x40000000
  | .signExtended => 0x400000
  | .narrow | .wide => 0

/-- An access at a scaled offset. -/
def scaledAccess (base : UInt32) : Format :=
  Format.of base |>.option 0x01000000 |>.operand 10 12 |>.rn .address

/-- An access at a byte offset. -/
def unscaledAccess (base : UInt32) : Format :=
  Format.of base |>.operand 12 9 |>.rn .address

/-- An access that moves its base register; the mode says when. -/
def movingAccess (base mode : UInt32) : Format :=
  Format.of base |>.option mode |>.operand 12 9 |>.rn .address

/-- An access at an index register. -/
def indexedAccess (base : UInt32) : Format :=
  Format.of base |>.option 0x200800 |>.choice 0xe000 |>.choice 0x1000 |>.rm .plain |>.rn .address

/-- The forms of an access. -/
def access (base : UInt32) : List Format :=
  [scaledAccess base, unscaledAccess base, movingAccess base 0xc00, movingAccess base 0x400,
    indexedAccess base]

/-- A load from a label. -/
def literalLoad (base : UInt32) : Format :=
  Format.of base |>.operand 5 19 |>.rd .plain

/-- A load or store of `2 ^ scale` bytes at one of the forms of an access. -/
def transferAt (scale : ℕ) (load : Bool) (f : Format) : Format :=
  f |>.constant 30 2 scale |>.optionIf load 0x400000 |>.rd .plain

/-- A transfer register and a memory operand. -/
def transfer (scale? : Option ℕ) (load : Bool) : List Format :=
  let scales := match scale? with
    | some scale => [scale]
    | none => [2, 3]
  (literalLoad 0x18000000).choice 0x40000000 ::
    scales.flatMap fun scale => (access 0x38000000).map (transferAt scale load)

/-- A sign-extending load at one of the forms of an access. -/
def signedLoadAt (scale : ℕ) (f : Format) : Format :=
  f |>.constant 30 2 scale |>.choice (transferMask (if scale = 2 then .wide else .signExtended))
    |>.rd .plain

/-- A sign-extending load. -/
def signedLoad (scale : ℕ) : List Format :=
  literalLoad 0x98000000 :: (access 0x38800000).map (signedLoadAt scale)

/-- A transfer register and a base register with a byte offset. -/
def unscaledTransfer (base : UInt32) (rule : TransferRule) : Format :=
  Format.of base |>.choice (transferMask rule) |>.operand 12 9 |>.rn .address |>.rd .plain

/-- Two transfer registers and a memory operand of a mode. -/
def pairTransferAt (base mode : UInt32) : Format :=
  Format.of base |>.option mode |>.choice 0x80000000 |>.operand 15 7 |>.rt2 |>.rn .address
    |>.rd .plain

/-- The mode bits of the memory operands that a pair takes. -/
def pairModes : PairRule → List UInt32
  | .nonTemporal => [0]
  | .indexed | .signedWord => [0x01000000, 0x01800000, 0x00800000]

/-- Two transfer registers and a memory operand. -/
def pairTransfer (base : UInt32) (kind : PairRule) : List Format :=
  (pairModes kind).map (pairTransferAt base)

/-- A transfer register and a base register. -/
def ordered (base : UInt32) (rule : TransferRule) : Format :=
  Format.of base |>.choice (transferMask rule) |>.rn .address |>.rd .plain

/-- A status or operand register, a transfer register and a base register. -/
def exchange (base : UInt32) (rule : TransferRule) : Format :=
  Format.of base |>.choice (transferMask rule) |>.rm .plain |>.rn .address |>.rd .plain

/-- Two transfer registers and a base register. -/
def exclusivePairLoad (base : UInt32) : Format :=
  Format.of base |>.sizeBit |>.rt2 |>.rn .address |>.rd .plain

/-- A status register, two transfer registers and a base register. -/
def exclusivePairStore (base : UInt32) : Format :=
  Format.of base |>.sizeBit |>.rm .plain |>.rt2 |>.rn .address |>.rd .plain

/-- An operand register and a base register. -/
def atomicStore (base : UInt32) (rule : TransferRule) : Format :=
  Format.of base |>.choice (transferMask rule) |>.rm .plain |>.rn .address

/-- The first registers of two pairs and a base register. -/
def compareAndSwapPairs (base : UInt32) : Format :=
  Format.of base |>.sizeBit |>.rm .plain |>.rn .address |>.rd .plain

/-- A transfer register and a base register with an offset in doublewords. -/
def authenticatedLoad (base : UInt32) : Format :=
  Format.of base |>.choice 0x800 |>.operand 22 1 |>.operand 12 9 |>.rn .address |>.rd .plain

/-- A prefetch operation and a memory operand. -/
def prefetch : List Format :=
  (Format.of 0xd8000000 |>.operand 5 19 |>.operand 0 5) ::
    [scaledAccess 0xf8800000, unscaledAccess 0xf8800000, indexedAccess 0xf8800000].map
      (·.operand 0 5)

end Formats

/-- The formats of an instruction. -/
def Instruction.formats : Instruction → List Format
  | threeRegister base => [Formats.threeRegister base]
  | addition subtract setsFlags _ => Formats.addition subtract setsFlags
  | logical op invert _ => [Formats.logicalImmediate op, Formats.logicalRegister op invert]
  | shiftedMove base _ => [Formats.shiftedMove base]
  | negateWithCarry base => [Formats.negateWithCarry base]
  | move => Formats.move
  | wideMove base => [Formats.laneMove base]
  | shift kind => [Formats.shiftByImmediate kind, Formats.shiftByRegister kind]
  | bitfield op _ => [Formats.bitfield op]
  | extension signed source => [Formats.extension signed source]
  | extract => [Formats.extract]
  | multiplyAdd base => [Formats.multiplyAdd base]
  | wideningMultiply base accumulate => [Formats.wideningMultiply base accumulate]
  | multiplyHigh base | checksum base _ => [Formats.product base]
  | select base | selectOpposite base => [Formats.select base]
  | setOnCondition base => [Formats.setOnCondition base]
  | conditionalCompare base => Formats.conditionalCompare base
  | bitOperation base wideBits _ => [Formats.bitOperation base wideBits]
  | address page => [Formats.labelAddress (if page then 0x90000000 else 0x10000000)]
  | branch link => Formats.branch link
  | compareBranch base => [Formats.compareBranch base]
  | testBranch base => [Formats.testBranch base]
  | registerBranch base => [Formats.registerBranch base]
  | authenticatedBranch base => [Formats.authenticatedBranch base]
  | ret => [Formats.registerBranch 0xd65f0000]
  | fixed word => [Format.of word]
  | profilingBarrier => [Format.of 0xd503223f]
  | exception base | debugState base => [Formats.exception base]
  | hint => [Formats.hint]
  | barrier base _ => [Formats.barrier base]
  | clearExclusive => [Formats.barrier 0xd503305f]
  | readSystemRegister => [Formats.systemRegister 0xd5300000]
  | writeSystemRegister => [Formats.stateField, Formats.systemRegister 0xd5100000]
  | system result => [Formats.system result]
  | maintenance kind => [Formats.maintenance kind]
  | authenticate base => [Formats.authenticate base]
  | authenticateZero base => [Formats.authenticateZero base]
  | genericAuthentication => [Formats.genericAuthentication]
  | transfer scale? load => Formats.transfer scale? load
  | signedLoad scale => Formats.signedLoad scale
  | unscaledTransfer base rule => [Formats.unscaledTransfer base rule]
  | pairTransfer base kind => Formats.pairTransfer base kind
  | ordered base rule => [Formats.ordered base rule]
  | exclusiveStore base rule | atomic base rule => [Formats.exchange base rule]
  | exclusivePairLoad base => [Formats.exclusivePairLoad base]
  | exclusivePairStore base => [Formats.exclusivePairStore base]
  | atomicStore base rule => [Formats.atomicStore base rule]
  | compareAndSwapPairs base => [Formats.compareAndSwapPairs base]
  | authenticatedLoad base => [Formats.authenticatedLoad base]
  | prefetch => Formats.prefetch

end InlineA64
