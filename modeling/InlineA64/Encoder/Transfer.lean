import InlineA64.Operand.Address
import InlineA64.Encoding

/-!
# Loads and stores

Which forms of memory operand an instruction takes and how an offset is scaled depends on its
family. A fault of the operand points at where the operand starts.
-/

namespace InlineA64.Encoder

open Reader

/-! ## Transfer registers -/

/-- The bits that a transfer register adds to the word, or nothing if the rule refuses it. -/
def transferBits? (rule : TransferRule) (t : Register) : Option UInt32 :=
  match rule with
  | .sized => some (if t.isWide then 0x40000000 else 0)
  | .narrow => if t.isWide then none else some 0
  | .signExtended => some (if t.isWide then 0 else 0x400000)
  | .wide => if t.isWide then some 0 else none

/-- A transfer register with the bits it adds. -/
def transferRegister (rule : TransferRule) : Reader (Register × UInt32) := do
  let start ← here
  let t ← plainRegister
  match transferBits? rule t with
  | some bits => return (t, bits)
  | none => malformedAt start .register

/-! ## Single registers -/

/-- The index register of a memory operand. Its amount, if written, is 0 or the access size, and
only a written access size sets the scaling bit. -/
def indexOperand (scale : Nat) (index : Register) (modifier : Option IndexModifier) (amount : Int)
    (written : Bool) (e : Encoding) : Except Fault Encoding :=
  let narrow := modifier.any IndexModifier.takesNarrow
  if index.isStackPointer || index.isWide == narrow then .error (.malformed .register)
  else
    let scaled := amount == scale && written
    if !scaled && amount != 0 then .error (.outOfRange .indexAmount)
    else .ok (e.option (IndexModifier.optionField modifier) |>.optionIf scaled 0x1000 |>.rm index)

/-- An offset from a base register: the scaled form if it is a whole number of accesses and not
negative, the byte form otherwise. -/
def offsetOperand (base : UInt32) (scale : Nat) (offset : Int) : Except Fault Encoding :=
  if 0 ≤ offset && offset % (1 <<< scale : Nat) == 0 then do
    return Encoding.of base |>.option 0x01000000 |>.imm12 (← Immediate.scaledOffset scale offset)
  else do
    return Encoding.of base |>.imm9 (← Displacement.unscaled.encode true offset)

/-- The memory operand of an access of `2 ^ scale` bytes. `base` is the opcode of the byte form. -/
def accessOperand (base : UInt32) (scale : Nat) : MemoryOperand → Except Fault Encoding
  | .offset n offset => do return (← offsetOperand base scale offset).rn n
  | .preIndexed n offset => do
    return Encoding.of base |>.option 0xc00
      |>.imm9 (← Displacement.unscaled.encode true offset) |>.rn n
  | .postIndexed n offset => do
    return Encoding.of base |>.option 0x400
      |>.imm9 (← Displacement.unscaled.encode true offset) |>.rn n
  | .indexed n index modifier amount written => do
    let e ← indexOperand scale index modifier amount written (Encoding.of base |>.option 0x200800)
    return e.rn n
  | .literal _ => .error (.malformed .noLiteralForm)

/-- A load from a label. -/
def literalLoad (base : UInt32) (start : Mark) (offset : Int) (t : Register) : Reader Encoding := do
  return Encoding.of base |>.imm19 (← reachable start .literal offset) |>.rt t

/-- A transfer register and a memory operand. Only whole registers are loaded from a label. -/
def transfer (scale? : Option Nat) (load : Bool) : Reader Encoding := do
  let start ← here
  let t ← plainRegister
  if scale?.isSome && t.isWide then malformedAt start .register
  else
    let scale := scale?.getD (if t.isWide then 3 else 2)
    comma
    let start ← here
    match ← Reader.address, load && scale?.isNone with
    | .literal offset, true =>
      return (← literalLoad 0x18000000 start offset t).optionIf t.isWide 0x40000000
    | operand, _ =>
      let e ← liftAt start (accessOperand 0x38000000 scale operand)
      return e.field 30 2 scale |>.optionIf load 0x400000 |>.rt t

/-- A sign-extending load. Only words are loaded from a label. -/
def signedLoad (scale : Nat) : Reader Encoding := do
  let (t, bits) ← transferRegister (if scale = 2 then .wide else .signExtended)
  comma
  let start ← here
  match ← Reader.address, scale == 2 with
  | .literal offset, true => literalLoad 0x98000000 start offset t
  | operand, _ =>
    let e ← liftAt start (accessOperand 0x38800000 scale operand)
    return e.field 30 2 scale |>.option bits |>.rt t

/-- A transfer register and a base register with a byte offset. -/
def unscaledTransfer (base : UInt32) (rule : TransferRule) : Reader Encoding := do
  let (t, bits) ← transferRegister rule
  comma
  let start ← here
  match ← Reader.address with
  | .offset n offset =>
    let imm ← liftAt start (Displacement.unscaled.encode true offset)
    return Encoding.of base |>.option bits |>.imm9 imm |>.rn n |>.rt t
  | _ => malformedAt start .addressingMode

/-! ## Pairs -/

/-- The mode bits, base register and offset of the memory operand of a pair. -/
def pairOperand? (kind : PairRule) : MemoryOperand → Option (UInt32 × Register × Int)
  | .offset n offset => some (if kind = .nonTemporal then 0 else 0x01000000, n, offset)
  | .preIndexed n offset => if kind = .nonTemporal then none else some (0x01800000, n, offset)
  | .postIndexed n offset => if kind = .nonTemporal then none else some (0x00800000, n, offset)
  | _ => none

/-- Two transfer registers of one width and a memory operand. -/
def pairTransfer (base : UInt32) (kind : PairRule) : Reader Encoding := do
  let start ← here
  let t1 ← plainRegister
  if kind = .signedWord ∧ !t1.isWide then malformedAt start .register
  else
    comma
    let t2 ← registerOf t1.width
    comma
    let start ← here
    match pairOperand? kind (← Reader.address) with
    | none => malformedAt start .addressingMode
    | some (mode, n, offset) =>
      let doubleword := t1.isWide && kind != .signedWord
      let imm ← liftAt start ((Displacement.pair doubleword).encode true offset)
      return Encoding.of base |>.option mode |>.optionIf doubleword 0x80000000 |>.field 15 7 imm
        |>.rt2 t2 |>.rn n |>.rt t1

/-! ## Ordered and exclusive -/

/-- A transfer register and a base register. -/
def ordered (base : UInt32) (rule : TransferRule) : Reader Encoding := do
  let (t, bits) ← transferRegister rule
  comma
  let n ← plainAddress
  return Encoding.of base |>.option bits |>.rn n |>.rt t

/-- A status register, a transfer register and a base register. -/
def exclusiveStore (base : UInt32) (rule : TransferRule) : Reader Encoding := do
  let s ← narrowRegister
  comma
  let (t, bits) ← transferRegister rule
  comma
  let n ← plainAddress
  return Encoding.of base |>.option bits |>.rs s |>.rn n |>.rt t

/-- Two transfer registers and a base register. -/
def exclusivePairLoad (base : UInt32) : Reader Encoding := do
  let t1 ← plainRegister
  comma
  let t2 ← registerOf t1.width
  comma
  let n ← plainAddress
  return Encoding.of base |>.sizeBit t1 |>.rt2 t2 |>.rn n |>.rt t1

/-- A status register, two transfer registers and a base register. -/
def exclusivePairStore (base : UInt32) : Reader Encoding := do
  let s ← narrowRegister
  comma
  let t1 ← plainRegister
  comma
  let t2 ← registerOf t1.width
  comma
  let n ← plainAddress
  return Encoding.of base |>.sizeBit t1 |>.rs s |>.rt2 t2 |>.rn n |>.rt t1

/-! ## Atomics -/

/-- An operand register, a transfer register and a base register. -/
def atomic (base : UInt32) (rule : TransferRule) : Reader Encoding := do
  let (s, bits) ← transferRegister rule
  comma
  let t ← registerOf s.width
  comma
  let n ← plainAddress
  return Encoding.of base |>.option bits |>.rs s |>.rn n |>.rt t

/-- An operand register and a base register; the base opcode has the zero register for what was in
memory. -/
def atomicStore (base : UInt32) (rule : TransferRule) : Reader Encoding := do
  let (s, bits) ← transferRegister rule
  comma
  let n ← plainAddress
  return Encoding.of base |>.option bits |>.rs s |>.rn n

/-- Two registers that make a pair: an even number and the next, of one width. -/
def isPair (a b : Register) : Bool :=
  a.number % 2 == 0 && b.number == a.number + 1 && a.width == b.width

/-- Two pairs of registers and a base register. The pairs are checked when all has been read. -/
def compareAndSwapPairs (base : UInt32) : Reader Encoding := do
  let start ← here
  let s1 ← plainRegister
  comma
  let s2 ← plainRegister
  comma
  let t1 ← plainRegister
  comma
  let t2 ← plainRegister
  comma
  let n ← plainAddress
  if isPair s1 s2 && isPair t1 t2 && s1.width == t1.width then
    return Encoding.of base |>.sizeBit s1 |>.rs s1 |>.rn n |>.rt t1
  else malformedAt start .registerPairs

/-! ## Authenticated loads -/

/-- The base register and offset of an authenticated load, and whether the base is moved. -/
def authenticatedOperand? : MemoryOperand → Option (Register × Int × Bool)
  | .offset n offset => some (n, offset, false)
  | .preIndexed n offset => some (n, offset, true)
  | _ => none

/-- A transfer register and a memory operand whose offset counts doublewords. -/
def authenticatedLoad (base : UInt32) : Reader Encoding := do
  let t ← wideRegister
  comma
  let start ← here
  match authenticatedOperand? (← Reader.address) with
  | none => malformedAt start .addressingMode
  | some (n, offset, writeBack) =>
    let imm ← liftAt start (Displacement.authenticated.encode true offset)
    return Encoding.of base |>.optionIf writeBack 0x800 |>.field 22 1 (imm / 512)
      |>.imm9 (imm % 512) |>.rn n |>.rt t

/-! ## Prefetch -/

/-- A prefetch operation: a constant of five bits, or three keywords run together. -/
def prefetchOperation : Reader Nat := do
  if ← sees .hash then constant 31 .prefetchOperation
  else
    let start ← here
    let kind? ← keyword .prefetchKinds
    let cache? ← keyword .prefetchCaches
    let policy? ← keyword .prefetchPolicies
    match kind?, cache?, policy? with
    | some kind, some cache, some policy => return kind * 8 + cache * 2 + policy
    | _, _, _ => malformedAt start .prefetch

/-- The memory operand of a prefetch. Its index is shifted by 0 or 3, and a left shift is written
with its amount. -/
def prefetchOperand : MemoryOperand → Except Fault Encoding
  | .preIndexed .. | .postIndexed .. => .error (.malformed .addressingMode)
  | .indexed n index modifier amount written =>
    if (modifier == some .lsl && !written) || (amount != 0 && amount != 3) then
      .error (.outOfRange .prefetchAmount)
    else accessOperand 0xf8800000 3 (.indexed n index modifier amount written)
  | operand => accessOperand 0xf8800000 3 operand

/-- A prefetch operation and a memory operand. -/
def prefetch : Reader Encoding := do
  let operation ← prefetchOperation
  comma
  let start ← here
  match ← Reader.address with
  | .literal offset =>
    let imm ← reachable start .literal offset
    return Encoding.of 0xd8000000 |>.imm19 imm |>.field 0 5 operation
  | operand =>
    let e ← liftAt start (prefetchOperand operand)
    return e.field 0 5 operation

end InlineA64.Encoder
