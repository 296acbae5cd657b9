import InlineA64.Encoding

/-!
# System registers

A system register is named by five numbers. A dozen have names; any can be written as
`S<op0>_<op1>_C<n>_C<m>_<op2>`.
-/

namespace InlineA64

/-- The numbers of a system register. -/
structure SystemRegister where
  /-- The class, 2 or 3. -/
  op0 : Nat
  /-- The first opcode, 0 to 7. -/
  op1 : Nat
  /-- The first control register, 0 to 15. -/
  crn : Nat
  /-- The second control register, 0 to 15. -/
  crm : Nat
  /-- The second opcode, 0 to 7. -/
  op2 : Nat
deriving DecidableEq, Repr

namespace SystemRegister

/-- Add the fields of a system register to an instruction word. -/
def encode (r : SystemRegister) (e : Encoding) : Encoding :=
  e.optionIf (r.op0 == 3) 0x80000
    |>.field 16 3 r.op1
    |>.field 12 4 r.crn
    |>.field 8 4 r.crm
    |>.field 5 3 r.op2

/-- The system registers with names. -/
def named : List (String × SystemRegister) :=
  [("NZCV", ⟨3, 3, 4, 2, 0⟩),
    ("DAIF", ⟨3, 3, 4, 2, 1⟩),
    ("FPCR", ⟨3, 3, 4, 4, 0⟩),
    ("FPSR", ⟨3, 3, 4, 4, 1⟩),
    ("TPIDR_EL0", ⟨3, 3, 13, 0, 2⟩),
    ("TPIDRRO_EL0", ⟨3, 3, 13, 0, 3⟩),
    ("CNTVCT_EL0", ⟨3, 3, 14, 0, 2⟩),
    ("CNTFRQ_EL0", ⟨3, 3, 14, 0, 0⟩),
    ("CTR_EL0", ⟨3, 3, 0, 0, 1⟩),
    ("DCZID_EL0", ⟨3, 3, 0, 0, 7⟩),
    ("MIDR_EL1", ⟨3, 0, 0, 0, 0⟩),
    ("CurrentEL", ⟨3, 0, 4, 2, 2⟩)]

/-! ## Numeric spelling -/

/-- A reader that gives up without a reason, leaving the cursor where it gave up. -/
abbrev Attempt := OptionT (StateM Cursor)

/-- Take the next byte, at the end of the text the byte `0`. -/
def take : Attempt Byte :=
  fun s => (some s.peek, s.advance 1)

/-- Take the next byte, which has to satisfy `p`. -/
def takeIf (p : Byte → Bool) : Attempt Byte := do
  let b ← take
  if p b then pure b else failure

/-- Take a digit; any other byte stays. -/
def digit : Attempt Nat :=
  fun s => match s.peek.digit? 10 with
    | some n => (some n, s.advance 1)
    | none => (none, s)

/-- Take the digit behind a leading 1 of a number up to 15, if there is one that fits. -/
def secondDigit (first : Nat) : Attempt Nat :=
  fun s => match s.peek.digit? 10 with
    | some n => if first = 1 ∧ n ≤ 5 then (some (10 + n), s.advance 1) else (some first, s)
    | none => (some first, s)

/-- Take an underscore and a number from 0 to 7. -/
def opcode : Attempt Nat := do
  let _ ← takeIf (· == '_'.toUInt8)
  let n ← digit
  if n ≤ 7 then pure n else failure

/-- Take an underscore, the letter `C` and a number from 0 to 15. -/
def controlRegister : Attempt Nat := do
  let _ ← takeIf (· == '_'.toUInt8)
  let _ ← takeIf (·.lower == 'c'.toUInt8)
  secondDigit (← digit)

/-- Take a system register in its numeric spelling. -/
def numeric : Attempt SystemRegister := do
  let _ ← takeIf (·.lower == 's'.toUInt8)
  let op0 ← takeIf fun b => b == '2'.toUInt8 || b == '3'.toUInt8
  let op1 ← opcode
  let crn ← controlRegister
  let crm ← controlRegister
  let op2 ← opcode
  if (← get).peek.continuesWord then failure
  else pure ⟨op0.toNat - 0x30, op1, crn, crm, op2⟩

/-- Skip blanks, then take a system register by name or by numbers. -/
def read : Cursor.Scan SystemRegister := do
  match ← modifyGet (·.wholeWord? named) with
  | some r => pure r
  | none =>
    let start := (← get).pos
    match ← modifyGet (numeric.run ·) with
    | some r => pure r
    | none => Cursor.failAt start (.malformed .systemRegister)

end SystemRegister

end InlineA64
