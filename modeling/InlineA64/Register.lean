import InlineA64.Text.Cursor

/-!
# General-purpose registers

Register number 31 is the stack pointer or the zero register, depending on how it was written; the
two are different operands although instruction words number them alike.
-/

namespace InlineA64

/-- The width of a general-purpose register. -/
inductive Width where
  /-- The `W` registers. -/
  | w32
  /-- The `X` registers. -/
  | x64
deriving DecidableEq, Repr

namespace Width

/-- The number of bits in a register. -/
def bits : Width → Nat
  | w32 => 32
  | x64 => 64

end Width

/-- A register operand. -/
structure Register where
  /-- The register number; 31 for the stack pointer and the zero register. -/
  number : Nat
  /-- The width. -/
  width : Width
  /-- The register was written as the zero register. -/
  zero : Bool
deriving DecidableEq, Repr

namespace Register

/-- The `X` register of a number. -/
def x (n : Nat) : Register := ⟨n, .x64, false⟩

/-- The `W` register of a number. -/
def w (n : Nat) : Register := ⟨n, .w32, false⟩

/-- The zero register of a width. -/
def zeroOf (width : Width) : Register := ⟨31, width, true⟩

/-- The stack pointer of a width. -/
def stackPointer (width : Width) : Register := ⟨31, width, false⟩

/-- The link register. -/
def link : Register := x 30

/-- The register is the stack pointer. -/
def isStackPointer (r : Register) : Bool :=
  r.number == 31 && !r.zero

/-- The register is 64 bits wide. -/
def isWide (r : Register) : Bool :=
  r.width == .x64

/-- The number of bits in the register. -/
def bits (r : Register) : Nat :=
  r.width.bits

/-- The spelling in capitals, which `scan?` reads back. -/
def name (r : Register) : String :=
  match r.number, r.width, r.zero with
  | 31, .x64, true => "XZR"
  | 31, .w32, true => "WZR"
  | 31, .x64, false => "SP"
  | 31, .w32, false => "WSP"
  | n, .x64, _ => "X" ++ toString n
  | n, .w32, _ => "W" ++ toString n

/-- The registers with names of their own. -/
def named : List (String × Register) :=
  [("LR", link), ("SP", stackPointer .x64), ("WSP", stackPointer .w32),
    ("XZR", zeroOf .x64), ("WZR", zeroOf .w32)]

/-- The width that a letter stands for in a register name. -/
def widthOfLetter? (b : Byte) : Option Width :=
  if b.lower == 'x'.toUInt8 then some .x64
  else if b.lower == 'w'.toUInt8 then some .w32
  else none

/-- The numbered register at the cursor: a width letter and one or two digits, at most 30. -/
def numbered? (s : Cursor) : Option (Register × Cursor) := do
  let width ← widthOfLetter? s.peek
  let tens ← (s.ahead 1).digit? 10
  let (number, length) :=
    match (s.ahead 2).digit? 10 with
    | some ones => (tens * 10 + ones, 3)
    | none => (tens, 2)
  if number ≤ 30 then some (⟨number, width, false⟩, s.advance length) else none

/-- The register at the cursor, and the cursor past it. -/
def scan? (s : Cursor) : Option (Register × Cursor) :=
  match named.find? (s.startsWith ·.1) with
  | some (name, r) => some (r, s.advance name.utf8ByteSize)
  | none => numbered? s

/-- Skip blanks, then take a register. -/
def read : Cursor.Scan Register := do
  modify Cursor.skipBlanks
  match scan? (← get) with
  | some (r, s) => set s; pure r
  | none => Cursor.fail (.malformed .register)

/-- The letters that start the names of floating-point and vector registers. -/
def vectorLetters : List Byte :=
  bytesOf "bhsdqv"

/-- The text at the cursor looks like a floating-point or vector register. -/
def looksVector (s : Cursor) : Bool :=
  vectorLetters.contains s.peek.lower && (s.ahead 1).isDigit

end Register

end InlineA64
