import InlineA64.Instruction.Family

/-!
# Mnemonics

A `Mnemonic` is a spelling and what it stands for.
-/

namespace InlineA64

/-- What a mnemonic stands for. -/
inductive Meaning where
  /-- A directive. -/
  | directive (d : Directive)
  /-- An instruction of the general-purpose set. -/
  | instruction (i : Instruction)
  /-- An instruction of the floating-point, vector or cryptographic sets, which is recognised but
  not encoded. -/
  | unsupported
deriving DecidableEq, Repr

/-- An entry of the mnemonic table. -/
structure Mnemonic where
  /-- The spelling, in capitals for instructions and in small letters for directives. -/
  name : String
  /-- What it stands for. -/
  meaning : Meaning
deriving DecidableEq, Repr

end InlineA64
