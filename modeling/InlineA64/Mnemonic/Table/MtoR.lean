import InlineA64.Mnemonic.Basic

/-!
# Mnemonics from `M` to `R`

The part of the mnemonic table for these initial letters, a list for each letter, in order.
-/

namespace InlineA64.Mnemonic

/-- The mnemonics that start with `M`. -/
def letterM : List Mnemonic :=
  [⟨"MADD", .instruction (.multiplyAdd 0x1b000000)⟩,
    ⟨"MLA", .unsupported⟩,
    ⟨"MLS", .unsupported⟩,
    ⟨"MNEG", .instruction (.threeRegister 0x1b00fc00)⟩,
    ⟨"MOV", .instruction .move⟩,
    ⟨"MOVI", .unsupported⟩,
    ⟨"MOVK", .instruction (.wideMove 0x72800000)⟩,
    ⟨"MOVN", .instruction (.wideMove 0x12800000)⟩,
    ⟨"MOVZ", .instruction (.wideMove 0x52800000)⟩,
    ⟨"MRS", .instruction .readSystemRegister⟩,
    ⟨"MSR", .instruction .writeSystemRegister⟩,
    ⟨"MSUB", .instruction (.multiplyAdd 0x1b008000)⟩,
    ⟨"MUL", .instruction (.threeRegister 0x1b007c00)⟩,
    ⟨"MVN", .instruction (.shiftedMove 0x2a2003e0 true)⟩,
    ⟨"MVNI", .unsupported⟩]

/-- The mnemonics that start with `N`. -/
def letterN : List Mnemonic :=
  [⟨"NEG", .instruction (.shiftedMove 0x4b0003e0 false)⟩,
    ⟨"NEGS", .instruction (.shiftedMove 0x6b0003e0 false)⟩,
    ⟨"NGC", .instruction (.negateWithCarry 0x5a0003e0)⟩,
    ⟨"NGCS", .instruction (.negateWithCarry 0x7a0003e0)⟩,
    ⟨"NOP", .instruction (.fixed 0xd503201f)⟩,
    ⟨"NOT", .unsupported⟩]

/-- The mnemonics that start with `O`. -/
def letterO : List Mnemonic :=
  [⟨"opt", .directive .options⟩,
    ⟨"ORN", .instruction (.logical .or true false)⟩,
    ⟨"ORR", .instruction (.logical .or false false)⟩]

/-- The mnemonics that start with `P`. -/
def letterP : List Mnemonic :=
  [⟨"PACDA", .instruction (.authenticate 0xdac10800)⟩,
    ⟨"PACDB", .instruction (.authenticate 0xdac10c00)⟩,
    ⟨"PACDZA", .instruction (.authenticateZero 0xdac12be0)⟩,
    ⟨"PACDZB", .instruction (.authenticateZero 0xdac12fe0)⟩,
    ⟨"PACGA", .instruction .genericAuthentication⟩,
    ⟨"PACIA", .instruction (.authenticate 0xdac10000)⟩,
    ⟨"PACIA1716", .instruction (.fixed 0xd503211f)⟩,
    ⟨"PACIASP", .instruction (.fixed 0xd503233f)⟩,
    ⟨"PACIAZ", .instruction (.fixed 0xd503231f)⟩,
    ⟨"PACIB", .instruction (.authenticate 0xdac10400)⟩,
    ⟨"PACIB1716", .instruction (.fixed 0xd503215f)⟩,
    ⟨"PACIBSP", .instruction (.fixed 0xd503237f)⟩,
    ⟨"PACIBZ", .instruction (.fixed 0xd503235f)⟩,
    ⟨"PACIZA", .instruction (.authenticateZero 0xdac123e0)⟩,
    ⟨"PACIZB", .instruction (.authenticateZero 0xdac127e0)⟩,
    ⟨"PMUL", .unsupported⟩,
    ⟨"PMULL", .unsupported⟩,
    ⟨"PMULL2", .unsupported⟩,
    ⟨"PRFM", .instruction .prefetch⟩,
    ⟨"PSB", .instruction .profilingBarrier⟩,
    ⟨"PSBCSYNC", .instruction (.fixed 0xd503223f)⟩]

/-- The mnemonics that start with `R`. -/
def letterR : List Mnemonic :=
  [⟨"RADDHN", .unsupported⟩,
    ⟨"RADDHN2", .unsupported⟩,
    ⟨"RAX1", .unsupported⟩,
    ⟨"RBIT", .instruction (.bitOperation 0x5ac00000 0x80000000 false)⟩,
    ⟨"RET", .instruction .ret⟩,
    ⟨"RETAA", .instruction (.fixed 0xd65f0bff)⟩,
    ⟨"RETAB", .instruction (.fixed 0xd65f0fff)⟩,
    ⟨"REV", .instruction (.bitOperation 0x5ac00800 0x80000400 false)⟩,
    ⟨"REV16", .instruction (.bitOperation 0x5ac00400 0x80000000 false)⟩,
    ⟨"REV32", .instruction (.bitOperation 0xdac00800 0x00000000 true)⟩,
    ⟨"REV64", .instruction (.bitOperation 0xdac00c00 0x00000000 true)⟩,
    ⟨"ROR", .instruction (.shift .ror)⟩,
    ⟨"RORV", .instruction (.threeRegister 0x1ac02c00)⟩,
    ⟨"RSHRN", .unsupported⟩,
    ⟨"RSHRN2", .unsupported⟩,
    ⟨"RSUBHN", .unsupported⟩,
    ⟨"RSUBHN2", .unsupported⟩]

end InlineA64.Mnemonic
