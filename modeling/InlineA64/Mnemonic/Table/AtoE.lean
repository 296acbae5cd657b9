import InlineA64.Mnemonic.Basic

/-!
# Mnemonics from `A` to `E`

The part of the mnemonic table for these initial letters, a list for each letter, in order.
-/

namespace InlineA64.Mnemonic

/-- The mnemonics that start with `A`. -/
def letterA : List Mnemonic :=
  [⟨"ABS", .unsupported⟩,
    ⟨"ADC", .instruction (.threeRegister 0x1a000000)⟩,
    ⟨"ADCS", .instruction (.threeRegister 0x3a000000)⟩,
    ⟨"ADD", .instruction (.addition false false false)⟩,
    ⟨"ADDHN", .unsupported⟩,
    ⟨"ADDHN2", .unsupported⟩,
    ⟨"ADDP", .unsupported⟩,
    ⟨"ADDS", .instruction (.addition false true false)⟩,
    ⟨"ADDV", .unsupported⟩,
    ⟨"ADR", .instruction (.address false)⟩,
    ⟨"ADRP", .instruction (.address true)⟩,
    ⟨"AESD", .unsupported⟩,
    ⟨"AESE", .unsupported⟩,
    ⟨"AESIMC", .unsupported⟩,
    ⟨"AESMC", .unsupported⟩,
    ⟨"align", .directive .align⟩,
    ⟨"AND", .instruction (.logical .and false false)⟩,
    ⟨"ANDS", .instruction (.logical .ands false false)⟩,
    ⟨"ASR", .instruction (.shift .asr)⟩,
    ⟨"ASRV", .instruction (.threeRegister 0x1ac02800)⟩,
    ⟨"AT", .instruction (.maintenance .pageWalk)⟩,
    ⟨"AUTDA", .instruction (.authenticate 0xdac11800)⟩,
    ⟨"AUTDB", .instruction (.authenticate 0xdac11c00)⟩,
    ⟨"AUTDZA", .instruction (.authenticateZero 0xdac13be0)⟩,
    ⟨"AUTDZB", .instruction (.authenticateZero 0xdac13fe0)⟩,
    ⟨"AUTIA", .instruction (.authenticate 0xdac11000)⟩,
    ⟨"AUTIA1716", .instruction (.fixed 0xd503219f)⟩,
    ⟨"AUTIASP", .instruction (.fixed 0xd50323bf)⟩,
    ⟨"AUTIAZ", .instruction (.fixed 0xd503239f)⟩,
    ⟨"AUTIB", .instruction (.authenticate 0xdac11400)⟩,
    ⟨"AUTIB1716", .instruction (.fixed 0xd50321df)⟩,
    ⟨"AUTIBSP", .instruction (.fixed 0xd50323ff)⟩,
    ⟨"AUTIBZ", .instruction (.fixed 0xd50323df)⟩,
    ⟨"AUTIZA", .instruction (.authenticateZero 0xdac133e0)⟩,
    ⟨"AUTIZB", .instruction (.authenticateZero 0xdac137e0)⟩]

/-- The mnemonics that start with `B`. -/
def letterB : List Mnemonic :=
  [⟨"B", .instruction (.branch false)⟩,
    ⟨"BCAX", .unsupported⟩,
    ⟨"BFC", .instruction (.bitfield .keep .clear)⟩,
    ⟨"BFI", .instruction (.bitfield .keep .insert)⟩,
    ⟨"BFM", .instruction (.bitfield .keep .raw)⟩,
    ⟨"BFXIL", .instruction (.bitfield .keep .extract)⟩,
    ⟨"BIC", .instruction (.logical .and true false)⟩,
    ⟨"BICS", .instruction (.logical .ands true false)⟩,
    ⟨"BIF", .unsupported⟩,
    ⟨"BIT", .unsupported⟩,
    ⟨"BL", .instruction (.branch true)⟩,
    ⟨"BLR", .instruction (.registerBranch 0xd63f0000)⟩,
    ⟨"BLRAA", .instruction (.authenticatedBranch 0xd73f0800)⟩,
    ⟨"BLRAAZ", .instruction (.registerBranch 0xd63f081f)⟩,
    ⟨"BLRAB", .instruction (.authenticatedBranch 0xd73f0c00)⟩,
    ⟨"BLRABZ", .instruction (.registerBranch 0xd63f0c1f)⟩,
    ⟨"BR", .instruction (.registerBranch 0xd61f0000)⟩,
    ⟨"BRAA", .instruction (.authenticatedBranch 0xd71f0800)⟩,
    ⟨"BRAAZ", .instruction (.registerBranch 0xd61f081f)⟩,
    ⟨"BRAB", .instruction (.authenticatedBranch 0xd71f0c00)⟩,
    ⟨"BRABZ", .instruction (.registerBranch 0xd61f0c1f)⟩,
    ⟨"BRK", .instruction (.exception 0xd4200000)⟩,
    ⟨"BSL", .unsupported⟩]

/-- The mnemonics that start with `C`. -/
def letterC : List Mnemonic :=
  [⟨"CAS", .instruction (.atomic 0x88a07c00 .sized)⟩,
    ⟨"CASA", .instruction (.atomic 0x88e07c00 .sized)⟩,
    ⟨"CASAB", .instruction (.atomic 0x08e07c00 .narrow)⟩,
    ⟨"CASAH", .instruction (.atomic 0x48e07c00 .narrow)⟩,
    ⟨"CASAL", .instruction (.atomic 0x88e0fc00 .sized)⟩,
    ⟨"CASALB", .instruction (.atomic 0x08e0fc00 .narrow)⟩,
    ⟨"CASALH", .instruction (.atomic 0x48e0fc00 .narrow)⟩,
    ⟨"CASB", .instruction (.atomic 0x08a07c00 .narrow)⟩,
    ⟨"CASH", .instruction (.atomic 0x48a07c00 .narrow)⟩,
    ⟨"CASL", .instruction (.atomic 0x88a0fc00 .sized)⟩,
    ⟨"CASLB", .instruction (.atomic 0x08a0fc00 .narrow)⟩,
    ⟨"CASLH", .instruction (.atomic 0x48a0fc00 .narrow)⟩,
    ⟨"CASP", .instruction (.compareAndSwapPairs 0x08207c00)⟩,
    ⟨"CASPA", .instruction (.compareAndSwapPairs 0x08607c00)⟩,
    ⟨"CASPAL", .instruction (.compareAndSwapPairs 0x0860fc00)⟩,
    ⟨"CASPL", .instruction (.compareAndSwapPairs 0x0820fc00)⟩,
    ⟨"CBNZ", .instruction (.compareBranch 0x35000000)⟩,
    ⟨"CBZ", .instruction (.compareBranch 0x34000000)⟩,
    ⟨"CCMN", .instruction (.conditionalCompare 0x3a400000)⟩,
    ⟨"CCMP", .instruction (.conditionalCompare 0x7a400000)⟩,
    ⟨"CINC", .instruction (.selectOpposite 0x1a800400)⟩,
    ⟨"CINV", .instruction (.selectOpposite 0x5a800000)⟩,
    ⟨"CLREX", .instruction .clearExclusive⟩,
    ⟨"CLS", .instruction (.bitOperation 0x5ac01400 0x80000000 false)⟩,
    ⟨"CLZ", .instruction (.bitOperation 0x5ac01000 0x80000000 false)⟩,
    ⟨"CMEQ", .unsupported⟩,
    ⟨"CMGE", .unsupported⟩,
    ⟨"CMGT", .unsupported⟩,
    ⟨"CMHI", .unsupported⟩,
    ⟨"CMHS", .unsupported⟩,
    ⟨"CMLE", .unsupported⟩,
    ⟨"CMLT", .unsupported⟩,
    ⟨"CMN", .instruction (.addition false true true)⟩,
    ⟨"CMP", .instruction (.addition true true true)⟩,
    ⟨"CMTST", .unsupported⟩,
    ⟨"CNEG", .instruction (.selectOpposite 0x5a800400)⟩,
    ⟨"CNT", .unsupported⟩,
    ⟨"CRC32B", .instruction (.checksum 0x1ac04000 false)⟩,
    ⟨"CRC32CB", .instruction (.checksum 0x1ac05000 false)⟩,
    ⟨"CRC32CH", .instruction (.checksum 0x1ac05400 false)⟩,
    ⟨"CRC32CW", .instruction (.checksum 0x1ac05800 false)⟩,
    ⟨"CRC32CX", .instruction (.checksum 0x9ac05c00 true)⟩,
    ⟨"CRC32H", .instruction (.checksum 0x1ac04400 false)⟩,
    ⟨"CRC32W", .instruction (.checksum 0x1ac04800 false)⟩,
    ⟨"CRC32X", .instruction (.checksum 0x9ac04c00 true)⟩,
    ⟨"CSEL", .instruction (.select 0x1a800000)⟩,
    ⟨"CSET", .instruction (.setOnCondition 0x1a9f07e0)⟩,
    ⟨"CSETM", .instruction (.setOnCondition 0x5a9f03e0)⟩,
    ⟨"CSINC", .instruction (.select 0x1a800400)⟩,
    ⟨"CSINV", .instruction (.select 0x5a800000)⟩,
    ⟨"CSNEG", .instruction (.select 0x5a800400)⟩]

/-- The mnemonics that start with `D`. -/
def letterD : List Mnemonic :=
  [⟨"db", .directive .data⟩,
    ⟨"DC", .instruction (.maintenance .dataCache)⟩,
    ⟨"dcb", .directive .byte⟩,
    ⟨"dcd", .directive .word⟩,
    ⟨"DCPS1", .instruction (.debugState 0xd4a00001)⟩,
    ⟨"DCPS2", .instruction (.debugState 0xd4a00002)⟩,
    ⟨"DCPS3", .instruction (.debugState 0xd4a00003)⟩,
    ⟨"dcs", .directive .string⟩,
    ⟨"dcw", .directive .half⟩,
    ⟨"DMB", .instruction (.barrier 0xd50330bf false)⟩,
    ⟨"DRPS", .instruction (.fixed 0xd6bf03e0)⟩,
    ⟨"DSB", .instruction (.barrier 0xd503309f false)⟩,
    ⟨"DUP", .unsupported⟩]

/-- The mnemonics that start with `E`. -/
def letterE : List Mnemonic :=
  [⟨"EON", .instruction (.logical .xor true false)⟩,
    ⟨"EOR", .instruction (.logical .xor false false)⟩,
    ⟨"EOR3", .unsupported⟩,
    ⟨"equb", .directive .byte⟩,
    ⟨"equd", .directive .word⟩,
    ⟨"equq", .directive .quad⟩,
    ⟨"equs", .directive .string⟩,
    ⟨"equw", .directive .half⟩,
    ⟨"ERET", .instruction (.fixed 0xd69f03e0)⟩,
    ⟨"ERETAA", .instruction (.fixed 0xd69f0bff)⟩,
    ⟨"ERETAB", .instruction (.fixed 0xd69f0fff)⟩,
    ⟨"ESB", .instruction (.fixed 0xd503221f)⟩,
    ⟨"EXT", .unsupported⟩,
    ⟨"EXTR", .instruction .extract⟩]

end InlineA64.Mnemonic
