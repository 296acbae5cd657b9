import InlineA64.Mnemonic.Basic

/-!
# Mnemonics from `S` to `Z`

The part of the mnemonic table for these initial letters, a list for each letter, in order.
-/

namespace InlineA64.Mnemonic

/-- The mnemonics that start with `S`. -/
def letterS : List Mnemonic :=
  [⟨"SABA", .unsupported⟩,
    ⟨"SABAL", .unsupported⟩,
    ⟨"SABAL2", .unsupported⟩,
    ⟨"SABD", .unsupported⟩,
    ⟨"SABDL", .unsupported⟩,
    ⟨"SABDL2", .unsupported⟩,
    ⟨"SADALP", .unsupported⟩,
    ⟨"SADDL", .unsupported⟩,
    ⟨"SADDL2", .unsupported⟩,
    ⟨"SADDLP", .unsupported⟩,
    ⟨"SADDLV", .unsupported⟩,
    ⟨"SADDW", .unsupported⟩,
    ⟨"SADDW2", .unsupported⟩,
    ⟨"SBC", .instruction (.threeRegister 0x5a000000)⟩,
    ⟨"SBCS", .instruction (.threeRegister 0x7a000000)⟩,
    ⟨"SBFIZ", .instruction (.bitfield .signed .insert)⟩,
    ⟨"SBFM", .instruction (.bitfield .signed .raw)⟩,
    ⟨"SBFX", .instruction (.bitfield .signed .extract)⟩,
    ⟨"SCVTF", .unsupported⟩,
    ⟨"SDIV", .instruction (.threeRegister 0x1ac00c00)⟩,
    ⟨"SDOT", .unsupported⟩,
    ⟨"SEV", .instruction (.fixed 0xd503209f)⟩,
    ⟨"SEVL", .instruction (.fixed 0xd50320bf)⟩,
    ⟨"SHA1C", .unsupported⟩,
    ⟨"SHA1H", .unsupported⟩,
    ⟨"SHA1M", .unsupported⟩,
    ⟨"SHA1P", .unsupported⟩,
    ⟨"SHA1SU0", .unsupported⟩,
    ⟨"SHA1SU1", .unsupported⟩,
    ⟨"SHA256H", .unsupported⟩,
    ⟨"SHA256H2", .unsupported⟩,
    ⟨"SHA256SU0", .unsupported⟩,
    ⟨"SHA256SU1", .unsupported⟩,
    ⟨"SHA512H", .unsupported⟩,
    ⟨"SHA512H2", .unsupported⟩,
    ⟨"SHA512SU0", .unsupported⟩,
    ⟨"SHA512SU1", .unsupported⟩,
    ⟨"SHADD", .unsupported⟩,
    ⟨"SHL", .unsupported⟩,
    ⟨"SHLL", .unsupported⟩,
    ⟨"SHLL2", .unsupported⟩,
    ⟨"SHRN", .unsupported⟩,
    ⟨"SHRN2", .unsupported⟩,
    ⟨"SHSUB", .unsupported⟩,
    ⟨"SLI", .unsupported⟩,
    ⟨"SM3PARTW1", .unsupported⟩,
    ⟨"SM3PARTW2", .unsupported⟩,
    ⟨"SM3SS1", .unsupported⟩,
    ⟨"SM3TT1A", .unsupported⟩,
    ⟨"SM3TT1B", .unsupported⟩,
    ⟨"SM3TT2A", .unsupported⟩,
    ⟨"SM3TT2B", .unsupported⟩,
    ⟨"SM4E", .unsupported⟩,
    ⟨"SM4EKEY", .unsupported⟩,
    ⟨"SMADDL", .instruction (.wideningMultiply 0x9b200000 true)⟩,
    ⟨"SMAX", .unsupported⟩,
    ⟨"SMAXP", .unsupported⟩,
    ⟨"SMAXV", .unsupported⟩,
    ⟨"SMC", .instruction (.exception 0xd4000003)⟩,
    ⟨"SMIN", .unsupported⟩,
    ⟨"SMINP", .unsupported⟩,
    ⟨"SMINV", .unsupported⟩,
    ⟨"SMLAL", .unsupported⟩,
    ⟨"SMLAL2", .unsupported⟩,
    ⟨"SMLSL", .unsupported⟩,
    ⟨"SMLSL2", .unsupported⟩,
    ⟨"SMNEGL", .instruction (.wideningMultiply 0x9b20fc00 false)⟩,
    ⟨"SMOV", .unsupported⟩,
    ⟨"SMSUBL", .instruction (.wideningMultiply 0x9b208000 true)⟩,
    ⟨"SMULH", .instruction (.multiplyHigh 0x9b407c00)⟩,
    ⟨"SMULL", .instruction (.wideningMultiply 0x9b207c00 false)⟩,
    ⟨"SMULL2", .unsupported⟩,
    ⟨"SQABS", .unsupported⟩,
    ⟨"SQADD", .unsupported⟩,
    ⟨"SQDMLAL", .unsupported⟩,
    ⟨"SQDMLAL2", .unsupported⟩,
    ⟨"SQDMLSL", .unsupported⟩,
    ⟨"SQDMLSL2", .unsupported⟩,
    ⟨"SQDMULH", .unsupported⟩,
    ⟨"SQDMULL", .unsupported⟩,
    ⟨"SQDMULL2", .unsupported⟩,
    ⟨"SQNEG", .unsupported⟩,
    ⟨"SQRDMLAH", .unsupported⟩,
    ⟨"SQRDMLSH", .unsupported⟩,
    ⟨"SQRDMULH", .unsupported⟩,
    ⟨"SQRSHL", .unsupported⟩,
    ⟨"SQRSHRN", .unsupported⟩,
    ⟨"SQRSHRN2", .unsupported⟩,
    ⟨"SQRSHRUN", .unsupported⟩,
    ⟨"SQRSHRUN2", .unsupported⟩,
    ⟨"SQSHL", .unsupported⟩,
    ⟨"SQSHLU", .unsupported⟩,
    ⟨"SQSHRN", .unsupported⟩,
    ⟨"SQSHRN2", .unsupported⟩,
    ⟨"SQSHRUN", .unsupported⟩,
    ⟨"SQSHRUN2", .unsupported⟩,
    ⟨"SQSUB", .unsupported⟩,
    ⟨"SQXTN", .unsupported⟩,
    ⟨"SQXTN2", .unsupported⟩,
    ⟨"SQXTUN", .unsupported⟩,
    ⟨"SQXTUN2", .unsupported⟩,
    ⟨"SRHADD", .unsupported⟩,
    ⟨"SRI", .unsupported⟩,
    ⟨"SRSHL", .unsupported⟩,
    ⟨"SRSHR", .unsupported⟩,
    ⟨"SRSRA", .unsupported⟩,
    ⟨"SSHL", .unsupported⟩,
    ⟨"SSHLL", .unsupported⟩,
    ⟨"SSHLL2", .unsupported⟩,
    ⟨"SSHR", .unsupported⟩,
    ⟨"SSRA", .unsupported⟩,
    ⟨"SSUBL", .unsupported⟩,
    ⟨"SSUBL2", .unsupported⟩,
    ⟨"SSUBW", .unsupported⟩,
    ⟨"SSUBW2", .unsupported⟩,
    ⟨"ST1", .unsupported⟩,
    ⟨"ST2", .unsupported⟩,
    ⟨"ST3", .unsupported⟩,
    ⟨"ST4", .unsupported⟩,
    ⟨"STADD", .instruction (.atomicStore 0xb820001f .sized)⟩,
    ⟨"STADDB", .instruction (.atomicStore 0x3820001f .narrow)⟩,
    ⟨"STADDH", .instruction (.atomicStore 0x7820001f .narrow)⟩,
    ⟨"STADDL", .instruction (.atomicStore 0xb860001f .sized)⟩,
    ⟨"STADDLB", .instruction (.atomicStore 0x3860001f .narrow)⟩,
    ⟨"STADDLH", .instruction (.atomicStore 0x7860001f .narrow)⟩,
    ⟨"STCLR", .instruction (.atomicStore 0xb820101f .sized)⟩,
    ⟨"STCLRB", .instruction (.atomicStore 0x3820101f .narrow)⟩,
    ⟨"STCLRH", .instruction (.atomicStore 0x7820101f .narrow)⟩,
    ⟨"STCLRL", .instruction (.atomicStore 0xb860101f .sized)⟩,
    ⟨"STCLRLB", .instruction (.atomicStore 0x3860101f .narrow)⟩,
    ⟨"STCLRLH", .instruction (.atomicStore 0x7860101f .narrow)⟩,
    ⟨"STEOR", .instruction (.atomicStore 0xb820201f .sized)⟩,
    ⟨"STEORB", .instruction (.atomicStore 0x3820201f .narrow)⟩,
    ⟨"STEORH", .instruction (.atomicStore 0x7820201f .narrow)⟩,
    ⟨"STEORL", .instruction (.atomicStore 0xb860201f .sized)⟩,
    ⟨"STEORLB", .instruction (.atomicStore 0x3860201f .narrow)⟩,
    ⟨"STEORLH", .instruction (.atomicStore 0x7860201f .narrow)⟩,
    ⟨"STLLR", .instruction (.ordered 0x889f7c00 .sized)⟩,
    ⟨"STLLRB", .instruction (.ordered 0x089f7c00 .narrow)⟩,
    ⟨"STLLRH", .instruction (.ordered 0x489f7c00 .narrow)⟩,
    ⟨"STLR", .instruction (.ordered 0x889ffc00 .sized)⟩,
    ⟨"STLRB", .instruction (.ordered 0x089ffc00 .narrow)⟩,
    ⟨"STLRH", .instruction (.ordered 0x489ffc00 .narrow)⟩,
    ⟨"STLXP", .instruction (.exclusivePairStore 0x88208000)⟩,
    ⟨"STLXR", .instruction (.exclusiveStore 0x8800fc00 .sized)⟩,
    ⟨"STLXRB", .instruction (.exclusiveStore 0x0800fc00 .narrow)⟩,
    ⟨"STLXRH", .instruction (.exclusiveStore 0x4800fc00 .narrow)⟩,
    ⟨"STNP", .instruction (.pairTransfer 0x28000000 .nonTemporal)⟩,
    ⟨"STP", .instruction (.pairTransfer 0x28000000 .indexed)⟩,
    ⟨"STR", .instruction (.transfer none false)⟩,
    ⟨"STRB", .instruction (.transfer (some 0) false)⟩,
    ⟨"STRH", .instruction (.transfer (some 1) false)⟩,
    ⟨"STSET", .instruction (.atomicStore 0xb820301f .sized)⟩,
    ⟨"STSETB", .instruction (.atomicStore 0x3820301f .narrow)⟩,
    ⟨"STSETH", .instruction (.atomicStore 0x7820301f .narrow)⟩,
    ⟨"STSETL", .instruction (.atomicStore 0xb860301f .sized)⟩,
    ⟨"STSETLB", .instruction (.atomicStore 0x3860301f .narrow)⟩,
    ⟨"STSETLH", .instruction (.atomicStore 0x7860301f .narrow)⟩,
    ⟨"STSMAX", .instruction (.atomicStore 0xb820401f .sized)⟩,
    ⟨"STSMAXB", .instruction (.atomicStore 0x3820401f .narrow)⟩,
    ⟨"STSMAXH", .instruction (.atomicStore 0x7820401f .narrow)⟩,
    ⟨"STSMAXL", .instruction (.atomicStore 0xb860401f .sized)⟩,
    ⟨"STSMAXLB", .instruction (.atomicStore 0x3860401f .narrow)⟩,
    ⟨"STSMAXLH", .instruction (.atomicStore 0x7860401f .narrow)⟩,
    ⟨"STSMIN", .instruction (.atomicStore 0xb820501f .sized)⟩,
    ⟨"STSMINB", .instruction (.atomicStore 0x3820501f .narrow)⟩,
    ⟨"STSMINH", .instruction (.atomicStore 0x7820501f .narrow)⟩,
    ⟨"STSMINL", .instruction (.atomicStore 0xb860501f .sized)⟩,
    ⟨"STSMINLB", .instruction (.atomicStore 0x3860501f .narrow)⟩,
    ⟨"STSMINLH", .instruction (.atomicStore 0x7860501f .narrow)⟩,
    ⟨"STTR", .instruction (.unscaledTransfer 0xb8000800 .sized)⟩,
    ⟨"STTRB", .instruction (.unscaledTransfer 0x38000800 .narrow)⟩,
    ⟨"STTRH", .instruction (.unscaledTransfer 0x78000800 .narrow)⟩,
    ⟨"STUMAX", .instruction (.atomicStore 0xb820601f .sized)⟩,
    ⟨"STUMAXB", .instruction (.atomicStore 0x3820601f .narrow)⟩,
    ⟨"STUMAXH", .instruction (.atomicStore 0x7820601f .narrow)⟩,
    ⟨"STUMAXL", .instruction (.atomicStore 0xb860601f .sized)⟩,
    ⟨"STUMAXLB", .instruction (.atomicStore 0x3860601f .narrow)⟩,
    ⟨"STUMAXLH", .instruction (.atomicStore 0x7860601f .narrow)⟩,
    ⟨"STUMIN", .instruction (.atomicStore 0xb820701f .sized)⟩,
    ⟨"STUMINB", .instruction (.atomicStore 0x3820701f .narrow)⟩,
    ⟨"STUMINH", .instruction (.atomicStore 0x7820701f .narrow)⟩,
    ⟨"STUMINL", .instruction (.atomicStore 0xb860701f .sized)⟩,
    ⟨"STUMINLB", .instruction (.atomicStore 0x3860701f .narrow)⟩,
    ⟨"STUMINLH", .instruction (.atomicStore 0x7860701f .narrow)⟩,
    ⟨"STUR", .instruction (.unscaledTransfer 0xb8000000 .sized)⟩,
    ⟨"STURB", .instruction (.unscaledTransfer 0x38000000 .narrow)⟩,
    ⟨"STURH", .instruction (.unscaledTransfer 0x78000000 .narrow)⟩,
    ⟨"STXP", .instruction (.exclusivePairStore 0x88200000)⟩,
    ⟨"STXR", .instruction (.exclusiveStore 0x88007c00 .sized)⟩,
    ⟨"STXRB", .instruction (.exclusiveStore 0x08007c00 .narrow)⟩,
    ⟨"STXRH", .instruction (.exclusiveStore 0x48007c00 .narrow)⟩,
    ⟨"SUB", .instruction (.addition true false false)⟩,
    ⟨"SUBHN", .unsupported⟩,
    ⟨"SUBHN2", .unsupported⟩,
    ⟨"SUBS", .instruction (.addition true true false)⟩,
    ⟨"SUQADD", .unsupported⟩,
    ⟨"SVC", .instruction (.exception 0xd4000001)⟩,
    ⟨"SWP", .instruction (.atomic 0xb8208000 .sized)⟩,
    ⟨"SWPA", .instruction (.atomic 0xb8a08000 .sized)⟩,
    ⟨"SWPAB", .instruction (.atomic 0x38a08000 .narrow)⟩,
    ⟨"SWPAH", .instruction (.atomic 0x78a08000 .narrow)⟩,
    ⟨"SWPAL", .instruction (.atomic 0xb8e08000 .sized)⟩,
    ⟨"SWPALB", .instruction (.atomic 0x38e08000 .narrow)⟩,
    ⟨"SWPALH", .instruction (.atomic 0x78e08000 .narrow)⟩,
    ⟨"SWPB", .instruction (.atomic 0x38208000 .narrow)⟩,
    ⟨"SWPH", .instruction (.atomic 0x78208000 .narrow)⟩,
    ⟨"SWPL", .instruction (.atomic 0xb8608000 .sized)⟩,
    ⟨"SWPLB", .instruction (.atomic 0x38608000 .narrow)⟩,
    ⟨"SWPLH", .instruction (.atomic 0x78608000 .narrow)⟩,
    ⟨"SXTB", .instruction (.extension true 8)⟩,
    ⟨"SXTH", .instruction (.extension true 16)⟩,
    ⟨"SXTL", .unsupported⟩,
    ⟨"SXTL2", .unsupported⟩,
    ⟨"SXTW", .instruction (.extension true 32)⟩,
    ⟨"SYS", .instruction (.system false)⟩,
    ⟨"SYSL", .instruction (.system true)⟩]

/-- The mnemonics that start with `T`. -/
def letterT : List Mnemonic :=
  [⟨"TBL", .unsupported⟩,
    ⟨"TBNZ", .instruction (.testBranch 0x37000000)⟩,
    ⟨"TBX", .unsupported⟩,
    ⟨"TBZ", .instruction (.testBranch 0x36000000)⟩,
    ⟨"TLBI", .instruction (.maintenance .lookaside)⟩,
    ⟨"TRN1", .unsupported⟩,
    ⟨"TRN2", .unsupported⟩,
    ⟨"TST", .instruction (.logical .ands false true)⟩]

/-- The mnemonics that start with `U`. -/
def letterU : List Mnemonic :=
  [⟨"UABA", .unsupported⟩,
    ⟨"UABAL", .unsupported⟩,
    ⟨"UABAL2", .unsupported⟩,
    ⟨"UABD", .unsupported⟩,
    ⟨"UABDL", .unsupported⟩,
    ⟨"UABDL2", .unsupported⟩,
    ⟨"UADALP", .unsupported⟩,
    ⟨"UADDL", .unsupported⟩,
    ⟨"UADDL2", .unsupported⟩,
    ⟨"UADDLP", .unsupported⟩,
    ⟨"UADDLV", .unsupported⟩,
    ⟨"UADDW", .unsupported⟩,
    ⟨"UADDW2", .unsupported⟩,
    ⟨"UBFIZ", .instruction (.bitfield .unsigned .insert)⟩,
    ⟨"UBFM", .instruction (.bitfield .unsigned .raw)⟩,
    ⟨"UBFX", .instruction (.bitfield .unsigned .extract)⟩,
    ⟨"UCVTF", .unsupported⟩,
    ⟨"UDIV", .instruction (.threeRegister 0x1ac00800)⟩,
    ⟨"UDOT", .unsupported⟩,
    ⟨"UHADD", .unsupported⟩,
    ⟨"UHSUB", .unsupported⟩,
    ⟨"UMADDL", .instruction (.wideningMultiply 0x9ba00000 true)⟩,
    ⟨"UMAX", .unsupported⟩,
    ⟨"UMAXP", .unsupported⟩,
    ⟨"UMAXV", .unsupported⟩,
    ⟨"UMIN", .unsupported⟩,
    ⟨"UMINP", .unsupported⟩,
    ⟨"UMINV", .unsupported⟩,
    ⟨"UMLAL", .unsupported⟩,
    ⟨"UMLAL2", .unsupported⟩,
    ⟨"UMLSL", .unsupported⟩,
    ⟨"UMLSL2", .unsupported⟩,
    ⟨"UMNEGL", .instruction (.wideningMultiply 0x9ba0fc00 false)⟩,
    ⟨"UMOV", .unsupported⟩,
    ⟨"UMSUBL", .instruction (.wideningMultiply 0x9ba08000 true)⟩,
    ⟨"UMULH", .instruction (.multiplyHigh 0x9bc07c00)⟩,
    ⟨"UMULL", .instruction (.wideningMultiply 0x9ba07c00 false)⟩,
    ⟨"UMULL2", .unsupported⟩,
    ⟨"UQADD", .unsupported⟩,
    ⟨"UQRSHL", .unsupported⟩,
    ⟨"UQRSHRN", .unsupported⟩,
    ⟨"UQRSHRN2", .unsupported⟩,
    ⟨"UQSHL", .unsupported⟩,
    ⟨"UQSHRN", .unsupported⟩,
    ⟨"UQSHRN2", .unsupported⟩,
    ⟨"UQSUB", .unsupported⟩,
    ⟨"UQXTN", .unsupported⟩,
    ⟨"UQXTN2", .unsupported⟩,
    ⟨"URECPE", .unsupported⟩,
    ⟨"URHADD", .unsupported⟩,
    ⟨"URSHL", .unsupported⟩,
    ⟨"URSHR", .unsupported⟩,
    ⟨"URSQRTE", .unsupported⟩,
    ⟨"URSRA", .unsupported⟩,
    ⟨"USHL", .unsupported⟩,
    ⟨"USHLL", .unsupported⟩,
    ⟨"USHLL2", .unsupported⟩,
    ⟨"USHR", .unsupported⟩,
    ⟨"USQADD", .unsupported⟩,
    ⟨"USRA", .unsupported⟩,
    ⟨"USUBL", .unsupported⟩,
    ⟨"USUBL2", .unsupported⟩,
    ⟨"USUBW", .unsupported⟩,
    ⟨"USUBW2", .unsupported⟩,
    ⟨"UXTB", .instruction (.extension false 8)⟩,
    ⟨"UXTH", .instruction (.extension false 16)⟩,
    ⟨"UXTL", .unsupported⟩,
    ⟨"UXTL2", .unsupported⟩,
    ⟨"UXTW", .instruction (.extension false 32)⟩,
    ⟨"UZP1", .unsupported⟩,
    ⟨"UZP2", .unsupported⟩]

/-- The mnemonics that start with `W`. -/
def letterW : List Mnemonic :=
  [⟨"WFE", .instruction (.fixed 0xd503205f)⟩,
    ⟨"WFI", .instruction (.fixed 0xd503207f)⟩]

/-- The mnemonics that start with `X`. -/
def letterX : List Mnemonic :=
  [⟨"XAR", .unsupported⟩,
    ⟨"XPACD", .instruction (.authenticateZero 0xdac147e0)⟩,
    ⟨"XPACI", .instruction (.authenticateZero 0xdac143e0)⟩,
    ⟨"XPACLRI", .instruction (.fixed 0xd50320ff)⟩,
    ⟨"XTN", .unsupported⟩,
    ⟨"XTN2", .unsupported⟩]

/-- The mnemonics that start with `Y`. -/
def letterY : List Mnemonic :=
  [⟨"YIELD", .instruction (.fixed 0xd503203f)⟩]

/-- The mnemonics that start with `Z`. -/
def letterZ : List Mnemonic :=
  [⟨"ZIP1", .unsupported⟩,
    ⟨"ZIP2", .unsupported⟩]

end InlineA64.Mnemonic
