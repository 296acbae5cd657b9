import InlineA64.Mnemonic.Basic

/-!
# Mnemonics from `F` to `L`

The part of the mnemonic table for these initial letters, a list for each letter, in order.
-/

namespace InlineA64.Mnemonic

/-- The mnemonics that start with `F`. -/
def letterF : List Mnemonic :=
  [⟨"FABD", .unsupported⟩,
    ⟨"FABS", .unsupported⟩,
    ⟨"FACGE", .unsupported⟩,
    ⟨"FACGT", .unsupported⟩,
    ⟨"FADD", .unsupported⟩,
    ⟨"FADDP", .unsupported⟩,
    ⟨"FCADD", .unsupported⟩,
    ⟨"FCCMP", .unsupported⟩,
    ⟨"FCCMPE", .unsupported⟩,
    ⟨"FCMEQ", .unsupported⟩,
    ⟨"FCMGE", .unsupported⟩,
    ⟨"FCMGT", .unsupported⟩,
    ⟨"FCMLA", .unsupported⟩,
    ⟨"FCMLE", .unsupported⟩,
    ⟨"FCMLT", .unsupported⟩,
    ⟨"FCMP", .unsupported⟩,
    ⟨"FCMPE", .unsupported⟩,
    ⟨"FCSEL", .unsupported⟩,
    ⟨"FCVT", .unsupported⟩,
    ⟨"FCVTAS", .unsupported⟩,
    ⟨"FCVTAU", .unsupported⟩,
    ⟨"FCVTL", .unsupported⟩,
    ⟨"FCVTL2", .unsupported⟩,
    ⟨"FCVTMS", .unsupported⟩,
    ⟨"FCVTMU", .unsupported⟩,
    ⟨"FCVTN", .unsupported⟩,
    ⟨"FCVTN2", .unsupported⟩,
    ⟨"FCVTNS", .unsupported⟩,
    ⟨"FCVTNU", .unsupported⟩,
    ⟨"FCVTPS", .unsupported⟩,
    ⟨"FCVTPU", .unsupported⟩,
    ⟨"FCVTXN", .unsupported⟩,
    ⟨"FCVTXN2", .unsupported⟩,
    ⟨"FCVTZS", .unsupported⟩,
    ⟨"FCVTZU", .unsupported⟩,
    ⟨"FDIV", .unsupported⟩,
    ⟨"FJCVTZS", .unsupported⟩,
    ⟨"FMADD", .unsupported⟩,
    ⟨"FMAX", .unsupported⟩,
    ⟨"FMAXNM", .unsupported⟩,
    ⟨"FMAXNMP", .unsupported⟩,
    ⟨"FMAXNMV", .unsupported⟩,
    ⟨"FMAXP", .unsupported⟩,
    ⟨"FMAXV", .unsupported⟩,
    ⟨"FMIN", .unsupported⟩,
    ⟨"FMINNM", .unsupported⟩,
    ⟨"FMINNMP", .unsupported⟩,
    ⟨"FMINNMV", .unsupported⟩,
    ⟨"FMINP", .unsupported⟩,
    ⟨"FMINV", .unsupported⟩,
    ⟨"FMLA", .unsupported⟩,
    ⟨"FMLAL", .unsupported⟩,
    ⟨"FMLAL2", .unsupported⟩,
    ⟨"FMLS", .unsupported⟩,
    ⟨"FMLSL", .unsupported⟩,
    ⟨"FMLSL2", .unsupported⟩,
    ⟨"FMOV", .unsupported⟩,
    ⟨"FMSUB", .unsupported⟩,
    ⟨"FMUL", .unsupported⟩,
    ⟨"FMULX", .unsupported⟩,
    ⟨"FNEG", .unsupported⟩,
    ⟨"FNMADD", .unsupported⟩,
    ⟨"FNMSUB", .unsupported⟩,
    ⟨"FNMUL", .unsupported⟩,
    ⟨"FRECPE", .unsupported⟩,
    ⟨"FRECPS", .unsupported⟩,
    ⟨"FRECPX", .unsupported⟩,
    ⟨"FRINTA", .unsupported⟩,
    ⟨"FRINTI", .unsupported⟩,
    ⟨"FRINTM", .unsupported⟩,
    ⟨"FRINTN", .unsupported⟩,
    ⟨"FRINTP", .unsupported⟩,
    ⟨"FRINTX", .unsupported⟩,
    ⟨"FRINTZ", .unsupported⟩,
    ⟨"FRSQRTE", .unsupported⟩,
    ⟨"FRSQRTS", .unsupported⟩,
    ⟨"FSQRT", .unsupported⟩,
    ⟨"FSUB", .unsupported⟩]

/-- The mnemonics that start with `H`. -/
def letterH : List Mnemonic :=
  [⟨"HINT", .instruction .hint⟩,
    ⟨"HLT", .instruction (.exception 0xd4400000)⟩,
    ⟨"HVC", .instruction (.exception 0xd4000002)⟩]

/-- The mnemonics that start with `I`. -/
def letterI : List Mnemonic :=
  [⟨"IC", .instruction (.maintenance .instructionCache)⟩,
    ⟨"INS", .unsupported⟩,
    ⟨"ISB", .instruction (.barrier 0xd50330df true)⟩]

/-- The mnemonics that start with `L`. -/
def letterL : List Mnemonic :=
  [⟨"LD1", .unsupported⟩,
    ⟨"LD1R", .unsupported⟩,
    ⟨"LD2", .unsupported⟩,
    ⟨"LD2R", .unsupported⟩,
    ⟨"LD3", .unsupported⟩,
    ⟨"LD3R", .unsupported⟩,
    ⟨"LD4", .unsupported⟩,
    ⟨"LD4R", .unsupported⟩,
    ⟨"LDADD", .instruction (.atomic 0xb8200000 .sized)⟩,
    ⟨"LDADDA", .instruction (.atomic 0xb8a00000 .sized)⟩,
    ⟨"LDADDAB", .instruction (.atomic 0x38a00000 .narrow)⟩,
    ⟨"LDADDAH", .instruction (.atomic 0x78a00000 .narrow)⟩,
    ⟨"LDADDAL", .instruction (.atomic 0xb8e00000 .sized)⟩,
    ⟨"LDADDALB", .instruction (.atomic 0x38e00000 .narrow)⟩,
    ⟨"LDADDALH", .instruction (.atomic 0x78e00000 .narrow)⟩,
    ⟨"LDADDB", .instruction (.atomic 0x38200000 .narrow)⟩,
    ⟨"LDADDH", .instruction (.atomic 0x78200000 .narrow)⟩,
    ⟨"LDADDL", .instruction (.atomic 0xb8600000 .sized)⟩,
    ⟨"LDADDLB", .instruction (.atomic 0x38600000 .narrow)⟩,
    ⟨"LDADDLH", .instruction (.atomic 0x78600000 .narrow)⟩,
    ⟨"LDAPR", .instruction (.ordered 0xb8bfc000 .sized)⟩,
    ⟨"LDAPRB", .instruction (.ordered 0x38bfc000 .narrow)⟩,
    ⟨"LDAPRH", .instruction (.ordered 0x78bfc000 .narrow)⟩,
    ⟨"LDAR", .instruction (.ordered 0x88dffc00 .sized)⟩,
    ⟨"LDARB", .instruction (.ordered 0x08dffc00 .narrow)⟩,
    ⟨"LDARH", .instruction (.ordered 0x48dffc00 .narrow)⟩,
    ⟨"LDAXP", .instruction (.exclusivePairLoad 0x887f8000)⟩,
    ⟨"LDAXR", .instruction (.ordered 0x885ffc00 .sized)⟩,
    ⟨"LDAXRB", .instruction (.ordered 0x085ffc00 .narrow)⟩,
    ⟨"LDAXRH", .instruction (.ordered 0x485ffc00 .narrow)⟩,
    ⟨"LDCLR", .instruction (.atomic 0xb8201000 .sized)⟩,
    ⟨"LDCLRA", .instruction (.atomic 0xb8a01000 .sized)⟩,
    ⟨"LDCLRAB", .instruction (.atomic 0x38a01000 .narrow)⟩,
    ⟨"LDCLRAH", .instruction (.atomic 0x78a01000 .narrow)⟩,
    ⟨"LDCLRAL", .instruction (.atomic 0xb8e01000 .sized)⟩,
    ⟨"LDCLRALB", .instruction (.atomic 0x38e01000 .narrow)⟩,
    ⟨"LDCLRALH", .instruction (.atomic 0x78e01000 .narrow)⟩,
    ⟨"LDCLRB", .instruction (.atomic 0x38201000 .narrow)⟩,
    ⟨"LDCLRH", .instruction (.atomic 0x78201000 .narrow)⟩,
    ⟨"LDCLRL", .instruction (.atomic 0xb8601000 .sized)⟩,
    ⟨"LDCLRLB", .instruction (.atomic 0x38601000 .narrow)⟩,
    ⟨"LDCLRLH", .instruction (.atomic 0x78601000 .narrow)⟩,
    ⟨"LDEOR", .instruction (.atomic 0xb8202000 .sized)⟩,
    ⟨"LDEORA", .instruction (.atomic 0xb8a02000 .sized)⟩,
    ⟨"LDEORAB", .instruction (.atomic 0x38a02000 .narrow)⟩,
    ⟨"LDEORAH", .instruction (.atomic 0x78a02000 .narrow)⟩,
    ⟨"LDEORAL", .instruction (.atomic 0xb8e02000 .sized)⟩,
    ⟨"LDEORALB", .instruction (.atomic 0x38e02000 .narrow)⟩,
    ⟨"LDEORALH", .instruction (.atomic 0x78e02000 .narrow)⟩,
    ⟨"LDEORB", .instruction (.atomic 0x38202000 .narrow)⟩,
    ⟨"LDEORH", .instruction (.atomic 0x78202000 .narrow)⟩,
    ⟨"LDEORL", .instruction (.atomic 0xb8602000 .sized)⟩,
    ⟨"LDEORLB", .instruction (.atomic 0x38602000 .narrow)⟩,
    ⟨"LDEORLH", .instruction (.atomic 0x78602000 .narrow)⟩,
    ⟨"LDLAR", .instruction (.ordered 0x88df7c00 .sized)⟩,
    ⟨"LDLARB", .instruction (.ordered 0x08df7c00 .narrow)⟩,
    ⟨"LDLARH", .instruction (.ordered 0x48df7c00 .narrow)⟩,
    ⟨"LDNP", .instruction (.pairTransfer 0x28400000 .nonTemporal)⟩,
    ⟨"LDP", .instruction (.pairTransfer 0x28400000 .indexed)⟩,
    ⟨"LDPSW", .instruction (.pairTransfer 0x68400000 .signedWord)⟩,
    ⟨"LDR", .instruction (.transfer none true)⟩,
    ⟨"LDRAA", .instruction (.authenticatedLoad 0xf8200400)⟩,
    ⟨"LDRAB", .instruction (.authenticatedLoad 0xf8a00400)⟩,
    ⟨"LDRB", .instruction (.transfer (some 0) true)⟩,
    ⟨"LDRH", .instruction (.transfer (some 1) true)⟩,
    ⟨"LDRSB", .instruction (.signedLoad 0)⟩,
    ⟨"LDRSH", .instruction (.signedLoad 1)⟩,
    ⟨"LDRSW", .instruction (.signedLoad 2)⟩,
    ⟨"LDSET", .instruction (.atomic 0xb8203000 .sized)⟩,
    ⟨"LDSETA", .instruction (.atomic 0xb8a03000 .sized)⟩,
    ⟨"LDSETAB", .instruction (.atomic 0x38a03000 .narrow)⟩,
    ⟨"LDSETAH", .instruction (.atomic 0x78a03000 .narrow)⟩,
    ⟨"LDSETAL", .instruction (.atomic 0xb8e03000 .sized)⟩,
    ⟨"LDSETALB", .instruction (.atomic 0x38e03000 .narrow)⟩,
    ⟨"LDSETALH", .instruction (.atomic 0x78e03000 .narrow)⟩,
    ⟨"LDSETB", .instruction (.atomic 0x38203000 .narrow)⟩,
    ⟨"LDSETH", .instruction (.atomic 0x78203000 .narrow)⟩,
    ⟨"LDSETL", .instruction (.atomic 0xb8603000 .sized)⟩,
    ⟨"LDSETLB", .instruction (.atomic 0x38603000 .narrow)⟩,
    ⟨"LDSETLH", .instruction (.atomic 0x78603000 .narrow)⟩,
    ⟨"LDSMAX", .instruction (.atomic 0xb8204000 .sized)⟩,
    ⟨"LDSMAXA", .instruction (.atomic 0xb8a04000 .sized)⟩,
    ⟨"LDSMAXAB", .instruction (.atomic 0x38a04000 .narrow)⟩,
    ⟨"LDSMAXAH", .instruction (.atomic 0x78a04000 .narrow)⟩,
    ⟨"LDSMAXAL", .instruction (.atomic 0xb8e04000 .sized)⟩,
    ⟨"LDSMAXALB", .instruction (.atomic 0x38e04000 .narrow)⟩,
    ⟨"LDSMAXALH", .instruction (.atomic 0x78e04000 .narrow)⟩,
    ⟨"LDSMAXB", .instruction (.atomic 0x38204000 .narrow)⟩,
    ⟨"LDSMAXH", .instruction (.atomic 0x78204000 .narrow)⟩,
    ⟨"LDSMAXL", .instruction (.atomic 0xb8604000 .sized)⟩,
    ⟨"LDSMAXLB", .instruction (.atomic 0x38604000 .narrow)⟩,
    ⟨"LDSMAXLH", .instruction (.atomic 0x78604000 .narrow)⟩,
    ⟨"LDSMIN", .instruction (.atomic 0xb8205000 .sized)⟩,
    ⟨"LDSMINA", .instruction (.atomic 0xb8a05000 .sized)⟩,
    ⟨"LDSMINAB", .instruction (.atomic 0x38a05000 .narrow)⟩,
    ⟨"LDSMINAH", .instruction (.atomic 0x78a05000 .narrow)⟩,
    ⟨"LDSMINAL", .instruction (.atomic 0xb8e05000 .sized)⟩,
    ⟨"LDSMINALB", .instruction (.atomic 0x38e05000 .narrow)⟩,
    ⟨"LDSMINALH", .instruction (.atomic 0x78e05000 .narrow)⟩,
    ⟨"LDSMINB", .instruction (.atomic 0x38205000 .narrow)⟩,
    ⟨"LDSMINH", .instruction (.atomic 0x78205000 .narrow)⟩,
    ⟨"LDSMINL", .instruction (.atomic 0xb8605000 .sized)⟩,
    ⟨"LDSMINLB", .instruction (.atomic 0x38605000 .narrow)⟩,
    ⟨"LDSMINLH", .instruction (.atomic 0x78605000 .narrow)⟩,
    ⟨"LDTR", .instruction (.unscaledTransfer 0xb8400800 .sized)⟩,
    ⟨"LDTRB", .instruction (.unscaledTransfer 0x38400800 .narrow)⟩,
    ⟨"LDTRH", .instruction (.unscaledTransfer 0x78400800 .narrow)⟩,
    ⟨"LDTRSB", .instruction (.unscaledTransfer 0x38800800 .signExtended)⟩,
    ⟨"LDTRSH", .instruction (.unscaledTransfer 0x78800800 .signExtended)⟩,
    ⟨"LDTRSW", .instruction (.unscaledTransfer 0xb8800800 .wide)⟩,
    ⟨"LDUMAX", .instruction (.atomic 0xb8206000 .sized)⟩,
    ⟨"LDUMAXA", .instruction (.atomic 0xb8a06000 .sized)⟩,
    ⟨"LDUMAXAB", .instruction (.atomic 0x38a06000 .narrow)⟩,
    ⟨"LDUMAXAH", .instruction (.atomic 0x78a06000 .narrow)⟩,
    ⟨"LDUMAXAL", .instruction (.atomic 0xb8e06000 .sized)⟩,
    ⟨"LDUMAXALB", .instruction (.atomic 0x38e06000 .narrow)⟩,
    ⟨"LDUMAXALH", .instruction (.atomic 0x78e06000 .narrow)⟩,
    ⟨"LDUMAXB", .instruction (.atomic 0x38206000 .narrow)⟩,
    ⟨"LDUMAXH", .instruction (.atomic 0x78206000 .narrow)⟩,
    ⟨"LDUMAXL", .instruction (.atomic 0xb8606000 .sized)⟩,
    ⟨"LDUMAXLB", .instruction (.atomic 0x38606000 .narrow)⟩,
    ⟨"LDUMAXLH", .instruction (.atomic 0x78606000 .narrow)⟩,
    ⟨"LDUMIN", .instruction (.atomic 0xb8207000 .sized)⟩,
    ⟨"LDUMINA", .instruction (.atomic 0xb8a07000 .sized)⟩,
    ⟨"LDUMINAB", .instruction (.atomic 0x38a07000 .narrow)⟩,
    ⟨"LDUMINAH", .instruction (.atomic 0x78a07000 .narrow)⟩,
    ⟨"LDUMINAL", .instruction (.atomic 0xb8e07000 .sized)⟩,
    ⟨"LDUMINALB", .instruction (.atomic 0x38e07000 .narrow)⟩,
    ⟨"LDUMINALH", .instruction (.atomic 0x78e07000 .narrow)⟩,
    ⟨"LDUMINB", .instruction (.atomic 0x38207000 .narrow)⟩,
    ⟨"LDUMINH", .instruction (.atomic 0x78207000 .narrow)⟩,
    ⟨"LDUMINL", .instruction (.atomic 0xb8607000 .sized)⟩,
    ⟨"LDUMINLB", .instruction (.atomic 0x38607000 .narrow)⟩,
    ⟨"LDUMINLH", .instruction (.atomic 0x78607000 .narrow)⟩,
    ⟨"LDUR", .instruction (.unscaledTransfer 0xb8400000 .sized)⟩,
    ⟨"LDURB", .instruction (.unscaledTransfer 0x38400000 .narrow)⟩,
    ⟨"LDURH", .instruction (.unscaledTransfer 0x78400000 .narrow)⟩,
    ⟨"LDURSB", .instruction (.unscaledTransfer 0x38800000 .signExtended)⟩,
    ⟨"LDURSH", .instruction (.unscaledTransfer 0x78800000 .signExtended)⟩,
    ⟨"LDURSW", .instruction (.unscaledTransfer 0xb8800000 .wide)⟩,
    ⟨"LDXP", .instruction (.exclusivePairLoad 0x887f0000)⟩,
    ⟨"LDXR", .instruction (.ordered 0x885f7c00 .sized)⟩,
    ⟨"LDXRB", .instruction (.ordered 0x085f7c00 .narrow)⟩,
    ⟨"LDXRH", .instruction (.ordered 0x485f7c00 .narrow)⟩,
    ⟨"LSL", .instruction (.shift .lsl)⟩,
    ⟨"LSLV", .instruction (.threeRegister 0x1ac02000)⟩,
    ⟨"LSR", .instruction (.shift .lsr)⟩,
    ⟨"LSRV", .instruction (.threeRegister 0x1ac02400)⟩]

end InlineA64.Mnemonic
