import InlineA64.Instruction.Family
import InlineA64.MemoryOperand

/-!
# Keywords in operands

A `Vocabulary` is a set of keywords that an operand is chosen from, indexed by the type of what its
keywords mean. `Vocabulary.entries` lists them. Reading takes the last entry that starts the text,
so each keyword stands after those that start it.
-/

namespace InlineA64

/-- A modifier of the register operand of an addition. -/
inductive Modifier where
  /-- An extension, by its number in the `option` field. -/
  | extension (option : Nat)
  /-- A shift. -/
  | shift (kind : Shift)
deriving DecidableEq, Repr

/-- A processor state field that `MSR` sets from an immediate. -/
structure StateField where
  /-- The first opcode. -/
  op1 : Nat
  /-- The second opcode. -/
  op2 : Nat
deriving DecidableEq, Repr

/-- The sets of keywords, by the type of their meaning. -/
inductive Vocabulary : Type → Type where
  /-- Condition codes. -/
  | conditions : Vocabulary Nat
  /-- Shifts of a register. -/
  | shifts : Vocabulary Shift
  /-- Extensions and shifts of a register. -/
  | modifiers : Vocabulary Modifier
  /-- Modifiers of an index register. -/
  | indexModifiers : Vocabulary IndexModifier
  /-- The left shift of an immediate. -/
  | immediateShift : Vocabulary Unit
  /-- The operand of a profiling barrier. -/
  | profilingBarrier : Vocabulary Unit
  /-- The operand of an instruction barrier. -/
  | instructionBarrier : Vocabulary Unit
  /-- Barrier options. -/
  | barriers : Vocabulary Nat
  /-- Processor state fields. -/
  | stateFields : Vocabulary StateField
  /-- Maintenance operations, by their bits in the word. -/
  | operations (kind : Maintenance) : Vocabulary UInt32
  /-- What is prefetched. -/
  | prefetchKinds : Vocabulary Nat
  /-- The cache that prefetching goes to. -/
  | prefetchCaches : Vocabulary Nat
  /-- How long prefetched data is wanted. -/
  | prefetchPolicies : Vocabulary Nat

namespace Vocabulary

/-- The condition codes. -/
def conditionCodes : List (String × Nat) :=
  [("EQ", 0), ("NE", 1), ("CS", 2), ("HS", 2), ("CC", 3), ("LO", 3), ("MI", 4), ("PL", 5),
    ("VS", 6), ("VC", 7), ("HI", 8), ("LS", 9), ("GE", 10), ("LT", 11), ("GT", 12), ("LE", 13),
    ("AL", 14), ("NV", 15)]

/-- The shifts. -/
def shiftKinds : List (String × Shift) :=
  [("LSL", .lsl), ("LSR", .lsr), ("ASR", .asr), ("ROR", .ror)]

/-- The extensions, in the order of their numbers. -/
def extensions : List (String × Nat) :=
  [("UXTB", 0), ("UXTH", 1), ("UXTW", 2), ("UXTX", 3), ("SXTB", 4), ("SXTH", 5), ("SXTW", 6),
    ("SXTX", 7)]

/-- The barrier options. -/
def barrierOptions : List (String × Nat) :=
  [("SY", 15), ("ST", 14), ("LD", 13), ("ISH", 11), ("ISHST", 10), ("ISHLD", 9), ("NSH", 7),
    ("NSHST", 6), ("NSHLD", 5), ("OSH", 3), ("OSHST", 2), ("OSHLD", 1)]

/-- The page-table walks. -/
def pageWalks : List (String × UInt32) :=
  [("S1E1R", 0x00000), ("S1E1W", 0x00020), ("S1E0R", 0x00040), ("S1E0W", 0x00060),
    ("S1E2R", 0x40000), ("S1E2W", 0x40020), ("S12E1R", 0x40080), ("S12E1W", 0x400a0),
    ("S12E0R", 0x400c0), ("S12E0W", 0x400e0), ("S1E3R", 0x60000), ("S1E3W", 0x60020),
    ("S1E1RP", 0x00100), ("S1E1WP", 0x00120)]

/-- The data cache operations. -/
def dataCacheOperations : List (String × UInt32) :=
  [("IVAC", 0x00620), ("ISW", 0x00640), ("CSW", 0x00a40), ("CISW", 0x00e40), ("ZVA", 0x30420),
    ("CVAC", 0x30a20), ("CVAU", 0x30b20), ("CIVAC", 0x30e20), ("CVAP", 0x30c20)]

/-- The instruction cache operations. -/
def instructionCacheOperations : List (String × UInt32) :=
  [("IALLU", 0x00500), ("IALLUIS", 0x00100), ("IVAU", 0x30520)]

/-- The operations on the look-aside buffers of the page tables. -/
def lookasideOperations : List (String × UInt32) :=
  [("ALLE1", 0x40780), ("ALLE1IS", 0x40380), ("ALLE2", 0x40700), ("ALLE2IS", 0x40300),
    ("ALLE3", 0x60700), ("ALLE3IS", 0x60300), ("ASIDE1", 0x00740), ("ASIDE1IS", 0x00340),
    ("IPAS2E1", 0x40420), ("IPAS2E1IS", 0x40020), ("IPAS2LE1", 0x404a0), ("IPAS2LE1IS", 0x400a0),
    ("VAAE1", 0x00760), ("VAAE1IS", 0x00360), ("VAALE1", 0x007e0), ("VAALE1IS", 0x003e0),
    ("VAE1", 0x00720), ("VAE1IS", 0x00320), ("VAE2", 0x40720), ("VAE2IS", 0x40320),
    ("VAE3", 0x60720), ("VAE3IS", 0x60320), ("VALE1", 0x007a0), ("VALE1IS", 0x003a0),
    ("VALE2", 0x407a0), ("VALE2IS", 0x403a0), ("VALE3", 0x607a0), ("VALE3IS", 0x603a0),
    ("VMALLE1", 0x00700), ("VMALLE1IS", 0x00300), ("VMALLS12E1", 0x407c0),
    ("VMALLS12E1IS", 0x403c0)]

/-- The maintenance operations of a kind. -/
def maintenanceOperations : Maintenance → List (String × UInt32)
  | .pageWalk => pageWalks
  | .dataCache => dataCacheOperations
  | .instructionCache => instructionCacheOperations
  | .lookaside => lookasideOperations

/-- The keywords of a vocabulary with what they mean. -/
def entries {β : Type} : Vocabulary β → List (String × β)
  | conditions => conditionCodes
  | shifts => shiftKinds
  | modifiers =>
    extensions.map (fun (word, option) => (word, .extension option)) ++
      shiftKinds.map fun (word, kind) => (word, .shift kind)
  | indexModifiers => [("UXTW", .uxtw), ("SXTW", .sxtw), ("SXTX", .sxtx), ("LSL", .lsl)]
  | immediateShift => [("LSL", ())]
  | profilingBarrier => [("CSYNC", ())]
  | instructionBarrier => [("SY", ())]
  | barriers => barrierOptions
  | stateFields =>
    [("SPSel", ⟨0, 5⟩), ("DAIFSet", ⟨3, 6⟩), ("DAIFClr", ⟨3, 7⟩), ("UAO", ⟨0, 3⟩), ("PAN", ⟨0, 4⟩)]
  | operations kind => maintenanceOperations kind
  | prefetchKinds => [("PLD", 0), ("PLI", 1), ("PST", 2)]
  | prefetchCaches => [("L1", 0), ("L2", 1), ("L3", 2)]
  | prefetchPolicies => [("KEEP", 0), ("STRM", 1)]

end Vocabulary

end InlineA64
