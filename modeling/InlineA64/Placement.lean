import InlineA64.Options

/-!
# Where code is placed

A `Placement` is what lasts from one block of assembler text to the next: where code is placed,
where its bytes are written, where writing has to stop, and the options. The two addresses move
together.
-/

namespace InlineA64

/-- What an expression can see of the state of assembly. -/
structure Context where
  /-- The address the code is placed at. -/
  logical : UInt64
  /-- The address bytes are written to when the options say so. -/
  physical : UInt64
  /-- The options. -/
  options : Options
deriving DecidableEq, Repr

/-- The state of assembly between blocks. -/
structure Placement where
  /-- The address the code is placed at. -/
  logical : UInt64
  /-- The address bytes are written to when the options say so. -/
  physical : UInt64
  /-- The address that writing has to stay below when the options say so. -/
  limit : UInt64
  /-- The options. -/
  options : Options
deriving DecidableEq, Repr

namespace Placement

/-- A placement that places and writes code at `origin`, with no limit and the standard options. -/
def ofOrigin (origin : UInt64) : Placement :=
  ⟨origin, origin, 0xffffffffffffffff, .standard⟩

/-- Set the physical address. -/
def withPhysical (s : Placement) (address : UInt64) : Placement :=
  { s with physical := address }

/-- Set the limit. -/
def withLimit (s : Placement) (address : UInt64) : Placement :=
  { s with limit := address }

/-- Set the options. -/
def withOptions (s : Placement) (options : Options) : Placement :=
  { s with options }

/-- What an expression can see. -/
def context (s : Placement) : Context :=
  ⟨s.logical, s.physical, s.options⟩

/-- The address that the next byte is written to. -/
def writeAddress (s : Placement) : UInt64 :=
  if s.options.offset then s.physical else s.logical

/-- Writing has reached a limit that is checked. -/
def atLimit (s : Placement) : Bool :=
  s.options.limitCheck && s.limit ≤ s.writeAddress

/-- Move both addresses on. -/
def advance (s : Placement) (count : UInt64) : Placement :=
  { s with logical := s.logical + count, physical := s.physical + count }

/-- The distance from an address to the next multiple of `unit`, a power of two. -/
def padTo (unit address : UInt64) : UInt64 :=
  (0 - address) % unit

/-- Move both addresses on until the logical one is a multiple of four. -/
def align (s : Placement) : Placement :=
  s.advance (padTo 4 s.logical)

end Placement

end InlineA64
