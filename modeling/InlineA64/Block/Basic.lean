import InlineA64.Environment
import InlineA64.Listing

/-!
# Blocks

A block is a text between brackets that is assembled in one go. `Block` is its state: the placement,
the state of the environment, the text, where the current statement starts, and the labels bound so
far. The actions here are the ones that everything else in a block is made of: consulting the
environment, emitting bytes and aligning, starting and ending a statement.
-/

namespace InlineA64

/-- The state of a block that is being assembled. -/
structure Block (σ Slot : Type) where
  /-- Where code is placed. -/
  placement : Placement
  /-- The state of the environment. -/
  state : σ
  /-- The text and the position in it. -/
  cursor : Cursor
  /-- Where the current statement starts in the text. -/
  start : Nat
  /-- The address of the first byte of the current statement. -/
  address : UInt64
  /-- The bytes that the current statement has emitted since then. -/
  emitted : List Byte
  /-- The block has had no instruction and no data yet. -/
  fresh : Bool
  /-- The labels bound in the block, the last first. -/
  labels : List Slot

/-- An action on a block. -/
abbrev Assembling (σ Slot : Type) := EStateM Failure (Block σ Slot)

namespace Block

variable {σ Slot α : Type}

/-- A block at its start. -/
def ofPlacement (placement : Placement) (state : σ) (cursor : Cursor) : Block σ Slot :=
  ⟨placement, state, cursor, cursor.pos, placement.logical, [], true, []⟩

/-- A change to the placement. -/
def modifyPlacement (f : Placement → Placement) : Assembling σ Slot Unit :=
  modify fun b => { b with placement := f b.placement }

/-- A change to the state of the environment that cannot fail. -/
def modifyState (f : σ → σ) : Assembling σ Slot Unit :=
  modify fun b => { b with state := f b.state }

/-- A change to the cursor of the text. -/
def modifyCursor (f : Cursor → Cursor) : Assembling σ Slot Unit :=
  modify fun b => { b with cursor := f b.cursor }

/-- Fail at an offset. -/
def failAt (offset : Nat) (fault : Fault) : Assembling σ Slot α := fun b =>
  .error ⟨fault, b.cursor.spanOf offset⟩ b

/-- A service of the environment that does not read text. -/
def request (f : EStateM Failure σ α) : Assembling σ Slot α := fun b =>
  match f b.state with
  | .ok a state => .ok a { b with state }
  | .error failure state => .error failure { b with state }

/-- A service of the environment that reads text. Only the position of the cursor is taken over, and
only if it lies ahead. -/
def consult (f : EStateM Failure (Cursor × σ) α) : Assembling σ Slot α := fun b =>
  match f (b.cursor, b.state) with
  | .ok a (cursor, state) => .ok a { b with cursor := b.cursor.advanceTo cursor.pos, state }
  | .error failure (cursor, state) =>
    .error failure { b with cursor := b.cursor.advanceTo cursor.pos, state }

/-! ## Output -/

/-- Write bytes where the placement says and move both addresses past them. -/
def emit (env : Environment σ Slot) (bytes : List Byte) : Assembling σ Slot Unit := do
  let address := (← get).placement.writeAddress
  request (env.write address bytes)
  modify fun b => { b with
    placement := b.placement.advance (UInt64.ofNat bytes.length)
    emitted := b.emitted ++ bytes }

/-- Align both addresses to a word and take the statement to start there. -/
def alignStart : Assembling σ Slot Unit :=
  modify fun b =>
    let placement := b.placement.align
    { b with placement, address := placement.logical, emitted := [] }

/-- The low `count` bytes of a number, the lowest first. -/
def bytesOfNat : (count : Nat) → Nat → List Byte
  | 0, _ => []
  | count + 1, n => UInt8.ofNat (n % 256) :: bytesOfNat count (n / 256)

/-- The bytes of a word in memory. -/
def bytesOfWord (word : UInt32) : List Byte :=
  bytesOfNat 4 word.toNat

/-! ## Statements -/

/-- Skip blanks and start a statement there. -/
def openStatement : Assembling σ Slot Unit :=
  modify fun b =>
    let cursor := b.cursor.skipBlanks
    { b with cursor, start := cursor.pos, address := b.placement.logical, emitted := [] }

/-- Show the rows of the listing to the environment. -/
def list (env : Environment σ Slot) (rows : List String) : Assembling σ Slot Unit :=
  modifyState fun state => rows.foldl (fun state row => env.listing row state) state

/-- End the statement whose text stops at the offset `stop`: list it, and have what it wrote in
place fetched anew. -/
def closeStatement (env : Environment σ Slot) (stop : Nat) : Assembling σ Slot Unit := do
  let b ← get
  if b.placement.options.list then
    list env (Listing.rows b.address b.emitted (b.cursor.slice b.start stop))
  if !b.placement.options.offset && b.placement.logical != b.address then
    modifyState (env.flush b.address b.placement.logical)
  modify fun b => { b with emitted := [] }

end Block

end InlineA64
