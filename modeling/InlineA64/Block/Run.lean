import InlineA64.Block.Directive
import InlineA64.Encoder
import InlineA64.Mnemonic.Lookup
import InlineA64.Operand.Run

/-!
# Assembling a block

`Block.step` deals with one item: a separator, a comment, a label, a statement, or the end of the
block. `Block.assemble` repeats it until the block ends or an item fails. Bytes written before a
failure stay written, and nothing behind the failing item is looked at.

Every item takes a byte of the text at least, so one step more than there are bytes is enough.
-/

namespace InlineA64.Block

variable {σ Slot : Type}

/-- What comes after an item. -/
inductive Next where
  /-- More items. -/
  | more
  /-- The end of the block. -/
  | stop
deriving DecidableEq, Repr

/-! ## Labels -/

/-- A label cannot be bound: it was bound in this block, or, while range checks are off, its
variable holds something already. -/
def isBound [DecidableEq Slot] (env : Environment σ Slot) (b : Block σ Slot) (slot : Slot) : Bool :=
  b.labels.contains slot || (!b.placement.options.rangeCheck && env.load slot b.state != 0)

/-- Bind the label at the cursor to the address of the code. Labels before the first instruction of
a block take the address that it will be aligned to. -/
def label [DecidableEq Slot] (env : Environment σ Slot) : Assembling σ Slot Unit := do
  let start := (← get).cursor.pos
  modifyCursor (·.advance 1)
  if (← get).fresh then alignStart
  let (slot, kind) ← consult env.slot
  let b ← get
  if kind = .string then failAt start .typeMismatch
  else if isBound env b slot then
    failAt start (.multipleLabel (Utf8.decode (b.cursor.slice (start + 1) b.cursor.pos)))
  else
    request (env.store slot b.placement.logical)
    modify fun b => { b with labels := slot :: b.labels }

/-! ## Statements -/

/-- Read operands. -/
def operands {α : Type} (env : Environment σ Slot) (mnemonic : String) (reader : Reader α) :
    Assembling σ Slot α := fun b =>
  match reader.run ⟨env, b.placement.context, mnemonic⟩ ⟨b.cursor, b.state, []⟩ with
  | .ok a r => .ok a { b with cursor := r.cursor, state := r.state }
  | .error failure r => .error failure { b with cursor := r.cursor, state := r.state }

/-- Assemble an instruction whose mnemonic has been read, at the next word. -/
def instruction (env : Environment σ Slot) (mnemonic : String) (reader : Reader Encoding) :
    Assembling σ Slot Unit := do
  alignStart
  let encoding ← operands env mnemonic reader
  emit env (bytesOfWord encoding.word)

/-- Note that the block has had an instruction or data. -/
def settle : Assembling σ Slot Unit :=
  modify fun b => { b with fresh := false }

/-- The byte is part of what is shown of an unknown mnemonic. -/
def isMnemonicByte (b : Byte) : Bool :=
  b.isAlphanumeric || b == '.'.toUInt8

/-- What is shown of an unknown mnemonic. -/
def unknownText (s : Cursor) (start : Nat) : String :=
  Utf8.decode ((s.slice start s.text.size).takeWhile isMnemonicByte)

/-- Assemble the statement at the cursor. -/
def statement (env : Environment σ Slot) : Assembling σ Slot Unit := do
  let start := (← get).cursor.pos
  let (found, cursor) := Mnemonic.lookup (← get).cursor
  modifyCursor fun _ => cursor
  match found with
  | none => failAt start (.unknownMnemonic (unknownText cursor start))
  | some m =>
    match m.meaning with
    | .directive .options => directive env .options
    | .directive d => do
      settle
      directive env d
    | .instruction i => do
      settle
      instruction env m.name i.encoder
    | .unsupported => do
      settle
      instruction env m.name (Reader.failHere (.unsupported m.name))

/-! ## Items -/

/-- End the last statement, unless it is empty and emitted nothing, and go back to the standard
options. The text of the statement stops at `stop`. -/
def finish (env : Environment σ Slot) (stop : Nat) : Assembling σ Slot Unit := do
  let b ← get
  if b.placement.logical != b.address || !(b.cursor.slice b.start stop).all Byte.isWhite then
    closeStatement env stop
  modifyPlacement (·.withOptions .standard)

/-- The separator at the cursor, a carriage return taking a line feed with it. -/
def takeSeparator (s : Cursor) : Cursor :=
  let s' := s.advance 1
  if s.peek == 0x0d && s'.peek == 0x0a then s'.advance 1 else s'

/-- The byte is part of a comment. -/
def continuesComment (b : Byte) : Bool :=
  !(b == 0 || b.isBreak || b == ':'.toUInt8)

/-- Deal with the item at the cursor. -/
def item [DecidableEq Slot] (env : Environment σ Slot) : Assembling σ Slot Next := do
  modifyCursor Cursor.skipBlanks
  let s := (← get).cursor
  let b := s.peek
  if b == 0 then
    finish env s.pos
    return .stop
  else if b == ']'.toUInt8 then
    modifyCursor (·.advance 1)
    finish env s.pos
    return .stop
  else if b.isBreak || b == ':'.toUInt8 then
    modifyCursor takeSeparator
    closeStatement env s.pos
    openStatement
    return .more
  else if b == ';'.toUInt8 || b == Byte.remToken then
    modifyCursor (·.skipWhile continuesComment)
    return .more
  else if b == '.'.toUInt8 then
    label env
    return .more
  else
    statement env
    return .more

/-- Check the limit, then deal with the item at the cursor. -/
def step [DecidableEq Slot] (env : Environment σ Slot) : Assembling σ Slot Next := do
  let b ← get
  if b.placement.atLimit then
    failAt b.cursor.pos (.addressOutOfRange b.placement.writeAddress b.placement.limit)
  else item env

/-- Deal with up to `fuel` items. -/
def steps [DecidableEq Slot] (env : Environment σ Slot) : (fuel : Nat) → Assembling σ Slot Next
  | 0 => pure .more
  | fuel + 1 => do
    match ← step env with
    | .more => steps env fuel
    | .stop => pure .stop

/-- Deal with all items from the start of a block on. -/
def run [DecidableEq Slot] (env : Environment σ Slot) : Assembling σ Slot Next := do
  openStatement
  steps env ((← get).cursor.remaining + 1)

/-- How a block ended: with a failure or without, and in what state. -/
structure Outcome (σ : Type) where
  /-- The failure of the item that ended the block early. -/
  failure : Option Failure
  /-- The placement afterwards. -/
  placement : Placement
  /-- The state of the environment afterwards. -/
  state : σ
  /-- The text with the cursor behind the block, or where the failure was found. -/
  cursor : Cursor

/-- Assemble the block at the cursor. -/
def assemble [DecidableEq Slot] (env : Environment σ Slot) (placement : Placement) (state : σ)
    (cursor : Cursor) : Outcome σ :=
  match run env (ofPlacement placement state cursor) with
  | .ok _ b => ⟨none, b.placement, b.state, b.cursor⟩
  | .error failure b => ⟨some failure, b.placement, b.state, b.cursor⟩

end InlineA64.Block
