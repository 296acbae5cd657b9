import InlineA64.Operand.Reader
import InlineA64.Environment

/-!
# Running a reader

`Request.answer` answers the requests of a reader from the text and the environment, and
`Reader.run` runs a reader on those answers. The text is never changed and the cursor never moves
back, whatever the environment does: of what it leaves behind only the position of the cursor is
taken over, and only if it lies ahead.
-/

namespace InlineA64

/-- The state of a run: the text with the cursor, the state of the environment, and the positions
noted so far. -/
structure Reading (σ : Type) where
  /-- The text and the cursor. -/
  cursor : Cursor
  /-- The state of the environment. -/
  state : σ
  /-- The positions noted so far, in order. -/
  marks : List Nat

/-- What a run is surrounded by. -/
structure Surroundings (σ Slot : Type) where
  /-- The environment. -/
  environment : Environment σ Slot
  /-- What expressions can see. -/
  context : Context
  /-- The mnemonic whose operands are read. -/
  mnemonic : String

variable {σ Slot α β : Type}

namespace Reading

/-- The failure of a fault at a noted position, or at the cursor. -/
def failure (r : Reading σ) (fault : Fault) (at? : Option Mark) : Failure :=
  let noted := at?.bind fun mark => r.marks[mark.index]?
  ⟨fault, r.cursor.spanOf (noted.getD r.cursor.pos)⟩

/-- A step that moves the cursor and yields a value. -/
def step (f : Cursor → α × Cursor) : EStateM Failure (Reading σ) α := fun r =>
  let (a, cursor) := f r.cursor
  .ok a { r with cursor }

/-- A step of the text that can fail. -/
def scan (f : Cursor.Scan α) : EStateM Failure (Reading σ) α := fun r =>
  match f r.cursor with
  | .ok a cursor => .ok a { r with cursor }
  | .error failure cursor => .error failure { r with cursor }

/-- A step of the environment at the cursor. -/
def consult (f : EStateM Failure (Cursor × σ) α) : EStateM Failure (Reading σ) α := fun r =>
  match f (r.cursor, r.state) with
  | .ok a (cursor, state) => .ok a { r with cursor := r.cursor.advanceTo cursor.pos, state }
  | .error failure (cursor, state) =>
    .error failure { r with cursor := r.cursor.advanceTo cursor.pos, state }

end Reading

namespace Punctuation

/-- Take the mark at the cursor if it is there. -/
def take (p : Punctuation) (s : Cursor) : Bool × Cursor :=
  if p.matchesByte s.peek then (true, s.advance 1) else (false, s)

end Punctuation

namespace Cursor

/-- At the cursor stands a comma, and behind it, blanks apart, an immediate. -/
def atPostIndex (s : Cursor) : Bool :=
  Punctuation.comma.matchesByte s.peek &&
    Punctuation.hash.matchesByte (s.advance 1).skipBlanks.peek

/-- Skip blanks and look. -/
def look (p : Cursor → Bool) (s : Cursor) : Bool × Cursor :=
  let s := s.skipBlanks
  (p s, s)

end Cursor

namespace Register

/-- Take a register. A floating-point or vector register in its place means that the instruction is
none of those encoded here. -/
def readFor (mnemonic : String) : Cursor.Scan Register := do
  modify Cursor.skipBlanks
  let s ← get
  if (scan? s).isNone && looksVector s then Cursor.fail (.unsupported mnemonic)
  else Register.read

end Register

namespace Surroundings

/-- The value of the numeric expression behind blanks. -/
def integer (around : Surroundings σ Slot) : EStateM Failure (Reading σ) Int64 := do
  Reading.step fun s => ((), s.skipBlanks)
  Reading.consult (around.environment.evaluateInt around.context)

end Surroundings

/-- The answer to a request. -/
def Request.answer (around : Surroundings σ Slot) : Request β → EStateM Failure (Reading σ) β
  | mark => fun r => .ok ⟨r.marks.length⟩ { r with marks := r.marks ++ [r.cursor.pos] }
  | sees p => Reading.step (Cursor.look fun s => p.matchesByte s.peek)
  | accept p => Reading.step fun s => p.take s.skipBlanks
  | acceptJoined p => Reading.step p.take
  | atBlank => Reading.step fun s => (s.peek.isBlank, s)
  | atEnd => Reading.step (Cursor.look Cursor.atEnd)
  | seesPostIndex => Reading.step (Cursor.look Cursor.atPostIndex)
  | closeBracket => Reading.scan Cursor.closeBracket
  | keyword v => Reading.step (·.keyword? v.entries)
  | wholeWord v => Reading.step (·.wholeWord? v.entries)
  | register => Reading.scan (Register.readFor around.mnemonic)
  | systemRegister => Reading.scan SystemRegister.read
  | value => around.integer
  | distance => do return (← around.integer) - around.context.logical.toInt64
  | pageDistance => do return ((← around.integer) >>> 12) - (around.context.logical >>> 12).toInt64
  | reach inReach fault at? => fun r =>
    if around.context.options.rangeCheck && !inReach then .error (r.failure fault (some at?)) r
    else .ok () r

/-- Run a reader, each request being answered in turn. -/
def Reader.run (around : Surroundings σ Slot) : Reader α → EStateM Failure (Reading σ) α
  | done a => pure a
  | fail fault at? => fun r => .error (r.failure fault at?) r
  | ask request next => do
    let answer ← request.answer around
    run around (next answer)

end InlineA64
