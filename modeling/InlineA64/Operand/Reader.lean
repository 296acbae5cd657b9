import InlineA64.Vocabulary
import InlineA64.SystemRegister

/-!
# Readers of operands

An encoder reads the operands of its instruction from the text and has labels and constants
evaluated by the environment. What it does is written down as a `Reader`: a tree of `Request`s, each
with what follows for every answer. Encoders are thus values that do nothing themselves, and one
interpreter, `Reader.run`, answers all of them. What holds of every request holds of every encoder
at once.

Requests are about the text under the cursor and about the values of expressions. No request tells
where the instruction is placed: a label comes as its distance from the instruction.
-/

namespace InlineA64

/-- A position noted by a reader for its failures to point at: its number in the order of noting. -/
structure Mark where
  /-- How many positions were noted before. -/
  index : Nat
deriving DecidableEq, Repr

/-- A mark between operands. -/
inductive Punctuation where
  /-- The comma between operands. -/
  | comma
  /-- The hash before an immediate. -/
  | hash
  /-- The bracket before a base register. -/
  | openBracket
  /-- The exclamation mark of pre-indexing. -/
  | bang
  /-- The dot before the condition of a branch. -/
  | dot
  /-- The letter of a control register, of either case. -/
  | control
deriving DecidableEq, Repr

namespace Punctuation

/-- The byte of a mark, letters being small. -/
def byte : Punctuation → Byte
  | comma => ','.toUInt8
  | hash => '#'.toUInt8
  | openBracket => '['.toUInt8
  | bang => '!'.toUInt8
  | dot => '.'.toUInt8
  | control => 'c'.toUInt8

/-- The byte is the mark, in either case. -/
def matchesByte (p : Punctuation) (b : Byte) : Bool :=
  b.lower == p.byte

end Punctuation

/-- What a reader can ask for, by the type of the answer. -/
inductive Request : Type → Type 1 where
  /-- Note the position of the cursor. -/
  | mark : Request Mark
  /-- Skip blanks. Is the mark next? -/
  | sees (p : Punctuation) : Request Bool
  /-- Skip blanks, and take the mark if it is next. -/
  | accept (p : Punctuation) : Request Bool
  /-- Take the mark if it is next with no blank before it. -/
  | acceptJoined (p : Punctuation) : Request Bool
  /-- Is a blank next? -/
  | atBlank : Request Bool
  /-- Skip blanks. Does the statement end here? -/
  | atEnd : Request Bool
  /-- Skip blanks. Is a comma next, and behind it an immediate? -/
  | seesPostIndex : Request Bool
  /-- Skip blanks, and take the bracket behind a memory operand, which has to be next. -/
  | closeBracket : Request Unit
  /-- Skip blanks, and take a keyword if one is next. -/
  | keyword {β : Type} (v : Vocabulary β) : Request (Option β)
  /-- Skip blanks, and take the next word if it is a keyword. -/
  | wholeWord {β : Type} (v : Vocabulary β) : Request (Option β)
  /-- Skip blanks, and take a general-purpose register, which has to be next. -/
  | register : Request Register
  /-- Skip blanks, and take a system register, which has to be next. -/
  | systemRegister : Request SystemRegister
  /-- Take the value of a numeric expression. -/
  | value : Request Int64
  /-- Take the value of a numeric expression, less the address of the instruction. -/
  | distance : Request Int64
  /-- Take the value of a numeric expression in pages, less the page of the instruction. -/
  | pageDistance : Request Int64
  /-- While range checks are on, require `inReach`. -/
  | reach (inReach : Bool) (fault : Fault) (at? : Mark) : Request Unit

/-- A program that reads operands and yields a value. -/
inductive Reader (α : Type) : Type 1 where
  /-- Stop with a value. -/
  | done (a : α)
  /-- Stop with a fault at a noted position, or at the cursor. -/
  | fail (fault : Fault) (at? : Option Mark)
  /-- Make a request and go on with the answer. -/
  | ask {β : Type} (request : Request β) (next : β → Reader α)

namespace Reader

variable {α β : Type}

/-- Run a reader and go on with its value. -/
def bind : Reader α → (α → Reader β) → Reader β
  | done a, f => f a
  | fail fault at?, _ => fail fault at?
  | ask request next, f => ask request fun answer => (next answer).bind f

instance : Monad Reader where
  pure := done
  bind := bind

/-- Make a request for its answer. -/
def request (r : Request α) : Reader α :=
  ask r done

/-- Fail at the cursor. -/
def failHere (fault : Fault) : Reader α :=
  fail fault none

/-- Fail at a noted position. -/
def failAt (mark : Mark) (fault : Fault) : Reader α :=
  fail fault (some mark)

/-- Fail at the cursor because the statement is malformed. -/
def malformed (what : Malformed) : Reader α :=
  failHere (.malformed what)

/-- Fail at a noted position because the statement is malformed. -/
def malformedAt (mark : Mark) (what : Malformed) : Reader α :=
  failAt mark (.malformed what)

/-- Fail at the cursor because a value is beyond a limit. -/
def beyond (limit : Limit) : Reader α :=
  failHere (.outOfRange limit)

/-- Fail at a noted position because a value is beyond a limit. -/
def beyondAt (mark : Mark) (limit : Limit) : Reader α :=
  failAt mark (.outOfRange limit)

/-- Go on with a value, or fail at a noted position. -/
def liftAt (mark : Mark) : Except Fault α → Reader α
  | .ok a => done a
  | .error fault => failAt mark fault

end Reader

end InlineA64
