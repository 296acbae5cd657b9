import InlineA64.Block.Run
import InlineA64.Machine.Basic

/-!
# Whole programs

A program is one block, assembled twice: without range checks, so that a label can be used before
it is defined, and again with them, when every label is known. The image is that of the second
pass.
-/

namespace InlineA64.Program

/-- Assemble a text that is all one block into a machine whose memory is empty. -/
def pass (base : UInt64) (options : Options) (machine : Machine) (cursor : Cursor) :
    Except Failure Machine :=
  let placement := (Placement.ofOrigin base).withOptions options
  let outcome := Block.assemble Machine.environment placement machine.withEmptyImage cursor
  match outcome.failure with
  | some failure => .error failure
  | none =>
    let rest := outcome.cursor.skipBlanks
    if rest.peek == 0 then .ok outcome.state
    else .error ⟨.malformed .statement, rest.span⟩

/-- Assemble a program to run at `base`. -/
def assemble (cursor : Cursor) (base : UInt64 := 0) : Except Failure (Array Byte) := do
  let first ← pass base (.ofInt 0) (.ofBase base) cursor
  let second ← pass base (.ofInt 2) first cursor
  return second.image.bytes

end InlineA64.Program
