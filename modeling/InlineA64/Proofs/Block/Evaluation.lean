import InlineA64.Proofs.Block.Item
import InlineA64.Proofs.Reader.Evaluation

/-!
# The expressions that an item has evaluated

`Block.evaluations` lists the expressions that the next item of a block has a machine evaluate: the
operand of a directive, or those among the operands of an instruction.
-/

namespace InlineA64.Block

/-- The expression at the cursor, the value of which is wanted. -/
def operand (b : Block Machine Name) : Evaluation :=
  ⟨.constant, ⟨b.placement.context, b.state.vars⟩, b.cursor⟩

/-- The block when it has been aligned to a word, and a number may follow. -/
def atAlignment (b : Block Machine Name) : Block Machine Name :=
  let placement := b.placement.align
  { b with
    cursor := b.cursor.skipBlanks, placement, address := placement.logical, emitted := [] }

/-- The expressions evaluated for a directive. -/
def directiveEvaluations (b : Block Machine Name) : Directive → List Evaluation
  | .align =>
    let s := b.atAlignment.cursor
    if s.peek.isDigit && s.peek != '0'.toUInt8 then [b.atAlignment.operand] else []
  | _ => [b.operand]

/-- The expressions evaluated when what a mnemonic stands for is done. -/
def evaluationsOf (m : Mnemonic) (b : Block Machine Name) : List Evaluation :=
  match m.meaning with
  | .directive d => b.directiveEvaluations d
  | .instruction i =>
    i.encoder.evaluations b.placement.align.context m.name ⟨b.cursor, b.state, []⟩
  | .unsupported => []

/-- The expressions evaluated for the next item of a block. -/
def evaluations (b : Block Machine Name) : List Evaluation :=
  match b.upcoming with
  | .statement _ =>
    match Mnemonic.lookup b.atItem.cursor with
    | (some m, cursor) => evaluationsOf m { b.atItem with cursor }
    | (none, _) => []
  | _ => []

theorem evaluations_of_lookup {b : Block Machine Name} {meaning? : Option Meaning} {m : Mnemonic}
    {t : Cursor} (hitem : b.upcoming = .statement meaning?)
    (hlookup : Mnemonic.lookup b.atItem.cursor = (some m, t)) :
    b.evaluations = evaluationsOf m { b.atItem with cursor := t } := by
  rw [evaluations, hitem, hlookup]

end InlineA64.Block
