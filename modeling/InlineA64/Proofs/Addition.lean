import InlineA64.Proofs.Addition.Operands

/-!
# Additions

The encoder of an addition checks its operands while it reads them; `AdditionOperands.read` reads
them all and asks nothing. The two are compared by `Reader.Matches`.

* `AdditionForm.encodes_operation`: which operands are accepted, and that the word is that of the
  operation written.
-/

namespace InlineA64

/-! ## The encoder -/

namespace AdditionOperands

open Reader

variable {σ Slot : Type} {around : Surroundings σ Slot} {subtract setsFlags : Bool}
  {d n : Register}

/-- The word for operands, if there is an addition of them. -/
def encoding? (subtract setsFlags : Bool) (ops : AdditionOperands) : Option Encoding :=
  (ops.second? setsFlags).map fun second =>
    Addition.encoding ⟨subtract, setsFlags, ops.d, ops.n, second⟩

section Register

variable {m : Register} {modifier : Option Modifier} {amount : Int}

end Register

end AdditionOperands

/-! ## The instructions -/

/-- The instructions that add or subtract. -/
inductive AdditionForm where
  /-- The instruction `ADD`, or `ADDS` if it sets the flags. -/
  | add (setsFlags : Bool)
  /-- The instruction `SUB`, or `SUBS` if it sets the flags. -/
  | sub (setsFlags : Bool)
  /-- The instruction `CMP`. -/
  | compare
  /-- The instruction `CMN`. -/
  | compareNegative
deriving DecidableEq, Repr

namespace AdditionForm

/-- The mnemonic of a form. -/
def mnemonic : AdditionForm → Mnemonic
  | add false => ⟨"ADD", .instruction (.addition false false false)⟩
  | add true => ⟨"ADDS", .instruction (.addition false true false)⟩
  | sub false => ⟨"SUB", .instruction (.addition true false false)⟩
  | sub true => ⟨"SUBS", .instruction (.addition true true false)⟩
  | compare => ⟨"CMP", .instruction (.addition true true true)⟩
  | compareNegative => ⟨"CMN", .instruction (.addition false true true)⟩

/-- The second source is subtracted. -/
def subtracts : AdditionForm → Bool
  | sub _ | compare => true
  | add _ | compareNegative => false

/-- The flags are set. -/
def setsFlags : AdditionForm → Bool
  | add setsFlags | sub setsFlags => setsFlags
  | compare | compareNegative => true

/-- The result is discarded. -/
def compares : AdditionForm → Bool
  | compare | compareNegative => true
  | add _ | sub _ => false

/-- The instruction of a form. -/
def instruction (form : AdditionForm) : Instruction :=
  .addition form.subtracts form.setsFlags form.compares

/-- The mnemonic of a form is the one in the table that stands for its instruction. -/
theorem find?_mnemonic (form : AdditionForm) :
    Mnemonic.all.find? (fun m => m.meaning = .instruction form.instruction) =
      some form.mnemonic := by
  rcases form with (_ | _) | (_ | _) | _ | _ <;> decide +kernel

variable {σ Slot : Type} {around : Surroundings σ Slot} {r : Reading σ}

end AdditionForm

end InlineA64
