import InlineA64.Proofs.Reader.Operands

/-!
# What the readers of memory operands ensure

The base register of a memory operand can be the stack pointer and not the zero register; of an
index register no more is known than that there is such a register, so what takes it has to look.
-/

namespace InlineA64

namespace MemoryOperand

/-- The registers of a memory operand, as written. -/
def registers : MemoryOperand → List Register
  | offset base _ | preIndexed base _ | postIndexed base _ => [base]
  | indexed base index .. => [base, index]
  | literal _ => []

/-- The base register of the operand can be the stack pointer and not the zero register; the index
register can be anything. -/
def Valid : MemoryOperand → Prop
  | offset base _ | preIndexed base _ | postIndexed base _ => Role.address.Admits base
  | indexed base index .. => Role.address.Admits base ∧ index.Valid
  | literal _ => True

end MemoryOperand

namespace Reader

variable {taken : List Register}

/-- The registers of what stands behind the base register. -/
def Inside.registers : Inside → List Register
  | nothing | offset _ => []
  | index r .. => [r]

theorem ensures_indexModifier {P : List Register → Inside → Prop} {index : Register}
    (h : ∀ modifier amount written, P taken (.index index modifier amount written)) :
    (indexModifier index).Ensures taken P := by
  simp only [indexModifier, ensures_bind, ensures_keyword, ensures_malformed, ensures_sees,
    ensures_ite, ensures_immediate, ensures_pure, true_and]
  exact fun _ _ _ => ⟨fun _ _ => h _ _ _, fun _ => h _ _ _⟩

theorem ensures_inside {P : List Register → Inside → Prop}
    (h : ∀ inside : Inside, (∀ r ∈ inside.registers, r.Valid) →
      P (taken ++ inside.registers) inside) : inside.Ensures taken P := by
  have hindex {index : Register} (hindex : index.Valid) (modifier : Option IndexModifier)
      (amount : Int) (written : Bool) :
      P (taken ++ [index]) (.index index modifier amount written) :=
    h (.index index modifier amount written) (by simpa [Inside.registers] using hindex)
  -- an index takes one more register, and the other ways take none
  have hplain {inside : Inside} (hnone : inside.registers = []) : P taken inside := by
    have hinside := h inside (by simp [hnone])
    rwa [hnone, List.append_nil] at hinside
  simp only [inside, ensures_bind, ensures_accept, ensures_ite, ensures_sees, ensures_immediate,
    ensures_register, ensures_pure]
  refine fun _ => ⟨fun _ _ => ⟨fun _ _ => hplain rfl, fun _ index hvalid _ => ?_⟩,
    fun _ => hplain rfl⟩
  exact ⟨fun _ => ensures_indexModifier (hindex hvalid), fun _ => hindex hvalid _ _ _⟩

theorem ensures_preIndexed {P : List Register → MemoryOperand → Prop} {base : Register}
    {offset : Option Int} (h : ∀ offset, P taken (.preIndexed base offset)) :
    (preIndexed base offset).Ensures taken P := by
  cases offset with
  | none => trivial
  | some offset =>
    simp only [preIndexed, ensures_bind, ensures_accept, ensures_pure]
    exact fun _ => h offset

theorem ensures_postIndexed {P : List Register → MemoryOperand → Prop} {base : Register}
    (h : ∀ offset, P taken (.postIndexed base offset)) : (postIndexed base).Ensures taken P := by
  simp only [postIndexed, ensures_bind, ensures_accept, ensures_immediate, ensures_pure]
  exact fun _ _ => h _

/-- A memory operand takes its own registers, in a role that fits their fields. -/
theorem ensures_address {P : List Register → MemoryOperand → Prop}
    (h : ∀ operand : MemoryOperand, operand.Valid → P (taken ++ operand.registers) operand) :
    address.Ensures taken P := by
  simp only [address, ensures_bind, ensures_sees, ensures_ite, ensures_openBracket,
    ensures_addressRegister, ensures_distance, ensures_pure]
  refine fun _ => ⟨fun _ base hbase _ => ?_, fun _ distance => ?_⟩
  · refine ensures_inside fun inside hinside => ?_
    rw [ensures_closeBracket]
    -- what stands behind the base register decides which forms can follow the bracket
    cases inside with
    | index index modifier amount written =>
      have hindex : index.Valid := hinside index (List.mem_singleton_self index)
      have hvalid := h (.indexed base index modifier amount written) ⟨hbase, hindex⟩
      rwa [MemoryOperand.registers, List.append_cons] at hvalid
    | offset offset =>
      simp only [Inside.registers, List.append_nil, ensures_bind, ensures_sees, ensures_ite,
        ensures_pure]
      refine fun _ => ⟨fun _ => ensures_preIndexed fun offset => ?_, fun _ => ?_⟩
      · exact h (.preIndexed base offset) hbase
      · exact h (.offset base offset) hbase
    | nothing =>
      simp only [Inside.registers, List.append_nil, ensures_bind, ensures_sees, ensures_ite,
        ensures_request, Request.Allows, Request.registers, true_implies, ensures_pure]
      refine fun _ => ⟨fun _ => ensures_preIndexed fun offset => ?_, fun _ _ => ⟨fun _ => ?_,
        fun _ => ?_⟩⟩
      · exact h (.preIndexed base offset) hbase
      · exact ensures_postIndexed fun offset => h (.postIndexed base offset) hbase
      · exact h (.offset base 0) hbase
  · have hvalid := h (.literal distance.toInt) trivial
    rwa [MemoryOperand.registers, List.append_nil] at hvalid

@[simp]
theorem ensures_plainAddress {R : List Register → Register → Prop} :
    plainAddress.Ensures taken R ↔
      ∀ r, Role.address.Admits r → r.isWide = true → R (taken ++ [r]) r := by
  simp only [plainAddress, optionalZeroOffset, ensures_bind, ensures_openBracket,
    ensures_addressRegister, ensures_accept, ensures_ite, ensures_here, ensures_immediate,
    ensures_malformedAt, ensures_closeBracket, ensures_pure, implies_true, true_and]
  constructor
  · exact fun h r hr hwide => (h r hr hwide false).2 (by simp)
  · exact fun h r hr hwide _ => ⟨fun _ _ _ _ => h r hr hwide, fun _ => h r hr hwide⟩

end Reader

end InlineA64
