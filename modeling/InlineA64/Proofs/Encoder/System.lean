import InlineA64.Proofs.Format.Instruction
import InlineA64.Proofs.Reader.Operands

/-!
# Encoders of barriers, system registers and maintenance fill their formats
-/

namespace InlineA64.Encoder

open Reader Format

/-! ## Barriers -/

/-- Barrier options have four bits. -/
theorem barriers_lt : ∀ option ∈ Vocabulary.barriers.entries.map Prod.snd, option < 2 ^ 4 := by
  decide

theorem barrierOption_ensures {taken : List Register} {N : List Register → ℕ → Prop}
    {instruction : Bool} (h : ∀ option < 2 ^ 4, N taken option) :
    (barrierOption instruction).Ensures taken N := by
  simp only [barrierOption, ensures_bind, ensures_sees, ensures_ite, ensures_keyword,
    ensures_wholeWord, ensures_malformed, ensures_pure, true_and]
  refine fun _ => ⟨fun _ => ?_, fun _ => ⟨fun _ => ⟨h 15 (by decide), ?_⟩, fun _ => ?_⟩⟩
  · exact ensures_constant fun option hoption => h option (Nat.lt_succ_of_le hoption)
  · exact fun _ _ => h 15 (by decide)
  · exact fun option hoption => h option (barriers_lt option hoption)

theorem barrier_fills (base : UInt32) (instruction : Bool) :
    (barrier base instruction).Ensures [] (Fills [Formats.barrier base]) := by
  rw [barrier, ensures_bind]
  refine barrierOption_ensures fun option hoption => ?_
  exact .single ((Describes.of base).operand hoption 8) (by simp)

theorem clearExclusive_fills :
    clearExclusive.Ensures [] (Fills [Formats.barrier 0xd503305f]) := by
  rw [clearExclusive, ensures_bind]
  refine ensures_optionalConstant (by decide) fun imm himm => ?_
  exact .single ((Describes.of _).operand (show imm < 2 ^ 4 from Nat.lt_succ_of_le himm) 8)
    (by simp)

/-! ## System registers -/

theorem encode_describes (base : UInt32) {r : SystemRegister} (hr : r.Valid) :
    (Format.of base |>.choice 0x80000 |>.operand 16 3 |>.operand 12 4 |>.operand 8 4
      |>.operand 5 3).Describes (r.encode (Encoding.of base)) :=
  (Describes.of base).choice _ _ |>.operand (show r.op1 < 2 ^ 3 from hr.op1_lt) 16
    |>.operand (show r.crn < 2 ^ 4 from hr.crn_lt) 12
    |>.operand (show r.crm < 2 ^ 4 from hr.crm_lt) 8
    |>.operand (show r.op2 < 2 ^ 3 from hr.op2_lt) 5

theorem systemRegister_describes (base : UInt32) {r : SystemRegister} (hr : r.Valid) {t : Register}
    (ht : Role.plain.Admits t) :
    (Formats.systemRegister base).Describes (r.encode (Encoding.of base) |>.rt t) :=
  (encode_describes base hr).rt ht

theorem readSystemRegister_fills :
    readSystemRegister.Ensures [] (Fills [Formats.systemRegister 0xd5300000]) := by
  simp only [readSystemRegister, ensures_bind, ensures_wideRegister, ensures_comma,
    ensures_request, Request.Allows, Request.registers, List.append_nil, ensures_pure]
  intro t ht _ r hr
  exact .single (systemRegister_describes _ hr ht) (by simp)

/-- The opcodes of a processor state field are within their fields. -/
theorem stateFields_lt : ∀ field ∈ Vocabulary.stateFields.entries.map Prod.snd,
    field.op1 < 2 ^ 3 ∧ field.op2 < 2 ^ 3 := by
  decide

theorem writeSystemRegister_fills :
    writeSystemRegister.Ensures []
      (Fills [Formats.stateField, Formats.systemRegister 0xd5100000]) := by
  simp only [writeSystemRegister, ensures_bind, ensures_wholeWord, ensures_comma,
    ensures_wideRegister, ensures_request, Request.Allows, Request.registers, List.append_nil,
    ensures_pure]
  refine ⟨fun r hr t ht _ => ?_, fun field hfield => ?_⟩
  · exact .of_mem (.tail _ (.head _)) (systemRegister_describes _ hr ht) (by simp)
  · refine ensures_constant fun imm himm => ?_
    obtain ⟨hop1, hop2⟩ := stateFields_lt field hfield
    exact .of_mem (.head _) ((Describes.of _).operand hop1 16
      |>.operand (show imm < 2 ^ 4 from Nat.lt_succ_of_le himm) 8 |>.operand hop2 5) (by simp)

theorem controlRegister_ensures {taken : List Register} {N : List Register → ℕ → Prop}
    (h : ∀ number < 2 ^ 4, N taken number) : controlRegister.Ensures taken N := by
  simp only [controlRegister, ensures_bind, ensures_accept, ensures_ite, ensures_here,
    ensures_value, ensures_liftAt, ensures_malformed, implies_true, and_true]
  exact fun _ _ _ _ number hnumber => h number (Nat.lt_succ_of_le (unsigned_le hnumber))

/-- The operands of a system instruction behind its destination, which the register that may come
last takes the place of. -/
theorem systemOperands_fills {result : Bool} {taken : List Register} {destination : Register}
    (hdestination : Role.plain.Admits destination) (htaken : taken ⊆ [destination])
    (hnone : result = false → taken = []) :
    Reader.Ensures (do
      let op1 ← constant 7
      comma
      let crn ← controlRegister
      comma
      let crm ← controlRegister
      comma
      let op2 ← constant 7
      let t ← (do
        if result then return destination
        else if ← accept .comma then wideRegister
        else return destination)
      return Encoding.of (if result then 0xd5280000 else 0xd5080000)
        |>.field 16 3 op1 |>.field 12 4 crn |>.field 8 4 crm |>.field 5 3 op2 |>.rt t)
      taken (Fills [Formats.system result]) := by
  rw [ensures_bind]
  refine ensures_constant fun op1 hop1 => ?_
  simp only [ensures_bind, ensures_comma]
  refine controlRegister_ensures fun crn hcrn => controlRegister_ensures fun crm hcrm => ?_
  refine ensures_constant fun op2 hop2 => ?_
  have hword {t : Register} (ht : Role.plain.Admits t) :
      (Formats.system result).Describes (Encoding.of (if result then 0xd5280000 else 0xd5080000)
        |>.field 16 3 op1 |>.field 12 4 crn |>.field 8 4 crm |>.field 5 3 op2 |>.rt t) :=
    (Describes.of _).operand (show op1 < 2 ^ 3 from Nat.lt_succ_of_le hop1) 16
      |>.operand hcrn 12 |>.operand hcrm 8
      |>.operand (show op2 < 2 ^ 3 from Nat.lt_succ_of_le hop2) 5 |>.rt ht
  simp only [ensures_ite, ensures_pure, ensures_bind, ensures_accept, ensures_wideRegister]
  refine ⟨fun _ => ?_, fun hresult _ => ⟨fun _ t ht _ => ?_, fun _ => ?_⟩⟩
  · exact .single (hword hdestination) (List.Subset.trans htaken (by simp))
  · rw [hnone (Bool.eq_false_of_not_eq_true hresult)]
    exact .single (hword ht) (by simp)
  · exact .single (hword hdestination) (List.Subset.trans htaken (by simp))

theorem system_fills (result : Bool) :
    (system result).Ensures [] (Fills [Formats.system result]) := by
  rw [system, ensures_bind, ensures_ite]
  refine ⟨fun hresult => ?_, fun _ => ?_⟩
  · rw [ensures_bind, ensures_wideRegister]
    intro t ht _
    rw [ensures_bind, ensures_comma, ensures_pure]
    exact systemOperands_fills ht (by simp) (by simp [hresult])
  · -- without a result the destination is the zero register, unless one is written at the end
    rw [ensures_pure]
    exact systemOperands_fills ⟨Register.valid_zeroOf _, Bool.and_false _⟩ (by simp) (by simp)

/-! ## Maintenance -/

/-- The bits of an operation are among those of its kind. -/
theorem operations_masked {kind : Maintenance} {operation : UInt32}
    (h : operation ∈ (Vocabulary.operations kind).entries.map Prod.snd) :
    operation &&& Formats.maintenanceMask kind = operation := by
  have hall : ((Vocabulary.operations kind).entries.map Prod.snd).all
      (fun operation => operation &&& Formats.maintenanceMask kind == operation) = true := by
    cases kind <;> decide
  exact beq_iff_eq.mp (List.all_eq_true.mp hall operation h)

theorem maintenance_fills (kind : Maintenance) :
    (maintenance kind).Ensures [] (Fills [Formats.maintenance kind]) := by
  have hword {operation : UInt32} {t : Register}
      (hoperation : operation ∈ (Vocabulary.operations kind).entries.map Prod.snd)
      (ht : Role.plain.Admits t) : (Formats.maintenance kind).Describes
        (Encoding.of (maintenanceBase kind) |>.option operation |>.rt t) :=
    (Describes.of _).choose (operations_masked hoperation) |>.rt ht
  simp only [maintenance, ensures_bind, ensures_wholeWord, ensures_malformed, true_and, ensures_ite,
    ensures_pure, ensures_sees, ensures_comma, ensures_wideRegister]
  intro operation hoperation
  have hwritten : ∀ t, Role.plain.Admits t → t.isWide = true →
      Fills [Formats.maintenance kind] ([] ++ [t])
        (Encoding.of (maintenanceBase kind) |>.option operation |>.rt t) :=
    fun t ht _ => .single (hword hoperation ht) (by simp)
  have hzero : Fills [Formats.maintenance kind] []
      (Encoding.of (maintenanceBase kind) |>.option operation |>.rt (.zeroOf .x64)) :=
    .single (hword hoperation ⟨Register.valid_zeroOf _, Bool.and_false _⟩) (by simp)
  exact ⟨fun _ => ⟨fun _ => hwritten, fun _ => hzero⟩,
    fun _ _ => ⟨fun _ => hwritten, fun _ => hzero⟩⟩

end InlineA64.Encoder
