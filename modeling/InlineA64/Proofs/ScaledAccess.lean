import InlineA64.Proofs.ScaledAccess.Word
import InlineA64.Proofs.Access

/-!
# Scaled accesses

The loads and stores of pairs and the loads through authenticated addresses. The encoders refuse a
register where it stands and an offset when the memory operand has been read; `ScaledForm.read`
reads all operands before anything is refused.

* `ScaledForm.encodes_offset`: which operands are accepted, and that the word is that of the access
  written, its offset included.
-/

namespace InlineA64

/-! ## What is written -/

/-- The base register of a memory operand with an offset, what happens to it, and the offset. -/
def MemoryOperand.based? : MemoryOperand → Option (Register × BaseMode × Int)
  | offset n v => some (n, .kept, v)
  | preIndexed n v => some (n, .preIndexed, v)
  | postIndexed n v => some (n, .postIndexed, v)
  | indexed .. | literal _ => none

/-- The operands of a scaled access. -/
structure ScaledOperands where
  /-- What is moved. -/
  action : ScaledAction
  /-- Where the data are. -/
  operand : MemoryOperand
deriving DecidableEq, Repr

/-- The access that is written, unless its memory operand has an index or is a label. -/
def ScaledOperands.access? (ops : ScaledOperands) : Option ScaledAccess :=
  ops.operand.based?.map fun (n, mode, offset) => ⟨ops.action, n, mode, offset⟩

namespace ScaledAccess

/-- The access can be written: its transfer registers are none of them the stack pointer and have
the widths that it takes, its form is one of its own, and its offset is a whole number of units
within reach. -/
structure Admitted (access : ScaledAccess) : Prop where
  plain : ∀ t ∈ access.action.registers, t.isStackPointer = false
  fits : access.action.Fits
  takes : access.action.Takes access.mode
  multiple : access.offset % access.action.unit = 0
  reaches : access.action.Reaches access.offset

instance (access : ScaledAccess) : Decidable access.Admitted :=
  decidable_of_iff ((∀ t ∈ access.action.registers, t.isStackPointer = false) ∧
      access.action.Fits ∧ access.action.Takes access.mode ∧
      access.offset % access.action.unit = 0 ∧ access.action.Reaches access.offset)
    ⟨fun ⟨hplain, hfits, htakes, hmultiple, hreaches⟩ =>
      ⟨hplain, hfits, htakes, hmultiple, hreaches⟩,
    fun h => ⟨h.plain, h.fits, h.takes, h.multiple, h.reaches⟩⟩

end ScaledAccess

/-! ## What is encoded -/

namespace PairKind

/-- The opcode of a pair. -/
def base : PairKind → UInt32
  | plain load _ => if load then 0x28400000 else 0x28000000
  | signedWords => 0x68400000

/-- The rule that a pair follows. -/
def rule : PairKind → PairRule
  | plain _ nonTemporal => if nonTemporal then .nonTemporal else .indexed
  | signedWords => .signedWord

end PairKind

/-- The bits for what a pair does to its base register. -/
def BaseMode.bits (rule : PairRule) : BaseMode → UInt32
  | kept => if rule = .nonTemporal then 0 else 0x01000000
  | preIndexed => 0x01800000
  | postIndexed => 0x00800000

namespace ScaledAction

/-- The opcode of a load through an authenticated address. -/
def authenticatedBase (second : Bool) : UInt32 :=
  if second then 0xf8a00400 else 0xf8200400

/-- The word of an access, as a function of its offset field. -/
def encoding (n : Register) (mode : BaseMode) (imm : ℕ) : ScaledAction → Encoding
  | pair kind t t2 =>
    Encoding.of kind.base |>.option (mode.bits kind.rule)
      |>.optionIf (t.isWide && kind.rule != .signedWord) 0x80000000 |>.field 15 7 imm
      |>.rt2 t2 |>.rn n |>.rt t
  | authenticated second t =>
    Encoding.of (authenticatedBase second) |>.optionIf (mode == .preIndexed) 0x800
      |>.field 22 1 (imm / 512) |>.imm9 (imm % 512) |>.rn n |>.rt t

end ScaledAction

namespace ScaledOperands

/-- The word for operands, if there is an access with them. -/
def encoding? (ops : ScaledOperands) : Option Encoding :=
  ops.access?.bind fun access =>
    if access.Admitted then
      some (access.action.encoding access.n access.mode
        (access.action.displacement.field access.offset))
    else none

/-- What is known of operands that have been read. -/
structure Valid (ops : ScaledOperands) : Prop where
  registers : ∀ t ∈ ops.action.registers, t.Valid
  operand : ops.operand.Valid
  settled : ops.operand.Settled

variable {ops : ScaledOperands} {e : Encoding}

theorem encoding?_eq_some :
    ops.encoding? = some e ↔ ∃ access, ops.access? = some access ∧ access.Admitted ∧
      access.action.encoding access.n access.mode
        (access.action.displacement.field access.offset) = e := by
  simp [encoding?, Option.bind_eq_some_iff]

/-- The operands that are encoded are those that there is an access with. -/
theorem exists_encoding?_iff :
    (∃ e, ops.encoding? = some e) ↔ ∃ access, ops.access? = some access ∧ access.Admitted := by
  simp only [encoding?_eq_some]
  constructor
  · rintro ⟨-, access, haccess, hadmitted, -⟩
    exact ⟨access, haccess, hadmitted⟩
  · rintro ⟨access, haccess, hadmitted⟩
    exact ⟨_, access, haccess, hadmitted, rfl⟩

/-- The registers of an access that can be written exist. -/
theorem valid_access {access : ScaledAccess} (h : ops.Valid) (haccess : ops.access? = some access)
    (hadmitted : access.Admitted) : access.Valid := by
  obtain ⟨action, operand⟩ := ops
  obtain ⟨hregisters, hoperand, hsettled⟩ := h
  obtain ⟨⟨n, mode, offset⟩, hbased, rfl⟩ := Option.map_eq_some_iff.mp haccess
  obtain ⟨hplain, hfits, htakes, hmultiple, hreaches⟩ := hadmitted
  have hn : Role.address.Admits n ∧ n.width = .x64 := by
    cases operand with
    | offset | preIndexed | postIndexed =>
      cases hbased
      exact ⟨hoperand, hsettled⟩
    | indexed | literal => cases hbased
  exact ⟨fun t ht => ⟨hregisters t ht, hplain t ht⟩, hfits, hn.1, hn.2, htakes,
    (ScaledAction.admits_iff _ _).mpr ⟨hmultiple, hreaches⟩⟩

end ScaledOperands

/-! ## The word -/

/-- The word of an access is its number. -/
theorem ScaledAccess.total_encoding {access : ScaledAccess} (h : access.Valid) :
    (access.action.encoding access.n access.mode
      (access.action.displacement.field access.offset)).total = access.number := by
  obtain ⟨action, n, mode, offset⟩ := access
  cases action with
  | pair kind t t2 =>
    -- signed words have their size in the opcode, and all others have it in a bit of their own
    have hbase : kind.base.toNat = 0x28000000 + kind.loads.toNat * 2 ^ 22 +
        if kind = .signedWords then 2 ^ 30 else 0 := by
      rcases kind with ⟨_ | _, _ | _⟩ | _ <;> rfl
    have hmode : (mode.bits kind.rule).toNat = mode.number kind.hinted * 2 ^ 23 := by
      rcases kind with ⟨_ | _, _ | _⟩ | _ <;> cases mode <;> rfl
    have hsize : (t.isWide && kind.rule != .signedWord).toNat * (0x80000000 : UInt32).toNat +
        (if kind = .signedWords then 2 ^ 30 else 0) = kind.size t.isWide * 2 ^ 30 := by
      rcases kind with ⟨_ | _, _ | _⟩ | _ <;> cases t.isWide <;> rfl
    simp only [ScaledAction.encoding, number, Encoding.total_rt, Encoding.total_rn,
      Encoding.total_rt2, Encoding.total_field, Encoding.total_optionIf, Encoding.total_option,
      Encoding.total_of, hbase, hmode]
    omega
  | authenticated second t =>
    have hbase : (ScaledAction.authenticatedBase second).toNat =
        0xf8200400 + second.toNat * 2 ^ 23 := by
      cases second <;> rfl
    have hmoved : (0x800 : UInt32).toNat = 2 ^ 11 := rfl
    simp only [ScaledAction.encoding, number, Encoding.total_rt, Encoding.total_rn, Encoding.imm9,
      Encoding.total_field, Encoding.total_optionIf, Encoding.total_of, hbase, hmoved]
    omega

/-! ## The instructions -/

/-- The loads and stores of pairs, and the loads through authenticated addresses. -/
inductive ScaledForm where
  /-- The instructions `LDP` and `STP`, `LDNP` and `STNP`, or `LDPSW`. -/
  | pair (kind : PairKind)
  /-- The instruction `LDRAA`, or `LDRAB`. -/
  | authenticated (second : Bool)
deriving DecidableEq, Repr

namespace ScaledForm

open Reader

/-- The instruction of a form. -/
def instruction : ScaledForm → Instruction
  | pair kind => .pairTransfer kind.base kind.rule
  | authenticated second => .authenticatedLoad (ScaledAction.authenticatedBase second)

/-- The mnemonic of a form. -/
def mnemonic (form : ScaledForm) : Mnemonic :=
  ⟨match form with
    | pair (.plain true false) => "LDP" | pair (.plain false false) => "STP"
    | pair (.plain true true) => "LDNP" | pair (.plain false true) => "STNP"
    | pair .signedWords => "LDPSW"
    | authenticated false => "LDRAA" | authenticated true => "LDRAB",
    .instruction form.instruction⟩

/-- The mnemonic of a form is the one in the table that stands for its instruction. -/
theorem find?_mnemonic (form : ScaledForm) :
    Mnemonic.all.find? (fun m => m.meaning = .instruction form.instruction) =
      some form.mnemonic := by
  rcases form with (⟨_ | _, _ | _⟩ | _) | (_ | _) <;> decide +kernel

theorem mnemonic_mem (form : ScaledForm) : form.mnemonic ∈ Mnemonic.all :=
  List.mem_of_find?_eq_some form.find?_mnemonic

/-! ## What is read -/

/-- Read the registers that are moved. -/
def readAction : ScaledForm → Reader ScaledAction
  | pair kind => do
    let t ← register
    comma
    return .pair kind t (← register)
  | authenticated second => do
    return .authenticated second (← register)

/-- Read the operands of a scaled access. -/
def read (form : ScaledForm) : Reader ScaledOperands := do
  let action ← form.readAction
  comma
  return ⟨action, ← Reader.address⟩

/-- What is known of operands that have been read. -/
theorem read_ensures (form : ScaledForm) : form.read.Ensures [] fun _ ops => ops.Valid := by
  have haddress {taken : List Register} :
      Reader.address.Ensures taken fun _ operand => operand.Valid ∧ operand.Settled :=
    (ensures_address fun operand hvalid => hvalid).and address_settled
  cases form with
  | pair kind =>
    simp only [read, readAction, ensures_bind, ensures_register, ensures_comma, ensures_pure]
    refine fun t ht t2 ht2 => haddress.mono fun taken operand hoperand => ?_
    refine ⟨?_, hoperand.1, hoperand.2⟩
    simpa [ScaledAction.registers] using ⟨ht, ht2⟩
  | authenticated second =>
    simp only [read, readAction, ensures_bind, ensures_register, ensures_comma, ensures_pure]
    refine fun t ht => haddress.mono fun taken operand hoperand => ?_
    refine ⟨?_, hoperand.1, hoperand.2⟩
    simpa [ScaledAction.registers] using ht

/-! ## The encoder -/

section Matches

variable {σ Slot : Type} {around : Surroundings σ Slot} {action : ScaledAction}
  {operand : MemoryOperand}

/-- Nothing is encoded for registers that are refused. -/
theorem encoding?_of_refused
    (h : ¬((∀ t ∈ action.registers, t.isStackPointer = false) ∧ action.Fits)) :
    ScaledOperands.encoding? ⟨action, operand⟩ = none := by
  rw [Option.eq_none_iff_forall_ne_some]
  rintro e he
  obtain ⟨access, haccess, hadmitted, -⟩ := ScaledOperands.encoding?_eq_some.mp he
  obtain ⟨based, -, rfl⟩ := Option.map_eq_some_iff.mp haccess
  exact h ⟨hadmitted.plain, hadmitted.fits⟩

/-- Nothing is encoded for a form that the access does not take. -/
theorem encoding?_of_mode
    (h : ∀ n mode offset, operand.based? = some (n, mode, offset) → ¬action.Takes mode) :
    ScaledOperands.encoding? ⟨action, operand⟩ = none := by
  rw [Option.eq_none_iff_forall_ne_some]
  rintro e he
  obtain ⟨access, haccess, hadmitted, -⟩ := ScaledOperands.encoding?_eq_some.mp he
  obtain ⟨⟨n, mode, offset⟩, hbased, rfl⟩ := Option.map_eq_some_iff.mp haccess
  exact h n mode offset hbased hadmitted.takes

/-- Where the registers and the form are right, the offset decides. -/
theorem encoding?_of_based {n : Register} {mode : BaseMode} {offset : Int}
    (hplain : ∀ t ∈ action.registers, t.isStackPointer = false) (hfits : action.Fits)
    (htakes : action.Takes mode) (hbased : operand.based? = some (n, mode, offset)) :
    ScaledOperands.encoding? ⟨action, operand⟩ =
      (action.displacement.encode true offset).toOption.map (action.encoding n mode) := by
  have hadmitted : (ScaledAccess.mk action n mode offset).Admitted ↔
      action.displacement.admits offset = true := by
    rw [ScaledAction.admits_iff]
    exact ⟨fun h => ⟨h.multiple, h.reaches⟩, fun h => ⟨hplain, hfits, htakes, h.1, h.2⟩⟩
  rw [ScaledOperands.encoding?, ScaledOperands.access?, hbased, Displacement.encode]
  simp only [Option.map_some, Option.bind_some, hadmitted, Bool.true_and]
  cases action.displacement.admits offset <;> rfl

section Pair

variable {kind : PairKind} {t t2 : Register}

/-- The form of a pair is the one that its operand is written in, if its kind has that. -/
theorem pairOperand?_eq_some {n : Register} {mode : BaseMode} {offset : Int}
    (hbased : operand.based? = some (n, mode, offset))
    (htakes : (ScaledAction.pair kind t t2).Takes mode) :
    Encoder.pairOperand? kind.rule operand = some (mode.bits kind.rule, n, offset) := by
  cases operand <;> cases hbased <;> rcases kind with ⟨_, _ | _⟩ | _ <;>
    first | rfl | exact absurd (htakes rfl) (by decide)

theorem pairOperand?_eq_none (h : ∀ n mode offset, operand.based? = some (n, mode, offset) →
      ¬(ScaledAction.pair kind t t2).Takes mode) :
    Encoder.pairOperand? kind.rule operand = none := by
  cases operand with
  | indexed | literal => rfl
  | offset | preIndexed | postIndexed =>
    have hnot := h _ _ _ rfl
    rcases kind with ⟨_, _ | _⟩ | _ <;>
      first | rfl | exact absurd (by simp [ScaledAction.Takes]) hnot

end Pair

/-- The memory operand of a pair is checked when it has been read. -/
theorem matches_pairOperand {kind : PairKind} {t t2 : Register} {mark : Mark}
    (hplain : ∀ r ∈ (ScaledAction.pair kind t t2).registers, r.isStackPointer = false)
    (hfits : (ScaledAction.pair kind t t2).Fits) :
    Matches around
      (match Encoder.pairOperand? kind.rule operand with
        | none => malformedAt mark .addressingMode
        | some (mode, n, offset) => do
          let doubleword := t.isWide && kind.rule != .signedWord
          let imm ← liftAt mark ((Displacement.pair doubleword).encode true offset)
          return Encoding.of kind.base |>.option mode |>.optionIf doubleword 0x80000000
            |>.field 15 7 imm |>.rt2 t2 |>.rn n |>.rt t)
      (verdict (ScaledOperands.encoding? ⟨.pair kind t t2, operand⟩)) := by
  have hdisplacement : (ScaledAction.pair kind t t2).displacement =
      .pair (t.isWide && kind.rule != .signedWord) := by
    rcases kind with ⟨_, _ | _⟩ | _ <;> simp only [ScaledAction.displacement] <;>
      cases t.isWide <;> rfl
  by_cases htaken : ∃ n mode offset, operand.based? = some (n, mode, offset) ∧
      (ScaledAction.pair kind t t2).Takes mode
  · obtain ⟨n, mode, offset, hbased, htakes⟩ := htaken
    rw [pairOperand?_eq_some hbased htakes, encoding?_of_based hplain hfits htakes hbased,
      hdisplacement]
    exact matches_liftAt_map
  · have hrefused (n : Register) (mode : BaseMode) (offset : Int)
        (hbased : operand.based? = some (n, mode, offset)) :
        ¬(ScaledAction.pair kind t t2).Takes mode :=
      fun htakes => htaken ⟨n, mode, offset, hbased, htakes⟩
    rw [pairOperand?_eq_none hrefused, encoding?_of_mode hrefused]
    exact .of_barren trivial trivial

theorem matches_pair (kind : PairKind) :
    Matches around (Encoder.pairTransfer kind.base kind.rule)
      ((pair kind).read >>= fun ops => verdict ops.encoding?) := by
  simp only [Encoder.pairTransfer, read, readAction, Reader.bind_assoc, Reader.pure_bind]
  -- a register that is refused stops the encoder, and the decision will be against it
  refine matches_here_bind fun start => matches_plainRegister_bind (fun t ht => ?_) fun t ht => ?_
  · by_cases hsigned : kind.rule = .signedWord ∧ (!t.isWide) = true
    · rw [if_pos hsigned]
      refine .of_barren trivial (.of_right fun _ => .of_right fun t2 => .of_right fun _ => ?_)
      refine barren_bind_verdict fun operand => encoding?_of_refused ?_
      rcases kind with ⟨_, _ | _⟩ | _
      case signedWords =>
        rintro ⟨-, hwide, -⟩
        have hnarrow : t.isWide = false := by simpa using hsigned.2
        rw [Register.isWide_iff.mpr hwide] at hnarrow
        cases hnarrow
      all_goals exact absurd hsigned.1 (by simp [PairKind.rule])
    · rw [if_neg hsigned]
      refine matches_comma.bind fun _ => matches_registerOf_bind (fun t2 ht2 hwidth => ?_) ?_
      · refine matches_comma.bind fun _ => matches_here_bind fun start' => ?_
        refine matches_address.bind fun operand => matches_pairOperand ?_ ?_
        · simpa [ScaledAction.registers] using ⟨ht, ht2⟩
        · cases kind with
          | plain => exact hwidth
          | signedWords =>
            have hwide : t.width = .x64 := by
              rw [← Register.isWide_iff]
              simpa [PairKind.rule] using hsigned
            exact ⟨hwide, hwidth.trans hwide⟩
      · refine fun t2 hout => .of_right fun _ => ?_
        refine barren_bind_verdict fun operand => encoding?_of_refused fun h => hout ?_
        refine ⟨h.1 t2 (by simp [ScaledAction.registers]), ?_⟩
        cases kind with
        | plain => exact h.2
        | signedWords => exact h.2.2.trans h.2.1.symm
  · refine .of_right fun _ => .of_right fun t2 => .of_right fun _ => ?_
    refine barren_bind_verdict fun operand => encoding?_of_refused fun h => ?_
    have hplain := h.1 t (by simp [ScaledAction.registers])
    rw [ht] at hplain
    cases hplain

theorem matches_authenticated (second : Bool) :
    Matches around (Encoder.authenticatedLoad (ScaledAction.authenticatedBase second))
      ((authenticated second).read >>= fun ops => verdict ops.encoding?) := by
  simp only [Encoder.authenticatedLoad, wideRegister, read, readAction, Reader.bind_assoc,
    Reader.pure_bind]
  -- the register is read as any, and refused if it is narrow or the stack pointer
  refine matches_here_bind fun start => matches_register.bind fun t => ?_
  by_cases hrefused : (!t.isWide || t.isStackPointer) = true
  · rw [if_pos hrefused]
    refine .of_barren trivial (.of_right fun _ => ?_)
    refine barren_bind_verdict fun operand => encoding?_of_refused fun h => ?_
    have hplain := h.1 t (by simp [ScaledAction.registers])
    have hwide : t.isWide = true := Register.isWide_iff.mpr h.2
    simp [hplain, hwide] at hrefused
  · rw [if_neg hrefused, Reader.pure_bind]
    obtain ⟨hwide, hplain⟩ : t.isWide = true ∧ t.isStackPointer = false := by
      simpa using hrefused
    have hregisters : ∀ r ∈ (ScaledAction.authenticated second t).registers,
        r.isStackPointer = false := by
      simpa [ScaledAction.registers] using hplain
    have hfits : (ScaledAction.authenticated second t).Fits := Register.isWide_iff.mp hwide
    refine matches_comma.bind fun _ => matches_here_bind fun start' => ?_
    refine matches_address.bind fun operand => ?_
    cases operand with
    | offset n offset | preIndexed n offset =>
      rw [encoding?_of_based hregisters hfits (by simp [ScaledAction.Takes]) rfl]
      exact matches_liftAt_map
    | postIndexed | indexed | literal =>
      rw [encoding?_of_mode (by simp [MemoryOperand.based?, ScaledAction.Takes])]
      exact .of_barren trivial trivial

/-- A scaled access is decided on when its operands have been read. -/
theorem matches_read (form : ScaledForm) :
    Matches around form.instruction.encoder (form.read >>= fun ops => verdict ops.encoding?) := by
  cases form with
  | pair kind => exact matches_pair kind
  | authenticated second => exact matches_authenticated second

/-! ## The offset -/

variable {r : Reading σ}

/-- Once the operands of a scaled access have been read, it is accepted if and only if there is such
an access: its transfer registers can be named, its form is one that the instruction has, and its
offset is a whole number of units within reach. A processor finds that access in the word that is
assembled, with the offset, the form and the registers that are written. -/
theorem encodes_offset (form : ScaledForm) :
    (∀ ops r₁, form.read.run around r = .ok ops r₁ →
      ((∃ e r', form.instruction.encoder.run around r = .ok e r') ↔
        ∃ access, ops.access? = some access ∧ access.Admitted)) ∧
    ∀ e r', form.instruction.encoder.run around r = .ok e r' →
      ∃ ops r₁, form.read.run around r = .ok ops r₁ ∧
        ∃ access, ops.access? = some access ∧ ScaledAccess.ofWord? e.word = some access := by
  refine ⟨fun ops r₁ hread => ?_, fun e r' h => ?_⟩
  · calc (∃ e r', form.instruction.encoder.run around r = .ok e r')
        ↔ ∃ e, ops.encoding? = some e :=
          exists_congr fun e => form.matches_read.run_iff_of_operands hread
      _ ↔ ∃ access, ops.access? = some access ∧ access.Admitted :=
          ScaledOperands.exists_encoding?_iff
  · obtain ⟨r₂, hrun⟩ := form.matches_read.exists_run h
    obtain ⟨ops, r₁, hread, hencoding⟩ := exists_of_run_verdict hrun
    refine ⟨ops, r₁, hread, ?_⟩
    obtain ⟨access, haccess, hadmitted, rfl⟩ := ScaledOperands.encoding?_eq_some.mp hencoding
    have hvalid : access.Valid :=
      ScaledOperands.valid_access (form.read_ensures.run hread) haccess hadmitted
    have hword := Instruction.toNat_word form.mnemonic_mem rfl h
    rw [ScaledAccess.total_encoding hvalid] at hword
    exact ⟨access, haccess, ScaledAccess.ofWord?_of_toNat hvalid hword⟩

end Matches

/-- The lowest offset of an authenticated load is its sign alone. -/
theorem encodes_offset_lowest :
    ∃ e r', (authenticated true).instruction.encoder.run
        ⟨Machine.environment, ⟨0x8000, 0x8000, .standard⟩, "LDRAB"⟩
        ⟨.ofString " X1,[SP,#-4096]!", .ofBase 0x8000, []⟩ = .ok e r' ∧
      ScaledAccess.ofWord? e.word =
        some ⟨.authenticated true (.x 1), .x 31, .preIndexed, -4096⟩ := by
  obtain ⟨r₁, hread⟩ : ∃ r₁, (authenticated true).read.run
      ⟨Machine.environment, ⟨0x8000, 0x8000, .standard⟩, "LDRAB"⟩
      ⟨.ofString " X1,[SP,#-4096]!", .ofBase 0x8000, []⟩ =
        .ok ⟨.authenticated true (.x 1), .preIndexed (.x 31) (-4096)⟩ r₁ := by
    apply run'_eq_some.mp
    decide +kernel
  obtain ⟨haccepted, hfound⟩ := @encodes_offset _ _
    ⟨Machine.environment, ⟨0x8000, 0x8000, .standard⟩, "LDRAB"⟩
    ⟨.ofString " X1,[SP,#-4096]!", .ofBase 0x8000, []⟩ (authenticated true)
  obtain ⟨e, r', h⟩ := (haccepted _ r₁ hread).mpr ⟨_, rfl, by decide⟩
  refine ⟨e, r', h, ?_⟩
  obtain ⟨ops, r₂, hread', access, haccess, hword⟩ := hfound e r' h
  cases hread.symm.trans hread'
  rw [hword, ← haccess]
  decide

end ScaledForm

end InlineA64
