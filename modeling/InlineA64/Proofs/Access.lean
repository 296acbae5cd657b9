import InlineA64.Proofs.Access.Operands
import InlineA64.Proofs.Reader.Matches

/-!
# Accesses

The loads and stores of one register, and the prefetch, take a memory operand in brackets.
`AccessForm.read` reads what they take; the encoder checks the memory operand against the size of
the access when it has read it.

* `AccessForm.encodes_address`: which memory operands are accepted, and that the word is that of the
  access written.
-/

namespace InlineA64

/-- The loads, stores and prefetches of one register. -/
inductive AccessForm where
  /-- The instruction `LDR`, or `STR`. -/
  | whole (load : Bool)
  /-- The instructions `LDRB` and `LDRH`, or `STRB` and `STRH`. -/
  | part (half load : Bool)
  /-- The instruction `LDRSB`, or `LDRSH` of two bytes. -/
  | signedPart (half : Bool)
  /-- The instruction `LDRSW`. -/
  | signedWord
  /-- The instruction `PRFM`. -/
  | prefetch
deriving DecidableEq, Repr

namespace AccessForm

open Reader

/-- The instruction of a form. -/
def instruction : AccessForm → Instruction
  | whole load => .transfer none load
  | part half load => .transfer (some half.toNat) load
  | signedPart half => .signedLoad half.toNat
  | signedWord => .signedLoad 2
  | prefetch => .prefetch

/-- The mnemonic of a form. -/
def mnemonic (form : AccessForm) : Mnemonic :=
  ⟨match form with
    | whole true => "LDR" | whole false => "STR"
    | part false true => "LDRB" | part false false => "STRB"
    | part true true => "LDRH" | part true false => "STRH"
    | signedPart false => "LDRSB" | signedPart true => "LDRSH"
    | signedWord => "LDRSW"
    | prefetch => "PRFM",
    .instruction form.instruction⟩

/-- The mnemonic of a form is the one in the table that stands for its instruction. -/
theorem find?_mnemonic (form : AccessForm) :
    Mnemonic.all.find? (fun m => m.meaning = .instruction form.instruction) =
      some form.mnemonic := by
  rcases form with (_ | _) | ⟨_ | _, _ | _⟩ | (_ | _) | _ | _ <;> decide +kernel

theorem mnemonic_mem (form : AccessForm) : form.mnemonic ∈ Mnemonic.all :=
  List.mem_of_find?_eq_some form.find?_mnemonic

/-! ## What is read -/

/-- What a load or store without a sign does with its register. -/
def plainAction : Bool → Register → AccessAction
  | true, t => .load false t
  | false, t => .store t

/-- Read what is moved, and find its size. -/
def readAction : AccessForm → Reader (ℕ × AccessAction)
  | whole load => do
    let t ← plainRegister
    return (if t.isWide then 3 else 2, plainAction load t)
  | part half load => do
    let t ← plainRegister
    if t.isWide then malformed .register
    else return (half.toNat, plainAction load t)
  | signedPart half => do
    let t ← plainRegister
    return (half.toNat, .load true t)
  | signedWord => do
    let t ← plainRegister
    if t.isWide then return (2, .load true t)
    else malformed .register
  | prefetch => do
    let operation ← Encoder.prefetchOperation
    return (3, .prefetch operation)

/-- Read the operands of an access. -/
def read (form : AccessForm) : Reader AccessOperands := do
  let (scale, action) ← form.readAction
  comma
  return ⟨scale, action, ← Reader.address⟩

/-- What is encoded for a label, wherever a fault would be reported. -/
def literalEncoding (form : AccessForm) (action : AccessAction) (offset : Int) : Reader Encoding :=
  match form, action with
  | whole true, .load _ t => do
    return (← Encoder.literalLoad 0x18000000 ⟨0⟩ offset t).optionIf t.isWide 0x40000000
  | signedWord, .load _ t => Encoder.literalLoad 0x98000000 ⟨0⟩ offset t
  | prefetch, .prefetch operation => do
    let imm ← reachable ⟨0⟩ .literal offset
    return Encoding.of 0xd8000000 |>.imm19 imm |>.field 0 5 operation
  | _, _ => malformed .noLiteralForm

/-- What is encoded for operands. -/
def encode (form : AccessForm) (ops : AccessOperands) : Reader Encoding :=
  match ops.operand with
  | .literal offset => form.literalEncoding ops.action offset
  | _ => verdict ops.encoding?

end AccessForm

/-- The base register of a memory operand has been checked, and an amount is written or 0. -/
theorem Reader.address_settled {taken : List Register} :
    Reader.address.Ensures taken fun _ operand => operand.Settled := by
  simp only [address, inside, indexModifier, preIndexed, postIndexed, ensures_bind, ensures_sees,
    ensures_ite, ensures_openBracket, ensures_addressRegister, ensures_accept, ensures_immediate,
    ensures_register, ensures_keyword, ensures_malformed, ensures_pure, ensures_closeBracket,
    ensures_distance, ensures_request, Request.Allows, Register.isWide_iff]
  simp +contextual [MemoryOperand.Settled]

namespace AccessForm

open Reader

theorem valid_plainAction {scale : ℕ} {load : Bool} {t : Register} (ht : Role.plain.Admits t)
    (hwidth : t.width = if scale = 3 then .x64 else .w32) : (plainAction load t).Valid scale := by
  cases load <;> exact ⟨ht, hwidth⟩

theorem readAction_ensures (form : AccessForm) :
    form.readAction.Ensures [] fun _ (scale, action) => scale ≤ 3 ∧ action.Valid scale := by
  have hwidth (t : Register) : t.width = if t.isWide then .x64 else .w32 := by
    unfold Register.isWide
    cases t.width <;> decide
  cases form with
  | whole load =>
    simp only [readAction, ensures_bind, ensures_plainRegister, ensures_pure]
    intro t ht
    -- a whole register is as wide as its scale says
    refine ⟨by split <;> decide, valid_plainAction ht ?_⟩
    rw [hwidth t]
    cases t.isWide <;> rfl
  | part half load =>
    simp only [readAction, ensures_bind, ensures_plainRegister, ensures_ite, ensures_malformed,
      ensures_pure, implies_true, true_and]
    intro t ht hnarrow
    refine ⟨by cases half <;> decide, valid_plainAction ht ?_⟩
    rw [hwidth t, if_neg hnarrow]
    cases half <;> rfl
  | signedPart half =>
    simp only [readAction, ensures_bind, ensures_plainRegister, ensures_pure]
    refine fun t ht => ⟨?_, ht, ?_, ?_⟩ <;> cases half <;> simp
  | signedWord =>
    simp only [readAction, ensures_bind, ensures_plainRegister, ensures_ite, ensures_malformed,
      ensures_pure, implies_true, and_true]
    exact fun t ht hwide => ⟨by decide, ht, by decide, fun _ => hwide⟩
  | prefetch =>
    rw [readAction, ensures_bind]
    exact Encoder.prefetchOperation_ensures fun operation hlt => ⟨le_rfl, rfl, hlt⟩

/-- What is known of operands that have been read. -/
theorem read_ensures (form : AccessForm) : form.read.Ensures [] fun _ ops => ops.Valid := by
  rw [read, ensures_bind]
  refine form.readAction_ensures.mono fun taken (scale, action) h => ?_
  simp only [ensures_bind, ensures_comma, ensures_pure]
  have haddress : Reader.address.Ensures taken fun _ operand => operand.Valid :=
    ensures_address fun operand hvalid => hvalid
  exact (haddress.and address_settled).mono fun taken operand hoperand =>
    ⟨h.1, h.2, hoperand.1, hoperand.2⟩

/-! ## The encoder -/

theorem encode_of_ne_literal {form : AccessForm} {ops : AccessOperands}
    (h : ∀ offset, ops.operand ≠ .literal offset) :
    form.encode ops = verdict ops.encoding? := by
  unfold encode
  split
  · next offset hoffset => exact absurd hoffset (h offset)
  · rfl

section Matches

variable {σ Slot : Type} {around : Surroundings σ Slot}

theorem matches_prefetchOperation :
    Matches around Encoder.prefetchOperation Encoder.prefetchOperation := by
  unfold Encoder.prefetchOperation
  refine (matches_sees _).bind fun seen => .ite (fun _ => matches_constant _ _) fun _ => ?_
  refine matches_here fun start start' => (matches_keyword _).bind fun kind? => ?_
  refine (matches_keyword _).bind fun cache? => (matches_keyword _).bind fun policy? => ?_
  rcases kind? with _ | kind <;> rcases cache? with _ | cache <;> rcases policy? with _ | policy
  case some.some.some => exact matches_pure _
  all_goals exact .of_barren trivial trivial

theorem matches_literalLoad (base : UInt32) (mark mark' : Mark) (offset : Int) (t : Register) :
    Matches around (Encoder.literalLoad base mark offset t)
      (Encoder.literalLoad base mark' offset t) :=
  (matches_reachable mark mark' _ _).bind fun _ => matches_pure _

/-- An operand in brackets is decided on by what is encoded of it. -/
theorem matches_operand {form : AccessForm} {mark : Mark} {ops : AccessOperands}
    {checked : Except Fault Encoding} {fill : Encoding → Encoding}
    (hchecked : ops.operandEncoding = checked) (hfill : ∀ e, ops.action.fill ops.scale e = fill e)
    (h : ∀ offset, ops.operand ≠ .literal offset) :
    Matches around (liftAt mark checked >>= fun e => pure (fill e)) (form.encode ops) := by
  rw [encode_of_ne_literal h, ← hchecked, ← funext hfill]
  exact matches_liftAt_map

theorem matches_whole (load : Bool) :
    Matches around (Encoder.transfer none load) ((whole load).read >>= (whole load).encode) := by
  simp only [Encoder.transfer, read, readAction, Reader.bind_assoc, Reader.pure_bind]
  refine matches_here_bind fun start => matches_plainRegister.bind fun t => ?_
  refine matches_comma.bind fun _ => matches_here_bind fun start' => ?_
  refine matches_address.bind fun operand => ?_
  -- a label is taken by a load, and refused at its own position by a store
  cases load with
  | true =>
    cases operand with
    | literal offset => exact (matches_literalLoad _ _ _ _ _).bind fun _ => matches_pure _
    | offset | preIndexed | postIndexed | indexed =>
      exact matches_operand rfl (fun _ => rfl) (by simp)
  | false =>
    cases operand with
    | literal offset => exact .of_barren trivial trivial
    | offset | preIndexed | postIndexed | indexed =>
      exact matches_operand rfl (fun _ => rfl) (by simp)

theorem matches_part (half load : Bool) :
    Matches around (Encoder.transfer (some half.toNat) load)
      ((part half load).read >>= (part half load).encode) := by
  simp only [Encoder.transfer, read, readAction, Reader.bind_assoc, Reader.pure_bind]
  refine matches_here_bind fun start => matches_plainRegister.bind fun t => ?_
  -- a register of 64 bits is refused before anything else is read
  cases hwide : t.isWide with
  | true => exact .of_barren trivial trivial
  | false =>
    refine matches_comma.bind fun _ => matches_here_bind fun start' => ?_
    refine matches_address.bind fun operand => ?_
    cases operand with
    | literal offset => cases load <;> exact .of_barren trivial trivial
    | offset | preIndexed | postIndexed | indexed =>
      cases load <;> exact matches_operand rfl (fun _ => rfl) (by simp)

theorem matches_signedPart (half : Bool) :
    Matches around (Encoder.signedLoad half.toNat)
      ((signedPart half).read >>= (signedPart half).encode) := by
  have hscale : half.toNat ≠ 2 := by cases half <;> decide
  simp only [Encoder.signedLoad, Encoder.transferRegister, if_neg hscale, read, readAction,
    Reader.bind_assoc, Reader.pure_bind]
  refine matches_here_bind fun start => matches_plainRegister.bind fun t => ?_
  refine matches_comma.bind fun _ => matches_here_bind fun start' => ?_
  refine matches_address.bind fun operand => ?_
  cases operand with
  | literal offset => cases half <;> exact .of_barren trivial trivial
  | offset | preIndexed | postIndexed | indexed =>
    exact matches_operand rfl (fun _ => rfl) (by simp)

theorem matches_signedWord :
    Matches around (Encoder.signedLoad 2) (signedWord.read >>= signedWord.encode) := by
  simp only [Encoder.signedLoad, Encoder.transferRegister, if_true, read, readAction,
    Reader.bind_assoc, Reader.pure_bind]
  refine matches_here_bind fun start => matches_plainRegister.bind fun t => ?_
  simp only [Encoder.transferBits?]
  cases hwide : t.isWide with
  | false => exact .of_barren trivial trivial
  | true =>
    refine matches_comma.bind fun _ => matches_here_bind fun start' => ?_
    refine matches_address.bind fun operand => ?_
    cases operand with
    | literal offset => exact matches_literalLoad _ _ _ _ _
    | offset | preIndexed | postIndexed | indexed =>
      exact matches_operand rfl (fun _ => by simp [AccessAction.fill, hwide]) (by simp)

theorem matches_prefetch :
    Matches around Encoder.prefetch (prefetch.read >>= prefetch.encode) := by
  simp only [Encoder.prefetch, read, readAction, Reader.bind_assoc, Reader.pure_bind]
  refine matches_prefetchOperation.bind fun operation => ?_
  refine matches_comma.bind fun _ => matches_here_bind fun start => ?_
  refine matches_address.bind fun operand => ?_
  cases operand with
  | literal offset => exact (matches_reachable _ _ _ _).bind fun _ => matches_pure _
  | offset | preIndexed | postIndexed | indexed =>
    exact matches_operand rfl (fun _ => rfl) (by simp)

/-- The memory operand is checked when it has been read. -/
theorem matches_encode (form : AccessForm) :
    Matches around form.instruction.encoder (form.read >>= form.encode) := by
  cases form with
  | whole load => exact matches_whole load
  | part half load => exact matches_part half load
  | signedPart half => exact matches_signedPart half
  | signedWord => exact matches_signedWord
  | prefetch => exact matches_prefetch

/-! ## What is accessed -/

variable {r r₁ : Reading σ} {ops : AccessOperands}

/-- An access in brackets is encoded as its operands are. -/
theorem run_eq_ok_iff {form : AccessForm} (hread : form.read.run around r = .ok ops r₁)
    (hbrackets : ∀ offset, ops.operand ≠ .literal offset) {e : Encoding} :
    (∃ r', form.instruction.encoder.run around r = .ok e r') ↔ ops.encoding? = some e := by
  have hdecided : (form.read >>= form.encode).run around r =
      (verdict ops.encoding?).run around r₁ := by
    rw [run_bind, bind_of_ok hread, encode_of_ne_literal hbrackets]
  exact form.matches_encode.run_eq_ok_iff hdecided

/-- Once the operands of an access have been read, with the memory operand in brackets, it is
accepted if and only if there is an access with them. A processor finds that access in the word that
is assembled. -/
theorem encodes_address (form : AccessForm) :
    (∀ ops r₁, form.read.run around r = .ok ops r₁ → (∀ offset, ops.operand ≠ .literal offset) →
      ((∃ e r', form.instruction.encoder.run around r = .ok e r') ↔ ops.Admitted)) ∧
    ∀ e r', form.instruction.encoder.run around r = .ok e r' →
      ∃ ops r₁, form.read.run around r = .ok ops r₁ ∧
        ((∀ offset, ops.operand ≠ .literal offset) →
          ∃ access, ops.access? = some access ∧ Access.ofWord? e.word = some access) := by
  refine ⟨fun ops r₁ hread hbrackets => ?_, fun e r' h => ?_⟩
  -- what has been read is known to be valid, so that only the memory operand is left to be checked
  · have hvalid : ops.Valid := form.read_ensures.run hread
    calc (∃ e r', form.instruction.encoder.run around r = .ok e r')
        ↔ ∃ e, ops.encoding? = some e := exists_congr fun e => run_eq_ok_iff hread hbrackets
      _ ↔ ops.Admitted := AccessOperands.exists_encoding?_iff hvalid
  · obtain ⟨r₂, hrun⟩ := form.matches_encode.exists_run h
    rw [run_bind] at hrun
    obtain ⟨ops, r₁, hread, -⟩ := bind_eq_ok.mp hrun
    refine ⟨ops, r₁, hread, fun hbrackets => ?_⟩
    have hencoding : ops.encoding? = some e := (run_eq_ok_iff hread hbrackets).mp ⟨r', h⟩
    have hvalid : ops.Valid := form.read_ensures.run hread
    obtain ⟨access, haccess, hexists, htotal⟩ :=
      AccessOperands.number_of_encoding? hvalid hencoding
    have hword : e.word.toNat = access.number := by
      rw [← htotal]
      exact Instruction.toNat_word form.mnemonic_mem rfl h
    exact ⟨access, haccess, Access.ofWord?_of_toNat hexists hword⟩

end Matches

/-- An offset that is no whole number of accesses is encoded in bytes. -/
theorem encodes_address_unscaled :
    ∃ e r', (whole true).instruction.encoder.run
        ⟨Machine.environment, ⟨0x8000, 0x8000, .standard⟩, "LDR"⟩
        ⟨.ofString " X1,[X2,#12]", .ofBase 0x8000, []⟩ = .ok e r' ∧
      Access.ofWord? e.word = some ⟨3, .load false (.x 1), .x 2, .unscaled 12⟩ := by
  obtain ⟨r₁, hread⟩ : ∃ r₁, (whole true).read.run
      ⟨Machine.environment, ⟨0x8000, 0x8000, .standard⟩, "LDR"⟩
      ⟨.ofString " X1,[X2,#12]", .ofBase 0x8000, []⟩ =
        .ok ⟨3, .load false (.x 1), .offset (.x 2) 12⟩ r₁ := by
    apply run'_eq_some.mp
    decide +kernel
  obtain ⟨haccepted, hfound⟩ := @encodes_address _ _
    ⟨Machine.environment, ⟨0x8000, 0x8000, .standard⟩, "LDR"⟩
    ⟨.ofString " X1,[X2,#12]", .ofBase 0x8000, []⟩ (whole true)
  obtain ⟨e, r', h⟩ := (haccepted _ r₁ hread (by simp)).mpr (.inr ⟨by decide, by decide⟩)
  refine ⟨e, r', h, ?_⟩
  obtain ⟨ops, r₂, hread', haddress⟩ := hfound e r' h
  cases hread.symm.trans hread'
  obtain ⟨access, haccess, hword⟩ := haddress (by simp)
  rw [hword, ← haccess]
  decide

end AccessForm

end InlineA64
