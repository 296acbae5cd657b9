import InlineA64.Proofs.Encoder

/-!
# Targets relative to the instruction

A branch or a literal load names its target by the distance from the instruction. `RelativeForm`
lists the instructions that count the distance in words. The label is the last operand of each: what
stands before it is `RelativeForm.opening`, which yields the word as a function of the field, and
`RelativeForm.closing` reads the label and closes the word.

* `RelativeForm.reaches_target`: which targets are accepted, and that the finished word leads to
  exactly the target that was written.
-/

namespace InlineA64

variable {σ Slot : Type}

/-- The instructions whose target is a label, counted in words from the instruction. -/
inductive RelativeForm where
  /-- The instruction `B`, or `BL` with a link. -/
  | branch (link : Bool)
  /-- The instruction `B` on a condition. -/
  | conditional
  /-- The instruction `CBZ`, or `CBNZ` for a register that is not zero. -/
  | compare (nonzero : Bool)
  /-- The instruction `TBZ`, or `TBNZ` for a bit that is not zero. -/
  | test (nonzero : Bool)
  /-- The instruction `LDR` of a label. -/
  | load
  /-- The instruction `LDRSW` of a label. -/
  | signedLoad
  /-- The instruction `PRFM` of a label. -/
  | prefetch
deriving DecidableEq, Repr

namespace RelativeForm

/-- The mnemonic of a form. -/
def mnemonic : RelativeForm → Mnemonic
  | branch false | conditional => ⟨"B", .instruction (.branch false)⟩
  | branch true => ⟨"BL", .instruction (.branch true)⟩
  | compare false => ⟨"CBZ", .instruction (.compareBranch 0x34000000)⟩
  | compare true => ⟨"CBNZ", .instruction (.compareBranch 0x35000000)⟩
  | test false => ⟨"TBZ", .instruction (.testBranch 0x36000000)⟩
  | test true => ⟨"TBNZ", .instruction (.testBranch 0x37000000)⟩
  | load => ⟨"LDR", .instruction (.transfer none true)⟩
  | signedLoad => ⟨"LDRSW", .instruction (.signedLoad 2)⟩
  | prefetch => ⟨"PRFM", .instruction .prefetch⟩

/-- The instruction of a form. -/
def instruction : RelativeForm → Instruction
  | branch link => .branch link
  | conditional => .branch false
  | compare nonzero => .compareBranch (if nonzero then 0x35000000 else 0x34000000)
  | test nonzero => .testBranch (if nonzero then 0x37000000 else 0x36000000)
  | load => .transfer none true
  | signedLoad => .signedLoad 2
  | prefetch => .prefetch

theorem mnemonic_mem (form : RelativeForm) : form.mnemonic ∈ Mnemonic.all := by
  rcases form with (_ | _) | _ | (_ | _) | (_ | _) | _ | _ | _ <;> decide +kernel

theorem meaning_mnemonic (form : RelativeForm) :
    form.mnemonic.meaning = .instruction form.instruction := by
  rcases form with (_ | _) | _ | (_ | _) | (_ | _) | _ | _ | _ <;> rfl

/-- The number of bits of the offset field. -/
def bits : RelativeForm → ℕ
  | branch _ => 26
  | conditional | compare _ | load | signedLoad | prefetch => 19
  | test _ => 14

/-- The lowest bit of the offset field. -/
def shift : RelativeForm → ℕ
  | branch _ => 0
  | conditional | compare _ | test _ | load | signedLoad | prefetch => 5

/-- The displacement that the offset field holds. -/
def displacement : RelativeForm → Displacement
  | branch _ => .branch
  | conditional | compare _ | load | signedLoad | prefetch => .literal
  | test _ => .test

theorem bits_displacement (form : RelativeForm) : form.displacement.bits = form.bits := by
  cases form <;> rfl

theorem unit_displacement (form : RelativeForm) : form.displacement.unit = 4 := by
  cases form <;> rfl

/-- A target out of reach is refused: for test branches always, for the others while range checks
are on. -/
def checks (form : RelativeForm) (options : Options) : Bool :=
  match form with
  | test _ => true
  | branch _ | conditional | compare _ | load | signedLoad | prefetch => options.rangeCheck

/-! ## What stands before the label and behind -/

/-- The word of a literal load. -/
def loadWord (t : Register) (offset : ℕ) : Encoding :=
  Encoding.of 0x18000000 |>.imm19 offset |>.rt t |>.optionIf t.isWide 0x40000000

/-- The word of a test branch on a bit. -/
def testWord (base : UInt32) (t : Register) (bit : Int) (offset : ℕ) : Encoding :=
  Encoding.of base |>.optionIf (32 ≤ bit) 0x80000000 |>.field 19 5 (bit.toNat % 32)
    |>.field 5 14 offset |>.rt t

/-- The blank before the label of a branch without a condition. -/
def opensBranch (link : Bool) : Reader (Mark × (ℕ → Encoding)) := do
  if ← Reader.request .atBlank then
    return (← Reader.here,
      fun offset => Encoding.of (if link then 0x94000000 else 0x14000000) |>.imm26 offset)
  else Reader.malformed .statement

/-- A label, where a memory operand could stand as well. -/
def opensLabel (start : Mark) (word : ℕ → Encoding) : Reader (Mark × (ℕ → Encoding)) := do
  if ← Reader.sees .openBracket then Reader.malformed .noLiteralForm else return (start, word)

/-- What stands before the label, up to where its position has been noted: the position, and the
word as a function of the offset field. -/
def opening : RelativeForm → Reader (Mark × (ℕ → Encoding))
  | branch true => opensBranch true
  | branch false => do
    if ← Reader.request (.acceptJoined .dot) then Reader.malformed .statement
    else opensBranch false
  | conditional => do
    if ← Reader.request (.acceptJoined .dot) then
      let code ← Reader.condition
      return (← Reader.here, fun offset => Encoding.of 0x54000000 |>.imm19 offset |>.field 0 4 code)
    else Reader.malformed .statement
  | compare nonzero => do
    let t ← Reader.plainRegister
    Reader.comma
    return (← Reader.here, fun offset =>
      Encoding.of (if nonzero then 0x35000000 else 0x34000000) |>.sf t |>.imm19 offset |>.rt t)
  | test nonzero => do
    let t ← Reader.plainRegister
    Reader.comma
    Reader.hash
    let start ← Reader.here
    let bit ← Reader.value
    if !(0 ≤ bit && bit < t.bits) then Reader.malformedAt start .bitNumber
    else
      Reader.comma
      return (← Reader.here, testWord (if nonzero then 0x37000000 else 0x36000000) t bit)
  | load => do
    let _ ← Reader.here
    let t ← Reader.plainRegister
    Reader.comma
    opensLabel (← Reader.here) (loadWord t)
  | signedLoad => do
    let (t, _) ← Encoder.transferRegister .wide
    Reader.comma
    opensLabel (← Reader.here) fun offset => Encoding.of 0x98000000 |>.imm19 offset |>.rt t
  | prefetch => do
    let operation ← Encoder.prefetchOperation
    Reader.comma
    opensLabel (← Reader.here) fun offset =>
      Encoding.of 0xd8000000 |>.imm19 offset |>.field 0 5 operation

/-- The label and the end of the word. -/
def closing (form : RelativeForm) : Mark × (ℕ → Encoding) → Reader Encoding
  | (start, word) => do
    let offset ← Reader.distance
    match form with
    | test _ => return word (← Reader.liftAt start (Displacement.test.encode true offset))
    | _ => return word (← Reader.reachable start form.displacement offset)

open Reader in
theorem plainBranch_startsWith (link : Bool) :
    StartsWith (closing (branch link)) (opensBranch link) (Encoder.plainBranch link) := by
  refine StartsWith.bind _ fun blank => ?_
  -- without a blank the mnemonic goes on, so that both readers fail
  cases blank with
  | false => exact .fail _ _ _
  | true =>
    simp only [if_true, target, Reader.bind_assoc]
    exact StartsWith.bind _ fun start => .done _

open Reader in
/-- An encoder that takes a label or a memory operand goes on with the label. -/
theorem address_startsWith {form : RelativeForm} {start : Mark} {word : ℕ → Encoding}
    {rest : MemoryOperand → Reader Encoding}
    (h : form.closing (start, word) = distance >>= fun offset => rest (.literal offset)) :
    StartsWith form.closing (opensLabel start word) (Reader.address >>= rest) := by
  rw [Reader.address, Reader.bind_assoc]
  refine StartsWith.bind _ fun seen => ?_
  cases seen with
  | true => exact .fail _ _ _
  | false =>
    simp only [Bool.false_eq_true, if_false, Reader.bind_assoc]
    have hdone : StartsWith form.closing (done (start, word)) (form.closing (start, word)) :=
      .done (start, word)
    rwa [h] at hdone

open Reader in
/-- The encoder of a form reads what its opening reads, and then closes the word. -/
theorem encoder_startsWith (form : RelativeForm) :
    StartsWith form.closing form.opening form.instruction.encoder := by
  rcases form with (_ | _) | _ | nonzero | nonzero | _ | _ | _
  -- a way of the encoder that belongs to another form is one where the opening fails
  case branch.false =>
    refine StartsWith.bind _ fun dot => ?_
    cases dot with
    | true => exact .fail _ _ _
    | false => exact plainBranch_startsWith false
  case branch.true => exact plainBranch_startsWith true
  case conditional =>
    refine StartsWith.bind _ fun dot => ?_
    cases dot with
    | false => exact .fail _ _ _
    | true =>
      refine StartsWith.bind _ fun code => ?_
      simp only [target, Reader.bind_assoc]
      exact StartsWith.bind _ fun start => .done _
  case compare =>
    refine StartsWith.bind _ fun t => StartsWith.bind _ fun _ => ?_
    simp only [target, Reader.bind_assoc]
    exact StartsWith.bind _ fun start => .done _
  case test =>
    refine StartsWith.bind _ fun t => StartsWith.bind _ fun _ => StartsWith.bind _ fun _ => ?_
    refine StartsWith.bind _ fun start => StartsWith.bind _ fun bit => ?_
    split
    · exact .fail _ _ _
    · exact StartsWith.bind _ fun _ => StartsWith.bind _ fun start => .done _
  case load =>
    refine StartsWith.bind _ fun _ => StartsWith.bind _ fun t => ?_
    refine StartsWith.bind _ fun _ => StartsWith.bind _ fun start => ?_
    apply address_startsWith
    simp only [closing, Encoder.literalLoad, Reader.bind_assoc]
    rfl
  case signedLoad =>
    refine StartsWith.bind _ fun t => StartsWith.bind _ fun _ => StartsWith.bind _ fun start => ?_
    apply address_startsWith
    rfl
  case prefetch =>
    refine StartsWith.bind _ fun operation => StartsWith.bind _ fun _ => ?_
    refine StartsWith.bind _ fun start => ?_
    apply address_startsWith
    rfl

/-! ## The offset field -/

/-- The number that the low `bits` bits stand for in two's complement. -/
def signExtended (bits field : ℕ) : Int := Int.bmod field (2 ^ bits)

/-- A distance that a field holds is what the field stands for, in units. -/
theorem unit_mul_signExtended {d : Displacement} (hbits : 0 < d.bits) (hunit : 0 < d.unit)
    {distance : Int} (h : d.admits distance = true) :
    d.unit * signExtended d.bits (d.field distance) = distance := by
  obtain ⟨count, hcount⟩ : ∃ count, d.bits = count + 1 := ⟨d.bits - 1, by omega⟩
  simp only [Displacement.admits, hcount, Nat.one_shiftLeft, Nat.add_sub_cancel, Bool.and_eq_true,
    beq_iff_eq, decide_eq_true_eq, Nat.cast_mul] at h
  obtain ⟨⟨hdvd, hle⟩, hlt⟩ := h
  have hunit' : (0 : Int) < d.unit := by omega
  have hle' : -((2 ^ count : ℕ) : Int) ≤ distance / d.unit :=
    Int.le_ediv_of_mul_le hunit' (by rwa [Int.neg_mul])
  have hlt' : distance / d.unit < ((2 ^ count : ℕ) : Int) := Int.ediv_lt_of_lt_mul hunit' hlt
  have hmodulus : ((2 ^ d.bits : ℕ) : Int) ≠ 0 := by exact_mod_cast (Nat.two_pow_pos _).ne'
  -- a quotient within half the range of the field is its own balanced remainder
  have hfield : signExtended d.bits (d.field distance) = distance / d.unit := by
    rw [signExtended, Displacement.field, Nat.one_shiftLeft,
      Int.toNat_of_nonneg (Int.emod_nonneg _ hmodulus), Int.emod_bmod, hcount, pow_succ]
    apply Int.bmod_eq_of_le <;> omega
  rw [hfield]
  exact Int.mul_ediv_cancel' (Int.dvd_of_emod_eq_zero hdvd)

section Field

variable (form : RelativeForm) (distance : Int)

theorem admits_iff :
    form.displacement.admits distance = true ↔
      distance % 4 = 0 ∧ -2 ^ (form.bits + 1) ≤ distance ∧ distance < 2 ^ (form.bits + 1) := by
  have hreach : (((1 <<< (form.bits - 1)) * 4 : ℕ) : Int) = 2 ^ (form.bits + 1) := by
    cases form <;> simp only [bits] <;> decide
  simp only [Displacement.admits, unit_displacement, bits_displacement, hreach, Bool.and_eq_true,
    beq_iff_eq, decide_eq_true_eq, and_assoc]
  rfl

theorem field_eq :
    (form.displacement.field distance : Int) = distance / 4 % 2 ^ form.bits := by
  have hpos : (0 : Int) < 2 ^ form.bits := Int.pow_pos (by decide)
  rw [Displacement.field, unit_displacement, bits_displacement, Nat.one_shiftLeft]
  push_cast
  exact Int.toNat_of_nonneg (Int.emod_nonneg _ hpos.ne')

/-- A distance in reach is four times its field. -/
theorem four_mul_signExtended (hdvd : distance % 4 = 0) (hle : -2 ^ (form.bits + 1) ≤ distance)
    (hlt : distance < 2 ^ (form.bits + 1)) :
    4 * signExtended form.bits (form.displacement.field distance) = distance := by
  have hbits : 0 < form.displacement.bits := by cases form <;> exact Nat.succ_pos _
  have hunit : 0 < form.displacement.unit := by cases form <;> exact Nat.succ_pos _
  have hadmits := (form.admits_iff distance).mpr ⟨hdvd, hle, hlt⟩
  have hmul := unit_mul_signExtended hbits hunit hadmits
  rwa [unit_displacement, bits_displacement] at hmul

open Reader in
/-- Where a memory operand could stand as well, the word is the one that is given. -/
theorem opensLabel_ensures {form : RelativeForm} {taken : List Register} (start : Mark)
    {word : ℕ → Encoding}
    (h : ∀ offset, .field form.shift form.bits offset ∈ (word offset).parts) :
    (opensLabel start word).Ensures taken fun _ opened =>
      ∀ offset, .field form.shift form.bits offset ∈ (opened.2 offset).parts := by
  simp only [opensLabel, ensures_bind, ensures_sees, ensures_ite, ensures_malformed,
    ensures_pure, implies_true, true_and]
  exact fun _ _ => h

open Reader in
theorem opensBranch_ensures (link : Bool) : (opensBranch link).Ensures [] fun _ opened =>
    ∀ offset, .field 0 26 offset ∈ (opened.2 offset).parts := by
  simp only [opensBranch, ensures_bind, ensures_request, Request.Allows, true_implies,
    ensures_ite, ensures_here, ensures_pure, ensures_malformed, implies_true, and_true]
  exact fun _ _ _ offset => by simp [Encoding.imm26, Encoding.field, Encoding.add]

open Reader in
/-- The word that an opening yields has the offset in its field. -/
theorem opening_ensures :
    form.opening.Ensures [] fun _ opened =>
      ∀ offset, .field form.shift form.bits offset ∈ (opened.2 offset).parts := by
  rcases form with (_ | _) | _ | nonzero | nonzero | _ | _ | _
  case branch.false =>
    simp only [opening, ensures_bind, ensures_request, Request.Allows, Request.registers,
      List.append_nil, true_implies, ensures_ite, ensures_malformed, implies_true, true_and]
    exact fun _ _ => opensBranch_ensures false
  case branch.true => exact opensBranch_ensures true
  case conditional =>
    simp only [opening, ensures_bind, ensures_request, Request.Allows, Request.registers,
      List.append_nil, true_implies, ensures_ite, ensures_malformed, implies_true, and_true]
    refine fun _ _ => ensures_condition fun code _ => ?_
    simp only [ensures_here, ensures_pure]
    exact fun _ offset => by simp [bits, shift, Encoding.imm19, Encoding.field, Encoding.add]
  case compare =>
    simp only [opening, ensures_bind, ensures_plainRegister, ensures_comma, ensures_here,
      ensures_pure]
    exact fun t _ _ offset => by
      simp [bits, shift, Encoding.imm19, Encoding.field, Encoding.add, Encoding.rt, Encoding.rd]
  case test =>
    simp only [opening, ensures_bind, ensures_plainRegister, ensures_comma, ensures_hash,
      ensures_here, ensures_value, ensures_ite, ensures_malformedAt, ensures_pure, implies_true,
      true_and]
    exact fun t _ _ bit _ _ offset => by
      simp [bits, shift, testWord, Encoding.field, Encoding.add, Encoding.rt, Encoding.rd]
  case load =>
    simp only [opening, ensures_bind, ensures_here, ensures_plainRegister, ensures_comma]
    refine fun _ t _ start => opensLabel_ensures start fun offset => ?_
    -- the size of a literal load is a bit of its own, beside the offset
    cases hwide : t.isWide <;>
      simp [bits, shift, loadWord, hwide, Encoding.imm19, Encoding.field, Encoding.add, Encoding.rt,
        Encoding.rd, Encoding.optionIf, Encoding.option]
  case signedLoad =>
    rw [opening, ensures_bind]
    refine Encoder.ensures_transferRegister fun t _ _ _ => ?_
    simp only [ensures_bind, ensures_comma, ensures_here]
    exact fun start => opensLabel_ensures start fun offset => by
      simp [bits, shift, Encoding.imm19, Encoding.field, Encoding.add, Encoding.rt, Encoding.rd]
  case prefetch =>
    rw [opening, ensures_bind]
    refine Encoder.prefetchOperation_ensures fun operation _ => ?_
    simp only [ensures_bind, ensures_comma, ensures_here]
    exact fun start => opensLabel_ensures start fun offset => by
      simp [bits, shift, Encoding.imm19, Encoding.field, Encoding.add]

end Field

/-! ## Runs -/

section Runs

variable {around : Surroundings σ Slot} {r r₁ r₂ : Reading σ} {t : Int64}

theorem run_distance (h : around.integer r = .ok t r₁) :
    Reader.distance.run around r = .ok (t - around.context.logical.toInt64).toInt r₁ := by
  rw [Reader.distance, Reader.run_bind, Reader.run_request]
  have hanswer : Request.distance.answer around r =
      .ok (t - around.context.logical.toInt64) r₁ := by
    rw [Request.answer, bind_of_ok h]
    rfl
  rw [bind_of_ok hanswer]
  rfl

theorem run_reachable (mark : Mark) (d : Displacement) (distance : Int) :
    (Reader.reachable mark d distance).run around r =
      if around.context.options.rangeCheck && !d.admits distance then
        .error (r.failure d.fault (some mark)) r
      else .ok (d.field distance) r := by
  rw [Reader.reachable, Reader.run_bind, Reader.run_request]
  have hanswer : (Request.reach (d.admits distance) d.fault mark).answer around r =
      if around.context.options.rangeCheck && !d.admits distance then
        .error (r.failure d.fault (some mark)) r
      else .ok () r := rfl
  split at hanswer
  next hreach => rw [bind_of_error hanswer, if_pos hreach]
  next hreach =>
    rw [bind_of_ok hanswer, if_neg hreach]
    rfl

/-- What is done with the field of a distance, where that is in reach or not checked. -/
theorem run_reachable_bind (mark : Mark) (d : Displacement) (distance : Int)
    (word : ℕ → Encoding) :
    (Reader.reachable mark d distance >>= fun field =>
        (pure (word field) : Reader Encoding)).run around r =
      if around.context.options.rangeCheck && !d.admits distance then
        .error (r.failure d.fault (some mark)) r
      else .ok (word (d.field distance)) r := by
  rw [Reader.run_bind]
  have hrun : (Reader.reachable mark d distance).run around r = _ := run_reachable _ _ _
  split at hrun
  next hreach => rw [bind_of_error hrun, if_pos hreach]
  next hreach =>
    rw [bind_of_ok hrun, if_neg hreach]
    rfl

/-- The label is refused at its own position, or the word is closed with its field. -/
theorem run_closing (form : RelativeForm) (start : Mark) (word : ℕ → Encoding)
    (h : around.integer r₁ = .ok t r₂) :
    (form.closing (start, word)).run around r₁ =
      let distance := (t - around.context.logical.toInt64).toInt
      if form.checks around.context.options && !form.displacement.admits distance then
        .error (r₂.failure form.displacement.fault (some start)) r₂
      else .ok (word (form.displacement.field distance)) r₂ := by
  rw [closing, Reader.run_bind, bind_of_ok (run_distance h)]
  -- a test branch looks at its reach itself, the others leave that to the range checks
  cases form with
  | test nonzero =>
    simp only [checks, Bool.true_and, displacement, Displacement.encode]
    split
    · rfl
    · rfl
  | branch | conditional | compare | load | signedLoad | prefetch =>
    exact run_reachable_bind start _ _ word

/-- The field of a word that a form has closed is read off the word. -/
theorem slice_eq_field (form : RelativeForm) {start : Mark} {word : ℕ → Encoding} {r' : Reading σ}
    (hopening : form.opening.run around r = .ok (start, word) r₁) {distance : Int}
    (h : form.instruction.encoder.run around r =
      .ok (word (form.displacement.field distance)) r') :
    slice form.shift form.bits (word (form.displacement.field distance)).word =
      form.displacement.field distance := by
  -- the encoding fills a format whose fields are apart
  obtain ⟨f, hf, hdescribes⟩ := (form.instruction.encoder_ensures.run h).1
  have hlt := Reader.field_lt form.displacement distance
  rw [bits_displacement] at hlt
  exact hdescribes.slice_field (Mnemonic.formats_checked form.mnemonic_mem
    form.meaning_mnemonic hf).1 (form.opening_ensures.run hopening _) hlt

/-- Of a branch or a literal load whose other operands are valid: while the form checks its reach
it is accepted if and only if the label is a whole number of words away and in reach, and else it is
accepted in any case. The field holds the distance in words, rounded down and cut off, and a
distance in reach leads back to exactly the label. -/
theorem reaches_target (form : RelativeForm) {start : Mark} {word : ℕ → Encoding}
    (hopening : form.opening.run around r = .ok (start, word) r₁)
    (hlabel : around.integer r₁ = .ok t r₂) :
    let distance := (t - around.context.logical.toInt64).toInt
    let reach : Int := 2 ^ (form.bits + 1)
    (form.checks around.context.options = true →
      ((∃ e r', form.instruction.encoder.run around r = .ok e r') ↔
        distance % 4 = 0 ∧ -reach ≤ distance ∧ distance < reach)) ∧
    (form.checks around.context.options = false →
      ∃ e r', form.instruction.encoder.run around r = .ok e r') ∧
    ∀ e r', form.instruction.encoder.run around r = .ok e r' →
      let field := slice form.shift form.bits e.word
      (field : Int) = distance / 4 % 2 ^ form.bits ∧
      (distance % 4 = 0 → -reach ≤ distance → distance < reach →
        around.context.logical.toInt64 + 4 * Int64.ofInt (signExtended form.bits field) = t) := by
  intro distance reach
  -- the run is decided by the opening and the label: the word is closed, or the label refused
  have hrun : form.instruction.encoder.run around r = _ :=
    (form.encoder_startsWith.run hopening).trans (form.run_closing start word hlabel)
  have hrefused : (form.checks around.context.options &&
      !form.displacement.admits distance) = true ↔
      form.checks around.context.options = true ∧
        ¬(distance % 4 = 0 ∧ -reach ≤ distance ∧ distance < reach) := by
    rw [Bool.and_eq_true, Bool.not_eq_true', ← Bool.not_eq_true, form.admits_iff]
  change form.instruction.encoder.run around r =
    if (form.checks around.context.options && !form.displacement.admits distance) = true then
      .error (r₂.failure form.displacement.fault (some start)) r₂
    else .ok (word (form.displacement.field distance)) r₂ at hrun
  rw [hrun]
  refine ⟨fun hchecks => ?_, fun hchecks => ?_, fun e r' h => ?_⟩
  · constructor
    · rintro ⟨e, r', h⟩
      split at h
      next => cases h
      next haccepted =>
        rw [hrefused] at haccepted
        exact not_not.mp fun hout => haccepted ⟨hchecks, hout⟩
    · intro hreach
      rw [if_neg (fun h => (hrefused.mp h).2 hreach)]
      exact ⟨_, _, rfl⟩
  · rw [if_neg (by simp [hchecks])]
    exact ⟨_, _, rfl⟩
  · have hencoded := hrun.trans h
    split at h
    next => cases h
    next =>
      cases h
      intro field
      have hfield : field = form.displacement.field distance :=
        form.slice_eq_field hopening hencoded
      rw [hfield]
      refine ⟨form.field_eq distance, fun hdvd hle hlt => ?_⟩
      have hoffset : (4 : Int64) * Int64.ofInt (signExtended form.bits
          (form.displacement.field distance)) = t - around.context.logical.toInt64 := by
        rw [show (4 : Int64) = Int64.ofInt 4 from rfl, ← Int64.ofInt_mul,
          form.four_mul_signExtended distance hdvd hle hlt, Int64.ofInt_toInt]
      rw [hoffset, Int64.add_comm, Int64.sub_add_cancel]

/-- A branch four words ahead. -/
theorem reaches_target_ahead :
    ∃ e r', (branch false).instruction.encoder.run
        ⟨Machine.environment, ⟨0x8000, 0x8000, .standard⟩, "B"⟩
        ⟨.ofString " &8010", .ofBase 0x8000, []⟩ = .ok e r' ∧
      (slice 0 26 e.word : Int) = 4 ∧
      (0x8000 : Int64) + 4 * Int64.ofInt (signExtended 26 (slice 0 26 e.word)) = 0x8010 := by
  obtain ⟨r₂, hlabel⟩ : ∃ r₂, Surroundings.integer
      ⟨Machine.environment, ⟨0x8000, 0x8000, .standard⟩, "B"⟩
      ⟨.ofString " &8010", .ofBase 0x8000, [0]⟩ = .ok 0x8010 r₂ := by
    apply run'_eq_some.mp
    decide +kernel
  have hopening : (branch false).opening.run
      ⟨Machine.environment, ⟨0x8000, 0x8000, .standard⟩, "B"⟩
      ⟨.ofString " &8010", .ofBase 0x8000, []⟩ =
        .ok (⟨0⟩, fun offset => Encoding.of 0x14000000 |>.imm26 offset)
          ⟨.ofString " &8010", .ofBase 0x8000, [0]⟩ := rfl
  obtain ⟨haccepted, -, hfield⟩ := reaches_target (branch false) hopening hlabel
  obtain ⟨e, r', h⟩ := (haccepted rfl).mpr (by decide)
  obtain ⟨hfield, htarget⟩ := hfield e r' h
  exact ⟨e, r', h, hfield, htarget (by decide) (by decide) (by decide)⟩

end Runs

end RelativeForm

end InlineA64
