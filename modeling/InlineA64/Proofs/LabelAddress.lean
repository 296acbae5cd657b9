import InlineA64.Proofs.Relative
import InlineA64.Proofs.Total

/-!
# Addresses of labels

`ADR` yields the address of a label and `ADRP` that of its page. Addresses are unsigned and labels
are signed numbers. The distance of an `ADR` is their difference modulo `2 ^ 64`, but the pages of
an `ADRP` are taken from the signed label and the unsigned address before they are subtracted, so
that nothing wraps.

* `LabelForm.count_mem_iff`: when the number that is encoded fits;
* `LabelForm.yields_label`: which labels are accepted, and that the word yields the label or its
  page.
-/

namespace InlineA64

/-- The instructions that yield the address of a label. -/
inductive LabelForm where
  /-- The instruction `ADR`. -/
  | address
  /-- The instruction `ADRP`. -/
  | page
deriving DecidableEq, Repr

namespace LabelForm

open Reader RelativeForm

/-- The instruction of a form. -/
def instruction : LabelForm → Instruction
  | address => .address false
  | page => .address true

/-- The mnemonic of a form. -/
def mnemonic (form : LabelForm) : Mnemonic :=
  ⟨match form with
    | address => "ADR"
    | page => "ADRP",
    .instruction form.instruction⟩

theorem mnemonic_mem (form : LabelForm) : form.mnemonic ∈ Mnemonic.all := by
  cases form <;> decide +kernel

/-- The displacement that the field holds. -/
def displacement : LabelForm → Displacement
  | address => .address
  | page => .page

/-- The opcode of a form. -/
def base : LabelForm → UInt32
  | address => 0x10000000
  | page => 0x90000000

/-- The number of bytes that one step of the field stands for. -/
def unit : LabelForm → ℕ
  | address => 1
  | page => 4096

/-- What a form keeps of an address: all of it, or its page, the low 12 bits being cleared. -/
def kept (form : LabelForm) (a : UInt64) : UInt64 :=
  match form with
  | address => a
  | page => a >>> 12 <<< 12

/-- The distance between what is kept of two addresses, as a signed number of 64 bits. -/
def distance (form : LabelForm) (source target : UInt64) : Int :=
  (form.kept target - form.kept source).toInt64.toInt

/-- The distance can be counted: for pages, it leads from the source to no page in the upper half of
the addresses, a target there being a negative number. -/
def Countable (form : LabelForm) (source target : UInt64) : Prop :=
  match form with
  | address => True
  | page => (page.kept source).toNat + page.distance source target < 2 ^ 63

instance (form : LabelForm) (source target : UInt64) :
    Decidable (form.Countable source target) := by
  cases form <;> unfold Countable <;> infer_instance

/-- The field of a word, its low two bits being apart. -/
def fieldOf (word : UInt32) : ℕ :=
  slice 5 19 word * 4 + slice 29 2 word

/-! ## The number that is encoded -/

/-- The request that measures a label. -/
def measure : LabelForm → Request Int64
  | address => .distance
  | page => .pageDistance

/-- The number of bytes or pages that is measured. -/
def count (form : LabelForm) (source : UInt64) (t : Int64) : Int :=
  match form with
  | address => (t - source.toInt64).toInt
  | page => ((t >>> 12) - (source >>> 12).toInt64).toInt

theorem toInt_eq_bmod (t : Int64) : t.toInt = Int.bmod t.toUInt64.toNat (2 ^ 64) :=
  BitVec.toInt_eq_toNat_bmod _

theorem toInt_toInt64 (a : UInt64) : a.toInt64.toInt = Int.bmod a.toNat (2 ^ 64) :=
  BitVec.toInt_eq_toNat_bmod _

theorem toInt_shiftRight_page (t : Int64) : (t >>> 12).toInt = t.toInt / 4096 := by
  have hshift : (t >>> 12).toBitVec = t.toBitVec.sshiftRight 12 := by
    rw [Int64.toBitVec_shiftRight]
    rfl
  rw [← Int64.toInt_toBitVec, hshift, BitVec.toInt_sshiftRight, Int64.toInt_toBitVec]
  exact Int.shiftRight_eq_div_pow _ _

theorem toNat_kept_page (a : UInt64) : (page.kept a).toNat = a.toNat / 4096 * 4096 := by
  have hlt := a.toNat_lt
  simp only [kept, UInt64.toNat_shiftLeft, UInt64.toNat_shiftRight, Nat.shiftRight_eq_div_pow,
    Nat.shiftLeft_eq]
  simp
  omega

theorem count_address (source : UInt64) (t : Int64) :
    address.count source t = address.distance source t.toUInt64 := by
  simp only [count, distance, kept, UInt64.toInt64_sub, Int64.toInt64_toUInt64]

/-- The pages are subtracted as they are. -/
theorem count_page (source : UInt64) (t : Int64) :
    page.count source t = t.toInt / 4096 - source.toNat / 4096 := by
  have hlt := source.toNat_lt
  have hle := t.le_toInt
  have hlt' := t.toInt_lt
  have hsource : (source >>> 12).toInt64.toInt = source.toNat / 4096 := by
    rw [toInt_toInt64, UInt64.toNat_shiftRight, Nat.shiftRight_eq_div_pow]
    apply Int.bmod_eq_of_le <;> simp <;> omega
  rw [count, Int64.toInt_sub, toInt_shiftRight_page, hsource]
  apply Int.bmod_eq_of_le <;> omega

/-- The distance of the pages is that of their numbers, but for what wraps. -/
theorem distance_page_emod (source : UInt64) (t : Int64) :
    page.distance source t.toUInt64 % 2 ^ 64 = 4096 * page.count source t % 2 ^ 64 := by
  have hdistance : page.distance source t.toUInt64 % 2 ^ 64 =
      ((page.kept t.toUInt64).toNat - (page.kept source).toNat : Int) % 2 ^ 64 := by
    rw [distance, UInt64.toInt64_sub, Int64.toInt_sub, toInt_toInt64, toInt_toInt64,
      Int.bmod_sub_bmod, Int.sub_bmod_bmod]
    exact Int.bmod_emod
  have ht : t.toInt % 2 ^ 64 = (t.toUInt64.toNat : Int) % 2 ^ 64 := by
    rw [toInt_eq_bmod]
    exact Int.bmod_emod
  rw [hdistance, count_page, toNat_kept_page, toNat_kept_page]
  push_cast
  omega

theorem distance_bounds (form : LabelForm) (source target : UInt64) :
    -2 ^ 63 ≤ form.distance source target ∧ form.distance source target < 2 ^ 63 :=
  ⟨Int64.le_toInt _, Int64.toInt_lt _⟩

/-- A number that is measured is in reach if the distance can be counted and is in reach. -/
theorem count_mem_iff (form : LabelForm) (source : UInt64) (t : Int64) :
    -2 ^ 20 ≤ form.count source t ∧ form.count source t < 2 ^ 20 ↔
      (-(2 ^ 20 * form.unit) ≤ form.distance source t.toUInt64 ∧
        form.distance source t.toUInt64 < 2 ^ 20 * form.unit) ∧
      form.Countable source t.toUInt64 := by
  cases form with
  | address => simp [count_address, unit, Countable]
  | page =>
    have hwraps := distance_page_emod source t
    have hbounds := page.distance_bounds source t.toUInt64
    have hle := t.le_toInt
    have hlt := t.toInt_lt
    simp only [unit, Countable, toNat_kept_page]
    rw [count_page] at hwraps ⊢
    push_cast
    -- the distance is off by a multiple of `2 ^ 64`, which is 0 where either side holds
    omega

/-- A number in reach is the distance in units. -/
theorem unit_mul_count (form : LabelForm) {source : UInt64} {t : Int64}
    (h : -2 ^ 20 ≤ form.count source t ∧ form.count source t < 2 ^ 20) :
    form.unit * form.count source t = form.distance source t.toUInt64 := by
  cases form with
  | address => rw [count_address, unit, Nat.cast_one, one_mul]
  | page =>
    have hwraps := distance_page_emod source t
    have hbounds := page.distance_bounds source t.toUInt64
    rw [unit]
    push_cast
    omega

theorem admits_iff (form : LabelForm) (distance : Int) :
    form.displacement.admits distance = true ↔ -2 ^ 20 ≤ distance ∧ distance < 2 ^ 20 := by
  cases form <;> simp [displacement, Displacement.admits, Displacement.address, Displacement.page]

theorem signExtended_field (form : LabelForm) {distance : Int}
    (h : -2 ^ 20 ≤ distance ∧ distance < 2 ^ 20) :
    signExtended 21 (form.displacement.field distance) = distance := by
  have hbits : form.displacement.bits = 21 := by cases form <;> rfl
  have hunit : form.displacement.unit = 1 := by cases form <;> rfl
  have hmul := unit_mul_signExtended (by omega) (by omega) ((form.admits_iff distance).mpr h)
  rwa [hbits, hunit, Nat.cast_one, one_mul] at hmul

/-! ## Runs -/

/-- What stands before the label: the destination, and the position of the label. -/
def opening : Reader (Register × Mark) := do
  let d ← wideRegister
  comma
  return (d, ← here)

/-- The label and the end of the word. -/
def closing (form : LabelForm) : Register × Mark → Reader Encoding
  | (d, start) => do
    let count ← request form.measure
    return Encoder.labelAddress form.base d (← reachable start form.displacement count.toInt)

theorem opening_ensures : opening.Ensures [] fun _ (d, _) => d.number < 32 := by
  simp only [opening, ensures_bind, ensures_wideRegister, ensures_comma, ensures_here, ensures_pure]
  exact fun d hd _ _ => Nat.lt_succ_of_le hd.valid.number_le

/-- The encoder of a form reads the destination, and then closes the word. -/
theorem encoder_startsWith (form : LabelForm) :
    StartsWith form.closing opening form.instruction.encoder := by
  cases form with
  | address =>
    refine StartsWith.bind _ fun d => StartsWith.bind _ fun _ => ?_
    simp only [Bool.false_eq_true, if_false, target, Reader.distance, Reader.bind_assoc]
    exact StartsWith.bind _ fun start => .done (d, start)
  | page =>
    refine StartsWith.bind _ fun d => StartsWith.bind _ fun _ => ?_
    exact StartsWith.bind _ fun start => .done (d, start)

section Runs

variable {σ Slot : Type} {around : Surroundings σ Slot} {r r₁ r₂ : Reading σ} {t : Int64}

theorem answer_measure (form : LabelForm) (h : around.integer r = .ok t r₁) :
    ∃ number : Int64, form.measure.answer around r = .ok number r₁ ∧
      number.toInt = form.count around.context.logical t := by
  cases form with
  | address =>
    refine ⟨t - around.context.logical.toInt64, ?_, rfl⟩
    rw [measure, Request.answer, bind_of_ok h]
    rfl
  | page =>
    refine ⟨(t >>> 12) - (around.context.logical >>> 12).toInt64, ?_, rfl⟩
    rw [measure, Request.answer, bind_of_ok h]
    rfl

/-- The label is refused at its own position, or the word is closed with its field. -/
theorem run_closing (form : LabelForm) (d : Register) (start : Mark)
    (h : around.integer r₁ = .ok t r₂) :
    (form.closing (d, start)).run around r₁ =
      if around.context.options.rangeCheck &&
          !form.displacement.admits (form.count around.context.logical t) then
        .error (r₂.failure form.displacement.fault (some start)) r₂
      else .ok (Encoder.labelAddress form.base d
        (form.displacement.field (form.count around.context.logical t))) r₂ := by
  obtain ⟨number, hanswer, hnumber⟩ := form.answer_measure h
  rw [closing, run_bind, run_request, bind_of_ok hanswer, hnumber]
  exact run_reachable_bind start form.displacement _ (Encoder.labelAddress form.base d)

/-- A word that is closed has the field in its parts. -/
theorem fieldOf_labelAddress (form : LabelForm) {d : Register} {field : ℕ} {word : UInt32}
    (hd : d.number < 32) (hfield : field < 2 ^ 21)
    (hword : word.toNat = (Encoder.labelAddress form.base d field).total) :
    fieldOf word = field := by
  -- both opcodes leave bits 5 to 23 and bits 29 and 30 to the field
  obtain ⟨high, low, hhigh, hlow, rfl⟩ : ∃ high low, high < 2 ^ 19 ∧ low < 4 ∧
      field = high * 4 + low := ⟨field / 4, field % 4, by omega, by omega, by omega⟩
  obtain ⟨top, htop, hbase⟩ : ∃ top < 2, form.base.toNat = top * 2 ^ 31 + 2 ^ 28 := by
    cases form
    · exact ⟨0, by decide, rfl⟩
    · exact ⟨1, by decide, rfl⟩
  have htotal : word.toNat = top * 2 ^ 31 + 2 ^ 28 + low * 2 ^ 29 + high * 2 ^ 5 + d.number := by
    rw [hword]
    simp [Encoder.labelAddress, Encoding.imm19, hbase]
    omega
  have hslices : slice 5 19 word = high ∧ slice 29 2 word = low := by
    simp only [slice, htotal]
    omega
  rw [fieldOf, hslices.1, hslices.2]

/-- While range checks are on, `ADR` is accepted if and only if the label is less than 1MB away, and
`ADRP` if and only if its page is less than 4GB away and the distance can be counted. The field
holds the distance, and leads to the label or its page. -/
theorem yields_label (form : LabelForm) {d : Register} {start : Mark}
    (hopening : opening.run around r = .ok (d, start) r₁)
    (hlabel : around.integer r₁ = .ok t r₂) (hchecks : around.context.options.rangeCheck = true) :
    let source := around.context.logical
    let target := t.toUInt64
    let distance := form.distance source target
    let reach : Int := 2 ^ 20 * form.unit
    ((∃ e r', form.instruction.encoder.run around r = .ok e r') ↔
      (-reach ≤ distance ∧ distance < reach) ∧ form.Countable source target) ∧
    ∀ e r', form.instruction.encoder.run around r = .ok e r' →
      let offset := form.unit * signExtended 21 (fieldOf e.word)
      offset = distance ∧
        form.kept source + (Int64.ofInt offset).toUInt64 = form.kept target := by
  intro source target distance reach
  have hd : d.number < 32 := opening_ensures.run hopening
  -- the destination is valid, so that the run is decided by the label
  have hrun : form.instruction.encoder.run around r =
      if ¬(-2 ^ 20 ≤ form.count source t ∧ form.count source t < 2 ^ 20) then
        .error (r₂.failure form.displacement.fault (some start)) r₂
      else .ok (Encoder.labelAddress form.base d
        (form.displacement.field (form.count source t))) r₂ := by
    rw [form.encoder_startsWith.run hopening, form.run_closing d start hlabel]
    simp only [hchecks, Bool.true_and, Bool.not_eq_true', ← Bool.not_eq_true, form.admits_iff,
      source]
  refine ⟨?_, fun e r' h => ?_⟩
  · rw [← form.count_mem_iff, hrun]
    split
    next hout =>
      refine iff_of_false ?_ hout
      rintro ⟨e, r', h⟩
      cases h
    next hin => exact iff_of_true ⟨_, _, rfl⟩ (not_not.mp hin)
  · have hword := Instruction.toNat_word form.mnemonic_mem rfl h
    rw [hrun] at h
    split at h
    next => cases h
    next hin =>
      cases h
      have hcount := not_not.mp hin
      have hfield : form.displacement.field (form.count source t) < 2 ^ 21 := by
        cases form <;> exact Reader.field_lt _ _
      rw [form.fieldOf_labelAddress hd hfield hword, form.signExtended_field hcount,
        form.unit_mul_count hcount]
      refine ⟨rfl, ?_⟩
      rw [LabelForm.distance, Int64.ofInt_toInt, UInt64.toUInt64_toInt64, UInt64.add_comm,
        UInt64.sub_add_cancel]

/-- The page of a label in the fourth page from the instruction. -/
theorem yields_label_page :
    ∃ e r', page.instruction.encoder.run
        ⟨Machine.environment, ⟨0x1000, 0x1000, .standard⟩, "ADRP"⟩
        ⟨.ofString " X0,&5008", .ofBase 0x1000, []⟩ = .ok e r' ∧
      page.kept 0x1000 + (Int64.ofInt (4096 * signExtended 21 (fieldOf e.word))).toUInt64 =
        0x5000 := by
  obtain ⟨r₂, hoperands⟩ : ∃ r₂,
      (opening.run ⟨Machine.environment, ⟨0x1000, 0x1000, .standard⟩, "ADRP"⟩ >>= fun opened =>
        (Surroundings.integer ⟨Machine.environment, ⟨0x1000, 0x1000, .standard⟩, "ADRP"⟩ >>=
          fun t => pure (opened, t)))
        ⟨.ofString " X0,&5008", .ofBase 0x1000, []⟩ = .ok ((.x 0, ⟨1⟩), 0x5008) r₂ := by
    apply run'_eq_some.mp
    decide +kernel
  obtain ⟨opened, r₁, hopening, hlabel⟩ := bind_eq_ok.mp hoperands
  obtain ⟨t, r₃, hlabel, hpair⟩ := bind_eq_ok.mp hlabel
  cases (pure_eq_ok.mp hpair).1
  obtain ⟨haccepted, hyields⟩ := yields_label page hopening hlabel rfl
  obtain ⟨e, r', h⟩ := haccepted.mpr (by decide)
  exact ⟨e, r', h, (hyields e r' h).2⟩

/-- An instruction in the upper half of the addresses does not reach its own page. -/
theorem page_refused_upper :
    let around : Surroundings Machine Name :=
      ⟨Machine.environment, ⟨0x8000000000000000, 0x8000000000000000, .standard⟩, "ADRP"⟩
    let r : Reading Machine := ⟨.ofString " X0,P%", .ofBase 0x8000000000000000, []⟩
    around.context.options.rangeCheck = true ∧
      ∃ opened r₁ t r₂, opening.run around r = .ok opened r₁ ∧ around.integer r₁ = .ok t r₂ ∧
        page.distance around.context.logical t.toUInt64 = 0 ∧
        ∃ failure r', page.instruction.encoder.run around r = .error failure r' := by
  intro around r
  obtain ⟨r₂, hoperands⟩ : ∃ r₂, (opening.run around >>= fun opened =>
      around.integer >>= fun t => pure (opened, t)) r =
        .ok ((.x 0, ⟨1⟩), (0x8000000000000000 : UInt64).toInt64) r₂ := by
    apply run'_eq_some.mp
    decide +kernel
  obtain ⟨opened, r₁, hopening, hlabel⟩ := bind_eq_ok.mp hoperands
  obtain ⟨t, r₃, hlabel, hpair⟩ := bind_eq_ok.mp hlabel
  cases (pure_eq_ok.mp hpair).1
  refine ⟨rfl, _, r₁, _, r₃, hopening, hlabel, by decide, ?_⟩
  -- the signed shift of the label and the unsigned one of the address are `2 ^ 52` pages apart
  have hrefused : (around.context.options.rangeCheck && !Displacement.page.admits
      (page.count around.context.logical (0x8000000000000000 : UInt64).toInt64)) = true := by
    decide
  rw [page.encoder_startsWith.run hopening, page.run_closing _ _ hlabel, displacement,
    if_pos hrefused]
  exact ⟨_, _, rfl⟩

end Runs

end LabelForm

end InlineA64
