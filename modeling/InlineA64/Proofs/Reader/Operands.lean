import InlineA64.Proofs.Reader.Ensures
import InlineA64.Operand.Address

/-!
# What the readers of operands ensure

One statement for each reader of operands that the encoders share: which registers it takes, what
they can be named in, and how large its values can be.
-/

namespace InlineA64

theorem Width.bits_le (width : Width) : width.bits ≤ 64 := by
  cases width <;> decide

namespace Reader

variable {α : Type} {taken : List Register}

/-! ## Marks and keywords -/

section Marks

variable {P : List Register → Mark → Prop} {B : List Register → Bool → Prop}
  {U : List Register → Unit → Prop}

@[simp]
theorem ensures_here : here.Ensures taken P ↔ ∀ mark, P taken mark := by
  simp only [here, ensures_request, Request.Allows, Request.registers, List.append_nil,
    true_implies]

@[simp]
theorem ensures_sees {p : Punctuation} : (sees p).Ensures taken B ↔ ∀ seen, B taken seen := by
  simp only [sees, ensures_request, Request.Allows, Request.registers, List.append_nil,
    true_implies]

@[simp]
theorem ensures_accept {p : Punctuation} : (accept p).Ensures taken B ↔ ∀ seen, B taken seen := by
  simp only [accept, ensures_request, Request.Allows, Request.registers, List.append_nil,
    true_implies]

@[simp]
theorem ensures_expect {p : Punctuation} {fault : Fault} :
    (expect p fault).Ensures taken U ↔ U taken () := by
  simp only [expect, ensures_bind, ensures_accept, ensures_ite, ensures_pure, ensures_failHere,
    implies_true, and_true, forall_eq]

@[simp]
theorem ensures_comma : comma.Ensures taken U ↔ U taken () := ensures_expect

@[simp]
theorem ensures_hash : hash.Ensures taken U ↔ U taken () := ensures_expect

@[simp]
theorem ensures_openBracket : openBracket.Ensures taken U ↔ U taken () := ensures_expect

@[simp]
theorem ensures_closeBracket : closeBracket.Ensures taken U ↔ U taken () := by
  simp only [closeBracket, ensures_request, Request.Allows, Request.registers, List.append_nil,
    true_implies]
  exact ⟨fun h => h (), fun h _ => h⟩

variable {K : List Register → Option α → Prop}

/-- An answer that is one of some values or nothing. -/
theorem forall_option_iff {values : List α} {K : Option α → Prop} :
    (∀ answer : Option α, (∀ a ∈ answer, a ∈ values) → K answer) ↔
      K none ∧ ∀ a ∈ values, K (some a) := by
  constructor
  · intro h
    refine ⟨h none (by simp), fun a ha => h (some a) ?_⟩
    simpa using ha
  · rintro ⟨hnone, hsome⟩ (_ | a) hmem
    · exact hnone
    · exact hsome a (hmem a rfl)

@[simp]
theorem ensures_keyword {v : Vocabulary α} :
    (keyword v).Ensures taken K ↔
      K taken none ∧ ∀ a ∈ v.entries.map Prod.snd, K taken (some a) := by
  simp only [keyword, ensures_request, Request.Allows, Request.registers, List.append_nil,
    forall_option_iff]

@[simp]
theorem ensures_wholeWord {v : Vocabulary α} :
    (wholeWord v).Ensures taken K ↔
      K taken none ∧ ∀ a ∈ v.entries.map Prod.snd, K taken (some a) := by
  simp only [wholeWord, ensures_request, Request.Allows, Request.registers, List.append_nil,
    forall_option_iff]

end Marks

/-! ## Conditions -/

section Conditions

variable {N : List Register → ℕ → Prop}

/-- Condition codes have four bits. -/
theorem conditions_lt : ∀ code ∈ Vocabulary.conditions.entries.map Prod.snd, code < 16 := by
  decide

theorem ensures_condition (h : ∀ code < 16, N taken code) : condition.Ensures taken N := by
  simp only [condition, ensures_bind, ensures_here, ensures_keyword, ensures_malformedAt,
    true_and]
  exact fun _ code hcode => h code (conditions_lt code hcode)

theorem ensures_oppositeCondition (h : ∀ code < 16, N taken code) :
    oppositeCondition.Ensures taken N := by
  simp only [oppositeCondition, ensures_bind, ensures_here]
  -- the opposite condition differs in its lowest bit
  refine fun _ => ensures_condition fun code hcode => ?_
  rw [ensures_ite]
  refine ⟨fun _ => trivial, fun _ => h _ ?_⟩
  exact Nat.xor_lt_two_pow (n := 4) hcode (by decide)

end Conditions

/-! ## Registers -/

section Registers

variable {R : List Register → Register → Prop}

@[simp]
theorem ensures_register : register.Ensures taken R ↔ ∀ r, r.Valid → R (taken ++ [r]) r := Iff.rfl

@[simp]
theorem ensures_plainRegister :
    plainRegister.Ensures taken R ↔ ∀ r, Role.plain.Admits r → R (taken ++ [r]) r := by
  simp only [plainRegister, ensures_bind, ensures_here, ensures_register, ensures_ite,
    ensures_malformedAt, ensures_pure, implies_true, true_and, Role.Admits, and_imp,
    Bool.not_eq_true]
  exact ⟨fun h => h ⟨0⟩, fun h _ => h⟩

@[simp]
theorem ensures_registerOf {width : Width} :
    (registerOf width).Ensures taken R ↔
      ∀ r, Role.plain.Admits r → r.width = width → R (taken ++ [r]) r := by
  simp only [registerOf, ensures_bind, ensures_here, ensures_plainRegister, ensures_ite,
    ensures_malformedAt, ensures_pure, implies_true, true_and, not_not]
  exact ⟨fun h => h ⟨0⟩, fun h _ => h⟩

@[simp]
theorem ensures_wideRegister :
    wideRegister.Ensures taken R ↔
      ∀ r, Role.plain.Admits r → r.isWide = true → R (taken ++ [r]) r := by
  simp only [wideRegister, ensures_bind, ensures_here, ensures_register, ensures_ite,
    ensures_malformedAt, ensures_pure, implies_true, true_and, Role.Admits, and_imp,
    Bool.or_eq_true, Bool.not_eq_true', not_or, Bool.not_eq_false, Bool.not_eq_true]
  exact ⟨fun h r hv hsp hw => h ⟨0⟩ r hv hw hsp, fun h _ r hv hw hsp => h r hv hsp hw⟩

@[simp]
theorem ensures_addressRegister :
    addressRegister.Ensures taken R ↔
      ∀ r, Role.address.Admits r → r.isWide = true → R (taken ++ [r]) r := by
  simp only [addressRegister, ensures_bind, ensures_here, ensures_register, ensures_ite,
    ensures_malformedAt, ensures_pure, implies_true, true_and, Role.Admits, and_imp,
    Bool.or_eq_true, Bool.not_eq_true', not_or, Bool.not_eq_false, Bool.not_eq_true]
  exact ⟨fun h r hv hz hw => h ⟨0⟩ r hv hw hz, fun h _ r hv hw hz => h r hv hz hw⟩

@[simp]
theorem ensures_narrowRegister :
    narrowRegister.Ensures taken R ↔
      ∀ r, Role.plain.Admits r → r.isWide = false → R (taken ++ [r]) r := by
  simp only [narrowRegister, ensures_bind, ensures_here, ensures_register, ensures_ite,
    ensures_malformedAt, ensures_pure, implies_true, true_and, Role.Admits, and_imp,
    Bool.or_eq_true, not_or, Bool.not_eq_true]
  exact ⟨fun h r hv hsp hw => h ⟨0⟩ r hv hw hsp, fun h _ r hv hw hsp => h r hv hsp hw⟩

@[simp]
theorem ensures_requireSameWidth {r s : Register} {U : List Register → Unit → Prop} :
    (requireSameWidth r s).Ensures taken U ↔ (r.width = s.width → U taken ()) := by
  simp only [requireSameWidth, ensures_ite, ensures_pure, ensures_malformed, implies_true, and_true]

end Registers

/-! ## Values -/

section Values

variable {V : List Register → Int → Prop} {N : List Register → ℕ → Prop}

@[simp]
theorem ensures_value : value.Ensures taken V ↔ ∀ n : Int64, V taken n.toInt := by
  simp only [value, ensures_bind, ensures_request, Request.Allows, Request.registers,
    List.append_nil, true_implies, ensures_pure]

@[simp]
theorem ensures_immediate : immediate.Ensures taken V ↔ ∀ n : Int64, V taken n.toInt := by
  simp only [immediate, ensures_bind, ensures_hash, ensures_value]

@[simp]
theorem ensures_distance : distance.Ensures taken V ↔ ∀ n : Int64, V taken n.toInt := by
  simp only [distance, ensures_bind, ensures_request, Request.Allows, Request.registers,
    List.append_nil, true_implies, ensures_pure]

theorem unsigned_le {max n : ℕ} {limit : Limit} {value : Int}
    (h : Immediate.unsigned max limit value = .ok n) : n ≤ max := by
  rw [Immediate.unsigned] at h
  split at h
  next hrange =>
    rw [Bool.and_eq_true, decide_eq_true_eq, decide_eq_true_eq] at hrange
    cases h
    omega
  next => cases h

theorem ensures_constant {max : ℕ} {limit : Limit} (h : ∀ n ≤ max, N taken n) :
    (constant max limit).Ensures taken N := by
  simp only [constant, ensures_bind, ensures_hash, ensures_here, ensures_value, ensures_liftAt]
  exact fun _ _ n hn => h n (unsigned_le hn)

theorem ensures_optionalConstant {max default : ℕ} (hdefault : default ≤ max)
    (h : ∀ n ≤ max, N taken n) : (optionalConstant max default).Ensures taken N := by
  simp only [optionalConstant, ensures_bind, ensures_sees, ensures_ite, ensures_pure]
  exact fun _ => ⟨fun _ => ensures_constant h, fun _ => h default hdefault⟩

/-- A value that goes into a displacement fits its field. -/
theorem field_lt (d : Displacement) (distance : Int) : d.field distance < 2 ^ d.bits := by
  have hpos : (0 : Int) < (2 ^ d.bits : ℕ) := by exact_mod_cast Nat.two_pow_pos d.bits
  have hlt := Int.emod_lt_of_pos (distance / d.unit) hpos
  rw [Displacement.field, Nat.one_shiftLeft]
  omega

@[simp]
theorem ensures_reachable {mark : Mark} {d : Displacement} {distance : Int} :
    (reachable mark d distance).Ensures taken N ↔ N taken (d.field distance) := by
  simp only [reachable, ensures_bind, ensures_request, Request.Allows, Request.registers,
    List.append_nil, true_implies, ensures_pure]
  exact ⟨fun h => h (), fun h _ => h⟩

@[simp]
theorem ensures_target {d : Displacement} :
    (target d).Ensures taken N ↔ ∀ n : Int64, N taken (d.field n.toInt) := by
  simp only [target, ensures_bind, ensures_here, ensures_distance, ensures_reachable]
  exact ⟨fun h => h ⟨0⟩, fun h _ => h⟩

/-- A distance that a displacement takes fits its field. -/
theorem encode_lt {d : Displacement} {checked : Bool} {distance : Int} {n : ℕ}
    (h : d.encode checked distance = .ok n) : n < 2 ^ d.bits := by
  rw [Displacement.encode] at h
  split at h
  next => cases h
  next =>
    cases h
    exact field_lt d distance

end Values

/-! ## Shifts -/

section Shifts

variable {N : List Register → ℕ → Prop} {P : List Register → Shift × ℕ → Prop}

theorem ensures_shiftAmount {width : Width} (h : ∀ n < width.bits, N taken n) :
    (shiftAmount width).Ensures taken N :=
  ensures_constant fun n hn => h n (by cases width <;> simp only [Width.bits] at hn ⊢ <;> omega)

theorem ensures_bitNumber {width : Width} (h : ∀ n < width.bits, N taken n) :
    (bitNumber width).Ensures taken N :=
  ensures_constant fun n hn => h n (by cases width <;> simp only [Width.bits] at hn ⊢ <;> omega)

theorem ensures_optionalShift {width : Width} {rotate : Bool}
    (h : ∀ shift, ∀ n < width.bits, P taken (shift, n)) :
    (optionalShift width rotate).Ensures taken P := by
  simp only [optionalShift, ensures_bind, ensures_accept, ensures_ite, ensures_here,
    ensures_keyword, ensures_malformedAt, ensures_pure, implies_true, true_and]
  refine fun _ => ⟨fun _ _ shift _ _ => ensures_shiftAmount (h shift), fun _ => h _ _ ?_⟩
  cases width <;> decide

end Shifts

end Reader

end InlineA64
