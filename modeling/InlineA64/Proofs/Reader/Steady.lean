import InlineA64.Operand.Address
import InlineA64.Proofs.Reader.Agree

/-!
# The readers of operands are steady

Marks, keywords and registers are read from the text alone. Immediates and labels take the same
text whatever their values are, and so do memory operands, which moreover have one base register.
-/

namespace InlineA64

theorem MemoryOperand.base?_eq_none {operand : MemoryOperand} :
    operand.base? = none ↔ ∃ offset, operand = .literal offset := by
  cases operand with
  | literal offset => exact iff_of_true rfl ⟨offset, rfl⟩
  | _ => exact iff_of_false (Option.some_ne_none _) (fun ⟨_, h⟩ => by cases h)

namespace Reader

/-! ## Marks and keywords -/

theorem textual_here : here.Textual :=
  textual_request trivial

theorem textual_sees (p : Punctuation) : (sees p).Textual :=
  textual_request trivial

theorem textual_accept (p : Punctuation) : (accept p).Textual :=
  textual_request trivial

theorem textual_expect (p : Punctuation) (fault : Fault) : (expect p fault).Textual :=
  (textual_accept p).bind fun _ => .ite (textual_pure _) (textual_failHere _)

theorem textual_comma : comma.Textual :=
  textual_expect _ _

theorem textual_hash : hash.Textual :=
  textual_expect _ _

theorem textual_openBracket : openBracket.Textual :=
  textual_expect _ _

theorem textual_closeBracket : closeBracket.Textual :=
  textual_request trivial

theorem textual_keyword {β : Type} (v : Vocabulary β) : (keyword v).Textual :=
  textual_request trivial

theorem textual_wholeWord {β : Type} (v : Vocabulary β) : (wholeWord v).Textual :=
  textual_request trivial

theorem textual_condition : condition.Textual := by
  refine textual_here.bind fun start => (textual_keyword _).bind fun code? => ?_
  cases code? with
  | none => exact textual_failAt _ _
  | some code => exact textual_pure _

theorem textual_oppositeCondition : oppositeCondition.Textual :=
  textual_here.bind fun _ => textual_condition.bind fun _ =>
    .ite (textual_failAt _ _) (textual_pure _)

/-! ## Registers -/

theorem textual_register : register.Textual :=
  textual_request trivial

theorem textual_plainRegister : plainRegister.Textual :=
  textual_here.bind fun _ => textual_register.bind fun _ =>
    .ite (textual_failAt _ _) (textual_pure _)

theorem textual_registerOf (width : Width) : (registerOf width).Textual :=
  textual_here.bind fun _ => textual_plainRegister.bind fun _ =>
    .ite (textual_failAt _ _) (textual_pure _)

theorem textual_wideRegister : wideRegister.Textual :=
  textual_here.bind fun _ => textual_register.bind fun _ =>
    .ite (textual_failAt _ _) (textual_pure _)

theorem textual_addressRegister : addressRegister.Textual :=
  textual_here.bind fun _ => textual_register.bind fun _ =>
    .ite (textual_failAt _ _) (textual_pure _)

theorem textual_narrowRegister : narrowRegister.Textual :=
  textual_here.bind fun _ => textual_register.bind fun _ =>
    .ite (textual_failAt _ _) (textual_pure _)

theorem textual_requireSameWidth (r s : Register) : (requireSameWidth r s).Textual :=
  .ite (textual_pure _) (textual_failHere _)

/-! ## Values -/

theorem steady_value : value.Steady :=
  (steady_request .value).bind fun _ _ => .pure trivial

theorem steady_immediate : immediate.Steady :=
  textual_hash.bind fun _ => steady_value

theorem steady_constant (max : Nat) (limit : Limit) : (constant max limit).Steady :=
  textual_hash.bind fun _ => textual_here.bind fun _ =>
    steady_value.bind_silent (fun _ => silent_liftAt _ _) fun _ => silent_liftAt _ _

theorem steady_optionalConstant (max default : Nat) : (optionalConstant max default).Steady :=
  (textual_sees _).bind fun _ => .ite (steady_constant _ _) (steady_pure _)

theorem steady_distance : distance.Steady :=
  (steady_request .distance).bind fun _ _ => .pure trivial

theorem agree_reachable (mark : Mark) (d : Displacement) (m n : Int) :
    Agree (fun _ _ => True) (reachable mark d m) (reachable mark d n) :=
  .reach (.done trivial)

theorem steady_target (d : Displacement) : (target d).Steady :=
  textual_here.bind fun _ => steady_distance.bind fun _ _ => agree_reachable _ _ _ _

/-! ## Shifts -/

theorem steady_shiftAmount (width : Width) : (shiftAmount width).Steady :=
  steady_constant _ _

theorem steady_bitNumber (width : Width) : (bitNumber width).Steady :=
  steady_constant _ _

theorem steady_optionalShift (width : Width) (rotate : Bool) :
    (optionalShift width rotate).Steady := by
  refine (textual_accept _).bind fun _ => .ite ?_ (steady_pure _)
  refine textual_here.bind fun _ => (textual_keyword _).bind fun kind? => ?_
  cases kind? with
  | none => exact (textual_failAt _ _).steady
  | some kind =>
    refine .ite (textual_failAt _ _).steady ?_
    exact (steady_shiftAmount _).bind fun _ _ => .pure trivial

/-! ## Memory operands -/

/-- What stands behind the base register is of one kind, with one index register. -/
def Inside.SameKind : Inside → Inside → Prop
  | .nothing, .nothing | .offset _, .offset _ => True
  | .index r m _ w, .index r' m' _ w' => r = r' ∧ m = m' ∧ w = w'
  | _, _ => False

theorem agree_indexModifier (index : Register) :
    Agree Inside.SameKind (indexModifier index) (indexModifier index) := by
  refine (textual_keyword _).bind fun modifier? => ?_
  cases modifier? with
  | none => exact .failLeft _ _ _
  | some modifier =>
    refine (textual_sees _).bind fun _ => .ite ?_ (.pure ⟨rfl, rfl, rfl⟩)
    exact steady_immediate.bind fun _ _ => .pure ⟨rfl, rfl, rfl⟩

theorem agree_inside : Agree Inside.SameKind inside inside := by
  refine (textual_accept _).bind fun _ => .ite ?_ (.pure trivial)
  refine (textual_sees _).bind fun _ => .ite ?_ ?_
  · exact steady_immediate.bind fun _ _ => .pure trivial
  · refine textual_register.bind fun index => (textual_accept _).bind fun _ => .ite ?_ ?_
    · exact agree_indexModifier index
    · exact .pure ⟨rfl, rfl, rfl⟩

/-- A memory operand takes the same text whatever its numbers are, and has the same base register:
none if it is a label. -/
theorem agree_address :
    Agree (fun m n => m.base? = n.base?) Reader.address Reader.address := by
  refine (textual_sees _).bind fun _ => .ite ?_ ?_
  · refine textual_openBracket.bind fun _ => textual_addressRegister.bind fun base => ?_
    refine agree_inside.bind fun inside inside' h => textual_closeBracket.bind fun _ => ?_
    -- of one kind inside the brackets, both look for the same things behind them
    match inside, inside', h with
    | .index .., .index .., _ => exact .pure rfl
    | .offset offset, .offset offset', _ =>
      refine (textual_sees _).bind fun _ => .ite ?_ (.pure rfl)
      exact (textual_accept _).bind fun _ => .pure rfl
    | .nothing, .nothing, _ =>
      refine (textual_sees _).bind fun _ => .ite (.failLeft _ _ _) ?_
      refine (textual_request (q := .seesPostIndex) trivial).bind fun _ => .ite ?_ (.pure rfl)
      refine (textual_accept _).bind fun _ => ?_
      exact steady_immediate.bind fun _ _ => .pure rfl
  · exact steady_distance.bind fun _ _ => .pure rfl

/-- Readers that go on behind a memory operand have to be compared only where it is a label, if they
ask for nothing otherwise. -/
theorem agree_address_bind {α β : Type} {f : MemoryOperand → Reader α}
    {g : MemoryOperand → Reader β}
    (hlabel : ∀ m n, Agree (fun _ _ => True) (f (.literal m)) (g (.literal n)))
    (hf : ∀ operand, operand.base? ≠ none → (f operand).Silent)
    (hg : ∀ operand, operand.base? ≠ none → (g operand).Silent) :
    Agree (fun _ _ => True) (Reader.address >>= f) (Reader.address >>= g) := by
  refine agree_address.bind fun operand operand' hbase => ?_
  by_cases hnone : operand.base? = none
  -- without a base register both operands are labels
  · obtain ⟨m, rfl⟩ := MemoryOperand.base?_eq_none.mp hnone
    obtain ⟨n, rfl⟩ := MemoryOperand.base?_eq_none.mp hbase.symm
    exact hlabel m n
  · exact .of_silent (hf operand hnone) (hg operand' (hbase ▸ hnone))

theorem textual_optionalZeroOffset : optionalZeroOffset.Textual := by
  refine (textual_accept _).bind fun _ => .ite ?_ (textual_pure _)
  refine textual_here.bind fun _ => (steady_immediate.bind_silent ?_ ?_).mono fun _ _ _ => rfl
  all_goals exact fun _ => .ite (silent_failAt _ _) (silent_pure _)

theorem textual_plainAddress : plainAddress.Textual :=
  textual_openBracket.bind fun _ => textual_addressRegister.bind fun _ =>
    textual_optionalZeroOffset.bind fun _ => textual_closeBracket.bind fun _ => textual_pure _

end Reader

end InlineA64
