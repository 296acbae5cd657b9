import InlineA64.Machine.Expression
import InlineA64.Proofs.Cursor
import InlineA64.Proofs.Environment

/-!
# Expressions in two scopes

What an expression does to the text does not depend on what the names in it stand for: where it has
a value in two scopes it takes the same bytes in both, and if its value is a string in one it is
that string in the other (`Expression.lockstep_read`). It is enough that every single name is such
an expression. If all names have the same values, so has every expression (`Expression.read_congr`).
A decimal with no operator behind it has no names, so that it has one value in all
scopes (`Expression.read_eq_of_plainDecimal`).
-/

namespace InlineA64

theorem Byte.isDigit_of_startsName {b : Byte} (h : b.startsName = true) : b.isDigit = false := by
  rw [← Bool.not_eq_true]
  intro hdigit
  simp only [startsName, isLetter, isUpper, isLower, isDigit, Bool.or_eq_true, Bool.and_eq_true,
    decide_eq_true_eq, beq_iff_eq, UInt8.le_iff_toNat_le, ← UInt8.toNat_inj, UInt8.reduceToNat]
    at h hdigit
  omega

namespace Expression

open Value (SameForm)
open Cursor (Scan)

/-- Every name that has a value in two scopes has values of the same form there. -/
def Scope.SameForm (scope scope' : Scope) : Prop :=
  ∀ ⦃name v w⦄, scope.value? name = some v → scope'.value? name = some w → v.SameForm w

/-! ## Operators -/

namespace Operator

variable {op : Operator} {v w : Value}

theorem toBytes?_of_onInts {a b : Int64} (h : op.onInts a b = .ok v) : v.toBytes? = none := by
  cases op <;> simp only [onInts, Except.ok.injEq] at h <;> try (subst h; rfl)
  all_goals
    split at h
    · cases h
    · cases h
      rfl

theorem toBytes?_of_onFloats {a b : Float} (h : op.onFloats a b = .ok v) : v.toBytes? = none := by
  cases op <;> simp only [onFloats, Except.ok.injEq] at h <;> try (subst h; rfl)
  all_goals
    split at h
    · cases h
    · cases h
      rfl

/-- The value of an operation is a string if and only if both operands are strings. -/
theorem toBytes?_of_arithmetic {a b : Value} (h : op.arithmetic a b = .ok v) :
    v.toBytes? = a.toBytes?.bind fun x => b.toBytes?.map (x ++ ·) := by
  unfold arithmetic at h
  -- numbers yield numbers, and of a string and a number there is no operation
  split at h
  · exact toBytes?_of_onInts h
  · exact toBytes?_of_onFloats h
  · exact toBytes?_of_onFloats h
  · exact toBytes?_of_onFloats h
  · split at h
    · cases h
      rfl
    · cases h
  · cases h

theorem toBytes?_of_apply {a b : Value} (h : op.apply a b = .ok v) :
    v.toBytes? = a.toBytes?.bind fun x => b.toBytes?.map (x ++ ·) := by
  unfold apply at h
  split at h
  · exact toBytes?_of_arithmetic h
  · split at h
    case h_1 _ _ m n hm hn =>
      -- the operands are integers, so neither is a string
      cases h
      cases a <;> first | rfl | cases hm
    case h_2 => cases h

theorem sameForm_of_apply {a b a' b' : Value} (ha : SameForm a a') (hb : SameForm b b')
    (hv : op.apply a b = .ok v) (hw : op.apply a' b' = .ok w) : SameForm v w := by
  unfold SameForm at ha hb ⊢
  rw [toBytes?_of_apply hv, toBytes?_of_apply hw, ha, hb]

end Operator

/-! ## Operands joined by operators -/

variable {operand operand' : Scan Value}

theorem failAt_eq_error {α : Type} (offset : Nat) (fault : Fault) (s : Cursor) :
    ∃ e t, (Cursor.failAt offset fault : Scan α) s = .error e t :=
  ⟨_, _, rfl⟩

theorem lockstep_chain (operators : List Operator) (h : Lockstep Eq SameForm operand operand')
    (fuel : Nat) {left left' : Value} (hleft : SameForm left left') :
    Lockstep Eq SameForm (chain operators operand fuel left)
      (chain operators operand' fuel left') := by
  -- the left operand grows with each operator, and keeps its form
  induction fuel generalizing left left' with
  | zero => exact .pure hleft
  | succ fuel ih =>
    unfold chain
    refine (Lockstep.refl _).bind fun s _ hs => ?_
    subst hs
    refine (Lockstep.refl _).bind fun op _ hop => ?_
    subst hop
    cases op with
    | none => exact .pure hleft
    | some op =>
      refine h.bind fun right right' hright => ?_
      rcases hv : op.apply left right with fault | v
      · exact .of_error_left (failAt_eq_error _ _)
      · rcases hw : op.apply left' right' with fault | w
        · exact .of_error_right (failAt_eq_error _ _)
        · exact ih (Operator.sameForm_of_apply hleft hright hv hw)

theorem lockstep_level (operators : List Operator) (h : Lockstep Eq SameForm operand operand') :
    Lockstep Eq SameForm (level operators operand) (level operators operand') := by
  refine h.bind fun left left' hleft => ?_
  refine (Lockstep.refl _).bind fun s _ hs => ?_
  subst hs
  exact lockstep_chain operators h _ hleft

theorem lockstep_joined (h : Lockstep Eq SameForm operand operand') :
    Lockstep Eq SameForm (joined operand) (joined operand') :=
  lockstep_level _ (lockstep_level _ (lockstep_level _ (lockstep_level _ h)))

/-! ## Operands -/

variable {value? value?' : Name → Option Value} {scope scope' : Scope}

theorem lockstep_refl (x : Scan Value) : Lockstep Eq SameForm x x :=
  (Lockstep.refl x).mono fun _ _ h => congrArg Value.toBytes? h

theorem lockstep_item
    (h : ∀ ⦃name v w⦄, value? name = some v → value?' name = some w → v.SameForm w) :
    Lockstep Eq SameForm (item value?) (item value?') := by
  unfold item
  refine (Lockstep.refl _).bind fun s _ hs => ?_
  subst hs
  -- names apart, no item looks at the scope
  refine .ite (fun _ => lockstep_refl _) fun _ => ?_
  refine .ite (fun _ => lockstep_refl _) fun _ => ?_
  refine .ite (fun _ => lockstep_refl _) fun _ => ?_
  refine .ite (fun _ => lockstep_refl _) fun _ => ?_
  refine .ite (fun _ => ?_) fun _ => lockstep_refl _
  refine (Lockstep.refl _).bind fun name _ hname => ?_
  subst hname
  rcases hv : value? name with _ | v
  · exact .of_error_left (failAt_eq_error _ _)
  · rcases hw : value?' name with _ | w
    · exact .of_error_right (failAt_eq_error _ _)
    · exact .pure (h hv hw)

theorem sameForm_float (f g : Float) : SameForm (.float f) (.float g) := rfl

theorem lockstep_negate (start : Nat) {v w : Value} (h : SameForm v w) :
    Lockstep Eq SameForm (negate start v) (negate start w) := by
  cases v with
  | string bytes => exact .of_error_left (failAt_eq_error _ _)
  | int m =>
    cases w with
    | string bytes => exact .of_error_right (failAt_eq_error _ _)
    | int n => exact .pure rfl
    | float g => exact .pure rfl
  | float f =>
    cases w with
    | string bytes => exact .of_error_right (failAt_eq_error _ _)
    | int n => exact .pure rfl
    -- by the lemma, so that the two negations need not be compared
    | float g => exact .pure (sameForm_float (-f) (-g))

theorem lockstep_operand
    (h : ∀ ⦃name v w⦄, value? name = some v → value?' name = some w → v.SameForm w) (depth : Nat) :
    Lockstep Eq SameForm (Expression.operand value? depth) (Expression.operand value?' depth) := by
  -- the induction is on how deep brackets and signs can still be nested
  induction depth with
  | zero => exact lockstep_refl _
  | succ depth ih =>
    unfold Expression.operand
    refine (Lockstep.refl _).bind fun s _ hs => ?_
    subst hs
    refine (Lockstep.refl _).bind fun _ _ _ => ?_
    refine (Lockstep.refl _).bind fun s' _ hs' => ?_
    subst hs'
    refine .ite (fun _ => ?_) fun _ => .ite (fun _ => ?_) fun _ => .ite (fun _ => ?_) fun _ => ?_
    · refine (Lockstep.refl _).bind fun _ _ _ => ?_
      exact ih.bind fun v w hvw => lockstep_negate _ hvw
    · exact (Lockstep.refl _).bind fun _ _ _ => ih
    · refine (Lockstep.refl _).bind fun _ _ _ => ?_
      refine (lockstep_joined ih).bind fun v w hvw => ?_
      exact (Lockstep.refl _).bind fun _ _ _ => .pure hvw
    · exact lockstep_item h

/-- An expression takes the same text in two scopes, and its values have the same form. -/
theorem lockstep_read (h : scope.SameForm scope') :
    Lockstep Eq SameForm (read scope) (read scope') := by
  refine (Lockstep.refl _).bind fun s _ hs => ?_
  subst hs
  exact lockstep_joined (lockstep_operand h _)

/-! ## Scopes that tell names the same values -/

/-- An expression depends on what the names in scope stand for and on nothing else. -/
theorem read_congr (h : scope.value? = scope'.value?) : read scope = read scope' := by
  rw [read, read, h]

/-! ## Plain decimals -/

/-- At the cursor stands a decimal with no operator behind it. -/
def plainDecimal (s : Cursor) : Bool :=
  match decimal s with
  | .ok _ t => (operator? [.or, .eor, .and, .add, .subtract, .multiply, .divide] t).1.isNone
  | .error _ _ => false

theorem operator?_skipBlanks (operators : List Operator) (s : Cursor) :
    operator? operators s.skipBlanks = operator? operators s := by
  simp only [operator?, Cursor.skipBlanks_skipBlanks]

/-- Where there is none of some operators there is none of fewer, and the blanks are skipped. -/
theorem operator?_eq_none {operators fewer : List Operator} {s : Cursor}
    (h : (operator? operators s).1.isNone) (hfewer : fewer ⊆ operators) :
    operator? fewer s = (none, s.skipBlanks) := by
  simp only [operator?] at h ⊢
  split at h
  case h_1 => cases h
  case h_2 hnone =>
    rw [List.findSome?_eq_none_iff] at hnone
    rw [List.findSome?_eq_none_iff.mpr fun op hop => hnone op (hfewer hop)]

theorem level_of_no_operator {operators : List Operator} {s t : Cursor} {v : Value}
    (hoperand : operand s = .ok v t) (h : operator? operators t = (none, t.skipBlanks)) :
    level operators operand s = .ok v t.skipBlanks := by
  refine (bind_of_ok hoperand).trans ?_
  rw [get_bind, chain, get_bind]
  exact bind_of_ok (modifyGet_eq_ok.mpr h)

/-- Operands with no operator behind the first are that operand. -/
theorem joined_of_no_operator {s t : Cursor} {v : Value} (hoperand : operand s = .ok v t)
    (h : (operator? [.or, .eor, .and, .add, .subtract, .multiply, .divide] t).1.isNone) :
    joined operand s = .ok v t.skipBlanks := by
  have hnone : ∀ fewer : List Operator,
      operator? fewer t = (none, t.skipBlanks) := fun fewer =>
    operator?_eq_none h fun op _ => by cases op <;> simp
  have hagain : ∀ fewer : List Operator,
      operator? fewer t.skipBlanks = (none, t.skipBlanks.skipBlanks) := fun fewer => by
    rw [operator?_skipBlanks, Cursor.skipBlanks_skipBlanks, hnone]
  -- the innermost level skips the blanks behind the operand, and the outer ones find none
  have hlevel (fewer : List Operator) {x : Scan Value} (hx : x s = .ok v t.skipBlanks) :
      level fewer x s = .ok v t.skipBlanks := by
    rw [level_of_no_operator hx (hagain fewer), Cursor.skipBlanks_skipBlanks]
  exact hlevel _ (hlevel _ (hlevel _ (level_of_no_operator hoperand (hnone _))))

/-- A byte of a class is none that is not of the class. -/
theorem beq_of_class {p : Byte → Bool} {b c : Byte} (hb : p b = true) (hc : p c = false) :
    (b == c) = false := by
  rw [beq_eq_false_iff_ne]
  rintro rfl
  rw [hc] at hb
  cases hb

theorem item_of_digit {s : Cursor} (h : s.peek.isDigit) : item value? s = decimal s := by
  have hne {c : Byte} (hc : c.isDigit = false) : (s.peek == c) = false := beq_of_class h hc
  -- none of the other items starts with a digit
  rw [item, get_bind]
  simp only [hne (c := '&'.toUInt8) rfl, hne (c := '%'.toUInt8) rfl, hne (c := '"'.toUInt8) rfl, h,
    Bool.true_or, Bool.false_eq_true, if_false, if_true]

/-- An operand that starts, behind blanks, with neither a sign nor a parenthesis is an item. -/
theorem operand_skipBlanks_of_class {p : Byte → Bool} {s : Cursor} (h : p s.skipBlanks.peek = true)
    (hminus : p '-'.toUInt8 = false) (hplus : p '+'.toUInt8 = false) (hopen : p '('.toUInt8 = false)
    (depth : Nat) : Expression.operand value? (depth + 1) s = item value? s.skipBlanks := by
  rw [Expression.operand, get_bind, modify_bind, get_bind]
  simp only [beq_of_class h hminus, beq_of_class h hplus, beq_of_class h hopen,
    Bool.false_eq_true, if_false]

/-- An operand that starts with neither a blank nor a sign nor a parenthesis is an item. -/
theorem operand_of_class {p : Byte → Bool} {s : Cursor} (h : p s.peek = true)
    (hspace : p 0x20 = false) (htab : p 0x09 = false) (hminus : p '-'.toUInt8 = false)
    (hplus : p '+'.toUInt8 = false) (hopen : p '('.toUInt8 = false) (depth : Nat) :
    Expression.operand value? (depth + 1) s = item value? s := by
  have hblank : s.peek.isBlank = false := by
    rw [Byte.isBlank, beq_of_class h hspace, beq_of_class h htab, Bool.or_false]
  have hskip : s.skipBlanks = s := Cursor.skipBlanks_of_not_blank hblank
  exact (operand_skipBlanks_of_class (hskip.symm ▸ h) hminus hplus hopen depth).trans
    (congrArg _ hskip)

theorem operand_of_digit {s : Cursor} (h : s.peek.isDigit) (depth : Nat) :
    Expression.operand value? (depth + 1) s = decimal s := by
  rw [operand_of_class h rfl rfl rfl rfl rfl, item_of_digit h]

/-- A plain decimal has one value in all scopes. -/
theorem read_eq_of_plainDecimal (scope scope' : Scope) {s : Cursor} (hdigit : s.peek.isDigit)
    (h : plainDecimal s) : read scope s = read scope' s := by
  rw [plainDecimal] at h
  split at h
  case h_1 v t hdecimal =>
    have hread (scope : Scope) : read scope s = .ok v t.skipBlanks :=
      joined_of_no_operator ((operand_of_digit hdigit _).trans hdecimal) h
    rw [hread, hread]
  case h_2 => cases h

/-! ## Plain names -/

/-- The name at the cursor if no operator stands behind it. -/
def plainName? (s : Cursor) : Option Name :=
  if s.peek.startsName then
    match name s with
    | .ok name t =>
      if (operator? [.or, .eor, .and, .add, .subtract, .multiply, .divide] t).1.isNone then
        some name
      else none
    | .error _ _ => none
  else none

theorem item_of_startsName {s : Cursor} (h : s.peek.startsName = true) :
    item value? s = (name >>= fun name => match value? name with
      | some value => pure value
      | none => Cursor.failAt s.pos .noSuchVariable) s := by
  have hdigit := Byte.isDigit_of_startsName h
  rw [item, get_bind]
  simp only [beq_of_class (c := '&'.toUInt8) h rfl, beq_of_class (c := '%'.toUInt8) h rfl,
    beq_of_class (c := '"'.toUInt8) h rfl, beq_of_class (c := '.'.toUInt8) h rfl, hdigit,
    Bool.or_self, Bool.false_eq_true, if_false]
  exact congrFun (if_pos h) s

theorem level_of_error (operators : List Operator) {s t : Cursor} {failure : Failure}
    (hoperand : operand s = .error failure t) : level operators operand s = .error failure t :=
  bind_of_error hoperand

/-- A plain name has the value that it stands for. -/
theorem readIn_of_plainName {s : Cursor} {word : Name} (h : plainName? s = some word) :
    ∃ t, ∀ (value? : Name → Option Value) (v : Value) (u : Cursor),
      readIn value? s = .ok v u ↔ value? word = some v ∧ u = t := by
  rw [plainName?] at h
  split at h
  · next hstarts =>
    split at h
    · next word' t hname =>
      split at h
      · next hnone =>
        cases h
        refine ⟨t.skipBlanks, fun value? v u => ?_⟩
        have hoperand : Expression.operand value? (s.remaining + 1) s = _ :=
          (operand_of_class hstarts rfl rfl rfl rfl rfl _).trans (item_of_startsName hstarts)
        rw [bind_of_ok hname] at hoperand
        rcases hw : value? word with _ | w
        · rw [hw] at hoperand
          -- no level of operators makes up for an operand that is missing
          have herror : readIn value? s = _ := level_of_error _ (level_of_error _ (level_of_error _
            (level_of_error _ hoperand)))
          exact iff_of_false (fun hread => nomatch herror.symm.trans hread) fun h => nomatch h.1
        · rw [hw] at hoperand
          have hread : readIn value? s = .ok w t.skipBlanks := joined_of_no_operator hoperand hnone
          rw [hread, EStateM.Result.ok.injEq, Option.some.injEq, eq_comm (a := u)]
      · cases h
    · cases h
  · cases h

end Expression

end InlineA64
