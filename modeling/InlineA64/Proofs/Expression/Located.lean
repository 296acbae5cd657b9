import InlineA64.Proofs.Expression.Onward
import InlineA64.Proofs.Located

/-!
# Where expressions fail

An expression that cannot be evaluated points at something that it has read
(`Expression.locates_read`): numbers, strings and names at their first byte, operators at where they
were looked for, and anything else at where it was missed.
-/

namespace InlineA64.Expression

open Cursor (Scan)

variable {origin : Cursor} {operand : Scan Value}

/-! ## Items -/

theorem locates_takeWhile (p : Byte → Bool) : Locates origin (takeWhile p) := fun s hs =>
  hs.trans_onward (s.onward_skipWhile p)

theorem locates_advance (n : Nat) : Locates origin (modify (·.advance n) : Scan PUnit) :=
  .modify fun s => s.onward_advance n

theorem locates_based (base : Nat) (s : Cursor) : Locates s (based base s.pos) :=
  (locates_takeWhile _).bind fun _ => .ite (Locates.failAt s _) (.pure _)

theorem locates_decimal : Locates origin decimal := by
  refine (locates_takeWhile _).bind fun _ => .get_bind fun s _ => .ite ?_ (.pure _)
  exact (locates_advance 1).bind fun _ => (locates_takeWhile _).bind fun _ => .pure _

theorem locates_string : Locates origin string := by
  -- a string that does not end is noted at its opening quote
  refine .get_bind_here fun s => (locates_advance 1).bind fun _ => .get_bind fun _ _ => ?_
  refine (locates_advance _).bind fun _ => ?_
  split
  · exact .pure _
  · exact Locates.failAt s _

theorem locates_name : Locates origin name :=
  (locates_takeWhile _).bind fun _ => .get_bind fun _ _ =>
    .ite ((locates_advance 1).bind fun _ => .pure _) (.pure _)

theorem locates_item (value? : Name → Option Value) : Locates origin (item value?) := by
  -- the faults of an item, which starts at `s`, are noted there
  refine .get_bind_here fun s => ?_
  have hbased (base : Nat) :
      Locates s (modify (·.advance 1) >>= fun _ => based base s.pos : Scan Value) :=
    (locates_advance 1).bind fun _ => locates_based base s
  refine .ite (hbased 16) (.ite (hbased 2) (.ite locates_string (.ite locates_decimal ?_)))
  refine .ite (locates_name.bind fun word => ?_) (Locates.fail _)
  split
  · exact .pure _
  · exact Locates.failAt s _

/-! ## Operators -/

theorem locates_chain (operators : List Operator) (hoperand : ∀ origin, Locates origin operand)
    (fuel : Nat) (left : Value) : Locates origin (chain operators operand fuel left) := by
  -- what follows an operator is looked at as coming from where that was looked for
  induction fuel generalizing origin left with
  | zero => exact .pure left
  | succ fuel ih =>
    refine .get_bind_here fun s =>
      (Locates.modifyGet (onward_operator? operators)).bind fun op => ?_
    cases op with
    | none => exact .pure left
    | some op =>
      refine (hoperand s).bind fun right => ?_
      split
      · exact ih _
      · exact Locates.failAt s _

theorem locates_level (operators : List Operator) (hoperand : ∀ origin, Locates origin operand)
    (origin : Cursor) : Locates origin (level operators operand) :=
  (hoperand origin).bind fun left => .get_bind fun _ _ => locates_chain operators hoperand _ left

theorem locates_joined (hoperand : ∀ origin, Locates origin operand) (origin : Cursor) :
    Locates origin (joined operand) :=
  locates_level _ (locates_level _ (locates_level _ (locates_level _ hoperand))) origin

/-! ## Expressions -/

theorem locates_negate (s : Cursor) (v : Value) : Locates s (negate s.pos v) := by
  cases v with
  | int n => exact .pure _
  | float f => exact .pure _
  | string bytes => exact Locates.failAt s _

theorem locates_operand (value? : Name → Option Value) (depth : Nat) (origin : Cursor) :
    Locates origin (Expression.operand value? depth) := by
  induction depth generalizing origin with
  | zero => exact Locates.fail _
  | succ depth ih =>
    -- a sign points at where the operand was looked for, before the blanks
    refine .get_bind_here fun s => (Locates.modify Cursor.onward_skipBlanks).bind fun _ => ?_
    refine .get_bind fun _ _ => .ite ?_ (.ite ?_ (.ite ?_ (locates_item value?)))
    · exact (locates_advance 1).bind fun _ => (ih s).bind fun v => locates_negate s v
    · exact (locates_advance 1).bind fun _ => ih s
    · exact (locates_advance 1).bind fun _ => (locates_joined ih s).bind fun v =>
        (Locates.expect (by decide) _).bind fun _ => .pure v

/-- An expression that cannot be evaluated points at something that it has read. -/
theorem locates_read (scope : Scope) : Locates origin (read scope) :=
  .get_bind fun _ _ => locates_joined (locates_operand scope.value? _) origin

end InlineA64.Expression
