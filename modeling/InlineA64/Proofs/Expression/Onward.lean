import InlineA64.Proofs.Embeds.Expression
import InlineA64.Proofs.Reader.Onward

/-!
# Expressions move onward

An expression leaves the text alone and moves the cursor onward in it, whether it has a value or
not (`Expression.reaches_read`), and so does the name of a variable (`Expression.reaches_name`). An
operator takes a byte at least, so that operands joined by operators need no more fuel than there
are bytes (`Expression.chain_eq_of_remaining_lt`).
-/

namespace InlineA64.Expression

open Cursor (Scan Onward)

variable {α : Type} {operand : Scan Value} {value? : Name → Option Value} {s : Cursor}

/-! ## Items -/

theorem reaches_failAt (offset : Nat) (fault : Fault) :
    Reaches Onward (Cursor.failAt offset fault : Scan α) := Onward.refl

theorem reaches_fail (fault : Fault) : Reaches Onward (Cursor.fail fault : Scan α) := Onward.refl

theorem reaches_advance (n : Nat) : Reaches Onward (modify (·.advance n) : Scan PUnit) :=
  fun s => s.onward_advance n

theorem reaches_takeWhile (p : Byte → Bool) : Reaches Onward (takeWhile p) := fun s =>
  s.onward_skipWhile p

theorem reaches_based (base start : Nat) : Reaches Onward (based base start) :=
  (reaches_takeWhile _).bind fun _ => .ite (reaches_failAt _ _) (.pure _)

theorem reaches_decimal : Reaches Onward decimal := by
  refine (reaches_takeWhile _).bind fun _ => .get_bind fun s => .ite ?_ (.pure _)
  exact (reaches_advance 1).bind fun _ => (reaches_takeWhile _).bind fun _ => .pure _

theorem reaches_string : Reaches Onward string := by
  refine .get_bind fun _ => (reaches_advance 1).bind fun _ => .get_bind fun s => ?_
  refine (reaches_advance _).bind fun _ => ?_
  split
  · exact .pure _
  · exact reaches_failAt _ _

theorem reaches_name : Reaches Onward name :=
  (reaches_takeWhile _).bind fun _ => .get_bind fun _ =>
    .ite ((reaches_advance 1).bind fun _ => .pure _) (.pure _)

theorem reaches_item (value? : Name → Option Value) : Reaches Onward (item value?) := by
  have hbased (base start : Nat) :
      Reaches Onward (modify (·.advance 1) >>= fun _ => based base start : Scan Value) :=
    (reaches_advance 1).bind fun _ => reaches_based _ _
  refine .get_bind fun s => .ite (hbased 16 _) (.ite (hbased 2 _) (.ite reaches_string ?_))
  refine .ite reaches_decimal (.ite (reaches_name.bind fun word => ?_) (reaches_fail _))
  split
  · exact .pure _
  · exact reaches_failAt _ _

/-! ## Operators -/

theorem onward_operator? (operators : List Operator) (s : Cursor) :
    s.Onward (operator? operators s).2 := by
  rw [operator?]
  split
  · exact s.onward_skipBlanks.trans (Cursor.onward_advance _ _)
  · exact s.onward_skipBlanks

/-- An operator takes a byte at least. -/
theorem remaining_operator?_lt {operators : List Operator} {op : Operator}
    (h : (operator? operators s).1 = some op) (hinside : s.pos ≤ s.text.size) :
    (operator? operators s).2.remaining < s.remaining := by
  have hskip : s.skipBlanks.pos ≤ s.skipBlanks.text.size := s.onward_skipBlanks.inside hinside
  refine Nat.lt_of_lt_of_le ?_ s.onward_skipBlanks.remaining_le
  rw [operator?] at h ⊢
  split at h
  · next found length hfound =>
    obtain ⟨op', -, hlength⟩ := List.exists_of_findSome?_eq_some hfound
    obtain ⟨n, hn, heq⟩ := Option.map_eq_some_iff.mp hlength
    cases heq
    obtain ⟨hpos, hle⟩ := bounds_of_length? hn hskip
    simp only [Cursor.remaining, Cursor.advance]
    omega
  · cases h

theorem reaches_chain (operators : List Operator) (hoperand : Reaches Onward operand) (fuel : Nat)
    (left : Value) : Reaches Onward (chain operators operand fuel left) := by
  have hoperator : Reaches Onward (modifyGet (operator? operators) : Scan (Option Operator)) :=
    onward_operator? operators
  induction fuel generalizing left with
  | zero => exact .pure left
  | succ fuel ih =>
    refine .get_bind fun s => hoperator.bind fun op => ?_
    cases op with
    | none => exact .pure left
    | some op =>
      refine hoperand.bind fun right => ?_
      split
      · exact ih _
      · exact reaches_failAt _ _

theorem reaches_level (operators : List Operator) (hoperand : Reaches Onward operand) :
    Reaches Onward (level operators operand) :=
  hoperand.bind fun left => .get_bind fun _ => reaches_chain operators hoperand _ left

theorem reaches_joined (hoperand : Reaches Onward operand) : Reaches Onward (joined operand) :=
  reaches_level _ (reaches_level _ (reaches_level _ (reaches_level _ hoperand)))

/-- Fuel that outlasts the text is as good as any other such. -/
theorem chain_eq_of_remaining_lt (operators : List Operator) (hoperand : Reaches Onward operand)
    {fuel fuel' : Nat} (h : s.remaining < fuel) (h' : s.remaining < fuel')
    (hinside : s.pos ≤ s.text.size) (left : Value) :
    chain operators operand fuel left s = chain operators operand fuel' left s := by
  induction fuel generalizing fuel' left s with
  | zero => omega
  | succ fuel ih =>
    obtain ⟨fuel', rfl⟩ : ∃ n, fuel' = n + 1 := ⟨fuel' - 1, by omega⟩
    have hcursor := onward_operator? operators s
    rcases hop : operator? operators s with ⟨_ | op, t⟩
    · rw [chain, chain, get_bind, get_bind, bind_of_ok (modifyGet_eq_ok.mpr hop),
        bind_of_ok (modifyGet_eq_ok.mpr hop)]
    · -- the operator has taken a byte, and the operand behind it goes on from there
      have hless : t.remaining < s.remaining := by
        have hless := remaining_operator?_lt (congrArg Prod.fst hop) hinside
        rwa [hop] at hless
      rw [hop] at hcursor
      have ht : t.pos ≤ s.text.size := hcursor.inside hinside
      rw [← hcursor.text] at ht
      rw [chain, chain, get_bind, get_bind, bind_of_ok (modifyGet_eq_ok.mpr hop),
        bind_of_ok (modifyGet_eq_ok.mpr hop)]
      dsimp only
      rcases hright : operand t with ⟨right, u⟩ | ⟨failure, u⟩
      · have hu := (hoperand t).of_eq_ok hright
        have hinside_u := hu.inside ht
        rw [← hu.text] at hinside_u
        have hremaining := hu.remaining_le
        rw [bind_of_ok hright, bind_of_ok hright]
        rcases op.apply left right with fault | value
        · rfl
        · exact ih (by omega) (by omega) hinside_u value
      · rw [bind_of_error hright, bind_of_error hright]

/-! ## Expressions -/

theorem reaches_negate (start : Nat) (v : Value) : Reaches Onward (negate start v) := by
  cases v with
  | int n => exact .pure _
  | float f => exact .pure _
  | string bytes => exact reaches_failAt _ _

theorem reaches_operand (value? : Name → Option Value) (depth : Nat) :
    Reaches Onward (Expression.operand value? depth) := by
  have hskip : Reaches Onward (modify Cursor.skipBlanks : Scan PUnit) := Cursor.onward_skipBlanks
  have hclose : Reaches Onward
      (Cursor.expect ')' (.malformed (.missing ')')) : Scan Unit) := by
    have haccept : Reaches Onward (modifyGet (·.accept ')'.toUInt8) : Scan Bool) := fun s =>
      s.onward_accept (by decide)
    exact haccept.bind fun taken => .ite (.pure ()) (reaches_fail _)
  -- the induction is on how deep brackets and signs can still be nested
  induction depth with
  | zero => exact reaches_fail _
  | succ depth ih =>
    refine .get_bind fun start => hskip.bind fun _ => .get_bind fun s => ?_
    refine .ite ((reaches_advance 1).bind fun _ => ih.bind fun v => reaches_negate _ v) ?_
    refine .ite ((reaches_advance 1).bind fun _ => ih) (.ite ?_ (reaches_item value?))
    exact (reaches_advance 1).bind fun _ => (reaches_joined ih).bind fun v =>
      hclose.bind fun _ => .pure v

theorem reaches_readIn (value? : Name → Option Value) : Reaches Onward (readIn value?) :=
  .get_bind fun _ => reaches_joined (reaches_operand value? _)

/-- An expression moves the cursor onward, whether it has a value or not. -/
theorem reaches_read (scope : Scope) : Reaches Onward (read scope) :=
  reaches_readIn scope.value?

end InlineA64.Expression
