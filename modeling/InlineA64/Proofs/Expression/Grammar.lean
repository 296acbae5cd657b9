import InlineA64.Proofs.Expression.Item
import InlineA64.Proofs.Machine

/-!
# The grammar of expressions

Every text of a formula is read as that formula. By induction on how the text is made, it reads as
the value of the formula wherever it stands, before anything that may follow it
(`Expression.Formula.readsAs_of_prints`): at the level of its limit, reading it comes to what is
left of the level behind the text with the value of the formula in hand.

* `Machine.evaluate_prints`: a text of a formula is evaluated to the value of the formula, or fails
  with the first mishap from left to right.
-/

namespace InlineA64

namespace Expression

open Cursor (Scan Onward between)
open Operator

namespace Formula

variable {operand : Scan Value} {s t : Cursor} {m n : ℕ} {value? : Name → Option Value}
  {r : Except ℕ Int64}

/-! ## Values -/

/-- Operators do to numbers what is asked of them. -/
theorem apply_int (op : Operator) (a b : Int64) :
    op.apply (.int a) (.int b) =
      match op.result a b with
      | .ok v => .ok (.int v)
      | .error _ => .error .divisionByZero := by
  cases op with
  | or | eor | and => rfl
  | add =>
    have hsum : Int64.ofInt (a.toInt + b.toInt) = a + b := by
      rw [Int64.ofInt_add, Int64.ofInt_toInt, Int64.ofInt_toInt]
    simp only [result, hsum]
    rfl
  | subtract =>
    have hdifference : Int64.ofInt (a.toInt - b.toInt) = a - b := by
      rw [Int64.ofInt_sub, Int64.ofInt_toInt, Int64.ofInt_toInt]
    simp only [result, hdifference]
    rfl
  | multiply =>
    have hproduct : Int64.ofInt (a.toInt * b.toInt) = a * b := by
      rw [Int64.ofInt_mul, Int64.ofInt_toInt, Int64.ofInt_toInt]
    simp only [result, hproduct]
    rfl
  | divide =>
    have hquotient : Int64.ofInt (a.toInt.tdiv b.toInt) = a / b := by
      rw [← Int64.toInt_inj, Int64.toInt_ofInt, Int64.toInt_div]
    simp only [result, hquotient]
    -- division by zero is the only error
    change (if b == 0 then _ else _) = _
    by_cases hb : b = 0
    · simp [hb]
    · simp [hb]

theorem code_of_result {op : Operator} {a b : Int64} {code : ℕ} (h : op.result a b = .error code) :
    code = Fault.divisionByZero.code := by
  cases op <;> simp only [result, reduceCtorEq] at h
  split at h
  · cases h
    rfl
  · cases h

/-! ## What may follow -/

/-- The bytes that items can go on with: those of names, the signs of types and the point. -/
def continuesItem (b : Byte) : Bool :=
  b.continuesName || b == '%'.toUInt8 || b == '$'.toUInt8 || b == '.'.toUInt8

theorem continuesItem_of_continuedBy {limit : ℕ} {t : Formula} {b : Byte}
    (h : t.continuedBy limit b = true) : continuesItem b = true := by
  simp only [continuesItem, Bool.or_eq_true, beq_iff_eq, or_assoc]
  -- the byte goes on with the item at the right end of the formula
  induction t generalizing limit with
  | literal n =>
    rw [continuedBy, Numeral.continuedBy, Bool.or_eq_true, Bool.and_eq_true, beq_iff_eq,
      beq_iff_eq] at h
    rcases h with hdigit | ⟨-, hpoint⟩
    · have halphanumeric := isAlphanumeric_of_digit? hdigit
      rw [Byte.isAlphanumeric, Bool.or_eq_true] at halphanumeric
      left
      rcases halphanumeric with hletter | hdigit
      · simp [Byte.continuesName, Byte.startsName, hletter]
      · simp [Byte.continuesName, hdigit]
    · exact .inr (.inr (.inr hpoint))
  | name x =>
    simp only [continuedBy, Identifier.continuedBy, Bool.and_eq_true, Bool.or_eq_true,
      beq_iff_eq] at h
    rcases h.2 with (hname | hpercent) | hdollar
    · exact .inl hname
    · exact .inr (.inl hpercent)
    · exact .inr (.inr (.inl hdollar))
  | signed negative t ih => exact ih h
  | binary op left right _ ih =>
    rw [continuedBy, Bool.and_eq_true] at h
    exact ih h.2

/-- No item goes on with a blank, nor with another byte that items do not go on with. -/
theorem continuedBy_of_gap {gap : List Byte} (hgap : Blank gap) {b : Byte}
    (hb : gap = [] → continuesItem b = false) (limit : ℕ) (t : Formula) (rest : List Byte) :
    ∀ c ∈ (gap ++ b :: rest).head?, t.continuedBy limit c = false := by
  intro c hc
  have hclass : continuesItem c = false := by
    cases gap with
    | nil =>
      cases hc
      exact hb rfl
    | cons d gap =>
      cases hc
      have hblank := hgap c List.mem_cons_self
      rw [Byte.isBlank, Bool.or_eq_true, beq_iff_eq, beq_iff_eq] at hblank
      rcases hblank with rfl | rfl <;> decide
  exact Bool.eq_false_of_not_eq_true fun h => by
    rw [continuesItem_of_continuedBy h] at hclass
    cases hclass

theorem dropWhile_gap {gap : List Byte} (hgap : Blank gap) {b : Byte} (hb : b.isBlank = false)
    (rest : List Byte) : (gap ++ b :: rest).dropWhile Byte.isBlank = b :: rest := by
  rw [List.dropWhile_append_of_pos hgap, List.dropWhile_cons_of_neg (by simp [hb])]

/-- A text may follow one of a formula under a limit: it does not go on with the last item, and an
operator that it starts with binds no tighter than the limit allows. -/
structure MayFollow (limit : ℕ) (t : Formula) (behind : List Byte) : Prop where
  continuedBy_eq : ∀ b ∈ behind.head?, t.continuedBy limit b = false
  le_looseness : ∀ op : Operator,
    op.Opens (behind.dropWhile Byte.isBlank) → limit ≤ op.looseness + 1

/-- A byte that no operator starts with opens none. -/
theorem not_opens_cons {op : Operator} {b : Byte} (hb : ∀ word ∈ op.spellings, word.head? ≠ some b)
    (rest : List Byte) : ¬op.Opens (b :: rest) := by
  rintro ⟨word, hword, behind, heq, -⟩
  refine hb word hword ?_
  rw [← List.head?_append_of_ne_nil _ (ne_nil_of_mem hword), ← heq]
  rfl

/-! ## Reading -/

/-- Read at a level, an expression up to a cursor comes to a value or to an error. -/
def Reads (operand : Scan Value) (n : ℕ) (s t : Cursor) : Except ℕ Int64 → Prop
  | .ok v => levels operand n s = resume operand n (.int v) t
  | .error code => ∃ failure u, levels operand n s = .error failure u ∧ failure.fault.code = code

variable {value? : Name → Option Value} {r : Except ℕ Int64}

theorem Reads.of_le (hmn : m ≤ n) (h : Reads operand m s t r) : Reads operand n s t r := by
  cases r with
  | ok v => exact levels_of_le hmn h
  | error code =>
    obtain ⟨failure, u, herror, hcode⟩ := h
    exact ⟨failure, u, levels_of_le_of_error hmn herror, hcode⟩

/-- An operand that is read as another one is. -/
theorem Reads.of_eq {operand' : Scan Value} {s' : Cursor} (h : Reads operand 0 s' t r)
    (hoperand : operand' s = operand s') : Reads operand' 0 s t r := by
  cases r with
  | ok v => exact hoperand.trans h
  | error code =>
    obtain ⟨failure, u, herror, hcode⟩ := h
    exact ⟨failure, u, hoperand.trans herror, hcode⟩

/-- An operand that is read by reading an expression and doing something with its value. -/
theorem Reads.of_bind {operand' : Scan Value} {s' t' : Cursor} {f : Value → Scan Value}
    {g : Int64 → Int64} (h : Reads operand n s' t' r)
    (hoperand : operand' s = (levels operand n >>= f) s')
    (hf : ∀ v, (resume operand n (.int v) >>= f) t' = .ok (.int (g v)) t) :
    Reads operand' 0 s t (r >>= fun v => pure (g v)) := by
  cases r with
  | ok v => exact hoperand.trans ((bind_of_eq h f).trans (hf v))
  | error code =>
    obtain ⟨failure, u, herror, hcode⟩ := h
    exact ⟨failure, u, hoperand.trans (bind_of_error herror), hcode⟩

/-- A text of a formula reads as a value or an error wherever it stands, before anything that may
follow it. -/
def ReadsAs (value? : Name → Option Value) (limit : ℕ) (t : Formula) (text : List Byte)
    (r : Except ℕ Int64) : Prop :=
  ∀ (before behind : List Byte) (depth : ℕ), text.length ≤ depth → MayFollow limit t behind →
    Reads (Expression.operand value? depth) limit (between before (text ++ behind))
      (between (before ++ text) behind) r

variable {limit : ℕ} {t : Formula} {text blanks : List Byte}

/-- A depth that suffices for a text suffices, less one, for what is behind its first byte. -/
theorem exists_depth {b : Byte} {rest : List Byte} {depth : ℕ}
    (h : (blanks ++ b :: rest).length ≤ depth) : ∃ d, depth = d + 1 ∧ rest.length ≤ d := by
  rw [List.length_append, List.length_cons] at h
  exact ⟨depth - 1, by omega, by omega⟩

/-- An item is read from the byte that it starts with. -/
theorem readsAs_of_item {word : List Byte} {p : Byte → Bool} {r : Except ℕ Int64}
    (hblanks : Blank blanks) (hword : ∃ b tail, word = b :: tail ∧ p b = true)
    (hspace : p 0x20 = false) (htab : p 0x09 = false) (hminus : p '-'.toUInt8 = false)
    (hplus : p '+'.toUInt8 = false) (hopen : p '('.toUInt8 = false)
    (hitem : ∀ before behind : List Byte, (∀ b ∈ behind.head?, t.continuedBy limit b = false) →
      Reads (item value?) 0 (between before (word ++ behind)) (between (before ++ word) behind) r) :
    ReadsAs value? limit t (blanks ++ word) r := by
  intro before behind depth hdepth hfollow
  obtain ⟨b, tail, rfl, hb⟩ := hword
  obtain ⟨depth, rfl, -⟩ := exists_depth hdepth
  have hblank : b.isBlank = false := by
    rw [Byte.isBlank, beq_of_class hb hspace, beq_of_class hb htab, Bool.or_self]
  have hoperand := operand_of_item value? before hblanks hb hblank hminus hplus hopen
    (tail ++ behind) depth
  have hreads := hitem (before ++ blanks) behind hfollow.continuedBy_eq
  rw [List.append_assoc, ← List.append_assoc before]
  exact (hreads.of_eq hoperand).of_le (Nat.zero_le limit)

theorem readsAs_literal (n : Numeral) (hblanks : Blank blanks) :
    ReadsAs value? limit (.literal n) (blanks ++ n.text) (.ok (.ofNat n.value)) :=
  readsAs_of_item hblanks n.exists_text_eq_cons rfl rfl rfl rfl rfl fun before _ hbehind =>
    n.item_text before hbehind value?

/-- What a name stands for is a number, or nothing. -/
theorem readsAs_name (x : Identifier) (hblanks : Blank blanks) {r : Except ℕ Int64}
    (hvalue : ∀ v, r = .ok v → value? x.name = some (.int v))
    (hunknown : ∀ code, r = .error code → value? x.name = none ∧ code = Fault.noSuchVariable.code) :
    ReadsAs value? limit (.name x) (blanks ++ x.name) r := by
  refine readsAs_of_item hblanks x.exists_name_eq_cons rfl rfl rfl rfl rfl ?_
  intro before behind hbehind
  have hitem := x.item_name before hbehind value?
  cases r with
  | ok v =>
    rw [hvalue v rfl] at hitem
    exact hitem
  | error code =>
    obtain ⟨hnone, rfl⟩ := hunknown code rfl
    rw [hnone] at hitem
    exact ⟨_, _, hitem, rfl⟩

theorem readsAs_signed (negative : Bool) (hblanks : Blank blanks) {r : Except ℕ Int64}
    (h : ReadsAs value? 0 t text r) :
    ReadsAs value? limit (.signed negative t) (blanks ++ signByte negative :: text)
      (r >>= fun v => pure (if negative then .ofInt (-v.toInt) else v)) := by
  intro before behind depth hdepth hfollow
  obtain ⟨depth, rfl, htext⟩ := exists_depth hdepth
  -- a sign takes an operand without operators, so any of them may follow
  have hbehind : MayFollow 0 t behind :=
    ⟨hfollow.continuedBy_eq, fun op _ => Nat.zero_le _⟩
  have hreads := h (before ++ blanks ++ [signByte negative]) behind depth htext hbehind
  have hoperand := operand_of_sign value? before hblanks negative (text ++ behind) depth
  have hsigned (v : Int64) (u : Cursor) :
      (resume (Expression.operand value? depth) 0 (.int v) >>= fun v =>
        if negative then negate before.length v else pure v : Scan Value) u =
      .ok (.int (if negative then .ofInt (-v.toInt) else v)) u := by
    have hnegative : Int64.ofInt (-v.toInt) = -v := by rw [Int64.ofInt_neg, Int64.ofInt_toInt]
    rw [hnegative]
    cases negative <;> rfl
  rw [List.append_assoc, List.cons_append]
  refine (hreads.of_bind hoperand fun v => ?_).of_le (Nat.zero_le limit)
  simpa only [List.append_assoc, List.singleton_append] using hsigned v _

theorem readsAs_parenthesised {op : Operator} {l r : Formula} {gap : List Byte}
    (hblanks : Blank blanks) (hgap : Blank gap)
    {outcome : Except ℕ Int64} (h : ReadsAs value? 4 (.binary op l r) text outcome) :
    ReadsAs value? limit (.binary op l r)
      (blanks ++ '('.toUInt8 :: (text ++ (gap ++ [')'.toUInt8]))) outcome := by
  intro before behind depth hdepth _
  obtain ⟨depth, rfl, htext⟩ := exists_depth hdepth
  rw [List.length_append] at htext
  -- inside, the expression goes on to the closing parenthesis
  have hnone (other : Operator) :
      ¬other.Opens ((gap ++ ')'.toUInt8 :: behind).dropWhile Byte.isBlank) := by
    rw [dropWhile_gap hgap rfl]
    exact not_opens_cons (by cases other <;> decide) behind
  have hbehind : MayFollow 4 (.binary op l r) (gap ++ ')'.toUInt8 :: behind) :=
    ⟨continuedBy_of_gap hgap (fun _ => rfl) _ _ _, fun other hother => (hnone other hother).elim⟩
  have hreads := h (before ++ blanks ++ ['('.toUInt8]) (gap ++ ')'.toUInt8 :: behind) depth
    (Nat.le_of_add_right_le htext) hbehind
  have hoperand := operand_of_open value? before hblanks
    (text ++ (gap ++ ')'.toUInt8 :: behind)) depth
  have hclosed (v : Value) : (resume (Expression.operand value? depth) 4 v >>= fun v =>
      Cursor.expect ')' (.malformed (.missing ')')) >>= fun _ => pure v : Scan Value)
        (between (before ++ blanks ++ ['('.toUInt8] ++ text) (gap ++ ')'.toUInt8 :: behind)) =
      .ok v (between
        (before ++ blanks ++ ['('.toUInt8] ++ text ++ gap ++ [')'.toUInt8]) behind) := by
    rw [bind_of_ok (resume_of_not_opens _ (Nat.le_refl 4) (fun other _ => hnone other) v),
      if_neg (by decide), skipBlanks_between_cons _ hgap rfl,
      bind_of_ok (expect_close _ behind _)]
    rfl
  have hresult := hreads.of_bind hoperand fun v => hclosed (.int v)
  rw [bind_pure] at hresult
  refine Reads.of_le (Nat.zero_le limit) ?_
  simpa only [List.append_assoc, List.cons_append, List.nil_append] using hresult

/-- Where the left operand ends at an operator, the operator and the right operand are read, and the
result takes the place of the left operand. -/
theorem reads_operation {op : Operator} {s t t₁ u u₁ : Cursor} {a : Int64} {b : Except ℕ Int64}
    (hoperand : Reaches Onward operand)
    (hs : levels operand (m + 1) s = resume operand (m + 1) (.int a) t)
    (ht : ∀ v, resume operand m v t = .ok v t₁) (hinside : t₁.pos ≤ t₁.text.size)
    {t₂ : Cursor} (hoperator : operator? (ranked m) t₁ = (some op, t₂))
    (hright : Reads operand m t₂ u b) (hu : ∀ v, resume operand m v u = .ok v u₁)
    (hinside' : u₁.pos ≤ u₁.text.size) :
    Reads operand (m + 1) s u (b >>= op.result a) := by
  -- what is tighter has nothing left to read at the operator, and the chain of its level takes it
  rw [resume, bind_of_ok (ht _), get_bind, chain, get_bind,
    bind_of_ok (modifyGet_eq_ok.mpr hoperator)] at hs
  cases b with
  | error code =>
    obtain ⟨failure, v, herror, hcode⟩ := hright
    exact ⟨failure, v, hs.trans (bind_of_error herror), hcode⟩
  | ok b =>
    have hread : levels operand m t₂ = .ok (.int b) u₁ := hright.trans (hu _)
    have happly := apply_int op a b
    dsimp only at hs
    rw [bind_of_ok hread] at hs
    change Reads operand (m + 1) s u (op.result a b)
    cases hresult : op.result a b with
    | error code =>
      rw [hresult] at happly
      rw [happly] at hs
      exact ⟨_, _, hs, (code_of_result hresult).symm⟩
    | ok v =>
      rw [hresult] at happly
      rw [happly] at hs
      -- the rest of the chain is read with fuel to spare either way
      have hless : u₁.remaining < t₁.remaining := by
        have hlt := remaining_operator?_lt (congrArg Prod.fst hoperator) hinside
        rw [hoperator] at hlt
        have hle := ((reaches_levels hoperand m t₂).of_eq_ok hread).remaining_le
        exact Nat.lt_of_le_of_lt hle hlt
      change _ = (resume operand m (.int v) >>= _) u
      rw [bind_of_ok (hu _), get_bind]
      refine hs.trans ?_
      exact chain_eq_of_remaining_lt _ (reaches_levels hoperand m) hless (Nat.lt_succ_self _)
        hinside' _

section Apart

variable {op : Operator} {gap word right : List Byte}

/-- A word that is set apart from what follows does not go on as a name. -/
theorem continuesName_of_apart (behind : List Byte)
    (hapart : word = op.spelling → op.isWord = true →
      gap ≠ [] ∧ ∃ b ∈ right.head?, b.isBlank = true) (hspelling : word = op.spelling)
    (hisWord : op.isWord = true) : ∀ b ∈ (right ++ behind).head?, b.continuesName = false := by
  intro b hb
  obtain ⟨-, d, hd, hblank⟩ := hapart hspelling hisWord
  obtain ⟨tail, rfl⟩ := List.head?_eq_some_iff.mp hd
  cases hb
  rw [Byte.isBlank, Bool.or_eq_true, beq_iff_eq, beq_iff_eq] at hblank
  rcases hblank with rfl | rfl <;> decide

/-- An operator that stands directly behind an item is no part of it, since it is no word. -/
theorem continuesItem_of_apart {c : Byte} {tail : List Byte} (hword : c :: tail ∈ op.spellings)
    (hapart : c :: tail = op.spelling → op.isWord = true →
      gap ≠ [] ∧ ∃ b ∈ right.head?, b.isBlank = true) (hgap : gap = []) :
    continuesItem c = false := by
  have hwords : ∀ word ∈ op.spellings, continuesItem (word.headD 0) = true →
      word = op.spelling ∧ op.isWord = true := by cases op <;> decide
  refine Bool.eq_false_of_not_eq_true fun hcontinues => ?_
  obtain ⟨hspelling, hisWord⟩ := hwords _ hword hcontinues
  exact (hapart hspelling hisWord).1 hgap

end Apart

theorem readsAs_binary {op : Operator} {l r : Formula} {left gap word right : List Byte}
    (hlimit : op.looseness < limit) (hgap : Blank gap) (hword : word ∈ op.spellings)
    (hapart : word = op.spelling → op.isWord = true →
      gap ≠ [] ∧ ∃ b ∈ right.head?, b.isBlank = true)
    {a b : Except ℕ Int64} (hl : ReadsAs value? (op.looseness + 1) l left a)
    (hr : ReadsAs value? op.looseness r right b) :
    ReadsAs value? limit (.binary op l r) (left ++ (gap ++ (word ++ right)))
      (a >>= fun a => b >>= fun b => op.result a b) := by
  intro before behind depth hdepth hfollow
  have hloosest : op.looseness < 4 := by cases op <;> decide
  simp only [List.length_append] at hdepth
  simp only [List.append_assoc]
  obtain ⟨c, tail, rfl⟩ := List.exists_cons_of_ne_nil (ne_nil_of_mem hword)
  have hblank : c.isBlank = false := isBlank_of_mem hword c rfl
  -- a word is set apart by blanks, so that it is neither part of an item nor goes on as a name
  have hbehind : c :: tail = op.spelling → op.isWord = true →
      ∀ b ∈ (right ++ behind).head?, b.continuesName = false :=
    continuesName_of_apart behind hapart
  have hitem : gap = [] → continuesItem c = false := continuesItem_of_apart hword hapart
  have hopens : op.Opens (c :: tail ++ (right ++ behind)) := ⟨_, hword, _, rfl, hbehind⟩
  have hunique (other : Operator)
      (h : other.Opens ((gap ++ (c :: tail ++ (right ++ behind))).dropWhile Byte.isBlank)) :
      other = op := by
    rw [List.cons_append, dropWhile_gap hgap hblank] at h
    exact h.unique hopens
  have hleft := hl before (gap ++ (c :: tail ++ (right ++ behind))) depth (by omega)
    ⟨continuedBy_of_gap hgap hitem _ _ _, fun other hother => by rw [hunique other hother]⟩
  have hright := hr (before ++ left ++ gap ++ c :: tail) behind depth (by omega) ⟨fun b hb => by
    have hcontinued := hfollow.continuedBy_eq b hb
    rwa [continuedBy, decide_eq_true hlimit, Bool.true_and] at hcontinued, fun other hother => by
    have hle := hfollow.le_looseness other hother
    omega⟩
  -- the limit allows the operator, so the operation is read at its level and what is looser goes on
  refine Reads.of_le hlimit ?_
  cases a with
  | error code => exact hleft
  | ok a =>
    have hoperator : operator? (ranked op.looseness) (between (before ++ left)
        (gap ++ (c :: tail ++ (right ++ behind)))) = (some op, _) :=
      operator?_of_opens (before ++ left) hgap (mem_ranked op) hword hbehind
    have hend := reads_operation (reaches_operand value? depth) hleft
      (resume_of_not_opens _ hloosest.le fun other hless hother => by
        rw [hunique other hother] at hless
        omega)
      (inside_skipped _ _) ((operator?_skipped _ _ _).trans hoperator) hright
      (resume_of_not_opens _ hloosest.le fun other hless hother => by
        have hle := hfollow.le_looseness other hother
        omega)
      (inside_skipped _ _)
    simp only [List.append_assoc] at hend
    exact hend

/-! ### Machines -/

variable {context : Context} {w : Machine}

/-- No string goes by the name, unless it is the name of an address. -/
def NamesNumber (w : Machine) (name : Name) : Prop :=
  name = bytesOf "P%" ∨ name = bytesOf "O%" ∨ ∀ bytes, w.vars.get? name ≠ some (.string bytes)

theorem readsAs_name_machine (x : Identifier) (hblanks : Blank blanks) (h : NamesNumber w x.name) :
    ReadsAs (Scope.value? ⟨context, w.vars⟩) limit (.name x) (blanks ++ x.name)
      ((Formula.name x).value context w.number?) := by
  have hvalue : (∀ v, (Formula.name x).value context w.number? = .ok v →
        Scope.value? ⟨context, w.vars⟩ x.name = some (.int v)) ∧
      ∀ code, (Formula.name x).value context w.number? = .error code →
        Scope.value? ⟨context, w.vars⟩ x.name = none ∧ code = Fault.noSuchVariable.code := by
    rw [value, Scope.value?]
    by_cases hlogical : x.name = bytesOf "P%"
    · simp [hlogical]
    by_cases hphysical : x.name = bytesOf "O%"
    · have hne : bytesOf "O%" ≠ bytesOf "P%" := by decide
      simp [hphysical, hne]
    have hstring := (h.resolve_left hlogical).resolve_left hphysical
    rw [if_neg hlogical, if_neg hlogical, if_neg hphysical, if_neg hphysical, Machine.number?]
    rcases hvar : w.vars.get? x.name with _ | (n | bytes)
    · -- a name without a value is refused if ranges are checked, and else is the address here
      cases context.options.rangeCheck
      · simp
      · simp [Fault.code]
    · simp [Variable.value]
    · exact absurd hvar (hstring bytes)
  exact readsAs_name x hblanks hvalue.1 hvalue.2

/-- Every text of a formula reads as the value of the formula. -/
theorem readsAs_of_prints (context : Context) (h : Prints limit t text)
    (hnames : t.AllNames (NamesNumber w)) :
    ReadsAs (Scope.value? ⟨context, w.vars⟩) limit t text (t.value context w.number?) := by
  -- the induction is on how the text is made
  induction h with
  | literal n hblanks => exact readsAs_literal n hblanks
  | name x hblanks => exact readsAs_name_machine x hblanks hnames
  | signed negative hblanks htext ih =>
    exact readsAs_signed negative hblanks (ih hnames)
  | binary hlimit hleft hgap hword hapart hright ihl ihr =>
    exact readsAs_binary hlimit hgap hword hapart (ihl hnames.1) (ihr hnames.2)
  | parenthesised _ hblanks hinner hgap ih => exact readsAs_parenthesised hblanks hgap (ih hnames)

end Formula

end Expression

namespace Machine

open Cursor (between)
open Expression (Formula)

variable {context : Context} {w : Machine}

/-- A text of an expression, before anything that does not go on with it, is evaluated to the value
of the expression, and the cursor is left at the first byte behind it that is no blank; or it fails
with the error of the first mishap from left to right. -/
theorem evaluate_prints {t : Formula} {text behind : List Byte} (before : List Byte)
    (htext : t.Prints 4 text) (hbehind : t.EndsBefore behind)
    (hnames : t.AllNames (Formula.NamesNumber w)) :
    (∀ v, t.value context w.number? = .ok v →
      environment.evaluate context (between before (text ++ behind), w) =
        .ok (.int v) (between (before ++ text ++ behind.takeWhile Byte.isBlank)
          (behind.dropWhile Byte.isBlank), w)) ∧
    ∀ code, t.value context w.number? = .error code →
      ∃ failure s, environment.evaluate context (between before (text ++ behind), w) =
        .error failure (s, w) ∧ failure.fault.code = code := by
  have hlength : text.length ≤ (between before (text ++ behind)).remaining + 1 := by
    rw [Cursor.remaining_between, List.length_append]
    omega
  have hreads := Formula.readsAs_of_prints context htext hnames before behind _ hlength
    ⟨hbehind.continuedBy_eq, fun op hop => (hbehind.not_opens op hop).elim⟩
  have hlevels := Expression.read_eq_levels ⟨context, w.vars⟩ (between before (text ++ behind))
  constructor
  · intro v hv
    rw [hv] at hreads
    have hend := hreads.trans (Expression.resume_of_not_opens (before ++ text) (Nat.le_refl 4)
      (fun op _ => hbehind.not_opens op) (.int v))
    rw [if_neg (by decide), Cursor.skipBlanks_between_dropWhile] at hend
    exact evaluate_eq_ok.mpr ⟨hlevels.trans hend, rfl⟩
  · intro code hcode
    rw [hcode] at hreads
    obtain ⟨failure, s, herror, hfault⟩ := hreads
    exact ⟨failure, s, evaluate_eq_error.mpr ⟨hlevels.trans herror, rfl⟩, hfault⟩

/-- A sum in parentheses with a sign before it, and the low bits of that. -/
theorem evaluate_prints_masked :
    environment.evaluate ⟨0x8000, 0x8000, .standard⟩
        (between [] (bytesOf "-(2 + X%) AND %101 , R1"),
          (ofBase 0x8000).setVariable (bytesOf "X%") (.numeric 3)) =
      .ok (.int 1) (between (bytesOf "-(2 + X%) AND %101 ") (bytesOf ", R1"),
        (ofBase 0x8000).setVariable (bytesOf "X%") (.numeric 3)) := by
  let two : Expression.Numeral := ⟨.decimal, bytesOf "2", by decide, by decide⟩
  let mask : Expression.Numeral := ⟨.binary, bytesOf "101", by decide, by decide⟩
  let x : Expression.Identifier := ⟨bytesOf "X", some '%'.toUInt8,
    ⟨'X'.toUInt8, rfl, by decide⟩, by decide, by simp⟩
  let t : Formula :=
    .binary .and (.signed true (.binary .add (.literal two) (.name x))) (.literal mask)
  have htext : t.Prints 4 (bytesOf "-(2 + X%) AND %101") := t.prints_text 4
  have hbehind : t.EndsBefore (bytesOf " , R1") :=
    ⟨by rintro b ⟨⟩; rfl, fun op => Formula.not_opens_cons (by cases op <;> decide) _⟩
  have hnames : t.AllNames (Formula.NamesNumber
      ((ofBase 0x8000).setVariable (bytesOf "X%") (.numeric 3))) :=
    ⟨⟨trivial, .inr (.inr (by rintro bytes ⟨⟩))⟩, trivial⟩
  exact (evaluate_prints [] htext hbehind hnames).1 1 (by decide)

end Machine

end InlineA64
