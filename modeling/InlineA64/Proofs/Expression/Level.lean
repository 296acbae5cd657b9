import InlineA64.Proofs.Expression.Onward
import InlineA64.Proofs.Expression.Formula
import Mathlib.Data.List.Basic
import Mathlib.Data.List.TakeWhile

/-!
# Operators and levels

An operator is found at a cursor if and only if it opens the text there
(`Operator.length?_of_opens`, `Operator.opens_of_length?`), and at most one does. The levels of
expressions are numbered by the looseness of their operators: `levels operand n` reads operands
joined by the operators of a looseness below `n`, and `resume operand n v` is what is left of that
where a first operand has been read and has the value `v`.
-/

namespace InlineA64

namespace Cursor

variable (before : List Byte) {behind : List Byte}

theorem isBlank_head?_dropWhile (behind : List Byte) :
    ∀ b ∈ (behind.dropWhile Byte.isBlank).head?, b.isBlank = false := by
  intro b hb
  have hhead := List.head?_dropWhile_not Byte.isBlank behind
  rw [Option.mem_def] at hb
  rw [hb] at hhead
  simpa using hhead

/-- Skipping takes the bytes that are to be skipped, up to the first one that is not. -/
theorem skipBlanks_between_dropWhile (behind : List Byte) :
    (between before behind).skipBlanks =
      between (before ++ behind.takeWhile Byte.isBlank) (behind.dropWhile Byte.isBlank) := by
  have hblanks : ∀ b ∈ behind.takeWhile Byte.isBlank, b.isBlank = true :=
    fun b => List.mem_takeWhile_imp
  have hskip := skipWhile_between before hblanks (isBlank_head?_dropWhile behind)
  rwa [List.takeWhile_append_dropWhile] at hskip

theorem inside_between (behind : List Byte) :
    (between before behind).pos ≤ (between before behind).text.size := by
  simp [between]

theorem ahead_between_append (word behind : List Byte) :
    (between before (word ++ behind)).ahead word.length = behind.getD 0 0 := by
  refine (byteAt_between before _).trans ?_
  rw [List.getD_append_right _ _ _ _ (Nat.le_refl _), Nat.sub_self]

end Cursor

namespace Expression

open Cursor (Scan Onward between)

/-! ## Operators at a cursor -/

namespace Operator

variable {op op' : Operator} {before rest word behind : List Byte}

theorem spelledAt_between (before word rest : List Byte) (i : ℕ) :
    spelledAt (between before rest) word (before.length + i) = true ↔ word <+: rest.drop i := by
  induction word generalizing i with
  | nil => simp [spelledAt]
  | cons b word ih =>
    rw [spelledAt, Bool.and_eq_true, beq_iff_eq, Cursor.getElem?_between, Nat.add_assoc, ih]
    rcases Nat.lt_or_ge i rest.length with hi | hi
    · rw [List.drop_eq_getElem_cons hi, List.cons_prefix_cons, List.getElem?_eq_getElem hi,
        Option.some.injEq, eq_comm]
    · simp [List.getElem?_eq_none hi, List.drop_eq_nil_of_le hi]

/-- No two operators start with the same byte. -/
theorem eq_of_head? {word word' : List Byte} (h : word ∈ op.spellings) (h' : word' ∈ op'.spellings)
    (hhead : word.head? = word'.head?) : op = op' := by
  have hheads : ∀ word ∈ op.spellings, ∀ word' ∈ op'.spellings, word.head? = word'.head? →
      op = op' := by
    cases op <;> cases op' <;> decide
  exact hheads word h word' h' hhead

theorem ne_nil_of_mem (h : word ∈ op.spellings) : word ≠ [] := by
  have hne : ∀ word ∈ op.spellings, word ≠ [] := by cases op <;> decide
  exact hne word h

/-- No operator starts with a blank. -/
theorem isBlank_of_mem (h : word ∈ op.spellings) : ∀ b ∈ word.head?, b.isBlank = false := by
  have hblank : ∀ word ∈ op.spellings, (word.headD 0).isBlank = false := by cases op <;> decide
  intro b hb
  obtain ⟨tail, rfl⟩ := List.head?_eq_some_iff.mp hb
  exact hblank _ h

/-- At most one operator opens a text. -/
theorem Opens.unique (h : op.Opens rest) (h' : op'.Opens rest) : op = op' := by
  obtain ⟨word, hword, behind, rfl, -⟩ := h
  obtain ⟨word', hword', behind', heq, -⟩ := h'
  refine eq_of_head? hword hword' ?_
  have hhead := congrArg List.head? heq
  rwa [List.head?_append_of_ne_nil _ (ne_nil_of_mem hword),
    List.head?_append_of_ne_nil _ (ne_nil_of_mem hword')] at hhead

/-- An operator is found where it opens the text. -/
theorem length?_of_opens (before : List Byte) (hword : word ∈ op.spellings)
    (hbehind : word = op.spelling → op.isWord = true →
      ∀ b ∈ behind.head?, b.continuesName = false) :
    op.length? (between before (word ++ behind)) = some word.length := by
  rw [length?, Cursor.peek_between]
  rcases List.mem_cons.mp hword with rfl | htoken
  · -- a word begins with a letter or a symbol, and no token is one
    have htoken : (op.token? == some ((op.spelling ++ behind).getD 0 0)) = false := by
      cases op <;> rfl
    have hspelled : spelledAt (between before (op.spelling ++ behind)) op.spelling
        (between before (op.spelling ++ behind)).pos = true :=
      (spelledAt_between before _ _ 0).mpr (List.prefix_append _ _)
    have hname : (op.isWord && (behind.getD 0 0).continuesName) = false := by
      rw [Bool.and_eq_false_imp]
      intro hisWord
      cases behind with
      | nil => rfl
      | cons b behind => exact hbehind rfl hisWord b rfl
    rw [htoken, hspelled, Cursor.ahead_between_append, hname]
    rfl
  · obtain ⟨b, hb, rfl⟩ : ∃ b, op.token? = some b ∧ [b] = word := by simpa using htoken
    rw [hb]
    simp

/-- An operator that is found opens the text. -/
theorem opens_of_length? {n : ℕ} (h : op.length? (between before rest) = some n) :
    op.Opens rest := by
  rw [length?, Cursor.peek_between] at h
  split at h
  · next htoken =>
    rw [beq_iff_eq] at htoken
    -- no token is the byte that stands for the end, nor is one spelled like its operator
    obtain ⟨hzero, hspelling⟩ : op.token? ≠ some 0 ∧ op.token?.map ([·]) ≠ some op.spelling := by
      cases op <;> decide
    rw [htoken] at hzero hspelling
    cases rest with
    | nil => exact absurd rfl hzero
    | cons b behind =>
      refine ⟨[b], ?_, behind, rfl, fun heq => absurd (congrArg some heq) hspelling⟩
      simp only [spellings, htoken]
      exact .tail _ (.head _)
  · split at h
    · next hspelled =>
      rw [Bool.and_eq_true, Bool.not_eq_true', Bool.and_eq_false_imp] at hspelled
      obtain ⟨behind, rfl⟩ := (spelledAt_between before _ _ 0).mp hspelled.1
      refine ⟨op.spelling, List.mem_cons_self, behind, rfl, fun _ hisWord b hb => ?_⟩
      have hname := hspelled.2 hisWord
      rw [Cursor.ahead_between_append] at hname
      obtain ⟨tail, rfl⟩ := List.head?_eq_some_iff.mp hb
      exact hname
    · cases h

/-- The operators of each looseness. -/
def ranked : ℕ → List Operator
  | 0 => [multiply, divide]
  | 1 => [add, subtract]
  | 2 => [and]
  | _ => [or, eor]

theorem mem_ranked (op : Operator) : op ∈ ranked op.looseness := by
  cases op <;> decide

theorem looseness_of_mem_ranked {n : ℕ} (hn : n < 4) (h : op ∈ ranked n) : op.looseness = n := by
  have hlooseness : ∀ n < 4, ∀ op ∈ ranked n, op.looseness = n := by decide
  exact hlooseness n hn op h

end Operator

open Operator

variable {before rest word behind gap : List Byte} {operators : List Operator} {op : Operator}

/-- The operator that opens a text is taken, with the blanks before it. -/
theorem operator?_of_opens (before : List Byte) (hgap : Formula.Blank gap) (hmem : op ∈ operators)
    (hword : word ∈ op.spellings)
    (hbehind : word = op.spelling → op.isWord = true →
      ∀ b ∈ behind.head?, b.continuesName = false) :
    operator? operators (between before (gap ++ (word ++ behind))) =
      (some op, between (before ++ gap ++ word) behind) := by
  have hopens : op.Opens (word ++ behind) := ⟨word, hword, behind, rfl, hbehind⟩
  have hblank : ∀ b ∈ (word ++ behind).head?, b.isBlank = false := by
    rw [List.head?_append_of_ne_nil _ (ne_nil_of_mem hword)]
    exact isBlank_of_mem hword
  have hskip : (between before (gap ++ (word ++ behind))).skipBlanks =
      between (before ++ gap) (word ++ behind) := Cursor.skipWhile_between before hgap hblank
  have hlength := length?_of_opens (before ++ gap) hword hbehind
  -- no other operator opens the text, so that the search finds this one
  have hfound : (operators.findSome? fun op =>
      (op.length? (between (before ++ gap) (word ++ behind))).map (op, ·)) =
        some (op, word.length) := by
    have hsome : (operators.findSome? fun op =>
        (op.length? (between (before ++ gap) (word ++ behind))).map (op, ·)).isSome :=
      List.findSome?_isSome_iff.mpr ⟨op, hmem, by rw [hlength]; rfl⟩
    obtain ⟨found, hfound⟩ := Option.isSome_iff_exists.mp hsome
    obtain ⟨other, -, hother⟩ := List.exists_of_findSome?_eq_some hfound
    obtain ⟨n, hn, heq⟩ := Option.map_eq_some_iff.mp hother
    obtain rfl := (opens_of_length? hn).unique hopens
    rw [hlength] at hn
    cases hn
    rw [hfound, ← heq]
  simp only [operator?, hskip, hfound]
  rw [Cursor.advance_between]

/-- Where none of the operators opens the text none is taken. -/
theorem operator?_of_not_opens (before : List Byte)
    (h : ∀ op ∈ operators, ¬op.Opens (behind.dropWhile Byte.isBlank)) :
    operator? operators (between before behind) =
      (none, (between before behind).skipBlanks) := by
  have hnone : (operators.findSome? fun op =>
      (op.length? (between before behind).skipBlanks).map (op, ·)) = none := by
    rw [List.findSome?_eq_none_iff]
    intro op hop
    rw [Cursor.skipBlanks_between_dropWhile, Option.map_eq_none_iff,
      Option.eq_none_iff_forall_ne_some]
    exact fun n hn => h op hop (opens_of_length? hn)
  simp only [operator?, hnone]

/-! ## Levels -/

/-- Two runs that agree go on alike. -/
theorem bind_of_eq {α β : Type} {x y : Scan α} {s t : Cursor} (h : x s = y t) (f : α → Scan β) :
    (x >>= f) s = (y >>= f) t := by
  rcases hy : y t with ⟨a, u⟩ | ⟨e, u⟩
  · rw [bind_of_ok (h.trans hy), bind_of_ok hy]
  · rw [bind_of_error (h.trans hy), bind_of_error hy]

/-- Expressions with the operators of a looseness below `n` outside of parentheses. -/
def levels (operand : Scan Value) : ℕ → Scan Value
  | 0 => operand
  | n + 1 => level (ranked n) (levels operand n)

theorem joined_eq_levels (operand : Scan Value) : joined operand = levels operand 4 := rfl

theorem read_eq_levels (scope : Scope) (s : Cursor) :
    read scope s = levels (Expression.operand scope.value? (s.remaining + 1)) 4 s := by
  rw [read, readIn, get_bind, joined_eq_levels]

/-- What is left to read of a level where an operand of it has been read. -/
def resume (operand : Scan Value) : ℕ → Value → Scan Value
  | 0, v => pure v
  | n + 1, v => do
    let left ← resume operand n v
    chain (ranked n) (levels operand n) ((← get).remaining + 1) left

variable {operand : Scan Value} {s t : Cursor} {m n : ℕ} {v : Value}

/-- What has been read of a level has been read of every looser one. -/
theorem levels_of_le (hmn : m ≤ n) (h : levels operand m s = resume operand m v t) :
    levels operand n s = resume operand n v t := by
  -- a level starts with an operand of the level below
  induction hmn with
  | refl => exact h
  | step _ ih => exact bind_of_eq ih _

theorem levels_of_le_of_error (hmn : m ≤ n) {failure : Failure}
    (h : levels operand m s = .error failure t) : levels operand n s = .error failure t := by
  induction hmn with
  | refl => exact h
  | step _ ih => exact bind_of_error ih

theorem reaches_levels (hoperand : Reaches Onward operand) (n : ℕ) :
    Reaches Onward (levels operand n) := by
  induction n with
  | zero => exact hoperand
  | succ n ih => exact reaches_level _ ih

/-- Nothing is left to read but blanks where no operator of the level opens the text. -/
theorem resume_of_not_opens (before : List Byte) (hn : n ≤ 4)
    (h : ∀ op : Operator, op.looseness < n → ¬op.Opens (behind.dropWhile Byte.isBlank))
    (v : Value) :
    resume operand n v (between before behind) =
      .ok v (if n = 0 then between before behind else (between before behind).skipBlanks) := by
  induction n with
  | zero => rfl
  | succ n ih =>
    have ih := ih (Nat.le_of_succ_le hn) fun op hop => h op (Nat.lt_succ_of_lt hop)
    have hnone : ∀ op ∈ ranked n, ¬op.Opens (behind.dropWhile Byte.isBlank) := fun op hop =>
      h op (by rw [looseness_of_mem_ranked hn hop]; exact Nat.lt_succ_self n)
    have hoperator := operator?_of_not_opens before hnone
    rw [resume, bind_of_ok ih, get_bind, chain, get_bind]
    -- the lowest level skips the blanks, and the others find them skipped
    split
    · rw [bind_of_ok (modifyGet_eq_ok.mpr hoperator)]
      rfl
    · rw [← operator?_skipBlanks] at hoperator
      rw [bind_of_ok (modifyGet_eq_ok.mpr hoperator)]
      rfl

theorem inside_skipped (before behind : List Byte) {c : Prop} [Decidable c] :
    (if c then between before behind else (between before behind).skipBlanks).pos ≤
      (if c then between before behind else (between before behind).skipBlanks).text.size := by
  have hinside := Cursor.inside_between before behind
  split
  · exact hinside
  · exact (between before behind).onward_skipBlanks.inside hinside

theorem operator?_skipped (operators : List Operator) (s : Cursor) (c : Prop) [Decidable c] :
    operator? operators (if c then s else s.skipBlanks) = operator? operators s := by
  split
  · rfl
  · exact operator?_skipBlanks operators s

end Expression

end InlineA64
