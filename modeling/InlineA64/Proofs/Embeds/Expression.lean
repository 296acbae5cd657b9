import InlineA64.Proofs.Embeds
import InlineA64.Proofs.Expression

/-!
# Expressions inside a longer text

An expression that has a value in a text has it wherever the text is part of a longer one, and takes
the same bytes there (`Expression.takes_readIn`). The names in it may stand for more in the longer
text than in the text alone.
-/

namespace InlineA64

open Cursor (Embeds Scan)

variable {before behind : Array Byte} {α β : Type}

/-- What the reader `x` takes of a text `y` takes where the text is inside a longer one, and it
yields the same. -/
def Cursor.Takes (before behind : Array Byte) (x y : Scan α) : Prop :=
  ∀ ⦃s s' : Cursor⦄, Embeds before behind s s' →
    Tracks x s y s' fun a t b t' => a = b ∧ Embeds before behind t t' ∧ s.Onward t

namespace Cursor

variable {x y : Scan α} {s s' : Cursor}

namespace Takes

protected theorem pure (a : α) : Takes before behind (pure a) (pure a) := fun s _ h =>
  .pure ⟨rfl, h, .refl s⟩

theorem of_error (h : ∀ s, ∃ e t, x s = .error e t) : Takes before behind x y := fun s _ _ =>
  have ⟨_, _, hx⟩ := h s
  .of_eq_error hx

/-- What follows something that has been taken. -/
theorem trans {f g : Scan β} {t t' : Cursor} (hst : s.Onward t) (h : Embeds before behind t t')
    (hf : Takes before behind f g) :
    Tracks f t g t' fun b u b' u' => b = b' ∧ Embeds before behind u u' ∧ s.Onward u :=
  (hf h).mono fun _ _ _ _ ⟨hb, hu, htu⟩ => ⟨hb, hu, hst.trans htu⟩

protected theorem bind {f g : α → Scan β} (hx : Takes before behind x y)
    (hf : ∀ a, Takes before behind (f a) (g a)) : Takes before behind (x >>= f) (y >>= g) :=
  fun _ _ h => (hx h).bind fun a _ _ _ ⟨hab, ht, hst⟩ => hab ▸ trans hst ht (hf a)

/-- What follows a step of the cursor that is made on both sides. -/
theorem modify_bind {f g : Scan α} {k l : Cursor → Cursor} (h : Embeds before behind (k s) (l s'))
    (hs : s.Onward (k s)) (hf : Takes before behind f g) :
    Tracks (modify k >>= fun _ => f) s (modify l >>= fun _ => g) s'
      fun a t b t' => a = b ∧ Embeds before behind t t' ∧ s.Onward t :=
  Tracks.modify_bind (trans hs h hf)

end Takes

theorem takes_failAt (offset : Nat) (fault : Fault) (y : Scan α) :
    Takes before behind (failAt offset fault) y :=
  .of_error fun _ => ⟨_, _, rfl⟩

theorem takes_fail (fault : Fault) (y : Scan α) : Takes before behind (fail fault) y :=
  .of_error fun _ => ⟨_, _, rfl⟩

theorem expect_eq (mark : Char) (fault : Fault) (s : Cursor) : expect mark fault s =
    (if (s.accept mark.toUInt8).1 then pure () else fail fault : Scan Unit)
      (s.accept mark.toUInt8).2 :=
  rfl

/-- A mark that has to be next is one inside the text, so it may be one that ends statements. -/
theorem takes_expect (mark : Char) (fault : Fault) (hmark : mark.toUInt8 ≠ 0) :
    Takes before behind (expect mark fault) (expect mark fault) := by
  intro s s' h
  cases haccept : (s.accept mark.toUInt8).1 with
  | true =>
    obtain ⟨haccept', hcursor⟩ := h.accept_of_true hmark haccept
    have hexpect {s : Cursor} (haccept : (s.accept mark.toUInt8).1 = true) :
        expect mark fault s = .ok () (s.accept mark.toUInt8).2 := by
      rw [expect_eq, haccept]
      rfl
    exact .of_eq_ok (hexpect haccept) (hexpect haccept') ⟨rfl, hcursor, s.onward_accept hmark⟩
  | false =>
    have hexpect : ∃ e t, expect mark fault s = .error e t := by
      rw [expect_eq, haccept]
      exact ⟨_, _, rfl⟩
    obtain ⟨e, t, hexpect⟩ := hexpect
    exact .of_eq_error hexpect

end Cursor

namespace Expression

variable {s s' : Cursor}

open Cursor (Takes)

/-! ## Items -/

theorem takes_takeWhile {p : Byte → Bool} (hp : ∀ c ∈ Byte.stops, p c = false) :
    Takes before behind (takeWhile p) (takeWhile p) := by
  intro s s' h
  refine .of_eq_ok rfl rfl ⟨?_, h.skipWhile hp, s.onward_skipWhile p⟩
  rw [h.pos, (h.skipWhile hp).pos]
  exact (h.slice ((s.onward_skipWhile p).inside h.inside)).symm

theorem takes_based (base start start' : Nat) :
    Takes before behind (based base start) (based base start') := by
  have hstops (c : Byte) (hc : c ∈ Byte.stops) : (c.digit? base).isSome = false :=
    congrArg Option.isSome (Byte.digit?_of_mem_stops base hc)
  refine .bind (takes_takeWhile hstops) fun digits s s' h => ?_
  exact .ite Iff.rfl (fun _ => .of_eq_error rfl) fun _ => .pure ⟨rfl, h, .refl s⟩

theorem takes_decimal : Takes before behind decimal decimal := by
  refine .bind (takes_takeWhile (by decide)) fun digits s s' h => .get_bind ?_
  rw [h.peek_beq (b := '.'.toUInt8) (by decide)]
  refine .ite Iff.rfl (fun hpeek => ?_) fun _ => .pure ⟨rfl, h, .refl s⟩
  have hne : s.peek ≠ 0 := by
    rw [beq_iff_eq.mp hpeek]
    decide
  exact Takes.modify_bind (h.advance_one hne) (s.onward_advance 1)
    ((takes_takeWhile (by decide)).bind fun _ => .pure _)

/-- A quote that is not doubled closes the string. -/
theorem quoted_of_quote {rest : List Byte} (h : ∀ tail, rest ≠ 0x22 :: tail) :
    quoted (0x22 :: rest) = (some [], 1) := by
  rw [quoted]
  exact h

theorem quoted_of_ne {b : Byte} (hb : b ≠ 0x22) (rest : List Byte) : quoted (b :: rest) =
    if b == 0 || b.isBreak then (none, 0)
    else ((quoted rest).1.map (b :: ·), (quoted rest).2 + 1) := by
  rw [quoted]
  · exact fun _ hquote _ => hb hquote
  · exact hb

theorem quoted_length_le (bytes : List Byte) : (quoted bytes).2 ≤ bytes.length := by
  induction bytes using quoted.induct with
  | case1 => exact Nat.le_refl 0
  | case2 rest _ _ _ ih =>
    simp only [quoted, List.length_cons]
    omega
  | case3 rest h =>
    rw [quoted_of_quote h]
    exact Nat.succ_le_succ (Nat.zero_le _)
  | case4 b rest _ hb hend =>
    rw [quoted_of_ne hb, if_pos hend]
    exact Nat.zero_le _
  | case5 b rest _ hb hend _ _ _ ih =>
    rw [quoted_of_ne hb, if_neg hend]
    exact Nat.succ_le_succ ih

/-- A string that is closed ends there, whatever stands behind it but a further quote. -/
theorem quoted_append {bytes more value : List Byte} (hvalue : (quoted bytes).1 = some value)
    (hmore : ∀ tail, more ≠ 0x22 :: tail) : quoted (bytes ++ more) = quoted bytes := by
  induction bytes using quoted.induct generalizing value with
  | case1 => cases hvalue
  | case2 rest _ _ _ ih =>
    simp only [quoted, Option.map_eq_some_iff] at hvalue
    obtain ⟨_, hrest, -⟩ := hvalue
    simp only [List.cons_append, quoted, ih hrest]
  | case3 rest h =>
    -- the quote that closes the string is not doubled by what is appended either
    have hnone : ∀ tail, rest ++ more ≠ 0x22 :: tail := by
      cases rest with
      | nil => exact hmore
      | cons b rest =>
        intro tail htail
        obtain ⟨rfl, -⟩ := List.cons_eq_cons.mp htail
        exact h rest rfl
    rw [List.cons_append, quoted_of_quote hnone, quoted_of_quote h]
  | case4 b rest _ hb hend =>
    rw [quoted_of_ne hb, if_pos hend] at hvalue
    cases hvalue
  | case5 b rest _ hb hend _ _ _ ih =>
    rw [quoted_of_ne hb, if_neg hend, Option.map_eq_some_iff] at hvalue
    obtain ⟨_, hrest, -⟩ := hvalue
    rw [List.cons_append, quoted_of_ne hb, quoted_of_ne hb, ih hrest]

theorem takes_string {s s' : Cursor} (h : Embeds before behind s s') (hpeek : s.peek ≠ 0) :
    Tracks string s string s' fun a t b t' => a = b ∧ Embeds before behind t t' ∧ s.Onward t := by
  refine .get_bind (.modify_bind (.get_bind ?_))
  have hnext : Embeds before behind (s.advance 1) (s'.advance 1) := h.advance_one hpeek
  rw [hnext.rest]
  rcases hquoted : quoted (s.advance 1).rest.toList with ⟨_ | value, length⟩
  -- a string that is not closed has no value
  · exact fun _ _ hv => by cases hv
  · rw [quoted_append (by rw [hquoted]) ?_, hquoted]
    · have hlength : length ≤ (s.advance 1).remaining := by
        have hle := quoted_length_le (s.advance 1).rest.toList
        rw [hquoted] at hle
        simpa [Cursor.rest, Cursor.remaining] using hle
      have hinside := hnext.inside
      refine .modify_bind (.pure ⟨rfl, hnext.advance ?_, ?_⟩)
      · rw [Cursor.remaining] at hlength
        omega
      · exact (s.onward_advance 1).trans ((s.advance 1).onward_advance length)
    · -- what stands behind the text ends statements, and a quote does not
      intro tail htail
      have hstop := h.stop 0x22 (by rw [← Array.getElem?_toList, htail]; rfl)
      exact absurd hstop (by decide)

theorem takes_name : Takes before behind name name := by
  refine .bind (takes_takeWhile (by decide)) fun bytes s s' h => .get_bind ?_
  dsimp only
  rw [h.peek_beq (b := '%'.toUInt8) (by decide), h.peek_beq (b := '$'.toUInt8) (by decide)]
  refine .ite Iff.rfl (fun hsign => ?_) fun _ => .pure ⟨rfl, h, .refl s⟩
  have hne : s.peek ≠ 0 := by
    intro hpeek
    rw [hpeek] at hsign
    cases hsign
  rw [h.peek_eq hne]
  exact .modify_bind (.pure ⟨rfl, h.advance_one hne, s.onward_advance 1⟩)

/-! ## Operators -/

theorem spelledAt_embeds (h : Embeds before behind s s') {word : List Byte}
    (hword : ∀ b ∈ word, b ∉ Byte.stops) {i : Nat} (hi : i ≤ s.text.size) :
    spelledAt s' word (before.size + i) = spelledAt s word i := by
  induction word generalizing i with
  | nil => rfl
  | cons b word ih =>
    rw [spelledAt, spelledAt]
    rcases Nat.lt_or_eq_of_le hi with hi | rfl
    · rw [h.getElem?_text hi, Nat.add_assoc,
        ih (fun b hb => hword b (List.mem_cons_of_mem _ hb)) hi]
    · -- the text has ended, and what follows is no part of the word
      have hend : (s'.text[before.size + s.text.size]? == some b) = false := by
        rw [beq_eq_false_iff_ne]
        rw [h.getElem?_end]
        exact fun hb => hword b List.mem_cons_self (h.stop b hb)
      rw [Array.getElem?_eq_none (Nat.le_refl s.text.size), hend]
      rfl

theorem le_size_of_spelledAt {word : List Byte} {i : Nat} (h : spelledAt s word i = true)
    (hi : i ≤ s.text.size) : i + word.length ≤ s.text.size := by
  induction word generalizing i with
  | nil => exact hi
  | cons b word ih =>
    rw [spelledAt, Bool.and_eq_true, beq_iff_eq] at h
    have hlt : i < s.text.size := by
      refine Nat.lt_of_not_le fun hle => ?_
      rw [Array.getElem?_eq_none hle] at h
      cases h.1
    have hrest := ih h.2 hlt
    rw [List.length_cons]
    omega

theorem length?_embeds (h : Embeds before behind s s') (op : Operator) :
    op.length? s' = op.length? s := by
  have htoken : (op.token? == some s'.peek) = (op.token? == some s.peek) :=
    h.test_peek (f := fun b => op.token? == some b) (by cases op <;> decide)
  have hspelling : spelledAt s' op.spelling s'.pos = spelledAt s op.spelling s.pos := by
    rw [h.pos]
    exact spelledAt_embeds h (by cases op <;> decide) h.inside
  rw [Operator.length?, Operator.length?, htoken, hspelling]
  by_cases hspelled : spelledAt s op.spelling s.pos
  · rw [h.test_ahead (f := Byte.continuesName) (by decide) (le_size_of_spelledAt hspelled h.inside)]
  · rw [Bool.not_eq_true] at hspelled
    rw [hspelled, Bool.false_and, Bool.false_and]

/-- An operator takes a byte at least, and no more than there are. -/
theorem bounds_of_length? {op : Operator} {n : Nat} (h : op.length? s = some n)
    (hinside : s.pos ≤ s.text.size) : 0 < n ∧ s.pos + n ≤ s.text.size := by
  rw [Operator.length?] at h
  split at h
  · next htoken =>
    cases h
    refine ⟨Nat.one_pos, Cursor.pos_lt_of_peek fun hpeek => ?_⟩
    rw [hpeek] at htoken
    cases op <;> cases htoken
  · split at h
    · next hspelled =>
      cases h
      rw [Bool.and_eq_true] at hspelled
      exact ⟨by cases op <;> decide, le_size_of_spelledAt hspelled.1 hinside⟩
    · cases h

/-- An operator is there on both sides or on neither, and it takes a byte at least. -/
theorem operator?_embeds (operators : List Operator) (h : Embeds before behind s s') :
    (operator? operators s').1 = (operator? operators s).1 ∧
      Embeds before behind (operator? operators s).2 (operator? operators s').2 ∧
      s.Onward (operator? operators s).2 ∧
      ((operator? operators s).1.isSome → (operator? operators s).2.remaining < s.remaining) := by
  have hfound : (operators.findSome? fun op => (op.length? s'.skipBlanks).map (op, ·)) =
      operators.findSome? fun op => (op.length? s.skipBlanks).map (op, ·) := by
    simp only [length?_embeds h.skipBlanks]
  simp only [operator?, hfound]
  rcases hop : operators.findSome? fun op => (op.length? s.skipBlanks).map (op, ·) with
    _ | ⟨op, length⟩
  · simp only [hop]
    exact ⟨trivial, h.skipBlanks, s.onward_skipBlanks, fun hnone => absurd hnone Bool.false_ne_true⟩
  · simp only [hop]
    obtain ⟨op', -, hop⟩ := List.exists_of_findSome?_eq_some hop
    rw [Option.map_eq_some_iff] at hop
    obtain ⟨n, hlength, heq⟩ := hop
    cases heq
    -- an operator has at least one byte, so less of the text remains
    obtain ⟨hpos, hle⟩ := bounds_of_length? hlength h.skipBlanks.inside
    have honward := s.onward_skipBlanks.trans (s.skipBlanks.onward_advance length)
    refine ⟨trivial, h.skipBlanks.advance hle, honward, fun _ => ?_⟩
    refine Nat.lt_of_lt_of_le ?_ s.onward_skipBlanks.remaining_le
    simp only [Cursor.remaining, Cursor.advance]
    omega

variable {operand operand' : Scan Value}

theorem takes_chain (operators : List Operator) (hoperand : Takes before behind operand operand')
    {fuel fuel' : Nat} (hfuel : fuel ≤ fuel') (left : Value) (h : Embeds before behind s s')
    (hremaining : s.remaining < fuel) : Tracks (chain operators operand fuel left) s
      (chain operators operand' fuel' left) s'
      fun a t b t' => a = b ∧ Embeds before behind t t' ∧ s.Onward t := by
  -- every operator takes a byte, so that the fuel outlasts the text on both sides
  induction fuel generalizing fuel' left s s' with
  | zero => omega
  | succ fuel ih =>
    obtain ⟨fuel', rfl⟩ : ∃ n, fuel' = n + 1 := ⟨fuel' - 1, by omega⟩
    obtain ⟨hsame, hcursor, honward, hless⟩ := operator?_embeds operators h
    rw [chain, chain]
    refine .get_bind ?_
    have hoperator : Tracks (modifyGet (operator? operators) : Scan (Option Operator)) s
        (modifyGet (operator? operators) : Scan (Option Operator)) s' fun a t b t' =>
          a = b ∧ Embeds before behind t t' ∧ s.Onward t ∧ (a.isSome → t.remaining < s.remaining) :=
      .of_eq_ok (modifyGet_eq_ok.mpr rfl) (modifyGet_eq_ok.mpr rfl)
        ⟨hsame.symm, hcursor, honward, hless⟩
    refine hoperator.bind ?_
    rintro op t _ t' ⟨rfl, ht, hst, hlt⟩
    cases op with
    | none => exact .pure ⟨rfl, ht, hst⟩
    | some op =>
      have hlt := hlt rfl
      refine (hoperand ht).bind ?_
      rintro right u _ u' ⟨rfl, hu, htu⟩
      rcases op.apply left right with fault | value
      · exact .of_eq_error rfl
      · refine (ih (by omega) value hu ?_).mono ?_
        · exact Nat.lt_of_le_of_lt htu.remaining_le (by omega)
        · rintro _ _ _ _ ⟨hv, hend, honward⟩
          exact ⟨hv, hend, hst.trans (htu.trans honward)⟩

theorem takes_level (operators : List Operator) (hoperand : Takes before behind operand operand') :
    Takes before behind (level operators operand) (level operators operand') := by
  refine .bind hoperand fun left s s' h => .get_bind ?_
  refine takes_chain operators hoperand ?_ left h (Nat.lt_succ_self _)
  rw [h.remaining]
  omega

theorem takes_joined (hoperand : Takes before behind operand operand') :
    Takes before behind (joined operand) (joined operand') :=
  takes_level _ (takes_level _ (takes_level _ (takes_level _ hoperand)))

/-! ## Operands -/

variable {value? value?' : Name → Option Value}

theorem takes_item (hvalue : ∀ name v, value? name = some v → value?' name = some v) :
    Takes before behind (item value?) (item value?') := by
  intro s s' h
  have hmark {mark : Byte} (hmark : mark ∉ Byte.stops) :
      (s.peek == mark) = true ↔ (s'.peek == mark) = true := by rw [h.peek_beq hmark]
  have hne {mark : Byte} (hmark : mark ≠ 0) (hpeek : (s.peek == mark) = true) : s.peek ≠ 0 := by
    rwa [beq_iff_eq.mp hpeek]
  have hdigit : (s.peek.isDigit || s.peek == '.'.toUInt8) = true ↔
      (s'.peek.isDigit || s'.peek == '.'.toUInt8) = true := by
    rw [h.test_peek (f := fun b => b.isDigit || b == '.'.toUInt8) (by decide)]
  have hname : s.peek.startsName = true ↔ s'.peek.startsName = true := by
    rw [h.test_peek (f := Byte.startsName) (by decide)]
  rw [item, item]
  refine .get_bind ?_
  dsimp only
  -- both items are chosen by their first byte, and what ends a statement starts none of them
  refine .ite (hmark (by decide)) (fun hpeek => ?_) fun _ => ?_
  · exact Takes.modify_bind (h.advance_one (hne (by decide) hpeek)) (s.onward_advance 1)
      (takes_based 16 _ _)
  refine .ite (hmark (by decide)) (fun hpeek => ?_) fun _ => ?_
  · exact Takes.modify_bind (h.advance_one (hne (by decide) hpeek)) (s.onward_advance 1)
      (takes_based 2 _ _)
  refine .ite (hmark (by decide)) (fun hpeek => takes_string h (hne (by decide) hpeek)) fun _ => ?_
  refine .ite hdigit (fun _ => takes_decimal h) fun _ => ?_
  refine .ite hname (fun _ => ?_) fun _ => .of_eq_error rfl
  refine Takes.bind takes_name (fun name => ?_) h
  rcases hv : value? name with _ | v
  · exact Cursor.takes_failAt _ _ _
  · rw [hvalue name v hv]
    exact .pure v

theorem takes_negate (start start' : Nat) (v : Value) :
    Takes before behind (negate start v) (negate start' v) := by
  cases v with
  | int n => exact .pure _
  | float f => exact .pure _
  | string bytes => exact Cursor.takes_failAt _ _ _

theorem takes_operand (hvalue : ∀ name v, value? name = some v → value?' name = some v)
    {depth depth' : Nat} (hdepth : depth ≤ depth') :
    Takes before behind (Expression.operand value? depth) (Expression.operand value?' depth') := by
  -- the induction is on how deep brackets and signs can still be nested
  induction depth generalizing depth' with
  | zero => exact Cursor.takes_fail _ _
  | succ depth ih =>
    obtain ⟨depth', rfl⟩ : ∃ n, depth' = n + 1 := ⟨depth' - 1, by omega⟩
    have ih := ih (Nat.le_of_succ_le_succ hdepth)
    intro s s' h
    rw [Expression.operand, Expression.operand]
    refine .get_bind (Takes.modify_bind h.skipBlanks s.onward_skipBlanks fun t t' ht => ?_)
    have hmark {mark : Byte} (hmark : mark ∉ Byte.stops) :
        (t.peek == mark) = true ↔ (t'.peek == mark) = true := by rw [ht.peek_beq hmark]
    have hnext {mark : Byte} (hmark : mark ≠ 0) (hpeek : (t.peek == mark) = true) :
        Embeds before behind (t.advance 1) (t'.advance 1) :=
      ht.advance_one (by rwa [beq_iff_eq.mp hpeek])
    refine .get_bind ?_
    dsimp only
    refine .ite (hmark (by decide)) (fun hpeek => ?_) fun _ => ?_
    · exact Takes.modify_bind (hnext (by decide) hpeek) (t.onward_advance 1)
        (ih.bind fun v => takes_negate _ _ v)
    refine .ite (hmark (by decide)) (fun hpeek => ?_) fun _ => ?_
    · exact Takes.modify_bind (hnext (by decide) hpeek) (t.onward_advance 1) ih
    refine .ite (hmark (by decide)) (fun hpeek => ?_) fun _ => takes_item hvalue ht
    refine Takes.modify_bind (hnext (by decide) hpeek) (t.onward_advance 1) ?_
    exact (takes_joined ih).bind fun v =>
      (Cursor.takes_expect _ _ (by decide)).bind fun _ => .pure v

/-- An expression has the same value in a longer text, and takes the same bytes there. The names in
it may stand for more. -/
theorem takes_readIn (hvalue : ∀ name v, value? name = some v → value?' name = some v) :
    Takes before behind (readIn value?) (readIn value?') := fun s s' h =>
  .get_bind (takes_joined (takes_operand hvalue (by
    rw [h.remaining]
    omega)) h)

end Expression

end InlineA64
