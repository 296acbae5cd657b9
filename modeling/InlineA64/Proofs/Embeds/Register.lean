import InlineA64.Operand.Run
import InlineA64.Proofs.Embeds
import InlineA64.Proofs.Step

/-!
# Registers inside a longer text

A register is there in a text and where the text is part of a longer one, or it is in neither. A
system register that is read in a text is read in the longer one as well.
-/

namespace InlineA64

open Cursor (Embeds)

variable {before behind : Array Byte} {s s' : Cursor} {α β : Type}

namespace Register

/-- A digit is a byte of the text. -/
theorem lt_size_of_digit? {n digit : Nat} (h : (s.ahead n).digit? 10 = some digit) :
    s.pos + n < s.text.size := by
  refine Nat.lt_of_not_le fun hle => ?_
  rw [Cursor.ahead, Cursor.byteAt, Array.getD_eq_getD_getElem?, Array.getElem?_eq_none hle] at h
  cases h

theorem numbered?_embeds (h : Embeds before behind s s') :
    Option.Rel (fun p p' => p.1 = p'.1 ∧ Embeds before behind p.2 p'.2) (numbered? s)
      (numbered? s') := by
  simp only [numbered?, Option.bind_eq_bind]
  rw [h.test_peek (f := widthOfLetter?) (by decide)]
  rcases hwidth : widthOfLetter? s.peek with _ | width
  · exact .none
  have hpos : s.pos < s.text.size := by
    refine Cursor.pos_lt_of_peek fun hpeek => ?_
    rw [hpeek] at hwidth
    cases hwidth
  simp only [Option.bind_some]
  rw [h.test_ahead (f := Byte.digit? 10) (by decide) hpos]
  rcases htens : (s.ahead 1).digit? 10 with _ | tens
  · exact .none
  -- the first digit is in the text, so the next byte is in it or at its end
  have hpos : s.pos + 1 < s.text.size := lt_size_of_digit? htens
  simp only [Option.bind_some]
  rw [h.test_ahead (f := Byte.digit? 10) (by decide) hpos]
  rcases hones : (s.ahead 2).digit? 10 with _ | ones
  · dsimp only
    split
    · exact .some ⟨rfl, h.advance hpos⟩
    · exact .none
  · have hpos : s.pos + 2 < s.text.size := lt_size_of_digit? hones
    dsimp only
    split
    · exact .some ⟨rfl, h.advance hpos⟩
    · exact .none

theorem scan?_embeds (h : Embeds before behind s s') :
    Option.Rel (fun p p' => p.1 = p'.1 ∧ Embeds before behind p.2 p'.2) (scan? s) (scan? s') := by
  have hplain : Cursor.plainWords named = true := by decide
  have hfind : (named.find? fun entry => s'.startsWith entry.1) =
      named.find? fun entry => s.startsWith entry.1 :=
    List.find?_congr fun entry hentry =>
      h.startsWith (Cursor.lower_not_mem_of_plainWords hplain hentry)
  rw [scan?, scan?, hfind]
  split
  · next word r hword =>
    have hstarts : s.startsWith word = true := List.find?_some (a := (word, r)) hword
    exact .some ⟨rfl, h.advance (Cursor.le_size_of_agreesAt hstarts h.inside)⟩
  · exact numbered?_embeds h

theorem looksVector_embeds (h : Embeds before behind s s') : looksVector s' = looksVector s := by
  rw [looksVector, looksVector,
    h.test_peek (f := fun b => vectorLetters.contains b.lower) (by decide)]
  by_cases hletter : vectorLetters.contains s.peek.lower
  · have hpos : s.pos < s.text.size := by
      refine Cursor.pos_lt_of_peek fun hpeek => ?_
      rw [hpeek] at hletter
      cases hletter
    rw [h.test_ahead (f := Byte.isDigit) (by decide) hpos]
  · rw [Bool.not_eq_true] at hletter
    rw [hletter, Bool.false_and, Bool.false_and]

theorem tracks_read (h : Embeds before behind s s') : Tracks Register.read s Register.read s'
    fun a t b t' => a = b ∧ Embeds before behind t t' := by
  refine .modify_bind (.get_bind ?_)
  rcases hscan : scan? s.skipBlanks with _ | ⟨r, t⟩
  · exact .of_eq_error rfl
  · have hrel := scan?_embeds h.skipBlanks
    rw [hscan] at hrel
    rcases hscan' : scan? s'.skipBlanks with _ | ⟨r', t'⟩
    · rw [hscan'] at hrel
      cases hrel
    · rw [hscan'] at hrel
      obtain ⟨rfl, ht⟩ : r = r' ∧ Embeds before behind t t' := by
        cases hrel with
        | some hrel => exact hrel
      exact .of_eq_ok (rfl : _ = EStateM.Result.ok r t) (rfl : _ = EStateM.Result.ok r t') ⟨rfl, ht⟩

theorem tracks_readFor (mnemonic : String) (h : Embeds before behind s s') :
    Tracks (readFor mnemonic) s (readFor mnemonic) s'
      fun a t b t' => a = b ∧ Embeds before behind t t' := by
  have hnone : (scan? s'.skipBlanks).isNone = (scan? s.skipBlanks).isNone := by
    have hrel := scan?_embeds h.skipBlanks
    rcases hscan : scan? s.skipBlanks with _ | p <;> rcases hscan' : scan? s'.skipBlanks with _ | p'
    · rfl
    · rw [hscan, hscan'] at hrel
      cases hrel
    · rw [hscan, hscan'] at hrel
      cases hrel
    · rfl
  refine .modify_bind (.get_bind ?_)
  rw [hnone, looksVector_embeds h.skipBlanks]
  exact .ite Iff.rfl (fun _ => .of_eq_error rfl) fun _ => tracks_read h.skipBlanks

end Register

namespace SystemRegister

/-- What an attempt takes of a text it also takes where the text is inside a longer one. -/
def Takes (before behind : Array Byte) (x : Attempt α) : Prop :=
  ∀ ⦃s s' : Cursor⦄, Embeds before behind s s' → ∀ a, (x.run s).1 = some a →
    (x.run s').1 = some a ∧ Embeds before behind (x.run s).2 (x.run s').2

namespace Takes

protected theorem bind {x : Attempt α} {f : α → Attempt β} (hx : Takes before behind x)
    (hf : ∀ a, Takes before behind (f a)) : Takes before behind (x >>= f) := by
  intro s s' h b hb
  rw [OptionT.run_bind, Option.elimM] at hb ⊢
  rcases hrun : x.run s with ⟨_ | a, t⟩
  · simp only [Bind.bind, StateT.bind, hrun, Option.elim_none] at hb
    cases hb
  · obtain ⟨ha, ht⟩ := hx h a (by rw [hrun])
    rcases hrun' : x.run s' with ⟨a', t'⟩
    rw [hrun, hrun'] at ht
    rw [hrun'] at ha
    obtain rfl : a' = some a := ha
    simp only [Bind.bind, StateT.bind, hrun, hrun', Option.elim_some] at hb ⊢
    exact hf a ht b hb

protected theorem pure (a : α) : Takes before behind (pure a : Attempt α) :=
  fun _ _ h _ hb => ⟨hb, h⟩

protected theorem failure : Takes before behind (failure : Attempt α) :=
  fun _ _ _ _ hb => by cases hb

end Takes

theorem run_takeIf (p : Byte → Bool) (s : Cursor) : (takeIf p).run s =
    if p s.peek then (some s.peek, s.advance 1) else (none, s.advance 1) := by
  change (if p s.peek then pure s.peek else failure : Attempt Byte).run (s.advance 1) = _
  split <;> rfl

/-- The last step of the numeric spelling: no further byte of a word may follow. -/
theorem run_unlessContinued (r : SystemRegister) (s : Cursor) :
    OptionT.run (do if (← get).peek.continuesWord then failure else pure r :
      Attempt SystemRegister) s = if s.peek.continuesWord then (none, s) else (some r, s) := by
  change OptionT.run (if s.peek.continuesWord then failure else pure r : Attempt SystemRegister) s =
    _
  split <;> rfl

/-- A byte that has to satisfy what the end of the text does not. -/
theorem takes_takeIf {p : Byte → Bool} (hend : p 0 = false) :
    Takes before behind (takeIf p) := by
  intro s s' h b hb
  rw [run_takeIf] at hb
  by_cases hp : p s.peek
  · have hne : s.peek ≠ 0 := fun hpeek => by
      rw [hpeek, hend] at hp
      cases hp
    rw [if_pos hp] at hb
    rw [run_takeIf, run_takeIf, h.peek_eq hne, if_pos hp, if_pos hp]
    exact ⟨hb, h.advance_one hne⟩
  · rw [if_neg hp] at hb
    cases hb

theorem peek_ne_of_digit? {n : Nat} (h : s.peek.digit? 10 = some n) : s.peek ≠ 0 := by
  intro hpeek
  rw [hpeek] at h
  cases h

theorem takes_digit : Takes before behind digit := by
  intro s s' h n hn
  simp only [digit, OptionT.run] at hn ⊢
  rw [h.test_peek (f := Byte.digit? 10) (by decide)]
  rcases hdigit : s.peek.digit? 10 with _ | m
  · rw [hdigit] at hn
    cases hn
  · rw [hdigit] at hn
    exact ⟨hn, h.advance_one (peek_ne_of_digit? hdigit)⟩

theorem takes_secondDigit (first : Nat) : Takes before behind (secondDigit first) := by
  intro s s' h n hn
  simp only [secondDigit, OptionT.run] at hn ⊢
  rw [h.test_peek (f := Byte.digit? 10) (by decide)]
  rcases hdigit : s.peek.digit? 10 with _ | m
  · rw [hdigit] at hn
    exact ⟨hn, h⟩
  · rw [hdigit] at hn
    dsimp only at hn ⊢
    split
    · next hfirst =>
      rw [if_pos hfirst] at hn
      exact ⟨hn, h.advance_one (peek_ne_of_digit? hdigit)⟩
    · next hfirst =>
      rw [if_neg hfirst] at hn
      exact ⟨hn, h⟩

theorem takes_opcode : Takes before behind opcode := by
  refine (takes_takeIf rfl).bind fun _ => takes_digit.bind fun n => ?_
  split
  · exact .pure n
  · exact .failure

theorem takes_controlRegister : Takes before behind controlRegister :=
  (takes_takeIf rfl).bind fun _ => (takes_takeIf rfl).bind fun _ =>
    takes_digit.bind takes_secondDigit

theorem takes_numeric : Takes before behind numeric := by
  refine (takes_takeIf rfl).bind fun _ => (takes_takeIf rfl).bind fun op0 => ?_
  refine takes_opcode.bind fun op1 => takes_controlRegister.bind fun crn => ?_
  refine takes_controlRegister.bind fun crm => takes_opcode.bind fun op2 s s' h r hr => ?_
  rw [run_unlessContinued] at hr
  rw [run_unlessContinued, run_unlessContinued, h.test_peek (f := Byte.continuesWord) (by decide)]
  split
  · next hcontinues =>
    rw [if_pos hcontinues] at hr
    cases hr
  · next hcontinues =>
    rw [if_neg hcontinues] at hr
    exact ⟨hr, h⟩

theorem tracks_read (h : Embeds before behind s s') :
    Tracks SystemRegister.read s SystemRegister.read s'
      fun a t b t' => a = b ∧ Embeds before behind t t' := by
  have hplain : Cursor.plainWords named = true := by decide
  obtain ⟨hword, hcursor⟩ := h.wholeWord? hplain
  have hnamed : Tracks (modifyGet (·.wholeWord? named) : Cursor.Scan (Option SystemRegister)) s
      (modifyGet (·.wholeWord? named) : Cursor.Scan (Option SystemRegister)) s'
      fun a t b t' => a = b ∧ Embeds before behind t t' :=
    .of_eq_ok (modifyGet_eq_ok.mpr rfl) (modifyGet_eq_ok.mpr rfl) ⟨hword.symm, hcursor⟩
  refine hnamed.bind fun found t _ t' ⟨hfound, ht⟩ => ?_
  subst hfound
  cases found with
  | some r => exact .pure ⟨rfl, ht⟩
  | none =>
    have hnumeric : Tracks (modifyGet (numeric.run ·) : Cursor.Scan (Option SystemRegister)) t
        (modifyGet (numeric.run ·) : Cursor.Scan (Option SystemRegister)) t'
        fun a u b u' => ∀ r, a = some r → b = some r ∧ Embeds before behind u u' :=
      .of_eq_ok (modifyGet_eq_ok.mpr rfl) (modifyGet_eq_ok.mpr rfl) (takes_numeric ht)
    refine .get_bind (hnumeric.bind fun a u b u' hab => ?_)
    -- text that is no register here may be one when more follows, but this run has failed then
    cases a with
    | none => exact .of_eq_error rfl
    | some r =>
      obtain ⟨rfl, hu⟩ := hab r rfl
      exact .pure ⟨rfl, hu⟩

end SystemRegister

end InlineA64
