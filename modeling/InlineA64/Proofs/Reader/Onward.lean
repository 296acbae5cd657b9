import InlineA64.Proofs.Cursor
import InlineA64.Proofs.Reader.Run

/-!
# Readers move onward

Whatever a reader asks for, it leaves the text alone and moves the cursor onward in it, whether it
succeeds or fails (`Reader.reaches_run`). To the state of the environment it does what evaluating
expressions does.
-/

namespace InlineA64

variable {σ Slot α β : Type}

/-! ## Readers of text -/

namespace SystemRegister

/-- An attempt moves the cursor onward, whether it gives up or not. -/
def Proceeds (x : Attempt α) : Prop :=
  ∀ s : Cursor, s.Onward (x.run s).2

theorem Proceeds.bind {x : Attempt α} {f : α → Attempt β} (hx : Proceeds x)
    (hf : ∀ a, Proceeds (f a)) : Proceeds (x >>= f) := by
  intro s
  have hs := hx s
  rw [OptionT.run_bind, Option.elimM]
  -- an attempt that gives up stays where it has come to
  rcases hrun : x.run s with ⟨_ | a, s₁⟩ <;> rw [hrun] at hs
  · simp only [Bind.bind, StateT.bind, hrun, Option.elim_none]
    exact hs
  · simp only [Bind.bind, StateT.bind, hrun, Option.elim_some]
    exact hs.trans (hf a s₁)

theorem Proceeds.pure (a : α) : Proceeds (pure a : Attempt α) := fun s => .refl s

theorem Proceeds.failure : Proceeds (failure : Attempt α) := fun s => .refl s

theorem takeIf_proceeds (p : Byte → Bool) : Proceeds (takeIf p) := by
  have htake : Proceeds take := fun s => s.onward_advance 1
  refine htake.bind fun b => ?_
  split
  · exact .pure b
  · exact .failure

theorem digit_proceeds : Proceeds digit := by
  intro s
  simp only [digit, OptionT.run]
  split
  · exact s.onward_advance 1
  · exact .refl s

theorem secondDigit_proceeds (first : Nat) : Proceeds (secondDigit first) := by
  intro s
  simp only [secondDigit, OptionT.run]
  split
  · split
    · exact s.onward_advance 1
    · exact .refl s
  · exact .refl s

theorem opcode_proceeds : Proceeds opcode := by
  refine (takeIf_proceeds _).bind fun _ => digit_proceeds.bind fun n => ?_
  split
  · exact .pure n
  · exact .failure

theorem controlRegister_proceeds : Proceeds controlRegister :=
  (takeIf_proceeds _).bind fun _ => (takeIf_proceeds _).bind fun _ =>
    digit_proceeds.bind secondDigit_proceeds

theorem numeric_proceeds : Proceeds numeric := by
  have hget : Proceeds (get : Attempt Cursor) := fun s => .refl s
  refine (takeIf_proceeds _).bind fun _ => (takeIf_proceeds _).bind fun op0 => ?_
  refine opcode_proceeds.bind fun op1 => controlRegister_proceeds.bind fun crn => ?_
  refine controlRegister_proceeds.bind fun crm => opcode_proceeds.bind fun op2 => ?_
  refine hget.bind fun s => ?_
  split
  · exact .failure
  · exact .pure _

theorem read_reaches : Reaches Cursor.Onward read := by
  have hword : Reaches Cursor.Onward (modifyGet (·.wholeWord? named) : Cursor.Scan _) :=
    fun s => s.onward_wholeWord? named
  have hnumeric : Reaches Cursor.Onward (modifyGet (numeric.run ·) : Cursor.Scan _) :=
    numeric_proceeds
  refine hword.bind fun found => ?_
  split
  · exact .pure _
  · refine .get_bind fun s => hnumeric.bind fun found => ?_
    split
    · exact .pure _
    · exact Cursor.Onward.refl

end SystemRegister

namespace Register

theorem onward_of_scan? {s s' : Cursor} {r : Register} (h : scan? s = some (r, s')) :
    s.Onward s' := by
  rw [scan?] at h
  split at h
  · cases h
    exact s.onward_advance _
  · simp only [numbered?, Option.bind_eq_bind, Option.bind_eq_some_iff] at h
    obtain ⟨width, -, tens, -, h⟩ := h
    -- one digit or two
    split at h <;>
    · rw [Option.ite_none_right_eq_some, Option.some.injEq, Prod.mk.injEq] at h
      exact h.2.2 ▸ s.onward_advance _

theorem skipBlanks_reaches :
    Reaches Cursor.Onward (modify Cursor.skipBlanks : Cursor.Scan PUnit) :=
  Cursor.onward_skipBlanks

theorem read_reaches : Reaches Cursor.Onward Register.read := by
  refine skipBlanks_reaches.bind fun _ s => ?_
  refine Leads.get_bind ?_
  split
  · next r s' h => exact onward_of_scan? h
  · exact Cursor.Onward.refl s

theorem readFor_reaches (mnemonic : String) : Reaches Cursor.Onward (readFor mnemonic) :=
  skipBlanks_reaches.bind fun _ => .get_bind fun _ => .ite Cursor.Onward.refl read_reaches

end Register

theorem Cursor.closeBracket_reaches : Reaches Cursor.Onward Cursor.closeBracket := by
  have haccept : Reaches Cursor.Onward
      (modifyGet (·.accept ']'.toUInt8) : Cursor.Scan Bool) := fun s => s.onward_accept (by decide)
  refine haccept.bind fun taken => ?_
  split
  · exact .pure ()
  · exact Cursor.Onward.refl

/-! ## Requests -/

theorem Punctuation.onward_take (p : Punctuation) (s : Cursor) : s.Onward (p.take s).2 := by
  rw [take]
  split
  · exact s.onward_advance 1
  · exact .refl s

namespace Reading

/-- The cursor has moved onward, and the state of the environment is related as `ρ` says. -/
def Onward (ρ : σ → σ → Prop) (r r' : Reading σ) : Prop :=
  r.cursor.Onward r'.cursor ∧ ρ r.state r'.state

variable {ρ : σ → σ → Prop}

instance [IsPreorder σ ρ] : IsPreorder (Reading σ) (Onward ρ) where
  refl r := ⟨.refl r.cursor, Std.Refl.refl r.state⟩
  trans _ _ _ h h' := ⟨h.1.trans h'.1, IsTrans.trans _ _ _ h.2 h'.2⟩

variable [IsPreorder σ ρ]

theorem reaches_step {f : Cursor → α × Cursor} (hf : ∀ s : Cursor, s.Onward (f s).2) :
    Reaches (Onward ρ) (step f) := fun r => ⟨hf r.cursor, Std.Refl.refl r.state⟩

theorem reaches_scan {f : Cursor.Scan α} (hf : Reaches Cursor.Onward f) :
    Reaches (Onward ρ) (scan f) := by
  rw [scan_eq_within]
  exact hf.within fun r s hs => ⟨hs, Std.Refl.refl r.state⟩

omit [IsPreorder σ ρ] in
theorem reaches_consult {f : EStateM Failure (Cursor × σ) α}
    (hf : Reaches (fun p q => ρ p.2 q.2) f) : Reaches (Onward ρ) (consult f) := by
  rw [consult_eq_within]
  exact hf.within fun r p hp => ⟨r.cursor.onward_advanceTo p.1.pos, hp⟩

end Reading

variable {env : Environment σ Slot} {ρ : σ → σ → Prop} {context : Context}

theorem Environment.reaches_evaluateAs
    (h : Reaches (fun p q => ρ p.2 q.2) (env.evaluate context)) (view : Value → Option α) :
    Reaches (fun p q => ρ p.2 q.2) (env.evaluateAs view context) := by
  intro p
  refine Leads.get_bind ((h p).bind fun v q hq => ?_)
  split
  · exact hq
  · exact hq

variable [IsPreorder σ ρ]

theorem Request.reaches_answer (h : Reaches (fun p q => ρ p.2 q.2) (env.evaluate context))
    (mnemonic : String) (q : Request β) :
    Reaches (Reading.Onward ρ) (q.answer ⟨env, context, mnemonic⟩) := by
  have hinteger : Reaches (Reading.Onward ρ) (Surroundings.integer ⟨env, context, mnemonic⟩) :=
    (Reading.reaches_step Cursor.onward_skipBlanks).bind fun _ =>
      Reading.reaches_consult (Environment.reaches_evaluateAs h Value.toInt?)
  have hlook (look : Cursor → Bool) :
      Reaches (Reading.Onward ρ) (Reading.step (Cursor.look look)) :=
    Reading.reaches_step fun s => s.onward_skipBlanks
  have hsame : ∀ r : Reading σ, Reading.Onward ρ r r := Std.Refl.refl
  cases q with
  | mark => exact fun r => ⟨.refl r.cursor, Std.Refl.refl r.state⟩
  | sees p => exact hlook fun s => p.matchesByte s.peek
  | atEnd => exact hlook Cursor.atEnd
  | seesPostIndex => exact hlook Cursor.atPostIndex
  | accept p =>
    exact Reading.reaches_step fun s => s.onward_skipBlanks.trans (p.onward_take s.skipBlanks)
  | acceptJoined p => exact Reading.reaches_step p.onward_take
  | atBlank => exact hsame
  | closeBracket => exact Reading.reaches_scan Cursor.closeBracket_reaches
  | keyword v => exact Reading.reaches_step fun s => s.onward_keyword? v.entries
  | wholeWord v => exact Reading.reaches_step fun s => s.onward_wholeWord? v.entries
  | register => exact Reading.reaches_scan (Register.readFor_reaches mnemonic)
  | systemRegister => exact Reading.reaches_scan SystemRegister.read_reaches
  | value => exact hinteger
  | distance | pageDistance => exact hinteger.bind fun _ => hsame
  | reach inReach fault at? =>
    intro r
    rw [Leads, Request.answer]
    dsimp only
    -- the check looks at no text, whether it lets the distance pass or not
    by_cases hfar : (context.options.rangeCheck && !inReach) = true
    · rw [if_pos hfar]
      exact hsame r
    · rw [if_neg hfar]
      exact hsame r

/-- A reader moves the cursor onward, whether it succeeds or fails, and relates the states of the
environment as evaluating expressions does. -/
theorem Reader.reaches_run (h : Reaches (fun p q => ρ p.2 q.2) (env.evaluate context))
    (mnemonic : String) (x : Reader α) :
    Reaches (Reading.Onward ρ) (x.run ⟨env, context, mnemonic⟩) := by
  induction x with
  | done a => exact .pure a
  | fail fault at? => exact fun r => (Std.Refl.refl r : Reading.Onward ρ r r)
  | ask q next ih => exact (q.reaches_answer h mnemonic).bind ih

end InlineA64
