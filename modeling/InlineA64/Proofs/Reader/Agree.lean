import InlineA64.Proofs.Environment
import InlineA64.Proofs.Reader.Run

/-!
# Readers that take the same text

Two readers agree (`Reader.Agree`) if they ask for the same things in turn as long as the text
answers alike, whatever the values of expressions are. A run of one and a run of the other then take
the same text, provided that both succeed (`Reader.Agree.run`). Distances that are out of reach, and
values that no field holds, make a reader fail. So it does not matter what is asked for after them.

A reader is `Steady` if it agrees with itself. What it yields can depend on values; if it does not,
the reader is `Textual`. A reader that asks for nothing is `Silent`, and any two of these agree.
-/

namespace InlineA64

variable {σ σ' Slot Slot' α β γ δ : Type}

/-- The answer depends on the text alone. -/
def Request.IsTextual : Request β → Prop
  | value | distance | pageDistance => False
  | _ => True

namespace Reader

/-- Two readers make the same requests, as long as requests of the text have the same answers, and
stop with values related by `R`. Only what is in reach, and the failures, can differ. -/
inductive Agree (R : α → β → Prop) : Reader α → Reader β → Prop
  | done {a : α} {b : β} : R a b → Agree R (done a) (done b)
  | failLeft (fault : Fault) (at? : Option Mark) (y : Reader β) : Agree R (fail fault at?) y
  | failRight (x : Reader α) (fault : Fault) (at? : Option Mark) : Agree R x (fail fault at?)
  | ask {γ : Type} (q : Request γ) {next : γ → Reader α} {next' : γ → Reader β} :
      (∀ a b, (q.IsTextual → a = b) → Agree R (next a) (next' b)) →
        Agree R (ask q next) (ask q next')
  | reach {inReach inReach' : Bool} {fault fault' : Fault} {at? at?' : Mark}
      {next : Unit → Reader α} {next' : Unit → Reader β} : Agree R (next ()) (next' ()) →
        Agree R (.ask (.reach inReach fault at?) next) (.ask (.reach inReach' fault' at?') next')

/-- A reader takes the same text whatever the values are. -/
def Steady (x : Reader α) : Prop :=
  Agree (fun _ _ => True) x x

/-- A reader takes the same text whatever the values are, and yields the same. -/
def Textual (x : Reader α) : Prop :=
  Agree Eq x x

/-- A reader that asks for nothing. -/
def Silent : Reader α → Prop
  | done _ | fail _ _ => True
  | ask _ _ => False

namespace Agree

variable {R : α → β → Prop} {T : γ → δ → Prop} {x : Reader α} {y : Reader β}

protected theorem pure {a : α} {b : β} (h : R a b) : Agree R (pure a : Reader α) (pure b) :=
  .done h

/-- Readers in sequence agree if the first ones do, and the second ones on what those yield. -/
protected theorem bind {f : α → Reader γ} {g : β → Reader δ} (h : Agree R x y)
    (hf : ∀ a b, R a b → Agree T (f a) (g b)) : Agree T (x >>= f) (y >>= g) := by
  change Agree T (x.bind f) (y.bind g)
  induction h with
  | done hab => exact hf _ _ hab
  | failLeft fault at? y => exact .failLeft fault at? _
  | failRight x fault at? => exact .failRight _ fault at?
  | ask q _ ih => exact .ask q ih
  | reach _ ih => exact .reach ih

theorem mono {R' : α → β → Prop} (h : Agree R x y) (hR : ∀ a b, R a b → R' a b) :
    Agree R' x y := by
  induction h with
  | done hab => exact .done (hR _ _ hab)
  | failLeft fault at? y => exact .failLeft fault at? y
  | failRight x fault at? => exact .failRight x fault at?
  | ask q _ ih => exact .ask q ih
  | reach _ ih => exact .reach ih

protected theorem ite {c : Prop} [Decidable c] {x' : Reader α} {y' : Reader β}
    (hx : Agree R x y) (hx' : Agree R x' y') :
    Agree R (if c then x else x') (if c then y else y') := by
  by_cases hc : c
  · rwa [if_pos hc, if_pos hc]
  · rwa [if_neg hc, if_neg hc]

/-- What one of two readers finds missing does not matter where the other goes on. -/
theorem of_silent {x : Reader α} {y : Reader β} (hx : x.Silent) (hy : y.Silent) :
    Agree (fun _ _ => True) x y := by
  -- without a request each reader has stopped already, with a value or a failure
  cases x with
  | ask q next => exact hx.elim
  | fail fault at? => exact .failLeft fault at? y
  | done a =>
    cases y with
    | ask q next => exact hy.elim
    | fail fault at? => exact .failRight _ fault at?
    | done b => exact .done trivial

end Agree

/-! ## Rules for a reader beside itself -/

section Rules

variable {T : γ → δ → Prop} {x : Reader α} {f : α → Reader γ} {g : α → Reader δ}

theorem Textual.bind (hx : x.Textual) (hf : ∀ a, Agree T (f a) (g a)) :
    Agree T (x >>= f) (x >>= g) :=
  Agree.bind hx fun a _ hab => hab ▸ hf a

theorem Textual.steady (hx : x.Textual) : x.Steady :=
  Agree.mono hx fun _ _ _ => trivial

theorem Steady.bind (hx : x.Steady) (hf : ∀ a b, Agree T (f a) (g b)) :
    Agree T (x >>= f) (x >>= g) :=
  Agree.bind hx fun a b _ => hf a b

theorem textual_pure (a : α) : (pure a : Reader α).Textual :=
  .done rfl

theorem steady_pure (a : α) : (pure a : Reader α).Steady :=
  .done trivial

theorem textual_failHere (fault : Fault) : (failHere fault : Reader α).Textual :=
  .failLeft _ _ _

theorem textual_failAt (mark : Mark) (fault : Fault) : (failAt mark fault : Reader α).Textual :=
  .failLeft _ _ _

theorem textual_request {q : Request α} (hq : q.IsTextual) : (request q).Textual :=
  .ask q fun _ _ h => .done (h hq)

theorem steady_request (q : Request α) : (request q).Steady :=
  .ask q fun _ _ _ => .done trivial

theorem silent_pure (a : α) : (pure a : Reader α).Silent :=
  trivial

theorem silent_failHere (fault : Fault) : (failHere fault : Reader α).Silent :=
  trivial

theorem silent_failAt (mark : Mark) (fault : Fault) : (failAt mark fault : Reader α).Silent :=
  trivial

theorem silent_liftAt (mark : Mark) (result : Except Fault α) : (liftAt mark result).Silent := by
  cases result <;> trivial

theorem Silent.bind {f : α → Reader β} (hx : x.Silent) (hf : ∀ a, (f a).Silent) :
    (x >>= f).Silent := by
  cases x with
  | done a => exact hf a
  | fail fault at? => trivial
  | ask q next => exact hx.elim

theorem Silent.ite {c : Prop} [Decidable c] {y : Reader α} (hx : x.Silent) (hy : y.Silent) :
    (if c then x else y).Silent := by
  by_cases hc : c
  · rwa [if_pos hc]
  · rwa [if_neg hc]

/-- Readers in sequence agree if the first is steady and nothing is asked for behind it. -/
theorem Steady.bind_silent {f : α → Reader γ} {g : α → Reader δ} (hx : x.Steady)
    (hf : ∀ a, (f a).Silent) (hg : ∀ a, (g a).Silent) :
    Agree (fun _ _ => True) (x >>= f) (x >>= g) :=
  hx.bind fun a b => .of_silent (hf a) (hg b)

end Rules

end Reader

/-! ## Runs -/

/-- Two readings are at one place in one text, with states related by `ρ`. -/
structure Reading.SamePlace (ρ : σ → σ' → Prop) (r : Reading σ) (r' : Reading σ') : Prop where
  cursor : r.cursor = r'.cursor
  marks : r.marks = r'.marks
  state : ρ r.state r'.state

namespace Reading

variable {ρ : σ → σ' → Prop}

theorem lockstep_step (f : Cursor → α × Cursor) :
    Lockstep (SamePlace ρ) Eq (step f) (step f) := by
  intro r r' a r₁ b r₁' h ha hb
  obtain ⟨s, hs, rfl⟩ := step_eq_ok.mp ha
  obtain ⟨t, ht, rfl⟩ := step_eq_ok.mp hb
  rw [h.cursor, ht] at hs
  cases hs
  exact ⟨rfl, rfl, h.marks, h.state⟩

theorem lockstep_scan (f : Cursor.Scan α) : Lockstep (SamePlace ρ) Eq (scan f) (scan f) := by
  rw [scan_eq_within, scan_eq_within]
  exact (Lockstep.refl f).within (fun _ _ h => h.cursor) fun _ _ _ _ h hs =>
    { h with cursor := hs }

theorem lockstep_consult {R : α → β → Prop} {f : EStateM Failure (Cursor × σ) α}
    {g : EStateM Failure (Cursor × σ') β} (h : Lockstep (SameText ρ) R f g) :
    Lockstep (SamePlace ρ) R (consult f) (consult g) := by
  rw [consult_eq_within, consult_eq_within]
  refine h.within (fun _ _ hr => ⟨hr.cursor, hr.state⟩) fun r r' p p' hr hp => ?_
  exact { hr with cursor := by simp only [hr.cursor, hp.1], state := hp.2 }

end Reading

section Runs

variable {around : Surroundings σ Slot} {around' : Surroundings σ' Slot'} {ρ : σ → σ' → Prop}

theorem Request.lockstep_reach (inReach inReach' : Bool) (fault fault' : Fault) (at? at?' : Mark) :
    Lockstep (Reading.SamePlace ρ) Eq ((reach inReach fault at?).answer around)
      ((reach inReach' fault' at?').answer around') := by
  intro r r' a r₁ b r₁' hr ha hb
  rw [eq_of_reach ha, eq_of_reach hb]
  exact ⟨rfl, hr⟩

/-- The answers to a request of the text are the same, and those to any other take the same text. -/
theorem Request.lockstep_answer (hmnemonic : around.mnemonic = around'.mnemonic)
    (h : Lockstep (SameText ρ) Value.SameForm (around.environment.evaluate around.context)
      (around'.environment.evaluate around'.context)) (q : Request β) :
    Lockstep (Reading.SamePlace ρ) (fun a b => q.IsTextual → a = b) (q.answer around)
      (q.answer around') := by
  have htextual {x : EStateM Failure (Reading σ) β} {y : EStateM Failure (Reading σ') β}
      (hxy : Lockstep (Reading.SamePlace ρ) Eq x y) :
      Lockstep (Reading.SamePlace ρ) (fun a b => q.IsTextual → a = b) x y :=
    hxy.mono fun _ _ hab _ => hab
  have hinteger : Lockstep (Reading.SamePlace ρ) (fun _ _ => True) around.integer
      around'.integer :=
    (Reading.lockstep_step _).bind fun _ _ _ =>
      Reading.lockstep_consult (Environment.lockstep_evaluateInt h)
  -- expressions are what only the environment can answer, all else is answered from the cursor
  cases q with
  | mark =>
    refine htextual ?_
    rintro r r' a r₁ b r₁' hr ⟨⟩ ⟨⟩
    exact ⟨by rw [hr.marks], hr.cursor, by rw [hr.marks, hr.cursor], hr.state⟩
  | sees | accept | acceptJoined | atBlank | atEnd | seesPostIndex | keyword | wholeWord =>
    rw [Request.answer, Request.answer]
    exact htextual (Reading.lockstep_step _)
  | closeBracket | systemRegister =>
    rw [Request.answer, Request.answer]
    exact htextual (Reading.lockstep_scan _)
  | register =>
    refine htextual ?_
    rw [Request.answer, Request.answer, hmnemonic]
    exact Reading.lockstep_scan _
  | value => exact hinteger.mono fun _ _ _ => False.elim
  | distance | pageDistance =>
    exact hinteger.bind fun _ _ _ => .pure False.elim
  | reach => exact htextual (lockstep_reach _ _ _ _ _ _)

variable (around around') in
/-- Readers that agree stay together, and yield what they are said to. -/
theorem Reader.Agree.run {R : α → β → Prop} {x : Reader α} {y : Reader β} (h : Agree R x y)
    (hmnemonic : around.mnemonic = around'.mnemonic)
    (heval : Lockstep (SameText ρ) Value.SameForm (around.environment.evaluate around.context)
      (around'.environment.evaluate around'.context)) :
    Lockstep (Reading.SamePlace ρ) R (x.run around) (y.run around') := by
  -- a failure on either side ends the comparison, since both runs are supposed to succeed
  induction h with
  | done hab => exact .pure hab
  | failLeft fault at? y => exact .of_error_left fun r => ⟨_, _, rfl⟩
  | failRight x fault at? => exact .of_error_right fun r => ⟨_, _, rfl⟩
  | ask q _ ih => exact (q.lockstep_answer hmnemonic heval).bind fun a b hab => ih a b hab
  | reach _ ih => exact (Request.lockstep_reach _ _ _ _ _ _).bind fun _ _ _ => ih

end Runs

end InlineA64
