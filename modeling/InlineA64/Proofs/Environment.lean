import InlineA64.Environment
import InlineA64.Proofs.Step

/-!
# What an environment makes of a text

Two environments can give an expression different values. What the assembler needs of them to take
the same text in both is that the values have one form: they are numbers, or they are one string.
-/

namespace InlineA64

variable {σ σ' Slot Slot' α : Type}

/-- Two values are numbers, or they are one string. -/
def Value.SameForm (v w : Value) : Prop :=
  v.toBytes? = w.toBytes?

/-- Two states of the text and of the environment, which are the same for the text. -/
def SameText (ρ : σ → σ' → Prop) (p : Cursor × σ) (p' : Cursor × σ') : Prop :=
  p.1 = p'.1 ∧ ρ p.2 p'.2

namespace Environment

variable {env : Environment σ Slot} {env' : Environment σ' Slot'} {ρ : σ → σ' → Prop}
  {context context' : Context}

theorem evaluateAs_eq_ok {view : Value → Option α} {p p' : Cursor × σ} {a : α} :
    env.evaluateAs view context p = .ok a p' ↔
      ∃ v, env.evaluate context p = .ok v p' ∧ view v = some a := by
  rw [evaluateAs, get_bind, bind_eq_ok]
  constructor
  · rintro ⟨v, q, hv, h⟩
    rcases hview : view v with _ | a
    · rw [hview] at h
      cases h
    · rw [hview] at h
      obtain ⟨rfl, rfl⟩ := pure_eq_ok.mp h
      exact ⟨v, hv, hview⟩
  · rintro ⟨v, hv, hview⟩
    refine ⟨v, p', hv, ?_⟩
    rw [hview]
    rfl

/-- Expressions of one type take the same text if expressions of any type do. What they yield is
related as far as the form of a value tells. -/
theorem lockstep_evaluateAs {view : Value → Option α} {R : α → α → Prop}
    (h : Lockstep (SameText ρ) Value.SameForm (env.evaluate context) (env'.evaluate context'))
    (hview : ∀ ⦃v w a b⦄, v.SameForm w → view v = some a → view w = some b → R a b) :
    Lockstep (SameText ρ) R (env.evaluateAs view context) (env'.evaluateAs view context') := by
  refine Lockstep.get.bind fun p q hpq => ?_
  refine h.bind fun v w hvw => ?_
  -- where one of the two values has the wrong type, that run fails and there is nothing to show
  rcases hv : view v with _ | a
  · exact .of_error_left fun s => ⟨_, _, rfl⟩
  · rcases hw : view w with _ | b
    · exact .of_error_right fun s => ⟨_, _, rfl⟩
    · exact .pure (hview hvw hv hw)

theorem lockstep_evaluateInt
    (h : Lockstep (SameText ρ) Value.SameForm (env.evaluate context) (env'.evaluate context')) :
    Lockstep (SameText ρ) (fun _ _ => True) (env.evaluateInt context)
      (env'.evaluateInt context') :=
  lockstep_evaluateAs h fun _ _ _ _ _ _ _ => trivial

theorem lockstep_evaluateBytes
    (h : Lockstep (SameText ρ) Value.SameForm (env.evaluate context) (env'.evaluate context')) :
    Lockstep (SameText ρ) Eq (env.evaluateBytes context) (env'.evaluateBytes context') :=
  lockstep_evaluateAs h fun v w a b hvw hv hw => by
    rw [Value.SameForm, hv, hw] at hvw
    exact Option.some.inj hvw

end Environment

/-! ## Listing -/

/-- Options that list nothing and are the same otherwise. -/
def Options.unlisted (o : Options) : Options :=
  { o with list := false }

/-- A context that lists nothing and is the same otherwise. -/
def Context.unlisted (c : Context) : Context :=
  { c with options := c.options.unlisted }

theorem Options.unlisted_eq_unlisted {o o' : Options} :
    o.unlisted = o'.unlisted ↔
      o.rangeCheck = o'.rangeCheck ∧ o.offset = o'.offset ∧ o.limitCheck = o'.limitCheck := by
  simp only [unlisted, mk.injEq, true_and]

theorem Context.unlisted_eq_unlisted {c c' : Context} :
    c.unlisted = c'.unlisted ↔
      c.logical = c'.logical ∧ c.physical = c'.physical ∧
        c.options.unlisted = c'.options.unlisted := by
  simp only [unlisted, mk.injEq]

/-- Two contexts show the same addresses, with options related by `κ`. -/
structure Context.Similar (κ : Options → Options → Prop) (c c' : Context) : Prop where
  logical : c.logical = c'.logical
  physical : c.physical = c'.physical
  options : κ c.options c'.options

namespace Environment

/-- The services of an environment do the same in states related by `ρ`. Whether a statement is
listed makes no difference to an expression, and a line of the listing makes none to the state. -/
structure Respects (env : Environment σ Slot) (ρ : σ → σ → Prop) : Prop where
  evaluate {c c' : Context} (hc : c.unlisted = c'.unlisted) :
    Alike (SameText ρ) (env.evaluate c) (env.evaluate c')
  slot : Alike (SameText ρ) env.slot env.slot
  load {state state' : σ} (h : ρ state state') (slot : Slot) :
    env.load slot state = env.load slot state'
  store (slot : Slot) (address : UInt64) : Alike ρ (env.store slot address) (env.store slot address)
  write (address : UInt64) (bytes : List Byte) :
    Alike ρ (env.write address bytes) (env.write address bytes)
  symbol {state state' : σ} (h : ρ state state') (name : String) :
    env.symbol name state = env.symbol name state'
  systemCall {state state' : σ} (h : ρ state state') (call : SystemCall) :
    env.systemCall call state = env.systemCall call state'
  flush {state state' : σ} (h : ρ state state') (start stop : UInt64) :
    ρ (env.flush start stop state) (env.flush start stop state')
  listing_left {state state' : σ} (h : ρ state state') (line : String) :
    ρ (env.listing line state) state'
  listing_right {state state' : σ} (h : ρ state state') (line : String) :
    ρ state (env.listing line state')

/-- The services of two environments do the same in states related by `ρ`, with options related by
`κ`. Options that are related differ in their listing at most, and so does what they have an
environment take of it. -/
structure Corresponds (κ : Options → Options → Prop) (ρ : σ → σ' → Prop)
    (env : Environment σ Slot) (env' : Environment σ' Slot) : Prop where
  refl (o : Options) : κ o o
  unlisted {o o' : Options} (ho : κ o o') : o.unlisted = o'.unlisted
  evaluate {c c' : Context} (hc : c.Similar κ c') :
    Alike (SameText ρ) (env.evaluate c) (env'.evaluate c')
  slot : Alike (SameText ρ) env.slot env'.slot
  load {state : σ} {state' : σ'} (h : ρ state state') (slot : Slot) :
    env.load slot state = env'.load slot state'
  store (slot : Slot) (address : UInt64) :
    Alike ρ (env.store slot address) (env'.store slot address)
  write (address : UInt64) (bytes : List Byte) :
    Alike ρ (env.write address bytes) (env'.write address bytes)
  symbol {state : σ} {state' : σ'} (h : ρ state state') (name : String) :
    env.symbol name state = env'.symbol name state'
  systemCall {state : σ} {state' : σ'} (h : ρ state state') (call : SystemCall) :
    env.systemCall call state = env'.systemCall call state'
  flush {state : σ} {state' : σ'} (h : ρ state state') (start stop : UInt64) :
    ρ (env.flush start stop state) (env'.flush start stop state')
  list {o o' : Options} (ho : κ o o') {state : σ} {state' : σ'} (h : ρ state state')
    (rows : List String) : ρ (if o.list then rows.foldl (fun state row => env.listing row state)
      state else state) (if o'.list then rows.foldl (fun state row => env'.listing row state)
      state' else state')

section

variable {κ : Options → Options → Prop} {ρ : σ → σ' → Prop} {env : Environment σ Slot}
  {env' : Environment σ' Slot} {c c' : Context}

theorem Corresponds.evaluateAs (h : Corresponds κ ρ env env') (view : Value → Option α)
    (hc : c.Similar κ c') :
    Alike (SameText ρ) (env.evaluateAs view c) (env'.evaluateAs view c') := by
  refine .get_bind fun p p' hp => ?_
  rw [hp.1]
  refine (h.evaluate hc).bind fun v => ?_
  rcases view v with _ | a
  · exact fun q q' hq => ⟨by rw [hq.1], hq⟩
  · exact .pure a

end

theorem Respects.listed_left {env : Environment σ Slot} {ρ : σ → σ → Prop} (h : env.Respects ρ)
    {state state' : σ} (hstate : ρ state state') (rows : List String) :
    ρ (rows.foldl (fun state row => env.listing row state) state) state' := by
  induction rows generalizing state with
  | nil => exact hstate
  | cons row rows ih => exact ih (h.listing_left hstate row)

theorem Respects.listed_right {env : Environment σ Slot} {ρ : σ → σ → Prop} (h : env.Respects ρ)
    {state state' : σ} (hstate : ρ state state') (rows : List String) :
    ρ state (rows.foldl (fun state row => env.listing row state) state') := by
  induction rows generalizing state' with
  | nil => exact hstate
  | cons row rows ih => exact ih (h.listing_right hstate row)

/-- An environment that does not tell two states apart does the same in both, listing or not. -/
theorem Respects.corresponds {env : Environment σ Slot} {ρ : σ → σ → Prop}
    (h : env.Respects ρ) : Corresponds (fun o o' => o.unlisted = o'.unlisted) ρ env env where
  refl _ := rfl
  unlisted ho := ho
  evaluate hc := h.evaluate (Context.unlisted_eq_unlisted.mpr ⟨hc.logical, hc.physical, hc.options⟩)
  slot := h.slot
  load := h.load
  store := h.store
  write := h.write
  symbol := h.symbol
  systemCall := h.systemCall
  flush := h.flush
  list {o o'} _ {state state'} hstate rows := by
    -- the rows may be taken on one side only
    have hright : ρ state (if o'.list then
        rows.foldl (fun state row => env.listing row state) state' else state') := by
      split
      · exact h.listed_right hstate rows
      · exact hstate
    split
    · exact h.listed_left hright rows
    · exact hright

end Environment

end InlineA64
