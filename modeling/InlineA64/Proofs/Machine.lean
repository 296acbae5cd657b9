import InlineA64.Machine.Basic
import InlineA64.Proofs.Expression

/-!
# Machines during a run

An expression reads a machine and leaves it alone, and a label changes one variable. While all
variables of two machines are numbers, expressions take the same text in both
(`Machine.lockstep_evaluate`), whatever the numbers are.
-/

namespace InlineA64

namespace Bindings

variable {κ α : Type} [DecidableEq κ]

theorem setIn_of_getIn {key : κ} {value : α} {entries : List (κ × α)}
    (h : getIn key entries = some value) : setIn key value entries = entries := by
  induction entries with
  | nil => cases h
  | cons entry rest ih =>
    rw [getIn] at h
    rw [setIn]
    split at h
    · next hk =>
      cases h
      rw [if_pos hk]
    · next hk => rw [if_neg hk, ih h]

/-- A key bound to what it is bound to already changes nothing. -/
theorem set_of_get? {b : Bindings κ α} {key : κ} {value : α} (h : b.get? key = some value) :
    b.set key value = b := by
  rw [set, setIn_of_getIn h]

end Bindings

namespace Machine

variable {w w' : Machine} {context context' : Context}

/-! ## Services -/

theorem evaluate_eq_ok {v : Value} {s s' : Cursor} :
    evaluate context (s, w) = .ok v (s', w') ↔
      Expression.read ⟨context, w.vars⟩ s = .ok v s' ∧ w' = w := by
  rw [evaluate]
  rcases Expression.read ⟨context, w.vars⟩ s with ⟨u, t⟩ | ⟨e, t⟩
  · simp only [EStateM.Result.ok.injEq, Prod.mk.injEq, eq_comm (a := w), and_assoc]
  · simp only [reduceCtorEq, false_and]

theorem evaluate_eq_error {failure : Failure} {s s' : Cursor} :
    evaluate context (s, w) = .error failure (s', w') ↔
      Expression.read ⟨context, w.vars⟩ s = .error failure s' ∧ w' = w := by
  rw [evaluate]
  rcases Expression.read ⟨context, w.vars⟩ s with ⟨u, t⟩ | ⟨e, t⟩
  · simp only [reduceCtorEq, false_and]
  · simp only [EStateM.Result.error.injEq, Prod.mk.injEq, eq_comm (a := w), and_assoc]

/-- What holds of reading an expression holds of having a machine evaluate it. -/
theorem leads_evaluate {s : Cursor} {Q : Value → Cursor × Machine → Prop}
    {E : Failure → Cursor × Machine → Prop}
    (h : Leads (Expression.read ⟨context, w.vars⟩) s (fun v t => Q v (t, w))
      fun failure t => E failure (t, w)) : Leads (environment.evaluate context) (s, w) Q E := by
  change Leads (evaluate context) (s, w) Q E
  rw [Leads, evaluate]
  rcases hread : Expression.read ⟨context, w.vars⟩ s with ⟨v, t⟩ | ⟨failure, t⟩
  · exact h.of_eq_ok hread
  · exact h.of_eq_error hread

/-- What holds of reading a name holds of having a variable of a machine, if that is declared when
the name has been read. -/
theorem leads_slot {s : Cursor} {Q : Name × VariableKind → Cursor × Machine → Prop}
    {E : Failure → Cursor × Machine → Prop}
    (hname : Leads Expression.name s (fun name t => Q (name, kindOf name) (t, w.declare name))
      fun failure t => E failure (t, w))
    (hnone : E ⟨.malformed .statement, s.span⟩ (s, w)) : Leads environment.slot (s, w) Q E := by
  change Leads slot (s, w) Q E
  rw [Leads, slot]
  by_cases hstarts : s.peek.startsName = true
  · rw [if_pos hstarts]
    rcases hread : Expression.name s with ⟨name, t⟩ | ⟨failure, t⟩
    · exact hname.of_eq_ok hread
    · exact hname.of_eq_error hread
  · rw [if_neg hstarts]
    exact hnone

theorem slot_eq_ok {name : Name} {kind : VariableKind} {s s' : Cursor}
    (h : slot (s, w) = .ok (name, kind) (s', w')) :
    Expression.name s = .ok name s' ∧ kind = kindOf name ∧ w' = w.declare name := by
  rw [slot] at h
  split at h
  · split at h
    · cases h
      exact ⟨‹_›, rfl, rfl⟩
    · cases h
  · cases h

theorem write_eq_ok {address : UInt64} {bytes : List Byte} {u : Unit}
    (h : write address bytes w = .ok u w') :
    ∃ image, w.image.write address bytes = .ok image ∧ w' = { w with image } := by
  rw [write] at h
  split at h
  · next image himage =>
    cases h
    exact ⟨image, himage, rfl⟩
  · cases h

/-! ## Numeric variables -/

/-- All variables are numbers. -/
def Numeric (w : Machine) : Prop :=
  ∀ name bytes, w.vars.get? name ≠ some (.string bytes)

theorem numeric_ofBase (base : UInt64) : (ofBase base).Numeric :=
  fun _ _ h => by cases h

theorem Numeric.toBytes?_of_value? (h : w.Numeric) {name : Name} {v : Value}
    (hv : Expression.Scope.value? ⟨context, w.vars⟩ name = some v) : v.toBytes? = none := by
  unfold Expression.Scope.value? at hv
  split at hv
  · cases hv
    rfl
  split at hv
  · cases hv
    rfl
  split at hv
  · next value hvalue =>
    cases hv
    -- only a variable could be a string, and no variable is
    cases value with
    | numeric n => rfl
    | string bytes => exact absurd hvalue (h name bytes)
  · split at hv
    · cases hv
    · cases hv
      rfl

/-- An expression takes the same text in two machines that hold numbers alone. -/
theorem lockstep_evaluate (context context' : Context) :
    Lockstep (SameText fun w w' : Machine => w.Numeric ∧ w'.Numeric) Value.SameForm
      (environment.evaluate context) (environment.evaluate context') := by
  rintro ⟨s, w⟩ ⟨t, w'⟩ v ⟨s₁, w₁⟩ v' ⟨t₁, w₁'⟩ ⟨hst, hw, hw'⟩ hv hv'
  dsimp only at hst hw hw'
  obtain ⟨hread, rfl⟩ := evaluate_eq_ok.mp hv
  obtain ⟨hread', rfl⟩ := evaluate_eq_ok.mp hv'
  have hform : Expression.Scope.SameForm ⟨context, w₁.vars⟩ ⟨context', w₁'.vars⟩ :=
    fun name u u' hu hu' => (hw.toBytes?_of_value? hu).trans (hw'.toBytes?_of_value? hu').symm
  obtain ⟨hvv, hcursor⟩ := Expression.lockstep_read hform hst hread hread'
  exact ⟨hvv, hcursor, hw, hw'⟩

/-! ## What is listed and flushed -/

/-- Two machines differ at most in their listing and in what was flushed. -/
structure SameCode (w w' : Machine) : Prop where
  image : w.image = w'.image
  vars : w.vars = w'.vars
  symbols : w.symbols = w'.symbols
  systemCalls : w.systemCalls = w'.systemCalls

theorem value?_congr (hc : context.unlisted = context'.unlisted) (vars : Bindings Name Variable) :
    Expression.Scope.value? ⟨context, vars⟩ = Expression.Scope.value? ⟨context', vars⟩ := by
  obtain ⟨hlogical, hphysical, hoptions⟩ := Context.unlisted_eq_unlisted.mp hc
  obtain ⟨hcheck, -, -⟩ := Options.unlisted_eq_unlisted.mp hoptions
  funext name
  simp only [Expression.Scope.value?, hlogical, hphysical, hcheck]

/-- To declare a variable changes nothing but the variables. -/
theorem declare_eq (w : Machine) (name : Name) :
    w.declare name = { w with vars := (w.declare name).vars } := by
  rw [declare]
  split <;> rfl

theorem SameCode.vars_declare (h : w.SameCode w') (name : Name) :
    (w.declare name).vars = (w'.declare name).vars := by
  rw [Machine.declare, Machine.declare, h.vars]
  split
  · exact h.vars
  · exact congrArg (·.set name (initial (kindOf name))) h.vars

/-- The services of a machine tell nothing but its code. They do the same in machines that are
related in more than that, if to change the code alike on both sides relates them again. -/
theorem environment_respects_of {ρ : Machine → Machine → Prop}
    (hcode : ∀ ⦃w w'⦄, ρ w w' → w.SameCode w')
    (hput : ∀ ⦃w w'⦄, ρ w w' → ∀ image vars, ρ { w with image, vars } { w' with image, vars })
    (hflush : ∀ ⦃w w'⦄, ρ w w' → ∀ start stop,
      ρ (environment.flush start stop w) (environment.flush start stop w'))
    (hleft : ∀ ⦃w w'⦄, ρ w w' → ∀ line, ρ (environment.listing line w) w')
    (hright : ∀ ⦃w w'⦄, ρ w w' → ∀ line, ρ w (environment.listing line w')) :
    environment.Respects ρ where
  -- only the variables and the addresses of the context are in scope
  evaluate {c c'} hc := by
    rintro ⟨s, w⟩ ⟨_, w'⟩ ⟨rfl, hw⟩
    have hvars : w.vars = w'.vars := (hcode hw).vars
    have hread : Expression.read ⟨c, w.vars⟩ = Expression.read ⟨c', w'.vars⟩ := by
      rw [hvars]
      exact Expression.read_congr (value?_congr hc _)
    change SameOutcome _ (evaluate c (s, w)) (evaluate c' (s, w'))
    rw [evaluate, evaluate, hread]
    rcases Expression.read ⟨c', w'.vars⟩ s with ⟨v, t⟩ | ⟨e, t⟩
    · exact ⟨rfl, rfl, hw⟩
    · exact ⟨rfl, rfl, hw⟩
  slot := by
    rintro ⟨s, w⟩ ⟨_, w'⟩ ⟨rfl, hw⟩
    have hdeclare (name : Name) : ρ (w.declare name) (w'.declare name) := by
      have hvars := (hcode hw).vars_declare name
      have hdeclared := hput hw w.image (w.declare name).vars
      rw [declare_eq, declare_eq w', ← hvars]
      rwa [(hcode hw).image] at hdeclared ⊢
    change SameOutcome _ (slot (s, w)) (slot (s, w'))
    rw [slot, slot]
    by_cases hstarts : s.peek.startsName
    · rw [if_pos hstarts, if_pos hstarts]
      rcases Expression.name s with ⟨name, t⟩ | ⟨e, t⟩
      · exact ⟨rfl, rfl, hdeclare name⟩
      · exact ⟨rfl, rfl, hw⟩
    · rw [if_neg hstarts, if_neg hstarts]
      exact ⟨rfl, rfl, hw⟩
  load {w w'} hw name := by
    change (w.number? name).getD 0 = (w'.number? name).getD 0
    rw [number?, number?, (hcode hw).vars]
  store name address := fun w w' hw => by
    have hset := hput hw w.image (w.vars.set name (.numeric address.toInt64))
    refine ⟨rfl, ?_⟩
    rw [setVariable, setVariable, ← (hcode hw).vars]
    rwa [(hcode hw).image] at hset ⊢
  write address bytes := by
    intro w w' hw
    change SameOutcome _ (write address bytes w) (write address bytes w')
    rw [write, write, (hcode hw).image]
    rcases w'.image.write address bytes with e | image
    · exact ⟨rfl, hw⟩
    · have hput := hput hw image w.vars
      refine ⟨rfl, ?_⟩
      rwa [(hcode hw).vars] at hput ⊢
  symbol h name := congrArg (·.get? name) (hcode h).symbols
  systemCall h call := congrArg (·.get? call) (hcode h).systemCalls
  flush h := hflush h
  listing_left h := hleft h
  listing_right h := hright h

/-- The services of a machine do not tell its listing, nor what was flushed. -/
theorem environment_respects : environment.Respects SameCode :=
  environment_respects_of (fun _ _ => id) (fun _ _ h _ _ => { h with image := rfl, vars := rfl })
    (fun _ _ h _ _ => { h with }) (fun _ _ h _ => { h with }) fun _ _ h _ => { h with }

/-- Two machines differ at most in their listing. -/
structure SameUnlisted (w w' : Machine) : Prop extends SameCode w w' where
  flushed : w.flushed = w'.flushed

/-- The services of a machine do not tell its listing. -/
theorem environment_respects_unlisted : environment.Respects SameUnlisted :=
  environment_respects_of (fun _ _ => SameUnlisted.toSameCode)
    (fun _ _ h _ _ => { h with image := rfl, vars := rfl })
    (fun _ _ h start stop => { h with flushed := congrArg (·.push (start, stop)) h.flushed })
    (fun _ _ h _ => { h with }) fun _ _ h _ => { h with }

/-! ## Labels -/

/-- The machine with a label bound to an address. -/
def bindLabel (w : Machine) (name : Name) (address : UInt64) : Machine :=
  (w.declare name).setVariable name (.numeric address.toInt64)

theorem get?_declare {name other : Name} (h : name ≠ other) :
    (w.declare name).vars.get? other = w.vars.get? other := by
  rw [declare]
  split
  · rfl
  · rw [setVariable, Bindings.get?_set, if_neg h]

theorem get?_bindLabel (w : Machine) (name other : Name) (address : UInt64) :
    (w.bindLabel name address).vars.get? other =
      if name = other then some (.numeric address.toInt64) else w.vars.get? other := by
  rw [bindLabel, setVariable, Bindings.get?_set]
  by_cases h : name = other
  · rw [if_pos h, if_pos h]
  · rw [if_neg h, if_neg h, get?_declare h]

theorem Numeric.bindLabel (h : w.Numeric) (name : Name) (address : UInt64) :
    (w.bindLabel name address).Numeric := by
  intro other bytes
  rw [get?_bindLabel]
  split
  · exact fun heq => by cases heq
  · exact h other bytes

/-- A label bound to the address that it has already changes no variable. -/
theorem vars_bindLabel_of_get? {name : Name} {address : UInt64}
    (h : w.vars.get? name = some (.numeric address.toInt64)) :
    (w.bindLabel name address).vars = w.vars := by
  have hdeclare : w.declare name = w := by rw [declare, h, Option.isSome_some, if_pos rfl]
  rw [bindLabel, hdeclare, setVariable, Bindings.set_of_get? h]

end Machine

end InlineA64
