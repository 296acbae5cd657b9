import InlineA64.Proofs.Block.Alike
import InlineA64.Proofs.Reader.Onward

/-!
# Records of calls

`Environment.recorded` is an environment that does what another one does and keeps a list of the
calls made of it: expressions evaluated, labels stored, bytes written and ranges flushed. As the
other environment is arbitrary, what holds of the calls on record holds of the calls that any
environment gets.

`Block.After` says which calls an action has made and where it has left the block.
-/

namespace InlineA64

variable {σ Slot α β : Type}

/-- A call of the environment. -/
inductive Call (Slot : Type) where
  /-- An expression was evaluated. -/
  | evaluate (context : Context)
  /-- A variable was to be bound to an address. -/
  | store (slot : Slot) (address : UInt64)
  /-- Bytes were to be written from an address on. -/
  | write (address : UInt64) (bytes : List Byte)
  /-- Instructions were to be fetched anew from the first address up to the second. -/
  | flush (start stop : UInt64)
deriving DecidableEq, Repr

/-- The state of an environment and the calls made of it, the first one first. -/
structure Recorded (σ Slot : Type) where
  /-- The state. -/
  state : σ
  /-- The calls. -/
  calls : List (Call Slot)

/-- An environment that keeps a record of its calls. A call is on record whether it fails or not. -/
def Environment.recorded (env : Environment σ Slot) : Environment (Recorded σ Slot) Slot where
  evaluate context :=
    within (fun p => (p.1, p.2.state)) (fun p q => (q.1, ⟨q.2, p.2.calls ++ [.evaluate context]⟩))
      (env.evaluate context)
  slot := within (fun p => (p.1, p.2.state)) (fun p q => (q.1, ⟨q.2, p.2.calls⟩)) env.slot
  load slot w := env.load slot w.state
  store slot address :=
    within Recorded.state (fun w state => ⟨state, w.calls ++ [.store slot address]⟩)
      (env.store slot address)
  write address bytes :=
    within Recorded.state (fun w state => ⟨state, w.calls ++ [.write address bytes]⟩)
      (env.write address bytes)
  symbol name w := env.symbol name w.state
  systemCall call w := env.systemCall call w.state
  flush start stop w := ⟨env.flush start stop w.state, w.calls ++ [.flush start stop]⟩
  listing line w := { w with state := env.listing line w.state }

/-- To keep a record changes nothing else. -/
theorem Environment.recorded_corresponds (env : Environment σ Slot) :
    Corresponds Eq (fun w state => w.state = state) env.recorded env where
  refl _ := rfl
  unlisted ho := congrArg Options.unlisted ho
  evaluate {c c'} hc := by
    obtain rfl : c = c' := by
      rw [Context.mk.injEq]
      exact ⟨hc.logical, hc.physical, hc.options⟩
    exact .within_left (fun _ _ h => Prod.ext h.1 h.2) (fun _ _ _ _ => ⟨rfl, rfl⟩) _
  slot := .within_left (fun _ _ h => Prod.ext h.1 h.2) (fun _ _ _ _ => ⟨rfl, rfl⟩) _
  load h slot := congrArg (env.load slot) h
  store slot address := .within_left (fun _ _ h => h) (fun _ _ _ _ => rfl) _
  write address bytes := .within_left (fun _ _ h => h) (fun _ _ _ _ => rfl) _
  symbol h name := congrArg (env.symbol name) h
  systemCall h call := congrArg (env.systemCall call) h
  flush h start stop := congrArg (env.flush start stop) h
  list {o _} ho {w state} h rows := by
    -- the options are the same, so the rows are taken on both sides or on neither
    subst ho
    split
    · induction rows generalizing w state with
      | nil => exact h
      | cons row rows ih => exact ih (congrArg (env.listing row) h)
    · exact h

/-- The calls that a block makes. -/
def Block.calls [DecidableEq Slot] (env : Environment σ Slot) (placement : Placement) (state : σ)
    (cursor : Cursor) : List (Call Slot) :=
  (assemble env.recorded placement ⟨state, []⟩ cursor).state.calls

/-- A block whose calls are recorded ends in the same way. -/
theorem Block.failure_recorded [DecidableEq Slot] (env : Environment σ Slot)
    (placement : Placement) (w : Recorded σ Slot) (cursor : Cursor) :
    (assemble env.recorded placement w cursor).failure =
      (assemble env placement w.state cursor).failure :=
  (assemble_corresponds env.recorded_corresponds ⟨rfl, rfl, rfl, rfl⟩ rfl cursor).1

/-! ## Calls of the environment -/

namespace Recorded

/-- The second state has one more call on record. -/
def Called (call : Call Slot) (w w' : Recorded σ Slot) : Prop :=
  w'.calls = w.calls ++ [call]

/-- The second state has evaluations of expressions in one context on record besides. -/
def Evaluated (context : Context) (w w' : Recorded σ Slot) : Prop :=
  ∃ n, w'.calls = w.calls ++ List.replicate n (.evaluate context)

instance (context : Context) :
    IsPreorder (Recorded σ Slot) (Evaluated context) where
  refl w := ⟨0, (List.append_nil w.calls).symm⟩
  trans := by
    rintro u v w ⟨m, hv⟩ ⟨n, hw⟩
    exact ⟨m + n, by rw [hw, hv, List.append_assoc, List.replicate_append_replicate]⟩

end Recorded

namespace Environment

variable (env : Environment σ Slot)

theorem called_evaluate (context : Context) :
    Reaches (fun p q => p.2.Called (.evaluate context) q.2) (env.recorded.evaluate context) :=
  fun _ => .within (.of_forall (fun _ _ => rfl) fun _ _ => rfl)

theorem called_evaluateAs (view : Value → Option α) (context : Context) :
    Reaches (fun p q => p.2.Called (.evaluate context) q.2)
      (env.recorded.evaluateAs view context) :=
  Environment.reaches_evaluateAs (env.called_evaluate context) view

theorem called_slot : Reaches (fun p q => q.2.calls = p.2.calls) env.recorded.slot :=
  fun _ => .within (.of_forall (fun _ _ => rfl) fun _ _ => rfl)

theorem called_store (slot : Slot) (address : UInt64) :
    Reaches (Recorded.Called (.store slot address)) (env.recorded.store slot address) :=
  fun _ => .within (.of_forall (fun _ _ => rfl) fun _ _ => rfl)

theorem called_write (address : UInt64) (bytes : List Byte) :
    Reaches (Recorded.Called (.write address bytes)) (env.recorded.write address bytes) :=
  fun _ => .within (.of_forall (fun _ _ => rfl) fun _ _ => rfl)

theorem evaluated_run (context : Context) (mnemonic : String) (x : Reader α) :
    Reaches (Reading.Onward (Recorded.Evaluated context))
      (x.run ⟨env.recorded, context, mnemonic⟩) :=
  x.reaches_run (fun p => (env.called_evaluate context p).mono (fun _ _ h => ⟨1, h⟩)
    fun _ _ h => ⟨1, h⟩) mnemonic

end Environment

/-! ## Positions -/

theorem Placement.writeAddress_advance (s : Placement) (count : UInt64) :
    (s.advance count).writeAddress = s.writeAddress + count := by
  cases h : s.options.offset with
  | true => simp only [advance, writeAddress, h, if_true]
  | false => simp only [advance, writeAddress, h, Bool.false_eq_true, if_false]

theorem Placement.advance_advance (s : Placement) (count count' : UInt64) :
    (s.advance count).advance count' = s.advance (count + count') := by
  simp only [advance, UInt64.add_assoc]

/-- Where a block stands: the placement, the address at which its current statement starts, and
whether it has had no instruction and no data yet. -/
structure Position where
  /-- Where code is placed. -/
  placement : Placement
  /-- The address of the first byte of the current statement. -/
  address : UInt64
  /-- The block has had no instruction and no data yet. -/
  fresh : Bool
deriving DecidableEq, Repr

namespace Position

/-- Align to a word and take the statement to start there. -/
def aligned (p : Position) : Position :=
  { p with placement := p.placement.align, address := p.placement.align.logical }

/-- Note that the block has had an instruction or data. -/
def settled (p : Position) : Position :=
  { p with fresh := false }

/-- Move on by a number of bytes. -/
def moved (p : Position) (count : Nat) : Position :=
  { p with placement := p.placement.advance (UInt64.ofNat count) }

/-- Change the options. -/
def withOptions (p : Position) (options : Options) : Position :=
  { p with placement := p.placement.withOptions options }

/-- Where a label is bound: labels before the first instruction of a block are aligned. -/
def labelled (p : Position) : Position :=
  if p.fresh then p.aligned else p

/-- Start a statement. -/
def opened (p : Position) : Position :=
  { p with address := p.placement.logical }

/-- What is flushed at the end of a statement: all from its start on, if code is assembled in
place. -/
def flushes (p : Position) : List (Call Slot) :=
  if !p.placement.options.offset && p.placement.logical != p.address then
    [.flush p.address p.placement.logical]
  else []

theorem moved_zero (p : Position) : p.moved 0 = p := by
  have hzero : UInt64.ofNat 0 = 0 := rfl
  simp only [moved, Placement.advance, hzero, UInt64.add_zero]

theorem moved_moved (p : Position) (m n : Nat) : (p.moved m).moved n = p.moved (m + n) := by
  simp only [moved, Placement.advance_advance, UInt64.ofNat_add]

theorem writeAddress_moved (p : Position) (n : Nat) :
    (p.moved n).placement.writeAddress = p.placement.writeAddress + UInt64.ofNat n :=
  p.placement.writeAddress_advance (UInt64.ofNat n)

end Position

namespace Block

/-- Where a block stands. -/
def position (b : Block σ Slot) : Position :=
  ⟨b.placement, b.address, b.fresh⟩

/-- The calls are those made since `b`, and the block stands at `p` now. -/
structure After (b : Block (Recorded σ Slot) Slot) (calls : List (Call Slot)) (p : Position)
    (b' : Block (Recorded σ Slot) Slot) : Prop where
  calls : b'.state.calls = b.state.calls ++ calls
  position : b'.position = p

namespace After

variable {b b₁ b₂ : Block (Recorded σ Slot) Slot} {calls calls' : List (Call Slot)}
  {p p' : Position}

theorem trans (h : After b calls p b₁) (h' : After b₁ calls' p' b₂) :
    After b (calls ++ calls') p' b₂ where
  calls := by rw [h'.calls, h.calls, List.append_assoc]
  position := h'.position

theorem of_calls (h : b₁.state.calls = b.state.calls) : After b [] b₁.position b₁ :=
  ⟨by rw [h, List.append_nil], rfl⟩

theorem placement (h : After b calls p b₁) : b₁.placement = p.placement := by
  rw [← h.position, Block.position]

end After

/-! ## Consulting the environment -/

variable {env : Environment σ Slot} {b : Block (Recorded σ Slot) Slot}

theorem after_consult {f : EStateM Failure (Cursor × Recorded σ Slot) α} {calls : List (Call Slot)}
    (hf : Reaches (fun p q => q.2.calls = p.2.calls ++ calls) f) :
    Reaches (fun b b' => After b calls b.position b') (consult f) := by
  rw [consult_eq_within]
  exact hf.within fun b p h => ⟨h, rfl⟩

theorem after_request {f : EStateM Failure (Recorded σ Slot) α} {call : Call Slot}
    (hf : Reaches (Recorded.Called call) f) :
    Reaches (fun b b' => After b [call] b.position b') (request f) := by
  rw [request_eq_within]
  exact hf.within fun b w h => ⟨h, rfl⟩

theorem after_evaluate (b : Block (Recorded σ Slot) Slot) :
    Leads (evaluate env.recorded) b
      (fun _ b' => After b [.evaluate b.placement.context] b.position b')
      (fun _ b' => After b [.evaluate b.placement.context] b.position b') :=
  .get_bind (after_consult (env.called_evaluate b.placement.context) b)

theorem after_evaluateInt (b : Block (Recorded σ Slot) Slot) :
    Leads (evaluateInt env.recorded) b
      (fun _ b' => After b [.evaluate b.placement.context] b.position b')
      (fun _ b' => After b [.evaluate b.placement.context] b.position b') :=
  .get_bind (after_consult (env.called_evaluateAs _ b.placement.context) b)

theorem after_operands (mnemonic : String) (reader : Reader α)
    (b : Block (Recorded σ Slot) Slot) :
    Leads (operands env.recorded mnemonic reader) b
      (fun _ b' => ∃ n, After b (.replicate n (.evaluate b.placement.context)) b.position b')
      (fun _ b' => ∃ n, After b (.replicate n (.evaluate b.placement.context)) b.position b') := by
  rw [operands_eq_within]
  refine .get_bind (.within ?_)
  exact (env.evaluated_run b.placement.context mnemonic reader _).mono
    (fun _ _ ⟨_, n, h⟩ => ⟨n, h, rfl⟩) fun _ _ ⟨_, n, h⟩ => ⟨n, h, rfl⟩

end Block

end InlineA64
