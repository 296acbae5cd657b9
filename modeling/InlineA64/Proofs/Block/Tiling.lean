import InlineA64.Machine.Basic
import InlineA64.Proofs.Block.Closed
import InlineA64.Proofs.Block.History
import InlineA64.Proofs.Block.Layout

/-!
# Writes tile the output

`Environment.accepting` keeps a log of the writes that were not refused. Up to any item of a block,
whether that succeeds or fails, each of them starts where the last one ends, or up to three bytes
behind for the sake of alignment, and so does the address where the next byte goes
(`Block.writes_tile`). Both addresses of the placement have moved by one amount then. The argument
is that to align twice is to align once (`Placement.align_align`), so that paddings that meet never
add up.
-/

namespace InlineA64

variable {σ Slot : Type}

/-! ## Logs of writes -/

/-- Bytes that were written. -/
structure Write where
  /-- The address of the first byte. -/
  address : UInt64
  /-- The bytes. -/
  bytes : List Byte
deriving DecidableEq, Repr

/-- The state of an environment and the writes that it has accepted, the first one first. -/
structure Accepted (σ : Type) where
  /-- The state. -/
  state : σ
  /-- The writes. -/
  writes : List Write

/-- The state of an environment with the calls made of it and the writes that it has accepted. -/
abbrev Traced (σ Slot : Type) : Type := Recorded (Accepted σ) Slot

namespace Environment

/-- An environment that keeps a log of its writes. A write that is refused is not in the log. -/
def accepting (env : Environment σ Slot) : Environment (Accepted σ) Slot where
  evaluate context :=
    within (fun p => (p.1, p.2.state)) (fun p q => (q.1, ⟨q.2, p.2.writes⟩)) (env.evaluate context)
  slot := within (fun p => (p.1, p.2.state)) (fun p q => (q.1, ⟨q.2, p.2.writes⟩)) env.slot
  load slot w := env.load slot w.state
  store slot address :=
    within Accepted.state (fun w state => ⟨state, w.writes⟩) (env.store slot address)
  write address bytes := do
    within Accepted.state (fun w state => ⟨state, w.writes⟩) (env.write address bytes)
    modify fun w => { w with writes := w.writes ++ [⟨address, bytes⟩] }
  symbol name w := env.symbol name w.state
  systemCall call w := env.systemCall call w.state
  flush start stop w := { w with state := env.flush start stop w.state }
  listing line w := { w with state := env.listing line w.state }

/-- To keep a log changes nothing else. -/
theorem accepting_corresponds (env : Environment σ Slot) :
    Corresponds Eq (fun w state => w.state = state) env.accepting env where
  refl _ := rfl
  unlisted ho := congrArg Options.unlisted ho
  evaluate {c c'} hc := by
    obtain rfl : c = c' := by
      rw [Context.mk.injEq]
      exact ⟨hc.logical, hc.physical, hc.options⟩
    exact .within_left (fun _ _ h => Prod.ext h.1 h.2) (fun _ _ _ _ => ⟨rfl, rfl⟩) _
  slot := .within_left (fun _ _ h => Prod.ext h.1 h.2) (fun _ _ _ _ => ⟨rfl, rfl⟩) _
  load h slot := congrArg (env.load slot) h
  store slot address := .within_left (fun _ _ h => h) (fun _ _ _ _ => rfl) _
  write address bytes := by
    -- the log is written when all else is done
    rintro w _ rfl
    change SameOutcome _ ((within _ _ _ >>= _) w) _
    rcases h : env.write address bytes w.state with ⟨u, state⟩ | ⟨failure, state⟩
    · have hw : within Accepted.state (fun w state => ⟨state, w.writes⟩) (env.write address bytes)
          w = .ok u ⟨state, w.writes⟩ := within_eq_ok.mpr ⟨state, h, rfl⟩
      rw [bind_of_ok hw]
      exact ⟨rfl, rfl⟩
    · have hw : within Accepted.state (fun w state => ⟨state, w.writes⟩) (env.write address bytes)
          w = .error failure ⟨state, w.writes⟩ := by rw [within, h]
      rw [bind_of_error hw]
      exact ⟨rfl, rfl⟩
  symbol h name := congrArg (env.symbol name) h
  systemCall h call := congrArg (env.systemCall call) h
  flush h start stop := congrArg (env.flush start stop) h
  list {o _} ho {w state} h rows := by
    subst ho
    split
    · induction rows generalizing w state with
      | nil => exact h
      | cons row rows ih => exact ih (congrArg (env.listing row) h)
    · exact h

theorem leads_write_accepting (env : Environment σ Slot) (address : UInt64) (bytes : List Byte)
    (w : Accepted σ) : Leads (env.accepting.write address bytes) w
      (fun _ w' => w'.writes = w.writes ++ [⟨address, bytes⟩]) (fun _ w' => w'.writes = w.writes) :=
  Leads.bind (Q := fun _ w' => w'.writes = w.writes)
    (.within (.of_forall (fun _ _ => rfl) fun _ _ => rfl))
    fun _ _ h => .modify (congrArg (· ++ [_]) h)

end Environment

/-! ## Tiles -/

/-- The writes follow each other from one address up to another, with at most three bytes left out
before each of them and at the end. -/
inductive Tiles : (start : UInt64) → List Write → (stop : UInt64) → Prop
  | rest {start : UInt64} {pad : Nat} : pad ≤ 3 → Tiles start [] (start + UInt64.ofNat pad)
  | write {start stop : UInt64} {pad : Nat} {bytes : List Byte} {writes : List Write} : pad ≤ 3 →
      Tiles (start + UInt64.ofNat pad + UInt64.ofNat bytes.length) writes stop →
        Tiles start (⟨start + UInt64.ofNat pad, bytes⟩ :: writes) stop

namespace Placement

/-- To align twice is to align once. -/
theorem align_align (s : Placement) : s.align.align = s.align :=
  align_of_mod s.align_logical_mod

/-- The placement has been left alone or aligned. -/
def Padded (s s' : Placement) : Prop :=
  s' = s ∨ s' = s.align

theorem Padded.trans {s s' s'' : Placement} (h : s.Padded s') (h' : s'.Padded s'') :
    s.Padded s'' := by
  rcases h with rfl | rfl
  · exact h'
  · rw [Padded, align_align, or_self] at h'
    exact .inr h'

theorem Padded.exists_advance {s s' : Placement} (h : s.Padded s') :
    ∃ pad ≤ 3, s' = s.advance (UInt64.ofNat pad) := by
  rcases h with rfl | rfl
  · exact ⟨0, by decide, (congrArg Position.placement (Position.moved_zero ⟨s', 0, false⟩)).symm⟩
  · have hpad := toNat_padTo_four_lt s.logical
    exact ⟨(padTo 4 s.logical).toNat, by omega, by rw [align, UInt64.ofNat_toNat]⟩

/-- Writes made one behind the other, with alignments in between. -/
inductive Filled : Placement → List Write → Placement → Prop
  | rest {s s' : Placement} : s.Padded s' → Filled s [] s'
  | write {s s₁ s' : Placement} {writes : List Write} (bytes : List Byte) : s.Padded s₁ →
      Filled (s₁.advance (UInt64.ofNat bytes.length)) writes s' →
        Filled s (⟨s₁.writeAddress, bytes⟩ :: writes) s'

namespace Filled

variable {s s' s'' : Placement} {writes writes' : List Write}

theorem refl (s : Placement) : Filled s [] s := .rest (.inl rfl)

theorem trans (h : Filled s writes s') (h' : Filled s' writes' s'') :
    Filled s (writes ++ writes') s'' := by
  induction h with
  | rest hpad =>
    -- the padding in front of what follows becomes longer, but not longer than one alignment
    cases h' with
    | rest hpad' => exact .rest (hpad.trans hpad')
    | write bytes hpad' h' => exact .write bytes (hpad.trans hpad') h'
  | write bytes hpad _ ih => exact .write bytes hpad (ih h')

theorem options_eq (h : Filled s writes s') : s'.options = s.options := by
  induction h with
  | rest hpad => rcases hpad with rfl | rfl <;> rfl
  | write bytes hpad _ ih => rcases hpad with rfl | rfl <;> exact ih

theorem tiles (h : Filled s writes s') : Tiles s.writeAddress writes s'.writeAddress := by
  induction h with
  | rest hpad =>
    obtain ⟨pad, hle, rfl⟩ := hpad.exists_advance
    rw [writeAddress_advance]
    exact .rest hle
  | write bytes hpad _ ih =>
    obtain ⟨pad, hle, rfl⟩ := hpad.exists_advance
    rw [writeAddress_advance, writeAddress_advance] at ih
    rw [writeAddress_advance]
    exact .write hle ih

end Filled

/-- The logical address of a placement that has been moved to where it writes at `address`. -/
def logicalAt (s : Placement) (address : UInt64) : UInt64 :=
  s.logical + (address - s.writeAddress)

/-- Both addresses move together. -/
theorem logicalAt_advance (s : Placement) (count : UInt64) :
    s.logicalAt (s.advance count).writeAddress = (s.advance count).logical := by
  rw [logicalAt, writeAddress_advance, UInt64.add_comm s.writeAddress, UInt64.add_sub_cancel]
  rfl

end Placement

/-- All that the item writes are instructions. -/
def Item.laysInstructions : Item → Bool
  | statement (some (.instruction _)) | statement (some (.directive .align)) => true
  | _ => false

theorem Item.aligns_of_laysInstructions {item : Item} (h : item.laysInstructions = true) :
    item.aligns = true := by
  rcases item with _ | _ | _ | _ | _ | (d | i | _)
  case statement.some.directive =>
    cases d with
    | align => rfl
    | _ => cases h
  case statement.some.instruction => rfl
  all_goals cases h

/-- Whole words are laid out before any instruction of an item. -/
theorem Item.Emits.mod_eq_zero {item : Item} {done rest : List (List Byte)} {bytes : List Byte}
    (h : item.Emits (done ++ bytes :: rest)) (hitem : item.laysInstructions = true) :
    done.flatten.length % 4 = 0 := by
  rcases item with _ | _ | _ | _ | _ | (d | i | _)
  case statement.some.instruction =>
    obtain ⟨word, h⟩ := h
    rcases List.append_eq_singleton_iff.mp h with ⟨rfl, -⟩ | ⟨-, hnil⟩
    · rfl
    · cases hnil
  case statement.some.directive =>
    cases d with
    | align =>
      obtain ⟨count, -, h⟩ := h
      obtain ⟨-, hdone, -⟩ := List.append_eq_replicate_iff.mp h
      rw [hdone, Block.length_flatten_noOperations]
      exact Nat.mul_mod_left _ 4
    | _ => cases hitem
  all_goals cases hitem

/-- From where an item is aligned on, every fourth byte is at a word. -/
theorem Item.logicalAt_placed_mod {item : Item} (hitem : item.aligns = true) (p : Position)
    {count : Nat} (hcount : count % 4 = 0) :
    (p.placement.logicalAt ((item.placed p.settled).placement.writeAddress +
      UInt64.ofNat count)).toNat % 4 = 0 := by
  have hmod := p.placement.align_logical_mod
  rw [placed_placement, if_pos hitem, ← Placement.writeAddress_advance]
  have hlogical : p.placement.logicalAt
      (p.placement.align.advance (UInt64.ofNat count)).writeAddress =
        p.placement.align.logical + UInt64.ofNat count := by
    have hadvance : p.placement.align.advance (UInt64.ofNat count) =
        p.placement.advance (Placement.padTo 4 p.placement.logical + UInt64.ofNat count) :=
      p.placement.advance_advance _ _
    rw [hadvance, Placement.logicalAt_advance, ← hadvance]
    rfl
  rw [hlogical, UInt64.toNat_add, UInt64.toNat_ofNat']
  omega

namespace Block

variable {env : Environment σ Slot}

/-! ## Actions -/

/-- Both addresses of the placement have moved by one amount. -/
def Together (b b' : Block σ Slot) : Prop :=
  ∃ count options, b'.placement = (b.placement.advance count).withOptions options

instance : IsPreorder (Block σ Slot) Together where
  refl b := ⟨0, b.placement.options, by
    simp only [Placement.advance, UInt64.add_zero, Placement.withOptions]⟩
  trans := by
    rintro b b' b'' ⟨count, options, h⟩ ⟨count', options', h'⟩
    refine ⟨count + count', options', ?_⟩
    rw [h', h]
    simp only [Placement.advance, Placement.withOptions, UInt64.add_assoc]

theorem Together.of_eq {b b' : Block σ Slot} (h : b'.placement = b.placement) : Together b b' := by
  obtain ⟨count, options, hrefl⟩ : Together b b := Std.Refl.refl b
  exact ⟨count, options, h.trans hrefl⟩

/-- Whatever an action does, both addresses of the placement move together. -/
theorem closed_together (env : Environment σ Slot) : Closed env (fun _ _ => True) Together where
  moves := env.moves_trivially
  consult _ _ _ _ _ := .of_eq rfl
  note _ _ _ _ _ _ _ := .of_eq rfl
  align b := ⟨_, b.placement.options, rfl⟩
  emit bytes := by
    refine .get_bind fun _ => Reaches.bind ?_ fun _ b => .modify ⟨_, b.placement.options, rfl⟩
    rw [request_eq_within]
    exact fun b => .within (.of_forall (fun _ _ => .of_eq rfl) fun _ _ => .of_eq rfl)

/-- The bytes written since `b` fill what lies between the two placements. -/
def Fills (b b' : Block (Traced σ Slot) Slot) : Prop :=
  ∃ writes, b'.state.state.writes = b.state.state.writes ++ writes ∧
    b.placement.Filled writes b'.placement

instance : IsPreorder (Block (Traced σ Slot) Slot) Fills where
  refl b := ⟨[], (List.append_nil _).symm, .refl b.placement⟩
  trans := by
    rintro b b' b'' ⟨writes, hwrites, h⟩ ⟨writes', hwrites', h'⟩
    exact ⟨writes ++ writes', by rw [hwrites', hwrites, List.append_assoc], h.trans h'⟩

/-- No more has been written. -/
def SameWrites (w w' : Traced σ Slot) : Prop :=
  w'.state.writes = w.state.writes

instance : IsPreorder (Traced σ Slot) SameWrites where
  refl _ := rfl
  trans _ _ _ h h' := Eq.trans h' h

theorem Fills.of_same {b b' : Block (Traced σ Slot) Slot}
    (hstate : SameWrites b.state b'.state) (hplacement : b.placement.Padded b'.placement) :
    Fills b b' :=
  ⟨[], by rw [List.append_nil, hstate], .rest hplacement⟩

theorem moves_sameWrites (env : Environment σ Slot) :
    env.accepting.recorded.Moves SameWrites where
  evaluate _ _ := .within (.within (.of_forall (fun _ _ => rfl) fun _ _ => rfl))
  slot _ := .within (.within (.of_forall (fun _ _ => rfl) fun _ _ => rfl))
  store _ _ _ := .within (.within (.of_forall (fun _ _ => rfl) fun _ _ => rfl))
  flush _ _ _ := rfl
  listing _ _ := rfl

theorem closed_fills (env : Environment σ Slot) :
    Closed env.accepting.recorded SameWrites Fills where
  moves := moves_sameWrites env
  consult _ _ _ _ h := .of_same h (.inl rfl)
  note _ _ _ _ _ _ _ := .of_same rfl (.inl rfl)
  align _ := .of_same rfl (.inr rfl)
  emit bytes b := by
    refine .get_bind (Leads.bind (Q := fun _ b' => b'.placement = b.placement ∧
      b'.state.state.writes = b.state.state.writes ++ [⟨b.placement.writeAddress, bytes⟩]) ?_
      fun _ b' h => .modify ?_)
    · rw [request_eq_within]
      exact .within (.within ((env.leads_write_accepting _ bytes _).mono (fun _ _ h => ⟨rfl, h⟩)
        fun _ _ h => .of_same h (.inl rfl)))
    · refine ⟨_, h.2, .write bytes (.inl rfl) ?_⟩
      rw [← h.1]
      exact .refl _

variable [DecidableEq Slot]

/-! ## Runs -/

/-- Where a block is when it has dealt with up to `n` items, or one of them has failed. -/
def reached (env : Environment σ Slot) (n : Nat) (b : Block σ Slot) : Block σ Slot :=
  match steps env n b with
  | .ok _ b' | .error _ b' => b'

theorem Leads.reached {n : Nat} {b : Block σ Slot} {P : Block σ Slot → Prop}
    (h : Leads (steps env n) b (fun _ => P) (fun _ => P)) : P (reached env n b) := by
  rw [Block.reached]
  rcases hsteps : steps env n b with ⟨next, b'⟩ | ⟨failure, b'⟩
  · exact h.of_eq_ok hsteps
  · exact h.of_eq_error hsteps

/-- Environments that do the same reach the same placement. -/
theorem placement_reached {σ' : Type} {env' : Environment σ' Slot} {ρ : σ → σ' → Prop}
    (h : Environment.Corresponds Eq ρ env env') {b : Block σ Slot} {b' : Block σ' Slot}
    (hb : Matches Eq ρ b b') (n : Nat) :
    (reached env n b).placement = (reached env' n b').placement := by
  have hmatches : Matches Eq ρ (reached env n b) (reached env' n b') := by
    rw [reached, reached]
    rcases (alike_steps h n).cases hb with ⟨a, c, c', hc, hc', hcc⟩ | ⟨e, c, c', hc, hc', hcc⟩
    · rw [hc, hc']
      exact hcc
    · rw [hc, hc']
      exact hcc
  obtain ⟨hlogical, hphysical, hlimit, hoptions⟩ := hmatches.placement
  rw [Placement.mk.injEq]
  exact ⟨hlogical, hphysical, hlimit, hoptions⟩

/-- Both addresses of the placement move together, however far a block gets. -/
theorem together_reached (n : Nat) (b : Block σ Slot) : b.Together (reached env n b) :=
  Leads.reached ((closed_together env).reaches_steps (fun b o =>
    ⟨0, o, by simp only [Placement.advance, UInt64.add_zero]⟩) n b)

/-- The bytes written since `b` fill what lies between the two placements, up to the options. -/
def FillsUp (b b' : Block (Traced σ Slot) Slot) : Prop :=
  ∃ c options, b.Fills c ∧ b' = { c with placement := c.placement.withOptions options }

/-- While no options are set, what a block writes fills what lies between the placements. -/
theorem leads_steps_fills (n : Nat) (b : Block (Traced σ Slot) Slot)
    (h : ∀ e ∈ historyOfSteps env.accepting n b,
      e.item ≠ .statement (some (.directive .options))) :
    Leads (steps env.accepting.recorded n) b (fun _ => FillsUp b) (fun _ => FillsUp b) := by
  have hsame {b b' : Block (Traced σ Slot) Slot} (h : b.Fills b') : b.FillsUp b' :=
    ⟨b', b'.placement.options, h, rfl⟩
  induction n generalizing b with
  | zero => exact .pure (hsame (Std.Refl.refl b))
  | succ n ih =>
    rw [historyOfSteps] at h
    have hstep (hitem : b.upcoming ≠ .statement (some (.directive .options))) :
        Leads (step env.accepting.recorded) b _ _ :=
      (closed_fills env).leads_step b fun heq => absurd heq hitem
    rw [Leads, steps]
    rcases hb : step env.accepting.recorded b with ⟨_ | _, b'⟩ | ⟨failure, b'⟩ <;> rw [hb] at h
    · obtain ⟨hitem, hrest⟩ := List.forall_mem_cons.mp h
      rw [bind_of_ok hb]
      rcases (hstep hitem).of_eq_ok hb with ⟨-, hfills⟩ | ⟨hstop, -⟩
      · -- what the other items write comes behind what this one has written
        refine (ih b' hrest).mono (fun _ b'' h' => ?_) fun _ b'' h' => ?_ <;>
        · obtain ⟨c, options, hc, rfl⟩ := h'
          exact ⟨c, options, IsTrans.trans _ _ _ hfills hc, rfl⟩
      · cases hstop
    · rw [bind_of_ok hb]
      rcases (hstep (h _ (List.mem_singleton_self _))).of_eq_ok hb with ⟨hmore, -⟩ | ⟨-, c, hc, rfl⟩
      · cases hmore
      · exact ⟨c, .standard, hc, rfl⟩
    · rw [bind_of_error hb]
      exact hsame ((hstep (h _ (List.mem_singleton_self _))).of_eq_error hb)

/-- An item that was dealt with has had one of its effects, or was not looked at. -/
theorem cases_of_mem_historyOfSteps {n : Nat} {b : Block (Recorded σ Slot) Slot} {e : Entry Slot}
    (he : e ∈ historyOfSteps env n b) : Effect e.item e.before e.calls e.after ∨
      Failing e.item e.before e.calls e.after ∨ e.calls = [] := by
  induction n generalizing b with
  | zero => cases he
  | succ n ih =>
    have hstep : Leads (step env.recorded) b _ _ := leads_step_effect b
    rw [historyOfSteps] at he
    have hdone {next : Next} {b' : Block (Recorded σ Slot) Slot}
        (hb : step env.recorded b = .ok next b') :
        Effect (entry b b').item (entry b b').before (entry b b').calls (entry b b').after := by
      obtain ⟨-, ⟨calls, p, heffect, hafter⟩, -⟩ := hstep.of_eq_ok hb
      rwa [entry_of_after hafter]
    -- the entry is that of the first step, whatever came of it, or of a later one
    rcases hb : step env.recorded b with ⟨_ | _, b'⟩ | ⟨failure, b'⟩ <;> rw [hb] at he
    · rcases List.mem_cons.mp he with rfl | he
      · exact .inl (hdone hb)
      · exact ih he
    · rw [List.mem_singleton.mp he]
      exact .inl (hdone hb)
    · rw [List.mem_singleton.mp he]
      rcases hstep.of_eq_error hb with ⟨-, calls, p, hfailing, hafter⟩ | ⟨-, hafter, -⟩
      · rw [entry_of_after hafter]
        exact .inr (.inl hfailing)
      · rw [entry_of_after hafter]
        exact .inr (.inr rfl)

/-- A block goes through the same places in an environment in which no write is refused. -/
theorem placement_reached_accepting (env : Environment σ Slot) (placement : Placement) (state : σ)
    (cursor : Cursor) (n : Nat) :
    (reached env n (.ofPlacement placement state cursor.skipBlanks)).placement =
      (reached env.accepting.recorded n (opening placement ⟨state, []⟩ cursor)).placement := by
  have hrecorded : Matches Eq (fun w state => w.state = state)
      (opening placement ⟨state, []⟩ cursor : Block (Traced σ Slot) Slot)
      (ofPlacement placement ⟨state, []⟩ cursor.skipBlanks) :=
    ⟨⟨rfl, rfl, rfl, rfl⟩, rfl, rfl, rfl, rfl, rfl, rfl, rfl⟩
  have haccepting : Matches Eq (fun w state => w.state = state)
      (ofPlacement placement ⟨state, []⟩ cursor.skipBlanks : Block (Accepted σ) Slot)
      (ofPlacement placement state cursor.skipBlanks) :=
    ⟨⟨rfl, rfl, rfl, rfl⟩, rfl, rfl, rfl, rfl, rfl, rfl, rfl⟩
  rw [placement_reached env.accepting.recorded_corresponds hrecorded,
    placement_reached env.accepting_corresponds haccepting]

/-- Where instructions are laid, each write is at a multiple of four, refused or not. -/
theorem logicalAt_mod_of_write {n : Nat} {b : Block (Recorded σ Slot) Slot} {e : Entry Slot}
    (he : e ∈ historyOfSteps env n b) (hitem : e.item.laysInstructions = true) {address : UInt64}
    {bytes : List Byte} (hwrite : .write address bytes ∈ e.calls) :
    (e.before.placement.logicalAt address).toNat % 4 = 0 := by
  -- what is written is one of the pieces that the item emits, behind those before it
  obtain ⟨done, rest, hemits, rfl⟩ : ∃ done rest, e.item.Emits (done ++ bytes :: rest) ∧
      address = (e.item.placed e.before.settled).placement.writeAddress +
        UInt64.ofNat done.flatten.length := by
    rcases cases_of_mem_historyOfSteps he with heffect | hfailing | hnone
    · obtain ⟨done, rest, hemits, haddress, -⟩ := heffect.write_of_mem hwrite
      exact ⟨done, rest, hemits, haddress⟩
    · exact hfailing.write_of_mem hwrite
    · rw [hnone] at hwrite
      cases hwrite
  exact e.item.logicalAt_placed_mod (Item.aligns_of_laysInstructions hitem) e.before
    (hemits.mod_eq_zero hitem)

/-- Up to any item of a block, whether it succeeds or fails, both addresses have moved together and
the limit has not moved. Unless options are set, the writes that were not refused follow each other
from the address where bytes are written at the start up to the one where the next byte goes, with
no more than three bytes left out at a time. Instructions are written at a multiple of four, whether
they are refused or not. -/
theorem writes_tile (env : Environment σ Slot) (placement : Placement) (state : σ)
    (cursor : Cursor) (n : Nat) :
    let start : Block (Traced σ Slot) Slot := opening placement ⟨state, []⟩ cursor
    let b := reached env.accepting.recorded n start
    (reached env n (.ofPlacement placement state cursor.skipBlanks)).placement = b.placement ∧
    (∃ count options, b.placement = (placement.advance count).withOptions options) ∧
    ((∀ e ∈ historyOfSteps env.accepting n start,
        e.item ≠ .statement (some (.directive .options))) →
      Tiles placement.writeAddress b.state.state.writes
        (b.placement.withOptions placement.options).writeAddress) ∧
    ∀ e ∈ historyOfSteps env.accepting n start, e.item.laysInstructions = true →
      ∀ address bytes, .write address bytes ∈ e.calls →
        (e.before.placement.logicalAt address).toNat % 4 = 0 := by
  intro start b
  refine ⟨placement_reached_accepting env placement state cursor n, together_reached n start,
    fun hoptions => ?_,
    fun e he hitem address bytes hwrite => logicalAt_mod_of_write he hitem hwrite⟩
  · -- the closing bracket restores the options, which moves neither address
    obtain ⟨c, options, ⟨writes, hwrites, hfilled⟩, hc⟩ :=
      Leads.reached (leads_steps_fills n start hoptions)
    have hb : b = { c with placement := c.placement.withOptions options } := hc
    have hplacement : b.placement.withOptions placement.options = c.placement := by
      have heq : c.placement.options = placement.options := hfilled.options_eq
      rw [hb, ← heq]
      rfl
    have hlog : b.state.state.writes = writes := by rw [hb]; exact hwrites
    rw [hplacement, hlog]
    exact hfilled.tiles

/-- A byte and an instruction that are written apart from where they are placed, and an unknown
mnemonic behind them. -/
theorem writes_tile_offset :
    let placement : Placement :=
      ((Placement.ofOrigin 0x1001).withPhysical 0x8000).withOptions (.ofInt 4)
    (∀ e ∈ historyOfSteps Machine.environment.accepting 9
        (opening placement ⟨.ofBase 0x8000, []⟩ (.ofString "EQUB 1:NOP:FOO")),
      e.item ≠ .statement (some (.directive .options))) ∧
    Tiles 0x8000 [⟨0x8000, [1]⟩, ⟨0x8003, [0x1f, 0x20, 0x03, 0xd5]⟩] 0x8007 := by
  intro placement
  have hitems : ∀ e ∈ historyOfSteps Machine.environment.accepting 9
      (opening placement ⟨.ofBase 0x8000, []⟩ (.ofString "EQUB 1:NOP:FOO")),
      e.item ≠ .statement (some (.directive .options)) := by
    decide +kernel
  have hend : (reached Machine.environment.accepting.recorded 9
        (opening placement ⟨.ofBase 0x8000, []⟩ (.ofString "EQUB 1:NOP:FOO"))).state.state.writes =
          [⟨0x8000, [1]⟩, ⟨0x8003, [0x1f, 0x20, 0x03, 0xd5]⟩] ∧
      ((reached Machine.environment.accepting.recorded 9
        (opening placement ⟨.ofBase 0x8000, []⟩ (.ofString "EQUB 1:NOP:FOO"))).placement.withOptions
          placement.options).writeAddress = 0x8007 := by
    decide +kernel
  have htiles := (writes_tile Machine.environment placement (.ofBase 0x8000)
    (.ofString "EQUB 1:NOP:FOO") 9).2.2.1 hitems
  rw [hend.1, hend.2] at htiles
  exact ⟨hitems, htiles⟩

end Block

end InlineA64
