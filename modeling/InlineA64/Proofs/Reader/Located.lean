import InlineA64.Proofs.Located
import InlineA64.Proofs.Reader.Onward

/-!
# Where readers fail

An operand that cannot be read is pointed at (`Reader.locates_run`): failures are noted at the
cursor or at positions that the cursor has passed since the reader started. This holds if the
expressions of the environment point at what has been read of them, too.
-/

namespace InlineA64

open Cursor (Scan)

variable {σ Slot α β : Type} {origin : Cursor}

/-! ## Readers of text -/

namespace SystemRegister

theorem locates_read : Locates origin read := by
  refine (Locates.modifyGet fun s => s.onward_wholeWord? named).bind fun found => ?_
  split
  · exact .pure _
  · -- an attempt at numbers may have moved on, and is noted where it started
    refine Locates.get_bind_here fun s => (Locates.modifyGet numeric_proceeds).bind fun found => ?_
    split
    · exact .pure _
    · exact Locates.failAt s _

end SystemRegister

namespace Register

theorem locates_read : Locates origin Register.read := by
  refine (Locates.modify Cursor.onward_skipBlanks).bind fun _ => ?_
  intro s hs
  refine Leads.get_bind ?_
  split
  · next r s' h => exact hs.trans_onward (onward_of_scan? h)
  · exact Locates.fail _ s hs

theorem locates_readFor (mnemonic : String) : Locates origin (readFor mnemonic) :=
  (Locates.modify Cursor.onward_skipBlanks).bind fun _ =>
    .get_bind fun _ _ => .ite (Locates.fail _) locates_read

end Register

/-! ## Services of the environment -/

/-- A service of an environment that reads text and fails points at something that has been read. -/
abbrev ServiceLocates (x : EStateM Failure (Cursor × σ) α) : Prop :=
  ∀ origin : Cursor, Maintains (fun p => origin.ComesFrom p.1)
    (fun failure p => failure.Located origin p.1) x

theorem Environment.locates_evaluateAs {env : Environment σ Slot} {context : Context}
    (h : ServiceLocates (env.evaluate context)) (view : Value → Option α) :
    ServiceLocates (env.evaluateAs view context) := by
  intro origin p hp
  refine Leads.get_bind ?_
  -- a value of the wrong type is noted where the expression starts
  refine ((h p.1 p hp.refl_right).mono (fun _ _ hq => hq) fun _ _ hf => hf.of_comesFrom hp).bind
    fun v q hq => ?_
  split
  · exact hp.trans_onward hq.onward
  · exact (Failure.Located.of_offset hq (Nat.le_refl _) hq.pos_le _).of_comesFrom hp

/-! ## Requests -/

namespace Reading

/-- The cursor has come from another one, and so have the positions noted. -/
structure ComesFrom (origin : Cursor) (r : Reading σ) : Prop where
  cursor : origin.ComesFrom r.cursor
  marks : ∀ mark ∈ r.marks, origin.pos ≤ mark ∧ mark ≤ r.cursor.pos

namespace ComesFrom

variable {r : Reading σ}

theorem trans_onward (h : r.ComesFrom origin) {s : Cursor} (hs : r.cursor.Onward s) (state : σ) :
    ComesFrom origin { r with cursor := s, state } := by
  refine ⟨h.cursor.trans_onward hs, fun mark hmark => ?_⟩
  obtain ⟨hle, hge⟩ := h.marks mark hmark
  exact ⟨hle, Nat.le_trans hge (hs.pos_le h.cursor.refl_right.inside)⟩

theorem noted (h : r.ComesFrom origin) :
    ComesFrom origin { r with marks := r.marks ++ [r.cursor.pos] } := by
  refine ⟨h.cursor, fun mark hmark => ?_⟩
  rcases List.mem_append.mp hmark with hmark | hmark
  · exact h.marks mark hmark
  · rw [List.mem_singleton.mp hmark]
    exact ⟨h.cursor.pos_le, Nat.le_refl _⟩

/-- A fault is noted at a position that has been passed, or at the cursor. -/
theorem located (h : r.ComesFrom origin) (fault : Fault) (at? : Option Mark) :
    (r.failure fault at?).Located origin r.cursor := by
  have hcursor := h.cursor.pos_le
  rw [failure]
  rcases hnoted : at?.bind fun mark => r.marks[mark.index]? with _ | offset
  · exact .of_offset h.cursor hcursor (Nat.le_refl _) fault
  · obtain ⟨mark, -, hmark⟩ := Option.bind_eq_some_iff.mp hnoted
    obtain ⟨hle, hge⟩ := h.marks offset (List.mem_of_getElem? hmark)
    exact .of_offset h.cursor hle hge fault

end ComesFrom

/-- A step of a reader that fails points at something that has been read since the reader
started. -/
abbrev Locates (origin : Cursor) (x : EStateM Failure (Reading σ) α) : Prop :=
  Maintains (ComesFrom origin) (fun failure r => failure.Located origin r.cursor) x

theorem locates_step {f : Cursor → α × Cursor} (hf : ∀ s : Cursor, s.Onward (f s).2) :
    Locates origin (step f : EStateM Failure (Reading σ) α) := fun r hr =>
  hr.trans_onward (hf r.cursor) r.state

theorem locates_scan {f : Scan α} (hf : ∀ origin, InlineA64.Locates origin f) :
    Locates origin (scan f : EStateM Failure (Reading σ) α) := by
  rw [scan_eq_within]
  intro r hr
  exact .within ((hf r.cursor r.cursor hr.cursor.refl_right).mono
    (fun _ _ hs => hr.trans_onward hs.onward r.state) fun _ _ h => h.of_comesFrom hr.cursor)

theorem locates_consult {f : EStateM Failure (Cursor × σ) α} (hf : ServiceLocates f) :
    Locates origin (consult f) := by
  rw [consult_eq_within]
  intro r hr
  -- the service starts at the cursor, so it is looked at as coming from there
  refine .within ((hf r.cursor (r.cursor, r.state) hr.cursor.refl_right).mono
    (fun _ p hp => ?_) fun _ p hp => ?_)
  · rw [hp.advanceTo_pos]
    exact hr.trans_onward hp.onward p.2
  · rw [hp.comesFrom.advanceTo_pos]
    exact hp.of_comesFrom hr.cursor

end Reading

variable {env : Environment σ Slot} {context : Context}

theorem Request.locates_answer (h : ServiceLocates (env.evaluate context)) (mnemonic : String)
    (q : Request β) : Reading.Locates origin (q.answer ⟨env, context, mnemonic⟩) := by
  have hinteger : Reading.Locates origin (Surroundings.integer ⟨env, context, mnemonic⟩) :=
    (Reading.locates_step Cursor.onward_skipBlanks).bind fun _ =>
      Reading.locates_consult (Environment.locates_evaluateAs h Value.toInt?)
  have hlook (look : Cursor → Bool) :
      Reading.Locates origin (Reading.step (Cursor.look look) : EStateM Failure (Reading σ) Bool) :=
    Reading.locates_step fun s => s.onward_skipBlanks
  cases q with
  | mark => exact fun r hr => hr.noted
  | sees p => exact hlook fun s => p.matchesByte s.peek
  | atEnd => exact hlook Cursor.atEnd
  | seesPostIndex => exact hlook Cursor.atPostIndex
  | accept p =>
    exact Reading.locates_step fun s => s.onward_skipBlanks.trans (p.onward_take s.skipBlanks)
  | acceptJoined p => exact Reading.locates_step p.onward_take
  | atBlank => exact fun r hr => hr
  | closeBracket => exact Reading.locates_scan fun _ => Locates.expect (by decide) _
  | keyword v => exact Reading.locates_step fun s => s.onward_keyword? v.entries
  | wholeWord v => exact Reading.locates_step fun s => s.onward_wholeWord? v.entries
  | register => exact Reading.locates_scan fun _ => Register.locates_readFor mnemonic
  | systemRegister => exact Reading.locates_scan fun _ => SystemRegister.locates_read
  | value => exact hinteger
  | distance | pageDistance => exact hinteger.bind fun _ => .pure _
  | reach inReach fault at? =>
    -- a distance out of reach is noted at a position that was noted for it
    intro r hr
    rw [Leads, Request.answer]
    dsimp only
    by_cases hfar : (context.options.rangeCheck && !inReach) = true
    · rw [if_pos hfar]
      exact hr.located fault (some at?)
    · rw [if_neg hfar]
      exact hr

/-- A reader that fails points at something that has been read since it started. -/
theorem Reader.locates_run (h : ServiceLocates (env.evaluate context)) (mnemonic : String)
    (x : Reader α) : Reading.Locates origin (x.run ⟨env, context, mnemonic⟩) := by
  -- a reader is a tree, so the induction is on it, with one request for each of its nodes
  induction x with
  | done a => exact .pure a
  | fail fault at? => exact fun r hr => hr.located fault at?
  | ask q next ih => exact (q.locates_answer h mnemonic).bind ih

end InlineA64
