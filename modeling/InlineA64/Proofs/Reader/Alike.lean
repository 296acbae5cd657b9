import InlineA64.Proofs.Environment
import InlineA64.Proofs.Reader.Agree

/-!
# Readers in environments that do the same

A run of a reader has one outcome in any two environments whose services do the same
(`Reader.alike_run`).
-/

namespace InlineA64

open Environment (Corresponds)

variable {σ σ' Slot α β : Type} {κ : Options → Options → Prop} {ρ : σ → σ' → Prop}
  {env : Environment σ Slot} {env' : Environment σ' Slot} {c c' : Context} {r : Reading σ}
  {r' : Reading σ'}

namespace Reading

theorem SamePlace.failure (h : SamePlace ρ r r') (fault : Fault) (at? : Option Mark) :
    r.failure fault at? = r'.failure fault at? := by
  rw [Reading.failure, Reading.failure, h.cursor, h.marks]

theorem alike_step (f : Cursor → α × Cursor) : Alike (SamePlace ρ) (step f) (step f) := by
  intro r r' h
  rw [step, step, h.cursor]
  exact ⟨rfl, { h with cursor := rfl }⟩

theorem alike_scan (f : Cursor.Scan α) : Alike (SamePlace ρ) (scan f) (scan f) := by
  rw [scan_eq_within, scan_eq_within]
  exact (Alike.refl f).within (fun _ _ h => h.cursor) fun _ _ _ _ h hs => { h with cursor := hs }

theorem alike_consult {f : EStateM Failure (Cursor × σ) α}
    {g : EStateM Failure (Cursor × σ') α} (h : Alike (SameText ρ) f g) :
    Alike (SamePlace ρ) (consult f) (consult g) := by
  rw [consult_eq_within, consult_eq_within]
  refine h.within (fun _ _ hr => ⟨hr.cursor, hr.state⟩) fun r r' p p' hr hp => ?_
  exact { hr with cursor := by simp only [hr.cursor, hp.1], state := hp.2 }

end Reading

theorem Request.alike_answer (h : Corresponds κ ρ env env') (hc : c.Similar κ c')
    (mnemonic : String) (q : Request β) :
    Alike (Reading.SamePlace ρ) (q.answer ⟨env, c, mnemonic⟩) (q.answer ⟨env', c', mnemonic⟩) := by
  obtain ⟨hcheck, -, -⟩ := Options.unlisted_eq_unlisted.mp (h.unlisted hc.options)
  have hinteger : Alike (Reading.SamePlace ρ) (Surroundings.integer ⟨env, c, mnemonic⟩)
      (Surroundings.integer ⟨env', c', mnemonic⟩) :=
    (Reading.alike_step _).bind fun _ => Reading.alike_consult (h.evaluateAs _ hc)
  cases q with
  | mark =>
    intro r r' hr
    exact ⟨by rw [hr.marks], { hr with marks := by simp only [hr.marks, hr.cursor] }⟩
  | sees | accept | acceptJoined | atBlank | atEnd | seesPostIndex | keyword | wholeWord =>
    rw [Request.answer, Request.answer]
    exact Reading.alike_step _
  | closeBracket | systemRegister | register =>
    rw [Request.answer, Request.answer]
    exact Reading.alike_scan _
  | value => exact hinteger
  | distance | pageDistance =>
    rw [Request.answer, Request.answer, hc.logical]
    exact hinteger.bind fun _ => .pure _
  | reach inReach fault at? =>
    intro r r' hr
    rw [Request.answer, Request.answer]
    dsimp only
    -- whether reach is checked is an option, and the options agree
    rw [hcheck]
    by_cases hfar : (c'.options.rangeCheck && !inReach) = true
    · rw [if_pos hfar, if_pos hfar]
      exact ⟨hr.failure _ _, hr⟩
    · rw [if_neg hfar, if_neg hfar]
      exact ⟨rfl, hr⟩

/-- A reader does the same in environments that do the same. -/
theorem Reader.alike_run (h : Corresponds κ ρ env env') (hc : c.Similar κ c')
    (mnemonic : String) (x : Reader α) :
    Alike (Reading.SamePlace ρ) (x.run ⟨env, c, mnemonic⟩) (x.run ⟨env', c', mnemonic⟩) := by
  induction x with
  | done a => exact .pure a
  | fail fault at? => exact fun r r' hr => ⟨hr.failure fault at?, hr⟩
  | ask q next ih => exact (q.alike_answer h hc mnemonic).bind ih

end InlineA64
