import InlineA64.Proofs.Embeds.Expression
import InlineA64.Proofs.Embeds.Register
import InlineA64.Proofs.Reader.Evaluation

/-!
# Readers inside a longer text

A reader that reads operands in a text reads them wherever the text is part of a longer one, and
yields the same, provided that each expression it has evaluated has a value there that comes to the
same for its purpose (`Reader.tracks_run`).
-/

namespace InlineA64

open Cursor (Embeds)
open Machine (environment)

variable {before behind : Array Byte} {scope : Expression.Scope} {α β : Type}

/-- Where a text is inside a longer one, the expression has a value there as well, which comes to
the same for its purpose, and takes the same bytes. -/
def Evaluation.Carries (before behind : Array Byte) (e : Evaluation) (scope : Expression.Scope) :
    Prop :=
  ∀ s, Embeds before behind e.cursor s →
    Tracks (Expression.read e.scope) e.cursor (Expression.read scope) s fun v t v' t' =>
      e.purpose.Agrees e.scope.context scope.context v v' ∧ Embeds before behind t t' ∧
        e.cursor.Onward t

/-- An expression carries over where the names stand for the same, and for more. -/
theorem Evaluation.carries_of_value? {e : Evaluation} {scope : Expression.Scope}
    (hlogical : e.scope.context.logical = scope.context.logical)
    (hvalue : ∀ name v, e.scope.value? name = some v → scope.value? name = some v) :
    e.Carries before behind scope := fun _ h =>
  (Expression.takes_readIn hvalue h).mono fun v _ _ _ ⟨hv, ht, honward⟩ =>
    ⟨hv ▸ e.purpose.agrees_self hlogical v, ht, honward⟩

/-- An expression carries over where it has a value in what both scopes agree on. -/
theorem Evaluation.carries_of_readsIn {e : Evaluation} {value? : Name → Option Value}
    (hreads : e.readsIn value? = true)
    (hagrees : ∀ v, e.purpose.Agrees e.scope.context scope.context v v)
    (hvalue : ∀ name v, value? name = some v → e.scope.value? name = some v)
    (hvalue' : ∀ name v, value? name = some v → scope.value? name = some v) :
    e.Carries before behind scope := by
  intro s h v t hv
  obtain ⟨u, t₀, hu⟩ := Evaluation.readsIn_eq_true.mp hreads
  -- what is read in the first scope is what is read without it
  obtain ⟨u₁, t₁, hread, hu₁, ht₁, -⟩ :=
    Expression.takes_readIn hvalue (Cursor.embeds_self h.inside) hu
  rw [Expression.read, hread] at hv
  cases hv
  obtain ⟨u', t', hread', hu', ht', honward⟩ := Expression.takes_readIn hvalue' h hu
  subst hu₁ hu'
  obtain rfl := ht₁.eq
  exact ⟨u, t', hread', hagrees u, ht', honward⟩

namespace Machine

variable {w w' : Machine} {e : Evaluation} {context context' : Context} {s s' : Cursor}

theorem tracks_evaluate (hscope : e.scope = ⟨context, w.vars⟩)
    (hcarries : e.Carries before behind ⟨context', w'.vars⟩)
    (h : Embeds before behind e.cursor s') :
    Tracks (environment.evaluate context) (e.cursor, w) (environment.evaluate context') (s', w')
      fun v p v' p' => e.purpose.Agrees context context' v v' ∧ Embeds before behind p.1 p'.1 ∧
        e.cursor.Onward p.1 ∧ p.2 = w ∧ p'.2 = w' := by
  intro v p hv
  obtain ⟨hread, hw⟩ := evaluate_eq_ok.mp hv
  rw [← hscope] at hread
  obtain ⟨v', t', hread', hagrees, ht, honward⟩ := hcarries s' h hread
  rw [hscope] at hagrees
  exact ⟨v', (t', w'), evaluate_eq_ok.mpr ⟨hread', rfl⟩, hagrees, ht, honward, hw, rfl⟩

theorem tracks_evaluateInt (hscope : e.scope = ⟨context, w.vars⟩)
    (hcarries : e.Carries before behind ⟨context', w'.vars⟩)
    (h : Embeds before behind e.cursor s') :
    Tracks (environment.evaluateInt context) (e.cursor, w) (environment.evaluateInt context')
      (s', w') fun n p n' p' => e.purpose.measure context n = e.purpose.measure context' n' ∧
        Embeds before behind p.1 p'.1 ∧ e.cursor.Onward p.1 ∧ p.2 = w ∧ p'.2 = w' := by
  intro n p hn
  obtain ⟨v, hv, hn⟩ := Environment.evaluateAs_eq_ok.mp hn
  obtain ⟨v', p', hv', hagrees, hrest⟩ := tracks_evaluate hscope hcarries h hv
  obtain ⟨n', hn', hmeasure⟩ := hagrees.exists_toInt? hn
  exact ⟨n', p', Environment.evaluateAs_eq_ok.mpr ⟨v', hv', hn'⟩, hmeasure, hrest⟩

end Machine

namespace Cursor.Embeds

variable {s s' : Cursor}

/-- No punctuation ends a statement, so the longer text has it where the shorter one has it. -/
theorem matchesByte (p : Punctuation) (h : Embeds before behind s s') :
    p.matchesByte s'.peek = p.matchesByte s.peek :=
  h.test_peek (f := p.matchesByte) (by cases p <;> decide)

theorem advance_of_matchesByte {p : Punctuation} (hmatches : p.matchesByte s.peek = true)
    (h : Embeds before behind s s') : Embeds before behind (s.advance 1) (s'.advance 1) := by
  refine h.advance_one fun hpeek => ?_
  rw [hpeek] at hmatches
  cases p <;> cases hmatches

theorem take (p : Punctuation) (h : Embeds before behind s s') :
    (p.take s').1 = (p.take s).1 ∧ Embeds before behind (p.take s).2 (p.take s').2 := by
  rw [Punctuation.take, Punctuation.take, h.matchesByte p]
  split
  · next hmatches => exact ⟨rfl, h.advance_of_matchesByte hmatches⟩
  · exact ⟨rfl, h⟩

theorem atPostIndex (h : Embeds before behind s s') : s'.atPostIndex = s.atPostIndex := by
  rw [Cursor.atPostIndex, Cursor.atPostIndex, h.matchesByte .comma]
  by_cases hcomma : Punctuation.comma.matchesByte s.peek
  · rw [(h.advance_of_matchesByte hcomma).skipBlanks.matchesByte .hash]
  · rw [Bool.not_eq_true] at hcomma
    rw [hcomma, Bool.false_and, Bool.false_and]

end Cursor.Embeds

/-- Two readings are at one place, in a text and in a longer one around it, with so many positions
noted on both sides; the machines are `w` and `w'`. -/
structure Reading.Beside (before behind : Array Byte) (w w' : Machine) (r r' : Reading Machine) :
    Prop where
  cursor : Embeds before behind r.cursor r'.cursor
  marks : r.marks.length = r'.marks.length
  left : r.state = w
  right : r'.state = w'

variable {w w' : Machine} {r r' : Reading Machine} {context context' : Context} {mnemonic : String}

namespace Reading

theorem tracks_step {f : Cursor → α × Cursor} (h : Beside before behind w w' r r')
    (hf : (f r'.cursor).1 = (f r.cursor).1 ∧
      Embeds before behind (f r.cursor).2 (f r'.cursor).2) :
    Tracks (step f) r (step f) r' fun a r b r' => a = b ∧ Beside before behind w w' r r' :=
  .of_eq_ok (step_eq_ok.mpr ⟨_, rfl, rfl⟩) (step_eq_ok.mpr ⟨_, rfl, rfl⟩)
    ⟨hf.1.symm, { h with cursor := hf.2 }⟩

theorem tracks_scan {f : Cursor.Scan α} (h : Beside before behind w w' r r')
    (hf : Tracks f r.cursor f r'.cursor fun a t b t' => a = b ∧ Embeds before behind t t') :
    Tracks (scan f) r (scan f) r' fun a r b r' => a = b ∧ Beside before behind w w' r r' := by
  rw [scan_eq_within]
  exact .within (hf.mono fun _ _ _ _ ⟨hab, ht⟩ => ⟨hab, { h with cursor := ht }⟩)

/-- The value of an expression that is asked for comes to the same for its purpose. -/
theorem tracks_integer {purpose : Purpose} (h : r.Beside before behind w w' r')
    (hcarries : Evaluation.Carries before behind ⟨purpose, ⟨context, w.vars⟩, r.cursor.skipBlanks⟩
      ⟨context', w'.vars⟩) :
    Tracks (Surroundings.integer ⟨environment, context, mnemonic⟩) r
      (Surroundings.integer ⟨environment, context', mnemonic⟩) r' fun n r n' r' =>
        purpose.measure context n = purpose.measure context' n' ∧
          r.Beside before behind w w' r' := by
  have hblanks : Tracks (step fun s => ((), s.skipBlanks)) r
      (step fun s => ((), s.skipBlanks)) r'
      fun _ r₁ _ r₁' => r₁.Beside before behind w w' r₁' ∧ r₁.cursor = r.cursor.skipBlanks :=
    .of_eq_ok (step_eq_ok.mpr ⟨_, rfl, rfl⟩) (step_eq_ok.mpr ⟨_, rfl, rfl⟩)
      ⟨{ h with cursor := h.cursor.skipBlanks }, rfl⟩
  refine hblanks.bind fun _ r₁ _ r₁' ⟨hr, hcursor⟩ => ?_
  rw [← hcursor] at hcarries
  rw [consult_eq_within, consult_eq_within]
  refine .within ?_
  rw [hr.left, hr.right]
  refine (Machine.tracks_evaluateInt rfl hcarries hr.cursor).mono
    fun n p n' p' ⟨hmeasure, hp, honward, hw, hw'⟩ => ⟨hmeasure, ?_⟩
  exact ⟨hr.cursor.advanceTo hp honward.text, hr.marks, hw, hw'⟩

end Reading

theorem plainWords_entries (v : Vocabulary β) : Cursor.plainWords v.entries = true := by
  cases v with
  | operations kind => cases kind <;> decide
  | _ => decide

/-- A request of the text has one answer on both sides, and one for a value comes to the same. Reach
is checked in the first text if it is in the second. -/
theorem Request.tracks_answer (q : Request β)
    (hcheck : context'.options.rangeCheck = true → context.options.rangeCheck = true)
    (h : r.Beside before behind w w' r')
    (hcarries : ∀ e ∈ q.evaluation? context r, e.Carries before behind ⟨context', w'.vars⟩) :
    Tracks (q.answer ⟨environment, context, mnemonic⟩) r
      (q.answer ⟨environment, context', mnemonic⟩) r'
      fun a r b r' => a = b ∧ r.Beside before behind w w' r' := by
  have hlook {p : Cursor → Bool} (hp : ∀ {s s' : Cursor}, Embeds before behind s s' → p s' = p s) :
      Tracks (Reading.step (Cursor.look p)) r (Reading.step (Cursor.look p)) r'
        fun a r b r' => a = b ∧ r.Beside before behind w w' r' :=
    Reading.tracks_step h ⟨hp h.cursor.skipBlanks, h.cursor.skipBlanks⟩
  cases q with
  | mark =>
    rw [Request.answer, Request.answer]
    refine .of_eq_ok rfl rfl ⟨by rw [h.marks], h.cursor, ?_, h.left, h.right⟩
    simp only [List.length_append, h.marks, List.length_singleton]
  | sees p => exact hlook fun hs => hs.matchesByte p
  | accept p =>
    exact Reading.tracks_step (f := fun s => p.take s.skipBlanks) h (h.cursor.skipBlanks.take p)
  | acceptJoined p => exact Reading.tracks_step h (h.cursor.take p)
  | atBlank =>
    exact Reading.tracks_step (f := fun s => (s.peek.isBlank, s)) h
      ⟨h.cursor.test_peek (f := Byte.isBlank) (by decide), h.cursor⟩
  | atEnd => exact hlook fun hs => hs.test_peek (f := Byte.endsStatement) (by decide)
  | seesPostIndex => exact hlook fun hs => hs.atPostIndex
  | closeBracket =>
    refine Reading.tracks_scan h ((Cursor.takes_expect _ _ (by decide) h.cursor).mono ?_)
    rintro a t b t' ⟨hab, ht, -⟩
    exact ⟨hab, ht⟩
  | keyword v =>
    exact Reading.tracks_step (f := (·.keyword? v.entries)) h
      (h.cursor.keyword? (plainWords_entries v))
  | wholeWord v =>
    exact Reading.tracks_step (f := (·.wholeWord? v.entries)) h
      (h.cursor.wholeWord? (plainWords_entries v))
  | register => exact Reading.tracks_scan h (Register.tracks_readFor mnemonic h.cursor)
  | systemRegister => exact Reading.tracks_scan h (SystemRegister.tracks_read h.cursor)
  | value =>
    exact Reading.tracks_integer h (h.left ▸ hcarries _ rfl)
  | distance | pageDistance =>
    refine (Reading.tracks_integer h (h.left ▸ hcarries _ rfl)).bind ?_
    rintro n r n' r' ⟨hmeasure, hr⟩
    exact .pure ⟨hmeasure, hr⟩
  | reach inReach fault at? =>
    rw [Request.answer, Request.answer]
    by_cases hreach : context.options.rangeCheck && !inReach
    · exact .of_eq_error (if_pos hreach)
    · -- what is not checked in the first text is not checked in the second
      refine .of_eq_ok (if_neg hreach) (if_neg fun hreach' => hreach ?_) ⟨rfl, h⟩
      rw [Bool.and_eq_true] at hreach' ⊢
      exact ⟨hcheck hreach'.1, hreach'.2⟩

/-- A reader that succeeds in a text succeeds in a longer one around it, and yields the same. -/
theorem Reader.tracks_run (x : Reader α)
    (hcheck : context'.options.rangeCheck = true → context.options.rangeCheck = true)
    (h : r.Beside before behind w w' r')
    (hcarries : ∀ e ∈ x.evaluations context mnemonic r,
      e.Carries before behind ⟨context', w'.vars⟩) :
    Tracks (x.run ⟨environment, context, mnemonic⟩) r (x.run ⟨environment, context', mnemonic⟩) r'
      fun a r b r' => a = b ∧ r.Beside before behind w w' r' := by
  induction x generalizing r r' with
  | done a => exact .pure ⟨rfl, h⟩
  | fail fault at? => exact .of_eq_error rfl
  | ask q next ih =>
    have hanswer : Tracks (q.answer ⟨environment, context, mnemonic⟩) r _ r' _ :=
      q.tracks_answer hcheck h fun e he => hcarries e (by
        rw [evaluations]
        exact List.mem_append_left _ (Option.mem_toList.mpr he))
    -- the answers are equal, so that both readers go on with one and the same
    intro c r₂ hc
    obtain ⟨a, r₁, ha, hc⟩ := bind_eq_ok.mp hc
    obtain ⟨b, r₁', hb, rfl, hr⟩ := hanswer ha
    obtain ⟨d, r₂', hd, hrest⟩ := ih a hr (fun e he => hcarries e (by
      rw [evaluations, ha]
      exact List.mem_append_right _ he)) hc
    exact ⟨d, r₂', (bind_of_ok hb).trans hd, hrest⟩

end InlineA64
