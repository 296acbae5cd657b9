import Mathlib.Data.Nat.Notation
import InlineA64.Proofs.Reader.Run
import InlineA64.Operand.Address

/-!
# Readers that read the same

An encoder checks its operands while it reads them and notes where they stand for its failures. What
it makes of its operands is easier to say of a reader that reads all of them first and decides then.
`Reader.Matches` compares the two: from one place in the text they yield one value and end at one
place, or both fail. The faults and the positions noted can differ.

A check moves to the end of a reader because what follows a check that fails is `Barren` on both
sides: the encoder has stopped, and the decision will be against the operands.

* `Reader.Matches.bind`, `Reader.matches_here_bind`, `Reader.Matches.of_barren`: the rules;
* `Reader.Matches.run_eq_ok_iff`: what an encoder yields, from the decision about its operands.
-/

namespace InlineA64

variable {σ Slot α β γ : Type}

namespace Reading

/-- Where a reading stands: the cursor in the text, and the state of the environment. -/
def place (r : Reading σ) : Cursor × σ :=
  (r.cursor, r.state)

/-- The value that a step has yielded, and the place where it has ended. -/
def outcome : EStateM.Result Failure (Reading σ) α → Option (α × Cursor × σ)
  | .ok a r => some (a, r.place)
  | .error _ _ => none

theorem outcome_eq_some {result : EStateM.Result Failure (Reading σ) α} {a : α}
    {p : Cursor × σ} : outcome result = some (a, p) ↔ ∃ r, result = .ok a r ∧ r.place = p := by
  cases result with
  | ok b r => simp [outcome, and_assoc]
  | error failure r => simp [outcome]

theorem outcome_eq_none {result : EStateM.Result Failure (Reading σ) α} :
    outcome result = none ↔ ∃ failure r, result = .error failure r := by
  cases result <;> simp [outcome]

/-- From one place two steps have one outcome, whatever positions have been noted. -/
def SameOutcomes (x y : EStateM Failure (Reading σ) α) : Prop :=
  ∀ ⦃r r' : Reading σ⦄, r.place = r'.place → outcome (x r) = outcome (y r')

namespace SameOutcomes

variable {x y : EStateM Failure (Reading σ) α} {f g : α → EStateM Failure (Reading σ) β}

protected theorem pure (a : α) :
    SameOutcomes (pure a : EStateM Failure (Reading σ) α) (pure a) := by
  intro r r' h
  change some (a, r.place) = some (a, r'.place)
  rw [h]

protected theorem bind (hx : SameOutcomes x y) (hf : ∀ a, SameOutcomes (f a) (g a)) :
    SameOutcomes (x >>= f) (y >>= g) := by
  intro r r' h
  rcases hrun : x r with ⟨a, s⟩ | ⟨failure, s⟩
  · obtain ⟨s', hs', hplace⟩ : ∃ s', y r' = .ok a s' ∧ s'.place = s.place := by
      apply outcome_eq_some.mp
      rw [← hx h, hrun]
      rfl
    rw [bind_of_ok hrun, bind_of_ok hs']
    exact hf a hplace.symm
  · obtain ⟨failure', s', hs'⟩ : ∃ failure' s', y r' = .error failure' s' := by
      apply outcome_eq_none.mp
      rw [← hx h, hrun]
      rfl
    rw [bind_of_error hrun, bind_of_error hs']
    rfl

theorem step (f : Cursor → α × Cursor) :
    SameOutcomes (Reading.step f : EStateM Failure (Reading σ) α) (Reading.step f) := by
  rintro ⟨cursor, state, marks⟩ ⟨_, _, marks'⟩ ⟨⟩
  rfl

theorem scan (f : Cursor.Scan α) :
    SameOutcomes (Reading.scan f : EStateM Failure (Reading σ) α) (Reading.scan f) := by
  rintro ⟨cursor, state, marks⟩ ⟨_, _, marks'⟩ ⟨⟩
  unfold Reading.scan
  rcases f cursor with ⟨a, s⟩ | ⟨failure, s⟩ <;> rfl

theorem consult (f : EStateM Failure (Cursor × σ) α) :
    SameOutcomes (Reading.consult f) (Reading.consult f) := by
  rintro ⟨cursor, state, marks⟩ ⟨_, _, marks'⟩ ⟨⟩
  unfold Reading.consult
  rcases f (cursor, state) with ⟨a, s⟩ | ⟨failure, s⟩ <;> rfl

/-- Steps of which none succeeds. -/
theorem of_error (hx : ∀ r, outcome (x r) = none) (hy : ∀ r, outcome (y r) = none) :
    SameOutcomes x y := fun r r' _ => (hx r).trans (hy r').symm

theorem symm (h : SameOutcomes x y) : SameOutcomes y x :=
  fun _ _ hr => (h hr.symm).symm

theorem trans {z : EStateM Failure (Reading σ) α} (hxy : SameOutcomes x y)
    (hyz : SameOutcomes y z) : SameOutcomes x z :=
  fun _ r' hr => (hxy hr).trans (hyz (rfl : r'.place = r'.place))

end SameOutcomes

end Reading

open Reading (SameOutcomes)

/-- The request is not for a position. -/
def Request.notes : Request β → Bool
  | mark => true
  | _ => false

/-- Where a distance out of reach would be reported does not matter. -/
theorem Request.sameOutcomes_reach {around : Surroundings σ Slot} (inReach : Bool) (fault : Fault)
    (mark mark' : Mark) :
    SameOutcomes ((reach inReach fault mark).answer around)
      ((reach inReach fault mark').answer around) := by
  intro r r' h
  simp only [answer]
  split
  · rfl
  · exact SameOutcomes.pure () h

/-- No answer but a position depends on the positions noted before. -/
theorem Request.sameOutcomes_answer {around : Surroundings σ Slot} {q : Request β}
    (hq : q.notes = false) : SameOutcomes (q.answer around) (q.answer around) := by
  have hinteger : SameOutcomes around.integer around.integer :=
    (SameOutcomes.step _).bind fun _ => .consult _
  cases q with
  | mark => cases hq
  | sees | accept | acceptJoined | atBlank | atEnd | seesPostIndex | keyword | wholeWord =>
    rw [answer]
    exact .step _
  | closeBracket | register | systemRegister =>
    rw [answer]
    exact .scan _
  | value => exact hinteger
  | distance | pageDistance => exact hinteger.bind fun _ => .pure _
  | reach inReach fault at? => exact sameOutcomes_reach inReach fault at? at?

namespace Reader

/-! ## Readers that yield nothing -/

/-- Whatever the answers are, the reader fails. -/
def Barren : Reader α → Prop
  | done _ => False
  | fail _ _ => True
  | ask _ next => ∀ answer, (next answer).Barren

namespace Barren

variable {x : Reader α} {f : α → Reader β}

theorem outcome_run {around : Surroundings σ Slot} (h : x.Barren) (r : Reading σ) :
    Reading.outcome (x.run around r) = none := by
  induction x generalizing r with
  | done a => exact h.elim
  | fail fault at? => rfl
  | ask q next ih =>
    change Reading.outcome ((q.answer around >>= fun answer => (next answer).run around) r) = none
    rcases hq : q.answer around r with ⟨answer, s⟩ | ⟨failure, s⟩
    · rw [bind_of_ok hq]
      exact ih answer (h answer) s
    · rw [bind_of_error hq]
      rfl

theorem of_right (h : ∀ a, (f a).Barren) : (x >>= f).Barren := by
  change (x.bind f).Barren
  induction x with
  | done a => exact h a
  | fail fault at? => trivial
  | ask q next ih => exact ih

end Barren

/-! ## Matching -/

/-- From one place two readers yield one value and end at one place, or both fail. -/
def Matches (around : Surroundings σ Slot) (x y : Reader α) : Prop :=
  SameOutcomes (x.run around) (y.run around)

section Rules

variable {around : Surroundings σ Slot} {x y : Reader α} {f g : α → Reader β}

theorem matches_pure (a : α) : Matches around (pure a) (pure a) := SameOutcomes.pure a

theorem Matches.bind (hx : Matches around x y) (hf : ∀ a, Matches around (f a) (g a)) :
    Matches around (x >>= f) (y >>= g) := by
  unfold Matches
  rw [run_bind, run_bind]
  exact SameOutcomes.bind hx hf

theorem Matches.symm (h : Matches around x y) : Matches around y x := SameOutcomes.symm h

theorem Matches.trans {z : Reader α} (hxy : Matches around x y) (hyz : Matches around y z) :
    Matches around x z := SameOutcomes.trans hxy hyz

theorem Matches.of_barren (hx : x.Barren) (hy : y.Barren) : Matches around x y :=
  .of_error hx.outcome_run hy.outcome_run

theorem Matches.ite {c : Prop} [Decidable c] {x' y' : Reader α} (h : c → Matches around x y)
    (h' : ¬c → Matches around x' y') :
    Matches around (if c then x else x') (if c then y else y') := by
  split
  · next hc => exact h hc
  · next hc => exact h' hc

theorem matches_request {q : Request α} (hq : q.notes = false) :
    Matches around (request q) (request q) := by
  unfold Matches
  rw [run_request]
  exact Request.sameOutcomes_answer hq

/-- A position that is noted can be left out. -/
theorem matches_here_bind {f : Mark → Reader α} (h : ∀ mark, Matches around (f mark) y) :
    Matches around (here >>= f) y := by
  intro r r' hplace
  rw [run_bind]
  exact h ⟨r.marks.length⟩ (r := { r with marks := r.marks ++ [r.cursor.pos] }) hplace

/-- A position that is noted does not matter where it is only reported. -/
theorem matches_here {f : Mark → Reader α}
    (h : ∀ mark mark', Matches around (f mark) (f mark')) :
    Matches around (here >>= f) (here >>= f) := by
  have hleft : Matches around (here >>= f) (f ⟨0⟩) := matches_here_bind fun mark => h mark ⟨0⟩
  exact hleft.trans hleft.symm

end Rules

/-! ## Decisions -/

/-- Stop with what has been decided on. -/
def verdict : Option α → Reader α
  | some a => done a
  | none => malformed .statement

theorem barren_verdict_none : (verdict (none : Option α)).Barren := trivial

/-- A reader that will be decided against is barren. -/
theorem barren_bind_verdict {x : Reader α} {decide : α → Option β}
    (h : ∀ a, decide a = none) : (x >>= fun a => verdict (decide a)).Barren :=
  .of_right fun a => by rw [h a]; exact barren_verdict_none

protected theorem pure_bind (a : α) (f : α → Reader β) : (pure a : Reader α) >>= f = f a := rfl

protected theorem bind_pure (x : Reader α) : x >>= pure = x := by
  change x.bind done = x
  induction x with
  | done a => rfl
  | fail fault at? => rfl
  | ask q next ih => exact congrArg (ask q) (funext ih)

/-- A reader in sequence starts with its first part. -/
theorem StartsWith.of_bind (x : Reader α) (rest : α → Reader β) :
    StartsWith rest x (x >>= rest) := by
  rw [← Reader.bind_pure x, Reader.bind_assoc]
  exact .bind x fun a => .done a

section Verdict

variable {around : Surroundings σ Slot} {r r₁ : Reading σ} {x y : Reader α}

/-- What a reader yields is what is decided at the end of one that it matches. -/
theorem Matches.run_eq_ok_iff (h : Matches around x y) {decision : Option α}
    (hy : y.run around r = (verdict decision).run around r₁) {a : α} :
    (∃ r', x.run around r = .ok a r') ↔ decision = some a := by
  have houtcome := h (rfl : r.place = r.place)
  rw [hy] at houtcome
  cases decision with
  | none =>
    obtain ⟨failure, r', hx⟩ := Reading.outcome_eq_none.mp houtcome
    simp [hx]
  | some b =>
    obtain ⟨r', hx, -⟩ := Reading.outcome_eq_some.mp houtcome
    simp [hx]

theorem Matches.exists_run (h : Matches around x y) {a : α} {r' : Reading σ}
    (hx : x.run around r = .ok a r') : ∃ r₂, y.run around r = .ok a r₂ := by
  have houtcome := h (rfl : r.place = r.place)
  rw [hx] at houtcome
  obtain ⟨r₂, hrun, -⟩ := Reading.outcome_eq_some.mp houtcome.symm
  exact ⟨r₂, hrun⟩

/-- Where something has been decided on, the operands have been read before. -/
theorem exists_of_run_verdict {operands : Reader β} {decide : β → Option α} {a : α}
    {r' : Reading σ}
    (h : (operands >>= fun b => verdict (decide b)).run around r = .ok a r') :
    ∃ b r₁, operands.run around r = .ok b r₁ ∧ decide b = some a := by
  rw [run_bind] at h
  obtain ⟨b, r₁, hb, h⟩ := bind_eq_ok.mp h
  refine ⟨b, r₁, hb, ?_⟩
  cases hdecide : decide b with
  | none =>
    rw [hdecide] at h
    cases h
  | some c =>
    rw [hdecide] at h
    rw [(pure_eq_ok.mp h).1]

/-- Where the operands have been read, a reader yields what is decided on them. -/
theorem Matches.run_iff_of_operands {operands : Reader β} {decide : β → Option α}
    (h : Matches around x (operands >>= fun b => verdict (decide b))) {b : β}
    (hb : operands.run around r = .ok b r₁) {a : α} :
    (∃ r', x.run around r = .ok a r') ↔ decide b = some a := by
  have hdecided : (operands >>= fun b => verdict (decide b)).run around r =
      (verdict (decide b)).run around r₁ := by
    rw [run_bind, bind_of_ok hb]
  exact h.run_eq_ok_iff hdecided

end Verdict

theorem matches_decided {around : Surroundings σ Slot} {a : α} {decision : Option α}
    (h : decision = some a) : Matches around (pure a) (verdict decision) :=
  h ▸ matches_pure a

/-- A value that is lifted is decided on by its fault. -/
theorem matches_liftAt_bind {around : Surroundings σ Slot} {mark : Mark}
    {result : Except Fault α} {f : α → Reader β} {g : α → Option β}
    (h : ∀ a, result = .ok a → Matches around (f a) (verdict (g a))) :
    Matches around (liftAt mark result >>= f) (verdict (result.toOption.bind g)) := by
  cases result with
  | error fault => exact .of_barren trivial trivial
  | ok a => exact h a rfl

theorem matches_liftAt_map {around : Surroundings σ Slot} {mark : Mark}
    {result : Except Fault α} {f : α → β} :
    Matches around (liftAt mark result >>= fun a => pure (f a))
      (verdict (result.toOption.map f)) := by
  rw [Option.map_eq_bind]
  exact matches_liftAt_bind fun a _ => matches_pure _

/-! ## The readers of operands -/

section Operands

variable {around : Surroundings σ Slot}

theorem matches_sees (p : Punctuation) : Matches around (sees p) (sees p) := matches_request rfl

theorem matches_accept (p : Punctuation) : Matches around (accept p) (accept p) :=
  matches_request rfl

theorem matches_failHere (fault : Fault) :
    Matches around (failHere fault : Reader α) (failHere fault) := .of_barren trivial trivial

theorem matches_expect (p : Punctuation) (fault : Fault) :
    Matches around (expect p fault) (expect p fault) := by
  unfold expect
  exact (matches_accept p).bind fun _ => .ite (fun _ => matches_pure _) fun _ => matches_failHere _

theorem matches_comma : Matches around comma comma := matches_expect _ _

theorem matches_hash : Matches around hash hash := matches_expect _ _

theorem matches_keyword (v : Vocabulary α) : Matches around (keyword v) (keyword v) :=
  matches_request rfl

theorem matches_register : Matches around register register := matches_request rfl

theorem matches_value : Matches around value value := by
  unfold value
  exact (matches_request rfl).bind fun _ => matches_pure _

theorem matches_immediate : Matches around immediate immediate := by
  unfold immediate
  exact matches_hash.bind fun _ => matches_value

theorem matches_distance : Matches around distance distance := by
  unfold distance
  exact (matches_request rfl).bind fun _ => matches_pure _

/-- A register that is refused at its own position. -/
theorem matches_checked {x : Reader Register} (hx : Matches around x x) (c : Register → Prop)
    [DecidablePred c] (what : Malformed) :
    Matches around
      (here >>= fun start => x >>= fun r => if c r then malformedAt start what else pure r)
      (here >>= fun start => x >>= fun r => if c r then malformedAt start what else pure r) :=
  matches_here fun _ _ => hx.bind fun r =>
    .ite (fun _ => .of_barren trivial trivial) fun _ => matches_pure r

theorem matches_plainRegister : Matches around plainRegister plainRegister :=
  matches_checked matches_register _ _

/-- A register that is refused at once can be refused later, if what follows it is barren. -/
theorem matches_plainRegister_bind {f g : Register → Reader α}
    (hplain : ∀ r, r.isStackPointer = false → Matches around (f r) (g r))
    (hsp : ∀ r, r.isStackPointer = true → (g r).Barren) :
    Matches around (plainRegister >>= f) (register >>= g) := by
  simp only [plainRegister, Reader.bind_assoc]
  refine matches_here_bind fun start => matches_register.bind fun r => ?_
  cases hr : r.isStackPointer with
  | true => exact .of_barren trivial (hsp r hr)
  | false => exact hplain r hr

theorem matches_registerOf_bind {width : Width} {f g : Register → Reader α}
    (hplain : ∀ r, r.isStackPointer = false → r.width = width → Matches around (f r) (g r))
    (hout : ∀ r, ¬(r.isStackPointer = false ∧ r.width = width) → (g r).Barren) :
    Matches around (registerOf width >>= f) (register >>= g) := by
  simp only [registerOf, Reader.bind_assoc]
  refine matches_here_bind fun start => matches_plainRegister_bind (fun r hr => ?_) fun r hr => ?_
  · by_cases hwidth : r.width = width
    · rw [if_neg (not_not_intro hwidth)]
      exact hplain r hr hwidth
    · rw [if_pos hwidth]
      exact .of_barren trivial (hout r fun h => hwidth h.2)
  · exact hout r fun h => by rw [hr] at h; cases h.1

theorem matches_addressRegister : Matches around addressRegister addressRegister :=
  matches_checked matches_register _ _

theorem matches_reachable (mark mark' : Mark) (d : Displacement) (distance : Int) :
    Matches around (reachable mark d distance) (reachable mark' d distance) := by
  have hreach : Matches around (request (.reach (d.admits distance) d.fault mark))
      (request (.reach (d.admits distance) d.fault mark')) := by
    unfold Matches
    rw [run_request, run_request]
    exact Request.sameOutcomes_reach _ _ mark mark'
  exact hreach.bind fun _ => matches_pure _

theorem matches_inside : Matches around inside inside := by
  unfold inside indexModifier
  refine (matches_accept _).bind fun comma => .ite (fun _ => ?_) fun _ => matches_pure _
  refine (matches_sees _).bind fun seen => .ite (fun _ => ?_) fun _ => ?_
  · exact matches_immediate.bind fun offset => matches_pure _
  · refine matches_register.bind fun index => ?_
    refine (matches_accept _).bind fun comma => .ite (fun _ => ?_) fun _ => matches_pure _
    refine (matches_keyword _).bind fun found => ?_
    cases found with
    | none => exact .of_barren trivial trivial
    | some modifier =>
      refine (matches_sees _).bind fun seen => .ite (fun _ => ?_) fun _ => matches_pure _
      exact matches_immediate.bind fun amount => matches_pure _

theorem matches_preIndexed (base : Register) (offset : Option Int) :
    Matches around (preIndexed base offset) (preIndexed base offset) := by
  cases offset with
  | none => exact .of_barren trivial trivial
  | some offset => exact (matches_accept _).bind fun _ => matches_pure _

theorem matches_postIndexed (base : Register) :
    Matches around (postIndexed base) (postIndexed base) :=
  (matches_accept _).bind fun _ => matches_immediate.bind fun _ => matches_pure _

theorem matches_address : Matches around address address := by
  unfold address
  refine (matches_sees _).bind fun seen => .ite (fun _ => ?_) fun _ => ?_
  · refine (matches_expect _ _).bind fun _ => matches_addressRegister.bind fun base => ?_
    refine matches_inside.bind fun inside => (matches_request rfl).bind fun _ => ?_
    cases inside with
    | index index modifier amount written => exact matches_pure _
    | offset offset =>
      refine (matches_sees _).bind fun bang => .ite (fun _ => ?_) fun _ => matches_pure _
      exact matches_preIndexed _ _
    | nothing =>
      refine (matches_sees _).bind fun bang => .ite (fun _ => ?_) fun _ => ?_
      · exact matches_preIndexed _ _
      · refine (matches_request rfl).bind fun post => .ite (fun _ => ?_) fun _ => matches_pure _
        exact matches_postIndexed _
  · exact matches_distance.bind fun distance => matches_pure _

/-- A constant is an immediate that is checked at once. What follows a constant out of its range is
barren. -/
theorem matches_constant_bind {max : ℕ} {limit : Limit} {f : ℕ → Reader α} {g : Int → Reader α}
    (hin : ∀ value : Int, 0 ≤ value → value ≤ max → Matches around (f value.toNat) (g value))
    (hout : ∀ value : Int, ¬(0 ≤ value ∧ value ≤ max) → (g value).Barren) :
    Matches around (constant max limit >>= f) (immediate >>= g) := by
  simp only [constant, immediate, Reader.bind_assoc]
  refine matches_hash.bind fun _ => matches_here_bind fun start => matches_value.bind fun v => ?_
  unfold Immediate.unsigned
  by_cases h : 0 ≤ v ∧ v ≤ max
  · rw [if_pos (by simpa using h)]
    exact hin v h.1 h.2
  · rw [if_neg (by simpa using h)]
    exact .of_barren trivial (hout v h)

theorem matches_constant (max : ℕ) (limit : Limit) :
    Matches around (constant max limit) (constant max limit) := by
  have hchecked : Matches around (constant max limit >>= pure)
      (immediate >>= fun v => verdict (if 0 ≤ v ∧ v ≤ max then some v.toNat else none)) := by
    refine matches_constant_bind (fun v hle hlt => matches_decided (if_pos ⟨hle, hlt⟩)) ?_
    intro v hout
    rw [if_neg hout]
    trivial
  rw [Reader.bind_pure] at hchecked
  exact hchecked.trans hchecked.symm

end Operands

end Reader

end InlineA64
