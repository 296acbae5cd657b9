import InlineA64.Operand.Run
import InlineA64.Operand.Basic
import InlineA64.Proofs.Step

/-!
# Running readers piece by piece

`Reader.run` is a homomorphism: a run of two readers in sequence is the run of the first and then
that of the second (`Reader.run_bind`). So a run of an encoder can be followed from the runs of the
readers it is made of, without looking at the requests that these make.
-/

namespace InlineA64

variable {σ Slot α β : Type}

namespace Reading

variable {r r' : Reading σ} {a : α}

theorem step_eq_ok {f : Cursor → α × Cursor} :
    step f r = .ok a r' ↔ ∃ s, f r.cursor = (a, s) ∧ r' = { r with cursor := s } := by
  change EStateM.Result.ok (f r.cursor).1 { r with cursor := (f r.cursor).2 } = .ok a r' ↔ _
  rw [EStateM.Result.ok.injEq]
  exact ⟨fun ⟨ha, hr⟩ => ⟨_, Prod.ext ha rfl, hr.symm⟩, fun ⟨s, hf, hr⟩ => by simp [hf, hr]⟩

theorem scan_eq_within (f : Cursor.Scan α) :
    scan f = within Reading.cursor (fun (r : Reading σ) s => { r with cursor := s }) f := by
  funext r
  rw [scan, within]
  rcases f r.cursor with ⟨a, s⟩ | ⟨e, s⟩ <;> rfl

theorem scan_eq_ok {f : Cursor.Scan α} :
    scan f r = .ok a r' ↔ ∃ s, f r.cursor = .ok a s ∧ r' = { r with cursor := s } := by
  rw [scan_eq_within, within_eq_ok]

theorem consult_eq_within (f : EStateM Failure (Cursor × σ) α) :
    consult f = within (fun r => (r.cursor, r.state))
      (fun r p => { r with cursor := r.cursor.advanceTo p.1.pos, state := p.2 }) f := by
  funext r
  rw [consult, within]
  rcases f (r.cursor, r.state) with ⟨a, s, state⟩ | ⟨e, s, state⟩ <;> rfl

end Reading

theorem Request.eq_of_reach {around : Surroundings σ Slot} {inReach : Bool} {fault : Fault}
    {at? : Mark} {r r' : Reading σ} {u : Unit}
    (h : (reach inReach fault at?).answer around r = .ok u r') : r' = r := by
  rw [answer] at h
  split at h
  · cases h
  · cases h
    rfl

namespace Reader

variable {around : Surroundings σ Slot}

theorem run_request (q : Request α) : (request q).run around = q.answer around :=
  bind_pure (q.answer around)

/-- A run of two readers is a run of the first and then one of the second. -/
theorem run_bind (x : Reader α) (f : α → Reader β) :
    (x >>= f).run around = x.run around >>= fun a => (f a).run around := by
  change (x.bind f).run around = _
  induction x with
  | done a => rfl
  | fail fault at? => rfl
  | ask request next ih =>
    -- the sequence of the answer and the rest is regrouped around the first reader
    calc (request.answer around >>= fun answer => ((next answer).bind f).run around)
        = request.answer around >>= fun answer =>
            (next answer).run around >>= fun a => (f a).run around :=
          congrArg (request.answer around >>= ·) (funext ih)
      _ = (request.answer around >>= fun answer => (next answer).run around) >>= fun a =>
            (f a).run around := (bind_assoc _ _ _).symm

/-! ## What readers start with -/

theorem bind_assoc {γ : Type} (x : Reader α) (f : α → Reader β) (g : β → Reader γ) :
    x >>= f >>= g = x >>= fun a => f a >>= g := by
  change (x.bind f).bind g = x.bind fun a => (f a).bind g
  induction x with
  | done a => rfl
  | fail fault at? => rfl
  | ask request next ih => exact congrArg (ask request) (funext ih)

/-- A reader goes on with `rest` whenever it starts like `x` and `x` yields a value. Where `x` fails
nothing is said about the reader, so `x` can leave out some of its ways. -/
inductive StartsWith (rest : α → Reader β) : Reader α → Reader β → Prop
  | done (a : α) : StartsWith rest (done a) (rest a)
  | fail (fault : Fault) (at? : Option Mark) (x : Reader β) : StartsWith rest (fail fault at?) x
  | ask {γ : Type} (q : Request γ) {next : γ → Reader α} {next' : γ → Reader β} :
      (∀ answer, StartsWith rest (next answer) (next' answer)) →
        StartsWith rest (ask q next) (ask q next')

namespace StartsWith

variable {rest : α → Reader β}

/-- Both readers start with the same one. -/
theorem bind {γ : Type} (x : Reader γ) {f : γ → Reader α} {g : γ → Reader β}
    (h : ∀ a, StartsWith rest (f a) (g a)) : StartsWith rest (x >>= f) (x >>= g) := by
  change StartsWith rest (x.bind f) (x.bind g)
  induction x with
  | done a => exact h a
  | fail fault at? => exact .fail fault at? _
  | ask request next ih => exact .ask request ih

/-- A run of the start can be replaced by what it yields. -/
theorem run {x : Reader α} {y : Reader β} (h : StartsWith rest x y) {r r' : Reading σ} {a : α}
    (hx : x.run around r = .ok a r') : y.run around r = (rest a).run around r' := by
  -- both readers make the same requests, so the answers of the one run are those of the other
  induction h generalizing r with
  | done b =>
    obtain ⟨rfl, rfl⟩ := pure_eq_ok.mp hx
    rfl
  | fail fault at? y => cases hx
  | ask q _ ih =>
    obtain ⟨answer, r₁, hanswer, hx⟩ := bind_eq_ok.mp hx
    exact (bind_of_ok hanswer).trans (ih answer hx)

end StartsWith

end Reader

end InlineA64
