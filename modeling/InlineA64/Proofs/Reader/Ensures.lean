import InlineA64.Proofs.Reader.Answer

/-!
# What a reader can yield

`Reader.Ensures x taken Q` says that whenever `x` yields a value, `Q` holds of it and of the
registers taken from the text up to then, `taken` being those taken before. It is computed from the
reader alone: each request may be answered with whatever its answer is known to be
(`Request.Allows`). `Reader.Ensures.run` carries it over to every run, so that an encoder need not
be followed request by request.
-/

namespace InlineA64

variable {σ Slot α β : Type}

namespace Reader

/-! ## Ensuring -/

/-- Whatever a reader yields satisfies `Q`, together with the registers taken by then. -/
def Ensures : Reader α → List Register → (List Register → α → Prop) → Prop
  | done a, taken, Q => Q taken a
  | fail _ _, _, _ => True
  | ask request next, taken, Q =>
    ∀ answer, request.Allows answer → (next answer).Ensures (taken ++ request.registers answer) Q

/-- The registers that a run of a reader takes from the text, in order. -/
def registers (around : Surroundings σ Slot) : Reader α → Reading σ → List Register
  | done _, _ => []
  | fail _ _, _ => []
  | ask request next, r =>
    match request.answer around r with
    | .ok answer r' => request.registers answer ++ (next answer).registers around r'
    | .error _ _ => []

/-- What a reader ensures holds of each of its runs. -/
theorem Ensures.run {around : Surroundings σ Slot} {x : Reader α} {taken : List Register}
    {Q : List Register → α → Prop} (hx : x.Ensures taken Q) {r r' : Reading σ} {a : α}
    (h : x.run around r = .ok a r') : Q (taken ++ x.registers around r) a := by
  induction x generalizing taken r with
  | done b =>
    obtain ⟨rfl, -⟩ := pure_eq_ok.mp h
    rw [registers, List.append_nil]
    exact hx
  | fail fault at? => cases h
  | ask request next ih =>
    obtain ⟨answer, r₁, hanswer, h⟩ := bind_eq_ok.mp h
    have hnext := ih answer (hx answer (request.allows_of_answer hanswer)) h
    rw [registers, hanswer]
    rwa [List.append_assoc] at hnext

variable {x : Reader α} {f : α → Reader β} {taken : List Register}
  {P : List Register → α → Prop} {Q : List Register → β → Prop}

theorem Ensures.mono {P' : List Register → α → Prop} (hx : x.Ensures taken P)
    (h : ∀ taken a, P taken a → P' taken a) : x.Ensures taken P' := by
  induction x generalizing taken with
  | done a => exact h _ _ hx
  | fail fault at? => trivial
  | ask request next ih => exact fun answer hanswer => ih answer (hx answer hanswer)

theorem Ensures.and {P' : List Register → α → Prop} (hx : x.Ensures taken P)
    (hx' : x.Ensures taken P') : x.Ensures taken fun taken a => P taken a ∧ P' taken a := by
  induction x generalizing taken with
  | done a => exact ⟨hx, hx'⟩
  | fail fault at? => trivial
  | ask request next ih =>
    exact fun answer hanswer => ih answer (hx answer hanswer) (hx' answer hanswer)

/-- Of two readers in sequence the first has to ensure what the second needs. -/
@[simp]
theorem ensures_bind :
    (x >>= f).Ensures taken Q ↔ x.Ensures taken fun taken a => (f a).Ensures taken Q := by
  change (x.bind f).Ensures taken Q ↔ _
  induction x generalizing taken with
  | done a => rfl
  | fail fault at? => rfl
  | ask request next ih => exact forall₂_congr fun answer _ => ih answer

@[simp]
theorem ensures_pure {a : α} : (pure a : Reader α).Ensures taken P ↔ P taken a := Iff.rfl

@[simp]
theorem ensures_request {q : Request α} :
    (request q).Ensures taken P ↔ ∀ a, q.Allows a → P (taken ++ q.registers a) a := Iff.rfl

/-! ### Failures -/

@[simp]
theorem ensures_failHere {fault : Fault} : (failHere fault : Reader α).Ensures taken P := trivial

@[simp]
theorem ensures_failAt {mark : Mark} {fault : Fault} :
    (failAt mark fault : Reader α).Ensures taken P := trivial

@[simp]
theorem ensures_malformed {what : Malformed} : (malformed what : Reader α).Ensures taken P :=
  trivial

@[simp]
theorem ensures_malformedAt {mark : Mark} {what : Malformed} :
    (malformedAt mark what : Reader α).Ensures taken P := trivial

@[simp]
theorem ensures_beyond {limit : Limit} : (beyond limit : Reader α).Ensures taken P := trivial

@[simp]
theorem ensures_beyondAt {mark : Mark} {limit : Limit} :
    (beyondAt mark limit : Reader α).Ensures taken P := trivial

@[simp]
theorem ensures_liftAt {mark : Mark} {result : Except Fault α} :
    (liftAt mark result).Ensures taken P ↔ ∀ a, result = .ok a → P taken a := by
  cases result with
  | ok a => simp only [Except.ok.injEq, forall_eq']; rfl
  | error fault => simp only [reduceCtorEq, false_implies, implies_true]; trivial

/-- A guarded reader ensures what it does when the guard does not fail. -/
@[simp]
theorem ensures_ite {c : Prop} [Decidable c] {y : Reader α} :
    (if c then x else y).Ensures taken P ↔
      (c → x.Ensures taken P) ∧ (¬c → y.Ensures taken P) := by
  split
  next h => exact ⟨fun hx => ⟨fun _ => hx, fun hc => absurd h hc⟩, fun hx => hx.1 h⟩
  next h => exact ⟨fun hy => ⟨fun hc => absurd hc h, fun _ => hy⟩, fun hy => hy.2 h⟩

end Reader

end InlineA64
