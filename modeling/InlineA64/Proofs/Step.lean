import Mathlib.Order.Defs.Unbundled
import Mathlib.Tactic.Basic

/-!
# Steps that can fail

Readers, the evaluation of expressions and the assembly of blocks are all made of steps on a state
that yield a value or fail. What holds of a run is read off its steps by the rules here:

* `bind_eq_ok`: two steps in sequence succeed;
* `Preserves`: a step that succeeds leaves a part of its state alone;
* `Lockstep`: two runs that succeed stay together. Nothing is said where one of them fails, so this
  compares runs that meet different values;
* `Alike`: two runs have the same outcome, failures included;
* `Leads`: where one run ends, whether it succeeds or fails;
* `Maintains`: a step that keeps an invariant until it fails;
* `Tracks`: one run succeeds if another one does, and where they end then. This compares runs that
  need not fail alike.
-/

namespace InlineA64

variable {ε ε' σ τ α β γ δ : Type}

section Results

variable {x : EStateM ε σ α} {f : α → EStateM ε σ β} {s t : σ}

theorem bind_of_ok {a : α} (h : x s = .ok a t) : (x >>= f) s = f a t := by
  change EStateM.bind x f s = f a t
  rw [EStateM.bind, h]

theorem bind_of_error {e : ε} (h : x s = .error e t) : (x >>= f) s = .error e t := by
  change EStateM.bind x f s = .error e t
  rw [EStateM.bind, h]

/-- Two steps succeed if and only if the first does, and the second from where that ends. -/
theorem bind_eq_ok {b : β} {u : σ} :
    (x >>= f) s = .ok b u ↔ ∃ a t, x s = .ok a t ∧ f a t = .ok b u := by
  rcases hx : x s with ⟨a, t⟩ | ⟨e, t⟩
  · rw [bind_of_ok hx]
    simp only [EStateM.Result.ok.injEq]
    exact ⟨fun h => ⟨a, t, ⟨rfl, rfl⟩, h⟩, fun ⟨_, _, ⟨ha, ht⟩, h⟩ => ha ▸ ht ▸ h⟩
  · rw [bind_of_error hx]
    simp only [reduceCtorEq, false_and, exists_false]

theorem pure_eq_ok {a b : α} : (pure a : EStateM ε σ α) s = .ok b t ↔ b = a ∧ t = s := by
  change EStateM.Result.ok a s = .ok b t ↔ _
  rw [EStateM.Result.ok.injEq, eq_comm, eq_comm (a := s)]

theorem get_eq_ok {u : σ} : (get : EStateM ε σ σ) s = .ok u t ↔ u = s ∧ t = s :=
  pure_eq_ok

theorem get_bind {f : σ → EStateM ε σ α} : (get >>= f) s = f s s := rfl

theorem modify_bind {g : σ → σ} {f : PUnit → EStateM ε σ α} :
    (modify g >>= f) s = f ⟨⟩ (g s) := rfl

theorem modify_eq_ok {g : σ → σ} {u : PUnit} :
    (modify g : EStateM ε σ PUnit) s = .ok u t ↔ t = g s := by
  change EStateM.Result.ok PUnit.unit (g s) = .ok u t ↔ _
  rw [EStateM.Result.ok.injEq, eq_comm (a := g s)]
  exact ⟨fun h => h.2, fun h => ⟨rfl, h⟩⟩

theorem modifyGet_eq_ok {g : σ → α × σ} {a : α} :
    (modifyGet g : EStateM ε σ α) s = .ok a t ↔ g s = (a, t) := by
  change EStateM.Result.ok (g s).1 (g s).2 = .ok a t ↔ _
  rw [EStateM.Result.ok.injEq, Prod.ext_iff]

/-- A step succeeds with a value if and only if that is the value it has when its state is
forgotten. -/
theorem run'_eq_some {a : α} : x.run' s = some a ↔ ∃ t, x s = .ok a t := by
  change (match x s with | .ok b _ => some b | .error _ _ => none) = _ ↔ _
  rcases x s with ⟨b, t⟩ | ⟨e, t⟩
  · simp only [Option.some.injEq, EStateM.Result.ok.injEq, exists_and_left, exists_eq', and_true]
  · simp only [reduceCtorEq, exists_false]

/-- A computation without a state that goes on with the value of another. -/
theorem except_bind_eq_ok {x : Except ε α} {f : α → Except ε β} {b : β} :
    (x >>= f) = .ok b ↔ ∃ a, x = .ok a ∧ f a = .ok b := by
  cases x with
  | error e => simp only [reduceCtorEq, false_and, exists_false, iff_false]; rintro ⟨⟩
  | ok a => simp only [Except.ok.injEq, exists_eq_left']; rfl

theorem except_toOption_eq_some {x : Except ε α} {a : α} : x.toOption = some a ↔ x = .ok a := by
  cases x with
  | error e => simp only [Except.toOption, reduceCtorEq]
  | ok b => simp only [Except.toOption, Option.some.injEq, Except.ok.injEq]

end Results

/-! ## Steps on a part of the state -/

/-- A step on a part of a state, which is put back when it is over. -/
def within (part : τ → σ) (put : τ → σ → τ) (x : EStateM ε σ α) : EStateM ε τ α := fun t =>
  match x (part t) with
  | .ok a s => .ok a (put t s)
  | .error e s => .error e (put t s)

theorem within_eq_ok {part : τ → σ} {put : τ → σ → τ} {x : EStateM ε σ α} {t t' : τ} {a : α} :
    within part put x t = .ok a t' ↔ ∃ s, x (part t) = .ok a s ∧ t' = put t s := by
  rw [within]
  rcases x (part t) with ⟨b, s⟩ | ⟨e, s⟩
  · simp only [EStateM.Result.ok.injEq]
    constructor
    · rintro ⟨rfl, rfl⟩
      exact ⟨s, ⟨rfl, rfl⟩, rfl⟩
    · rintro ⟨_, ⟨rfl, rfl⟩, rfl⟩
      exact ⟨rfl, rfl⟩
  · simp only [reduceCtorEq, false_and, exists_false]

/-! ## One run -/

/-- A step that succeeds leaves what `view` shows of its state alone. -/
def Preserves (view : σ → γ) (x : EStateM ε σ α) : Prop :=
  ∀ ⦃s a t⦄, x s = .ok a t → view t = view s

namespace Preserves

variable {view : σ → γ} {x : EStateM ε σ α} {f : α → EStateM ε σ β}

protected theorem pure (a : α) : Preserves view (pure a : EStateM ε σ α) := by
  intro s b t h
  rw [(pure_eq_ok.mp h).2]

protected theorem get : Preserves view (get : EStateM ε σ σ) := by
  intro s b t h
  rw [(get_eq_ok.mp h).2]

protected theorem modify {g : σ → σ} (h : ∀ s, view (g s) = view s) :
    Preserves view (modify g : EStateM ε σ PUnit) := by
  intro s b t ht
  rw [modify_eq_ok.mp ht, h]

protected theorem bind (hx : Preserves view x) (hf : ∀ a, Preserves view (f a)) :
    Preserves view (x >>= f) := by
  intro s b u h
  obtain ⟨a, t, ha, hb⟩ := bind_eq_ok.mp h
  rw [hf a hb, hx ha]

protected theorem ite {c : Prop} [Decidable c] {x y : EStateM ε σ α} (hx : c → Preserves view x)
    (hy : ¬c → Preserves view y) : Preserves view (if c then x else y) := by
  by_cases hc : c
  · rw [if_pos hc]
    exact hx hc
  · rw [if_neg hc]
    exact hy hc

/-- A part that is put back does not show if it looks the same. -/
protected theorem within {view : τ → γ} {look : σ → δ} {part : τ → σ} {put : τ → σ → τ}
    (hx : Preserves look x)
    (hput : ∀ t s, look s = look (part t) → view (put t s) = view t) :
    Preserves view (within part put x) := by
  intro t a t' h
  obtain ⟨s, hs, rfl⟩ := within_eq_ok.mp h
  exact hput t s (hx hs)

/-- A step that always fails preserves anything. -/
theorem of_error (h : ∀ s, ∃ e t, x s = .error e t) : Preserves view x := by
  intro s a t hx
  obtain ⟨e, u, he⟩ := h s
  rw [he] at hx
  cases hx

end Preserves

/-! ## Two runs that succeed -/

/-- Two runs from states related by `S` that both succeed yield values related by `R` and end in
states related by `S`. -/
def Lockstep (S : σ → τ → Prop) (R : α → β → Prop) (x : EStateM ε σ α) (y : EStateM ε' τ β) :
    Prop :=
  ∀ ⦃s t a s' b t'⦄, S s t → x s = .ok a s' → y t = .ok b t' → R a b ∧ S s' t'

namespace Lockstep

variable {S : σ → τ → Prop} {R : α → β → Prop} {T : γ → δ → Prop} {x : EStateM ε σ α}
  {y : EStateM ε' τ β}

/-- A run stays together with itself. -/
protected theorem refl (x : EStateM ε σ α) : Lockstep Eq Eq x x := by
  -- a step is a function of its state, so there is only one way it can go
  rintro s _ a s' b t' rfl ha hb
  rw [ha] at hb
  cases hb
  exact ⟨rfl, rfl⟩

protected theorem pure {a : α} {b : β} (h : R a b) :
    Lockstep S R (pure a : EStateM ε σ α) (pure b : EStateM ε' τ β) := by
  intro s t a' s' b' t' hS ha hb
  obtain ⟨⟨rfl, rfl⟩, rfl, rfl⟩ := And.intro (pure_eq_ok.mp ha) (pure_eq_ok.mp hb)
  exact ⟨h, hS⟩

protected theorem get : Lockstep S S (get : EStateM ε σ σ) (get : EStateM ε' τ τ) := by
  intro s t a s' b t' hS ha hb
  obtain ⟨⟨rfl, rfl⟩, rfl, rfl⟩ := And.intro (get_eq_ok.mp ha) (get_eq_ok.mp hb)
  exact ⟨hS, hS⟩

protected theorem modify {f : σ → σ} {g : τ → τ} (h : ∀ s t, S s t → S (f s) (g t)) :
    Lockstep S Eq (modify f : EStateM ε σ PUnit) (modify g : EStateM ε' τ PUnit) := by
  intro s t a s' b t' hS ha hb
  rw [modify_eq_ok.mp ha, modify_eq_ok.mp hb]
  exact ⟨rfl, h s t hS⟩

protected theorem bind {f : α → EStateM ε σ γ} {g : β → EStateM ε' τ δ} (hx : Lockstep S R x y)
    (hf : ∀ a b, R a b → Lockstep S T (f a) (g b)) : Lockstep S T (x >>= f) (y >>= g) := by
  intro s t c s' d t' hS hc hd
  obtain ⟨a, s₁, ha, hc⟩ := bind_eq_ok.mp hc
  obtain ⟨b, t₁, hb, hd⟩ := bind_eq_ok.mp hd
  obtain ⟨hR, hS₁⟩ := hx hS ha hb
  exact hf a b hR hS₁ hc hd

protected theorem ite {c : Prop} [Decidable c] {x' : EStateM ε σ α} {y' : EStateM ε' τ β}
    (hx : c → Lockstep S R x y) (hx' : ¬c → Lockstep S R x' y') :
    Lockstep S R (if c then x else x') (if c then y else y') := by
  by_cases hc : c
  · rw [if_pos hc, if_pos hc]
    exact hx hc
  · rw [if_neg hc, if_neg hc]
    exact hx' hc

protected theorem within {σ' τ' : Type} {S' : σ' → τ' → Prop} {part : σ' → σ} {put : σ' → σ → σ'}
    {part' : τ' → τ} {put' : τ' → τ → τ'} (h : Lockstep S R x y)
    (hpart : ∀ ⦃s t⦄, S' s t → S (part s) (part' t))
    (hput : ∀ ⦃s t s₁ t₁⦄, S' s t → S s₁ t₁ → S' (put s s₁) (put' t t₁)) :
    Lockstep S' R (within part put x) (within part' put' y) := by
  intro s t a s' b t' hS ha hb
  obtain ⟨s₁, hs₁, rfl⟩ := within_eq_ok.mp ha
  obtain ⟨t₁, ht₁, rfl⟩ := within_eq_ok.mp hb
  obtain ⟨hR, hS₁⟩ := h (hpart hS) hs₁ ht₁
  exact ⟨hR, hput hS hS₁⟩

theorem mono {R' : α → β → Prop} (h : Lockstep S R x y) (hR : ∀ a b, R a b → R' a b) :
    Lockstep S R' x y := by
  intro s t a s' b t' hS ha hb
  obtain ⟨hab, hS'⟩ := h hS ha hb
  exact ⟨hR a b hab, hS'⟩

theorem of_error_left (h : ∀ s, ∃ e t, x s = .error e t) : Lockstep S R x y := by
  intro s t a s' b t' _ ha _
  obtain ⟨e, u, he⟩ := h s
  rw [he] at ha
  cases ha

theorem of_error_right (h : ∀ t, ∃ e u, y t = .error e u) : Lockstep S R x y := by
  intro s t a s' b t' _ _ hb
  obtain ⟨e, u, he⟩ := h t
  rw [he] at hb
  cases hb

end Lockstep

/-! ## Two runs with one outcome -/

/-- Two outcomes are one failure or one value, in states related by `S`. -/
abbrev SameOutcome (S : σ → τ → Prop) :
    EStateM.Result ε σ α → EStateM.Result ε τ α → Prop
  | .ok a s, .ok b t => a = b ∧ S s t
  | .error e s, .error e' t => e = e' ∧ S s t
  | _, _ => False

/-- Two runs from states related by `S` have the same outcome. -/
def Alike (S : σ → τ → Prop) (x : EStateM ε σ α) (y : EStateM ε τ α) : Prop :=
  ∀ ⦃s t⦄, S s t → SameOutcome S (x s) (y t)

namespace Alike

variable {S : σ → τ → Prop} {x : EStateM ε σ α} {y : EStateM ε τ α}

/-- The two ways in which the outcomes of two such runs agree. -/
theorem cases (h : Alike S x y) {s : σ} {t : τ} (hS : S s t) :
    (∃ a s' t', x s = .ok a s' ∧ y t = .ok a t' ∧ S s' t') ∨
      ∃ e s' t', x s = .error e s' ∧ y t = .error e t' ∧ S s' t' := by
  have hst := h hS
  -- a value on one side and a failure on the other are not the same outcome
  rcases hx : x s with ⟨a, s'⟩ | ⟨e, s'⟩ <;> rcases hy : y t with ⟨b, t'⟩ | ⟨e', t'⟩ <;>
    rw [hx, hy] at hst
  · exact .inl ⟨a, s', t', rfl, by rw [hst.1], hst.2⟩
  · exact hst.elim
  · exact hst.elim
  · exact .inr ⟨e, s', t', rfl, by rw [hst.1], hst.2⟩

/-- A run has the outcome that it has. -/
protected theorem refl (x : EStateM ε σ α) : Alike Eq x x := by
  rintro s _ rfl
  rcases x s with ⟨a, t⟩ | ⟨e, t⟩
  · exact ⟨rfl, rfl⟩
  · exact ⟨rfl, rfl⟩

theorem of_ok {a : α} {g : σ → σ} {k : τ → τ} (hx : ∀ s, x s = .ok a (g s))
    (hy : ∀ t, y t = .ok a (k t)) (h : ∀ s t, S s t → S (g s) (k t)) : Alike S x y := by
  intro s t hS
  rw [hx, hy]
  exact ⟨rfl, h s t hS⟩

protected theorem pure (a : α) : Alike S (pure a : EStateM ε σ α) (pure a) :=
  of_ok (fun _ => rfl) (fun _ => rfl) fun _ _ hS => hS

protected theorem modify {f : σ → σ} {g : τ → τ} (h : ∀ s t, S s t → S (f s) (g t)) :
    Alike S (modify f : EStateM ε σ PUnit) (modify g) :=
  of_ok (fun _ => rfl) (fun _ => rfl) h

protected theorem bind {f : α → EStateM ε σ β} {g : α → EStateM ε τ β} (hx : Alike S x y)
    (hf : ∀ a, Alike S (f a) (g a)) : Alike S (x >>= f) (y >>= g) := by
  intro s t hS
  rcases hx.cases hS with ⟨a, s', t', hs, ht, hS'⟩ | ⟨e, s', t', hs, ht, hS'⟩
  · rw [bind_of_ok hs, bind_of_ok ht]
    exact hf a hS'
  · rw [bind_of_error hs, bind_of_error ht]
    exact ⟨rfl, hS'⟩

protected theorem within {σ' τ' : Type} {S' : σ' → τ' → Prop} {part : σ' → σ} {put : σ' → σ → σ'}
    {part' : τ' → τ} {put' : τ' → τ → τ'} (h : Alike S x y)
    (hpart : ∀ ⦃s t⦄, S' s t → S (part s) (part' t))
    (hput : ∀ ⦃s t s₁ t₁⦄, S' s t → S s₁ t₁ → S' (put s s₁) (put' t t₁)) :
    Alike S' (within part put x) (within part' put' y) := by
  intro s t hS
  rw [InlineA64.within, InlineA64.within]
  rcases h.cases (hpart hS) with ⟨a, s₁, t₁, hs₁, ht₁, hS₁⟩ | ⟨e, s₁, t₁, hs₁, ht₁, hS₁⟩
  · rw [hs₁, ht₁]
    exact ⟨rfl, hput hS hS₁⟩
  · rw [hs₁, ht₁]
    exact ⟨rfl, hput hS hS₁⟩

/-- A step on a part of a state, and the same step on that part alone. -/
theorem within_left {part : τ → σ} {put : τ → σ → τ} {S : τ → σ → Prop}
    (hpart : ∀ ⦃t s⦄, S t s → part t = s) (hput : ∀ ⦃t s⦄ s', S t s → S (put t s') s')
    (x : EStateM ε σ α) : Alike S (within part put x) x := by
  intro t s hS
  rw [InlineA64.within, hpart hS]
  rcases x s with ⟨a, s'⟩ | ⟨e, s'⟩
  · exact ⟨rfl, hput s' hS⟩
  · exact ⟨rfl, hput s' hS⟩

/-- What follows a look at the state. The states seen are known to be related. -/
theorem get_bind {f : σ → EStateM ε σ β} {g : τ → EStateM ε τ β}
    (h : ∀ s t, S s t → Alike S (f s) (g t)) : Alike S (get >>= f) (get >>= g) := by
  intro s t hS
  exact h s t hS hS

protected theorem ite {c : Prop} [Decidable c] {x' : EStateM ε σ α} {y' : EStateM ε τ α}
    (hx : c → Alike S x y) (hx' : ¬c → Alike S x' y') :
    Alike S (if c then x else x') (if c then y else y') := by
  by_cases hc : c
  · rw [if_pos hc, if_pos hc]
    exact hx hc
  · rw [if_neg hc, if_neg hc]
    exact hx' hc

end Alike

/-! ## Where one run ends -/

/-- A run from `s` ends with a value and a state that satisfy `Q`, or with a failure and a state
that satisfy `E`. -/
def Leads (x : EStateM ε σ α) (s : σ) (Q : α → σ → Prop) (E : ε → σ → Prop) : Prop :=
  match x s with
  | .ok a t => Q a t
  | .error e t => E e t

namespace Leads

variable {x : EStateM ε σ α} {s t : σ} {Q Q' : α → σ → Prop} {E E' : ε → σ → Prop}

theorem of_eq_ok (h : Leads x s Q E) {a : α} (hx : x s = .ok a t) : Q a t := by
  rwa [Leads, hx] at h

theorem of_eq_error (h : Leads x s Q E) {e : ε} (hx : x s = .error e t) : E e t := by
  rwa [Leads, hx] at h

/-- A run that is known to succeed. -/
theorem of_ok {a : α} (hx : x s = .ok a t) (h : Q a t) : Leads x s Q E := by
  rwa [Leads, hx]

/-- A run that is known to fail. -/
theorem of_error {e : ε} (hx : x s = .error e t) (h : E e t) : Leads x s Q E := by
  rwa [Leads, hx]

/-- A run that is another one, perhaps from another state. -/
theorem of_eq {y : EStateM ε σ α} (hx : x s = y t) (h : Leads y t Q E) : Leads x s Q E := by
  rwa [Leads, hx]

/-- A run ends where it ends. -/
protected theorem self : Leads x s (fun a t => x s = .ok a t) fun e t => x s = .error e t := by
  rw [Leads]
  rcases x s with ⟨a, t⟩ | ⟨e, t⟩ <;> rfl

/-- A run that cannot fail succeeds. -/
theorem exists_ok (h : Leads x s Q fun _ _ => False) : ∃ a t, x s = .ok a t ∧ Q a t := by
  rcases hx : x s with ⟨a, t⟩ | ⟨e, t⟩
  · exact ⟨a, t, rfl, h.of_eq_ok hx⟩
  · exact (h.of_eq_error hx).elim

/-- What holds wherever a run may end holds where it ends. -/
theorem of_forall (hQ : ∀ a t, Q a t) (hE : ∀ e t, E e t) : Leads x s Q E := by
  rw [Leads]
  rcases x s with ⟨a, t⟩ | ⟨e, t⟩
  · exact hQ a t
  · exact hE e t

theorem mono (h : Leads x s Q E) (hQ : ∀ a t, Q a t → Q' a t) (hE : ∀ e t, E e t → E' e t) :
    Leads x s Q' E' := by
  rcases hx : x s with ⟨a, t⟩ | ⟨e, t⟩
  · rw [Leads, hx]
    exact hQ a t (h.of_eq_ok hx)
  · rw [Leads, hx]
    exact hE e t (h.of_eq_error hx)

protected theorem pure {a : α} (h : Q a s) : Leads (pure a) s Q E := h

protected theorem modify {g : σ → σ} {Q : PUnit → σ → Prop} (h : Q ⟨⟩ (g s)) :
    Leads (modify g) s Q E := h

protected theorem bind {f : α → EStateM ε σ β} {R : β → σ → Prop} (hx : Leads x s Q E)
    (hf : ∀ a t, Q a t → Leads (f a) t R E) : Leads (x >>= f) s R E := by
  rcases hs : x s with ⟨a, t⟩ | ⟨e, t⟩
  · rw [Leads, bind_of_ok hs]
    exact hf a t (hx.of_eq_ok hs)
  · rw [Leads, bind_of_error hs]
    exact hx.of_eq_error hs

/-- What follows a look at the state, which is the one that the run starts from. -/
theorem get_bind {f : σ → EStateM ε σ β} {R : β → σ → Prop} (h : Leads (f s) s R E) :
    Leads (get >>= f) s R E := h

/-- What follows a change of the state that cannot fail. -/
theorem modify_bind {g : σ → σ} {f : PUnit → EStateM ε σ β} {R : β → σ → Prop}
    (h : Leads (f ⟨⟩) (g s) R E) : Leads (modify g >>= f) s R E := h

protected theorem ite {c : Prop} [Decidable c] {y : EStateM ε σ α} (hx : c → Leads x s Q E)
    (hy : ¬c → Leads y s Q E) : Leads (if c then x else y) s Q E := by
  by_cases hc : c
  · rw [if_pos hc]
    exact hx hc
  · rw [if_neg hc]
    exact hy hc

protected theorem within {part : τ → σ} {put : τ → σ → τ} {t : τ} {Q : α → τ → Prop}
    {E : ε → τ → Prop}
    (h : Leads x (part t) (fun a s => Q a (put t s)) (fun e s => E e (put t s))) :
    Leads (within part put x) t Q E := by
  rw [Leads, InlineA64.within]
  rcases hx : x (part t) with ⟨a, s⟩ | ⟨e, s⟩
  · exact h.of_eq_ok hx
  · exact h.of_eq_error hx

end Leads

/-- A run ends in a state that is related to the one it starts from, whether it succeeds or
fails. -/
def Reaches (R : σ → σ → Prop) (x : EStateM ε σ α) : Prop :=
  ∀ s, Leads x s (fun _ t => R s t) (fun _ t => R s t)

namespace Reaches

variable {R : σ → σ → Prop} {x : EStateM ε σ α}

protected theorem pure [Std.Refl R] (a : α) : Reaches R (pure a : EStateM ε σ α) :=
  fun s => Std.Refl.refl (r := R) s

protected theorem bind [IsTrans σ R] {f : α → EStateM ε σ β} (hx : Reaches R x)
    (hf : ∀ a, Reaches R (f a)) : Reaches R (x >>= f) := fun s =>
  (hx s).bind fun a t ht =>
    (hf a t).mono (fun _ u => IsTrans.trans s t u ht) fun _ u => IsTrans.trans s t u ht

protected theorem get_bind {f : σ → EStateM ε σ α} (hf : ∀ a, Reaches R (f a)) :
    Reaches R (get >>= f) := fun s => hf s s

protected theorem ite {c : Prop} [Decidable c] {y : EStateM ε σ α} (hx : Reaches R x)
    (hy : Reaches R y) : Reaches R (if c then x else y) := fun s =>
  .ite (fun _ => hx s) fun _ => hy s

protected theorem within {S : τ → τ → Prop} {part : τ → σ} {put : τ → σ → τ} (hx : Reaches R x)
    (hput : ∀ t s, R (part t) s → S t (put t s)) : Reaches S (within part put x) := fun t =>
  .within ((hx (part t)).mono (fun _ s => hput t s) fun _ s => hput t s)

/-- What is related to the start of a run is related to where it ends. -/
theorem leads [IsTrans σ R] (hx : Reaches R x) {r s : σ} (h : R r s) :
    Leads x s (fun _ => R r) (fun _ => R r) :=
  (hx s).mono (fun _ t => IsTrans.trans r s t h) fun _ t => IsTrans.trans r s t h

end Reaches

/-- From a state that satisfies `I` a step leads to another such state, or it fails as `E` says. -/
def Maintains (I : σ → Prop) (E : ε → σ → Prop) (x : EStateM ε σ α) : Prop :=
  ∀ s, I s → Leads x s (fun _ => I) E

namespace Maintains

variable {I : σ → Prop} {E : ε → σ → Prop} {x : EStateM ε σ α}

protected theorem pure (a : α) : Maintains I E (pure a : EStateM ε σ α) := fun _ hs => hs

protected theorem bind {f : α → EStateM ε σ β} (hx : Maintains I E x)
    (hf : ∀ a, Maintains I E (f a)) : Maintains I E (x >>= f) := fun s hs =>
  (hx s hs).bind hf

protected theorem get_bind {f : σ → EStateM ε σ α} (hf : ∀ s, I s → Maintains I E (f s)) :
    Maintains I E (get >>= f) := fun s hs => hf s hs s hs

protected theorem modify {g : σ → σ} (hg : ∀ s, I s → I (g s)) :
    Maintains I E (modify g : EStateM ε σ PUnit) := hg

protected theorem modifyGet {g : σ → α × σ} (hg : ∀ s, I s → I (g s).2) :
    Maintains I E (modifyGet g : EStateM ε σ α) := hg

protected theorem ite {c : Prop} [Decidable c] {y : EStateM ε σ α} (hx : Maintains I E x)
    (hy : Maintains I E y) : Maintains I E (if c then x else y) := fun s hs =>
  .ite (fun _ => hx s hs) fun _ => hy s hs

end Maintains

/-! ## A run that succeeds beside another -/

/-- If `x` succeeds from `s`, then `y` succeeds from `t`, and the values and the states that the two
end with satisfy `Q`. -/
def Tracks (x : EStateM ε σ α) (s : σ) (y : EStateM ε' τ β) (t : τ)
    (Q : α → σ → β → τ → Prop) : Prop :=
  ∀ ⦃a s'⦄, x s = .ok a s' → ∃ b t', y t = .ok b t' ∧ Q a s' b t'

namespace Tracks

variable {x : EStateM ε σ α} {y : EStateM ε' τ β} {s : σ} {t : τ} {Q R : α → σ → β → τ → Prop}

protected theorem pure {a : α} {b : β} (h : Q a s b t) :
    Tracks (pure a : EStateM ε σ α) s (pure b : EStateM ε' τ β) t Q := by
  intro a' s' ha
  obtain ⟨rfl, rfl⟩ := pure_eq_ok.mp ha
  exact ⟨b, t, rfl, h⟩

theorem of_eq_error {e : ε} {s' : σ} (h : x s = .error e s') : Tracks x s y t Q := by
  intro a u ha
  rw [h] at ha
  cases ha

theorem of_eq_ok {a : α} {b : β} {s' : σ} {t' : τ} (hx : x s = .ok a s') (hy : y t = .ok b t')
    (h : Q a s' b t') : Tracks x s y t Q := by
  intro a' u ha
  rw [hx] at ha
  cases ha
  exact ⟨b, t', hy, h⟩

/-- Two runs that are others, perhaps from other states. -/
theorem of_eq {x' : EStateM ε σ α} {y' : EStateM ε' τ β} {s' : σ} {t' : τ} (hx : x s = x' s')
    (hy : y t = y' t') (h : Tracks x' s' y' t' Q) : Tracks x s y t Q := by
  intro a u ha
  rw [hx] at ha
  rw [hy]
  exact h ha

/-- Two runs of which the second cannot fail. -/
theorem of_leads {P : α → σ → Prop} {P' : β → τ → Prop} {E : ε → σ → Prop} (hx : Leads x s P E)
    (hy : Leads y t P' fun _ _ => False) (h : ∀ a s' b t', P a s' → P' b t' → Q a s' b t') :
    Tracks x s y t Q := by
  intro a s' ha
  obtain ⟨b, t', hb, hbt'⟩ := hy.exists_ok
  exact ⟨b, t', hb, h a s' b t' (hx.of_eq_ok ha) hbt'⟩

theorem mono (h : Tracks x s y t Q) (hQ : ∀ a s' b t', Q a s' b t' → R a s' b t') :
    Tracks x s y t R := by
  intro a s' ha
  obtain ⟨b, t', hb, hab⟩ := h ha
  exact ⟨b, t', hb, hQ a s' b t' hab⟩

protected theorem bind {f : α → EStateM ε σ γ} {g : β → EStateM ε' τ δ}
    {R : γ → σ → δ → τ → Prop} (h : Tracks x s y t Q)
    (hf : ∀ a s' b t', Q a s' b t' → Tracks (f a) s' (g b) t' R) :
    Tracks (x >>= f) s (y >>= g) t R := by
  intro c s' hc
  obtain ⟨a, s₁, ha, hc⟩ := bind_eq_ok.mp hc
  obtain ⟨b, t₁, hb, hab⟩ := h ha
  rw [bind_of_ok hb]
  exact hf a s₁ b t₁ hab hc

/-- What follows a look at the state on both sides. -/
theorem get_bind {f : σ → EStateM ε σ γ} {g : τ → EStateM ε' τ δ} {R : γ → σ → δ → τ → Prop}
    (h : Tracks (f s) s (g t) t R) : Tracks (get >>= f) s (get >>= g) t R := h

/-- What follows changes of the states that cannot fail. -/
theorem modify_bind {f : σ → σ} {g : τ → τ} {k : PUnit → EStateM ε σ γ} {l : PUnit → EStateM ε' τ δ}
    {R : γ → σ → δ → τ → Prop} (h : Tracks (k ⟨⟩) (f s) (l ⟨⟩) (g t) R) :
    Tracks (modify f >>= k) s (modify g >>= l) t R := h

protected theorem modify {f : σ → σ} {g : τ → τ} {Q : PUnit → σ → PUnit → τ → Prop}
    (h : Q ⟨⟩ (f s) ⟨⟩ (g t)) :
    Tracks (modify f : EStateM ε σ PUnit) s (modify g : EStateM ε' τ PUnit) t Q :=
  of_eq_ok (modify_eq_ok.mpr rfl) (modify_eq_ok.mpr rfl) h

protected theorem ite {c c' : Prop} [Decidable c] [Decidable c'] {x' : EStateM ε σ α}
    {y' : EStateM ε' τ β} (hc : c ↔ c') (hx : c → Tracks x s y t Q)
    (hx' : ¬c → Tracks x' s y' t Q) :
    Tracks (if c then x else x') s (if c' then y else y') t Q := by
  by_cases h : c
  · rw [if_pos h, if_pos (hc.mp h)]
    exact hx h
  · rw [if_neg h, if_neg fun h' => h (hc.mpr h')]
    exact hx' h

protected theorem within {σ' τ' : Type} {part : σ' → σ} {put : σ' → σ → σ'} {part' : τ' → τ}
    {put' : τ' → τ → τ'} {s : σ'} {t : τ'} {Q : α → σ' → β → τ' → Prop}
    (h : Tracks x (part s) y (part' t) fun a s' b t' => Q a (put s s') b (put' t t')) :
    Tracks (within part put x) s (within part' put' y) t Q := by
  intro a s' ha
  obtain ⟨s₁, hs₁, rfl⟩ := within_eq_ok.mp ha
  obtain ⟨b, t₁, hb, hab⟩ := h hs₁
  exact ⟨b, put' t t₁, within_eq_ok.mpr ⟨t₁, hb, rfl⟩, hab⟩

end Tracks

end InlineA64
