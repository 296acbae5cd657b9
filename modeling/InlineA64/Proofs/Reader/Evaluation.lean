import InlineA64.Proofs.Machine
import InlineA64.Proofs.Reader.Run

/-!
# The expressions that a reader has evaluated

`Reader.evaluations` lists the expressions that a reader has a machine evaluate: what their values
are taken for, what the names in them stand for, and where they start.
-/

namespace InlineA64

open Machine (environment)

variable {α β : Type}

/-- What the value of an expression is taken for. -/
inductive Purpose where
  /-- The value itself. -/
  | constant
  /-- The distance from the instruction. -/
  | target
  /-- The distance from the instruction in pages. -/
  | page
deriving DecidableEq, Repr

namespace Purpose

/-- What is taken of a number where the context is `c`. -/
def measure (c : Context) (n : Int64) : Purpose → Int64
  | constant => n
  | target => n - c.logical.toInt64
  | page => (n >>> 12) - (c.logical >>> 12).toInt64

/-- For the purpose, a value in one context and a value in another are the same. -/
def Agrees (p : Purpose) (c c' : Context) (v v' : Value) : Prop :=
  match p with
  | constant => v = v'
  | target | page => v.toInt?.map (p.measure c) = v'.toInt?.map (p.measure c')

theorem Agrees.exists_toInt? {p : Purpose} {c c' : Context} {v v' : Value}
    (h : p.Agrees c c' v v') {n : Int64} (hn : v.toInt? = some n) :
    ∃ n', v'.toInt? = some n' ∧ p.measure c n = p.measure c' n' := by
  have hmap : v.toInt?.map (p.measure c) = v'.toInt?.map (p.measure c') := by
    cases p with
    | constant =>
      obtain rfl : v = v' := h
      rfl
    | target | page => exact h
  rw [hn, Option.map_some, eq_comm, Option.map_eq_some_iff] at hmap
  obtain ⟨n', hn', hmeasure⟩ := hmap
  exact ⟨n', hn', hmeasure.symm⟩

/-- One value is the same for any purpose where the code is placed at one address. -/
theorem agrees_self (p : Purpose) {c c' : Context} (h : c.logical = c'.logical) (v : Value) :
    p.Agrees c c' v v := by
  cases p with
  | constant => rfl
  | target | page => simp only [Agrees, measure, h]

end Purpose

/-- An expression that is evaluated. -/
structure Evaluation where
  /-- What the value is taken for. -/
  purpose : Purpose
  /-- What the names in the expression stand for. -/
  scope : Expression.Scope
  /-- Where the expression starts. -/
  cursor : Cursor

/-- The expression has a value where names stand for what `value?` tells. -/
def Evaluation.readsIn (value? : Name → Option Value) (e : Evaluation) : Bool :=
  match Expression.readIn value? e.cursor with
  | .ok _ _ => true
  | .error _ _ => false

theorem Evaluation.readsIn_eq_true {value? : Name → Option Value} {e : Evaluation} :
    e.readsIn value? = true ↔ ∃ v s, Expression.readIn value? e.cursor = .ok v s := by
  rw [readsIn]
  rcases Expression.readIn value? e.cursor with ⟨v, s⟩ | ⟨failure, s⟩
  · exact iff_of_true rfl ⟨v, s, rfl⟩
  · exact iff_of_false Bool.false_ne_true fun ⟨_, _, h⟩ => nomatch h

/-- The expression whose value a request asks for. -/
def Request.evaluation? (context : Context) (r : Reading Machine) : Request β → Option Evaluation
  | value => some ⟨.constant, ⟨context, r.state.vars⟩, r.cursor.skipBlanks⟩
  | distance => some ⟨.target, ⟨context, r.state.vars⟩, r.cursor.skipBlanks⟩
  | pageDistance => some ⟨.page, ⟨context, r.state.vars⟩, r.cursor.skipBlanks⟩
  | _ => none

/-- The expressions that a reader has evaluated. -/
def Reader.evaluations (context : Context) (mnemonic : String) :
    Reader α → Reading Machine → List Evaluation
  | done _, _ | fail _ _, _ => []
  | ask request next, r =>
    (request.evaluation? context r).toList ++
      match request.answer ⟨environment, context, mnemonic⟩ r with
      | .ok a r' => (next a).evaluations context mnemonic r'
      | .error _ _ => []

end InlineA64
