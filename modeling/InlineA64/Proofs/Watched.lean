import InlineA64.Proofs.Step
import InlineA64.Text.Cursor

/-!
# Runs under watch

A text can be looked at anywhere: past its end the bytes read as 0, and a slice is cut to the text.
So the assembler never stops because it has looked where no text is. A run under watch does, with a
`Crash` that is none of the failures of the assembler. It is watched for

* a cursor outside of the text (`watched`);
* a slice whose bounds are not in order or not inside of the text (`slice?`).

Where a run under watch ends like the run itself (`Agrees`), nothing of this has happened on the
way.
-/

namespace InlineA64

variable {σ α β : Type}

/-- Why a run under watch ends early. -/
inductive Crash where
  /-- A failure, which ends the run itself as well. -/
  | failure (failure : Failure)
  /-- A cursor or a slice out of bounds. -/
  | outOfBounds

/-- A run as one under watch in which there is nothing to find. -/
def unwatched (x : EStateM Failure σ α) : EStateM Crash σ α := fun s =>
  match x s with
  | .ok a t => .ok a t
  | .error failure t => .error (.failure failure) t

/-- A run that has to end inside, whether it succeeds or fails. -/
def watched (inside : σ → Prop) [DecidablePred inside] (x : EStateM Failure σ α) :
    EStateM Crash σ α := fun s =>
  match x s with
  | .ok a t => if inside t then .ok a t else .error .outOfBounds t
  | .error failure t => if inside t then .error (.failure failure) t else .error .outOfBounds t

/-- Something that has to be there. -/
def present : Option α → EStateM Crash σ α
  | some a => pure a
  | none => fun s => .error .outOfBounds s

/-- The bytes of a text from one offset up to another, if these are in order and inside of it. -/
def slice? (text : List Byte) (start stop : Nat) : Option (List Byte) :=
  if start ≤ stop ∧ stop ≤ text.length then some ((text.take stop).drop start) else none

theorem slice?_eq {text : List Byte} {start stop : Nat} (horder : start ≤ stop)
    (hrange : stop ≤ text.length) : slice? text start stop = some ((text.take stop).drop start) :=
  if_pos ⟨horder, hrange⟩

/-- The slice of a text at a cursor is a slice of the text. -/
theorem Cursor.slice?_eq {s : Cursor} {start stop : Nat} (horder : start ≤ stop)
    (hrange : stop ≤ s.text.size) :
    slice? s.text.toList start stop = some (s.slice start stop) := by
  rw [InlineA64.slice?_eq horder hrange, slice, Array.toList_extract, List.extract_eq_take_drop,
    List.drop_take]

/-! ## Agreement -/

/-- Under watch a run ends as it does without. -/
def Agrees (x' : EStateM Crash σ α) (x : EStateM Failure σ α) (s : σ) : Prop :=
  x' s = unwatched x s

namespace Agrees

variable {x' : EStateM Crash σ α} {x : EStateM Failure σ α} {f' : α → EStateM Crash σ β}
  {f : α → EStateM Failure σ β} {s : σ}

theorem of_watched {inside : σ → Prop} [DecidablePred inside]
    (h : Leads x s (fun _ => inside) fun _ => inside) : Agrees (watched inside x) x s := by
  rw [Agrees, watched, unwatched]
  rcases hx : x s with ⟨a, t⟩ | ⟨failure, t⟩
  · exact if_pos (h.of_eq_ok hx)
  · exact if_pos (h.of_eq_error hx)

protected theorem pure (a : α) : Agrees (pure a) (pure a) s := rfl

/-- The second of two runs has to agree only where the first one can lead. -/
protected theorem bind (hx : Agrees x' x s) (hf : ∀ a t, x s = .ok a t → Agrees (f' a) (f a) t) :
    Agrees (x' >>= f') (x >>= f) s := by
  rw [Agrees, unwatched] at hx
  rcases h : x s with ⟨a, t⟩ | ⟨failure, t⟩ <;> rw [h] at hx
  · rw [Agrees, bind_of_ok hx, unwatched, bind_of_ok h]
    exact hf a t h
  · rw [Agrees, bind_of_error hx, unwatched, bind_of_error h]

/-- What follows a look at the state. -/
theorem get_bind {f' : σ → EStateM Crash σ β} {f : σ → EStateM Failure σ β}
    (h : Agrees (f' s) (f s) s) : Agrees (get >>= f') (get >>= f) s := h

/-- What follows something that is there. -/
theorem present_bind {a? : Option α} {a : α} {y : EStateM Failure σ β} (ha : a? = some a)
    (h : Agrees (f' a) y s) : Agrees (present a? >>= f') y s := by
  rw [ha]
  exact h

protected theorem ite {c : Prop} [Decidable c] {y' : EStateM Crash σ α} {y : EStateM Failure σ α}
    (hx : c → Agrees x' x s) (hy : ¬c → Agrees y' y s) :
    Agrees (if c then x' else y') (if c then x else y) s := by
  by_cases hc : c
  · rw [if_pos hc, if_pos hc]
    exact hx hc
  · rw [if_neg hc, if_neg hc]
    exact hy hc

end Agrees

end InlineA64
