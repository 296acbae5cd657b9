/-!
# Bindings

A finite map as a list of keys with their values. `Bindings.get?_set` is all one needs to know
about it: a key is bound to what it was last bound to.
-/

namespace InlineA64

/-- Keys with what they are bound to. -/
structure Bindings (κ α : Type) where
  /-- The keys and their values, in the order in which the keys were first bound. -/
  toList : List (κ × α)
deriving DecidableEq, Repr

namespace Bindings

variable {κ α : Type} [DecidableEq κ]

/-- No bindings. -/
def empty : Bindings κ α :=
  ⟨[]⟩

/-- What a key is bound to in a list of bindings. -/
def getIn (key : κ) : List (κ × α) → Option α
  | [] => none
  | (k, v) :: rest => if k = key then some v else getIn key rest

/-- A list of bindings with a key bound, in place of what it was bound to or at the end. -/
def setIn (key : κ) (value : α) : List (κ × α) → List (κ × α)
  | [] => [(key, value)]
  | (k, v) :: rest => if k = key then (k, value) :: rest else (k, v) :: setIn key value rest

/-- What a key is bound to. -/
def get? (b : Bindings κ α) (key : κ) : Option α :=
  getIn key b.toList

/-- Bind a key. -/
def set (b : Bindings κ α) (key : κ) (value : α) : Bindings κ α :=
  ⟨setIn key value b.toList⟩

theorem getIn_setIn (key other : κ) (value : α) (entries : List (κ × α)) :
    getIn other (setIn key value entries) =
      if key = other then some value else getIn other entries := by
  induction entries with
  | nil => rfl
  | cons entry rest ih => grind [setIn, getIn]

/-- A key is bound to what it was last bound to. -/
theorem get?_set (b : Bindings κ α) (key other : κ) (value : α) :
    (b.set key value).get? other = if key = other then some value else b.get? other :=
  getIn_setIn key other value b.toList

end Bindings

end InlineA64
