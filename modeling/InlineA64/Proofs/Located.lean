import InlineA64.Proofs.Cursor
import InlineA64.Proofs.Step

/-!
# Where failures point

Whoever reads a text and fails points at something that has been read: at a place from where the
cursor has come up to where it stands (`Failure.Located`). A step that does so from wherever its
cursor comes (`Locates`) can be made of steps that do.

What a step notes of its state to point at later is where the cursor stands at that time, so what
follows is looked at as coming from there (`Locates.get_bind_here`).
-/

namespace InlineA64

variable {σ α β : Type}

/-- The cursor has come from another one, which stands inside of the text. -/
structure Cursor.ComesFrom (origin s : Cursor) : Prop where
  onward : origin.Onward s
  inside : origin.pos ≤ origin.text.size

namespace Cursor.ComesFrom

variable {origin s s' : Cursor}

theorem trans_onward (h : origin.ComesFrom s) (hs : s.Onward s') : origin.ComesFrom s' :=
  ⟨h.onward.trans hs, h.inside⟩

theorem refl_right (h : origin.ComesFrom s) : s.ComesFrom s := by
  refine ⟨.refl s, ?_⟩
  rw [h.onward.text]
  exact h.onward.inside h.inside

theorem pos_le (h : origin.ComesFrom s) : origin.pos ≤ s.pos :=
  h.onward.pos_le h.inside

/-- To move on to where another cursor has come to is to have come there. -/
theorem advanceTo_pos (h : origin.ComesFrom s) : origin.advanceTo s.pos = s := by
  have hle := h.pos_le
  have hinside : s.pos ≤ origin.text.size := h.onward.inside h.inside
  have hpos : min (max origin.pos s.pos) origin.text.size = s.pos := by omega
  rw [Cursor.advanceTo, Cursor.seek, hpos, ← h.onward.text]

theorem spanOf (h : origin.ComesFrom s) (offset : Nat) :
    s.spanOf offset = origin.spanOf offset := by
  rw [Cursor.spanOf, Cursor.spanOf, h.onward.text]

end Cursor.ComesFrom

/-- The failure points at a place from where the cursor has come up to where it stands. -/
structure Failure.Located (origin s : Cursor) (failure : Failure) : Prop where
  comesFrom : origin.ComesFrom s
  points : ∃ offset, origin.pos ≤ offset ∧ offset ≤ s.pos ∧ failure.span = origin.spanOf offset

namespace Failure.Located

variable {origin s s' : Cursor} {failure : Failure}

/-- What points at something behind a cursor points at something behind where that comes from. -/
theorem of_comesFrom (h : failure.Located s s') (hs : origin.ComesFrom s) :
    failure.Located origin s' := by
  obtain ⟨offset, hle, hge, hspan⟩ := h.points
  refine ⟨hs.trans_onward h.comesFrom.onward, offset, Nat.le_trans hs.pos_le hle, hge, ?_⟩
  rw [hspan, hs.spanOf]

/-- A fault is noted where the cursor stands or where it has come from. -/
theorem of_offset (h : origin.ComesFrom s) {offset : Nat} (hle : origin.pos ≤ offset)
    (hge : offset ≤ s.pos) (fault : Fault) :
    Failure.Located origin s ⟨fault, s.spanOf offset⟩ :=
  ⟨h, offset, hle, hge, h.spanOf offset⟩

end Failure.Located

/-! ## Readers of text -/

/-- A reader of text that fails points at something that it or those before it have read. -/
abbrev Locates (origin : Cursor) (x : Cursor.Scan α) : Prop :=
  Maintains origin.ComesFrom (fun failure s => failure.Located origin s) x

namespace Locates

variable {origin : Cursor}

/-- What follows a look at the cursor can point at where that stands. -/
theorem get_bind_here {f : Cursor → Cursor.Scan α} (hf : ∀ s, Locates s (f s)) :
    Locates origin (get >>= f) := fun s hs =>
  (hf s s hs.refl_right).mono (fun _ _ h => hs.trans_onward h.onward)
    fun _ _ h => h.of_comesFrom hs

theorem modify {g : Cursor → Cursor} (hg : ∀ s : Cursor, s.Onward (g s)) :
    Locates origin (modify g : Cursor.Scan PUnit) :=
  Maintains.modify fun s hs => hs.trans_onward (hg s)

theorem modifyGet {g : Cursor → α × Cursor} (hg : ∀ s : Cursor, s.Onward (g s).2) :
    Locates origin (modifyGet g : Cursor.Scan α) :=
  Maintains.modifyGet fun s hs => hs.trans_onward (hg s)

theorem failAt (s : Cursor) (fault : Fault) :
    Locates s (Cursor.failAt s.pos fault : Cursor.Scan α) := fun _ ht =>
  .of_offset ht (Nat.le_refl _) ht.pos_le fault

theorem fail (fault : Fault) : Locates origin (Cursor.fail fault : Cursor.Scan α) := fun _ ht =>
  .of_offset ht ht.pos_le (Nat.le_refl _) fault

theorem expect {mark : Char} (hmark : mark.toUInt8 ≠ 0) (fault : Fault) :
    Locates origin (Cursor.expect mark fault) := by
  refine (modifyGet fun s => s.onward_accept hmark).bind fun taken => ?_
  exact .ite (.pure ()) (fail fault)

end Locates

end InlineA64
