import InlineA64.Text.Byte
import Mathlib.Data.List.TakeWhile

/-!
# Runs

A run is what a text starts with as long as one test holds. Where a text is put together from a run
and a rest whose first element fails the test, it falls apart into the two again
(`split_of_boundary`). What a test comes to can be checked for each of the 256 bytes
(`Byte.forall_of_all`).
-/

namespace InlineA64

/-- What can be checked of each of the 256 bytes holds of any byte. -/
theorem Byte.forall_of_all {P : Byte → Prop} [DecidablePred P]
    (h : ((List.range 256).all fun n => P (UInt8.ofNat n)) = true) (b : Byte) : P b := by
  have hb := List.all_eq_true.mp h b.toNat (List.mem_range.mpr b.toNat_lt)
  rw [UInt8.ofNat_toNat] at hb
  exact of_decide_eq_true hb

variable {α : Type} {p : α → Bool}

/-- A run that nothing of its kind follows is as long as it goes. -/
theorem split_of_boundary {run rest : List α} (hrun : ∀ a ∈ run, p a = true)
    (hrest : ∀ a ∈ rest.head?, p a = false) :
    (run ++ rest).takeWhile p = run ∧ (run ++ rest).dropWhile p = rest := by
  rw [List.takeWhile_append_of_pos hrun, List.dropWhile_append_of_pos hrun]
  cases rest with
  | nil => exact ⟨List.append_nil run, rfl⟩
  | cons a rest =>
    have ha := Bool.eq_false_iff.mp (hrest a rfl)
    rw [List.takeWhile_cons_of_neg ha, List.dropWhile_cons_of_neg ha, List.append_nil]
    exact ⟨rfl, rfl⟩

theorem head?_dropWhile (p : α → Bool) (text : List α) :
    ∀ a ∈ (text.dropWhile p).head?, p a = false := by
  intro a ha
  have hnot := List.head?_dropWhile_not p text
  rwa [ha] at hnot

end InlineA64
