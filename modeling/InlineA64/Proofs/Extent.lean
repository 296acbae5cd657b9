import InlineA64.Proofs.Image
import Mathlib.Data.List.Induction
import Mathlib.Order.Lattice

/-!
# How far an image reaches

An image reaches as far as the calls to write that it has accepted. A call without any bytes is
accepted like another one, and an image grows up to where it is made; so an image ends at the
highest byte that was stored unless such a call was made beyond that, and the bytes from there on
are zeros then.

* `Image.extent`: how far some calls reach;
* `Machine.reachedBy_afterWrites`: how far an empty image reaches after any calls, and what it holds
  beyond the bytes that were stored.
-/

namespace InlineA64

namespace Image

variable {base : UInt64} {calls : List Write}

/-- A call stores one byte at least. -/
def Write.stores (call : Write) : Bool :=
  !call.bytes.isEmpty

/-- The greatest distance from the base to where a call ends, or 0 if there is no call. -/
def extent (base : UInt64) (calls : List Write) : Nat :=
  calls.foldr (fun call n => max (call.offset base + call.bytes.length) n) 0

/-- The image after a call, whether it is refused or not. -/
def after (image : Image) (call : Write) : Image :=
  if call.Fits image.base then image.patched (call.offset image.base) call.bytes else image

/-- The image that calls leave of an empty one. -/
def ofCalls (base : UInt64) (calls : List Write) : Image :=
  calls.foldl after (empty base)

/-- The bytes are those of an image that has had some calls. It reaches as far as they do. Those of
them that store bytes leave the same image, up to zeros at its end; and there are such zeros if and
only if a call without bytes is made beyond all that is stored. -/
structure ReachedBy (base : UInt64) (calls : List Write) (bytes : Array Byte) : Prop where
  size_eq : bytes.size = extent base calls
  toList_eq : bytes.toList = (ofCalls base (calls.filter Write.stores)).bytes.toList ++
    List.replicate (extent base calls - extent base (calls.filter Write.stores)) 0
  size_eq_iff : bytes.size = extent base (calls.filter Write.stores) ↔
    ∀ call ∈ calls, call.bytes = [] → call.offset base ≤ extent base (calls.filter Write.stores)
  bytes_eq_iff : bytes = (ofCalls base (calls.filter Write.stores)).bytes ↔
    ∀ call ∈ calls, call.bytes = [] → call.offset base ≤ extent base (calls.filter Write.stores)

theorem Write.stores_iff {call : Write} : call.stores = true ↔ call.bytes ≠ [] := by
  rw [stores, Bool.not_eq_true', List.isEmpty_eq_false_iff]

/-! ## Extents -/

theorem extent_le_iff {n : Nat} : extent base calls ≤ n ↔
    ∀ call ∈ calls, call.offset base + call.bytes.length ≤ n := by
  induction calls with
  | nil => exact iff_of_true (Nat.zero_le n) fun _ h => absurd h List.not_mem_nil
  | cons call calls ih => rw [extent, List.foldr_cons, ← extent, Nat.max_le, ih,
      List.forall_mem_cons]

theorem extent_append (calls calls' : List Write) :
    extent base (calls ++ calls') = max (extent base calls) (extent base calls') := by
  refine Nat.le_antisymm (extent_le_iff.mpr fun call hcall => ?_) ?_
  · rcases List.mem_append.mp hcall with hcall | hcall
    · exact (extent_le_iff.mp le_rfl call hcall).trans (le_max_left _ _)
    · exact (extent_le_iff.mp le_rfl call hcall).trans (le_max_right _ _)
  · rw [Nat.max_le, extent_le_iff, extent_le_iff]
    exact ⟨fun call hcall => extent_le_iff.mp le_rfl call (List.mem_append_left _ hcall),
      fun call hcall => extent_le_iff.mp le_rfl call (List.mem_append_right _ hcall)⟩

theorem extent_filter_le (p : Write → Bool) : extent base (calls.filter p) ≤ extent base calls :=
  extent_le_iff.mpr fun call hcall => extent_le_iff.mp le_rfl call (List.mem_filter.mp hcall).1

/-- Calls without bytes make a difference if one of them is beyond all others. -/
theorem extent_filter_stores_eq_iff : extent base calls = extent base (calls.filter Write.stores) ↔
    ∀ call ∈ calls, call.bytes = [] →
      call.offset base ≤ extent base (calls.filter Write.stores) := by
  rw [le_antisymm_iff, and_iff_left (extent_filter_le Write.stores), extent_le_iff]
  refine forall₂_congr fun call hcall => ?_
  by_cases hbytes : call.bytes = []
  · simp only [hbytes, List.length_nil, Nat.add_zero, forall_const]
  · -- a call that stores bytes is among those on the right
    have hstored : call ∈ calls.filter Write.stores :=
      List.mem_filter.mpr ⟨hcall, Write.stores_iff.mpr hbytes⟩
    exact iff_of_true (extent_le_iff.mp le_rfl call hstored) fun h => absurd h hbytes

/-- A call without bytes covers no address. -/
theorem lastByte?_filter_stores (calls : List Write) (address : Nat) :
    lastByte? (calls.filter Write.stores) address = lastByte? calls address := by
  induction calls using List.reverseRecOn with
  | nil => rfl
  | append_singleton calls call ih =>
    rw [lastByte?_concat, List.filter_append, ← ih]
    by_cases hbytes : call.bytes = []
    · have hnone : call.byteAt? address = none := by
        rw [Write.byteAt?, hbytes, List.getElem?_nil, ite_self]
      rw [List.filter_cons_of_neg fun h => Write.stores_iff.mp h hbytes, List.filter_nil,
        List.append_nil, hnone, Option.none_or]
    · rw [List.filter_cons_of_pos (Write.stores_iff.mpr hbytes), List.filter_nil, lastByte?_concat]

/-! ## Images of calls -/

theorem base_after (image : Image) (call : Write) : (image.after call).base = image.base := by
  rw [after]
  split <;> rfl

theorem ofCalls_concat (calls : List Write) (call : Write) :
    ofCalls base (calls ++ [call]) = (ofCalls base calls).after call := by
  rw [ofCalls, List.foldl_append]
  rfl

theorem base_ofCalls : (ofCalls base calls).base = base := by
  induction calls using List.reverseRecOn with
  | nil => rfl
  | append_singleton calls call ih => rw [ofCalls_concat, base_after, ih]

/-- Calls that are refused make no difference. -/
theorem foldl_after_filter (image : Image) (calls : List Write) :
    (calls.filter (·.Fits image.base)).foldl after image = calls.foldl after image := by
  induction calls generalizing image with
  | nil => rfl
  | cons call calls ih =>
    rw [List.foldl_cons, ← ih, base_after, List.filter_cons]
    by_cases hfits : call.Fits image.base
    · rw [if_pos (decide_eq_true hfits), List.foldl_cons]
    · rw [if_neg fun h => hfits (of_decide_eq_true h), after, if_neg hfits]

/-- Calls that fit are held, and all of them are reached. -/
theorem holds_ofCalls (hfits : ∀ call ∈ calls, call.Fits base) :
    Holds base calls (ofCalls base calls) ∧
      (ofCalls base calls).bytes.size = extent base calls := by
  induction calls using List.reverseRecOn with
  | nil => exact ⟨.empty base, rfl⟩
  | append_singleton calls call ih =>
    obtain ⟨hholds, hsize⟩ := ih fun earlier h => hfits earlier (List.mem_append_left _ h)
    have hcall : call.Fits base := hfits call (List.mem_append_right _ (List.mem_singleton_self _))
    have hlast : extent base [call] = call.offset base + call.bytes.length := Nat.max_zero _
    rw [ofCalls_concat, after, base_ofCalls, if_pos hcall, size_patched, extent_append, hsize,
      hlast]
    exact ⟨hholds.patched hcall, rfl⟩

/-- What is beyond the calls that store bytes has not been stored. -/
theorem toList_ofCalls (hfits : ∀ call ∈ calls, call.Fits base) :
    (ofCalls base calls).bytes.toList =
      (ofCalls base (calls.filter Write.stores)).bytes.toList ++
        List.replicate (extent base calls - extent base (calls.filter Write.stores)) 0 := by
  obtain ⟨hholds, hsize⟩ := holds_ofCalls hfits
  obtain ⟨hstored, hsize'⟩ :=
    holds_ofCalls fun call (hcall : call ∈ calls.filter Write.stores) =>
      hfits call (List.mem_filter.mp hcall).1
  have hle : extent base (calls.filter Write.stores) ≤ extent base calls :=
    extent_filter_le Write.stores
  -- up to the last byte that is stored the images hold the same calls, and beyond it no call
  -- covers an address
  apply List.ext_getElem?
  intro i
  by_cases hi : i < extent base (calls.filter Write.stores)
  · rw [List.getElem?_append_left (by rwa [Array.length_toList, hsize']), Array.getElem?_toList,
      Array.getElem?_toList, hholds.getElem?_eq i (by omega), hstored.getElem?_eq i (by omega),
      lastByte?_filter_stores]
  · have hnone := hstored.lastByte?_eq_none (i := i) (by omega)
    rw [lastByte?_filter_stores] at hnone
    rw [List.getElem?_append_right (by rw [Array.length_toList]; omega), Array.length_toList,
      hsize', List.getElem?_replicate, Array.getElem?_toList]
    by_cases hlt : i < extent base calls
    · rw [if_pos (by omega), hholds.getElem?_eq i (by omega), hnone, Option.getD_none]
    · rw [if_neg (by omega), Array.getElem?_eq_none (by omega)]

/-- What calls that fit leave of an empty image. -/
theorem reachedBy_ofCalls (hfits : ∀ call ∈ calls, call.Fits base) :
    ReachedBy base calls (ofCalls base calls).bytes := by
  have hsize := (holds_ofCalls hfits).2
  have hlist := toList_ofCalls hfits
  refine ⟨hsize, hlist, by rw [hsize, extent_filter_stores_eq_iff], ?_⟩
  rw [← extent_filter_stores_eq_iff, ← Array.toList_inj, hlist, List.append_right_eq_self,
    List.replicate_eq_nil_iff]
  have hle : extent base (calls.filter Write.stores) ≤ extent base calls :=
    extent_filter_le Write.stores
  omega

end Image

namespace Machine

open Image (Write)

variable {w : Machine}

/-- A call is accepted if it fits, whatever has been written. -/
theorem accepted_eq_filter (w : Machine) (calls : List Write) :
    w.accepted calls = calls.filter (·.Fits w.image.base) := by
  induction calls generalizing w with
  | nil => rfl
  | cons call calls ih =>
    rw [accepted]
    by_cases hfits : call.Fits w.image.base
    · rw [write_eq_of_fits hfits, List.filter_cons, if_pos (decide_eq_true hfits)]
      exact congrArg (call :: ·) (ih _)
    · rw [write_eq_of_not_fits hfits, List.filter_cons, if_neg fun h => hfits (of_decide_eq_true h)]
      exact ih w

/-- A call changes the image, unless it is refused. -/
theorem leads_write (w : Machine) (address : UInt64) (bytes : List Byte) :
    Leads (write address bytes) w (fun _ w' => w'.image = w.image.after ⟨address, bytes⟩)
      (fun _ w' => w'.image = w.image.after ⟨address, bytes⟩) := by
  rw [Leads, Image.after]
  by_cases hfits : Write.Fits w.image.base ⟨address, bytes⟩
  · rw [write_eq_of_fits hfits, if_pos hfits]
  · rw [write_eq_of_not_fits hfits, if_neg hfits]

theorem image_afterWrites (w : Machine) (calls : List Write) :
    (w.afterWrites calls).image = calls.foldl Image.after w.image := by
  induction calls generalizing w with
  | nil => rfl
  | cons call calls ih =>
    have hcall : (w.afterWrite call).image = w.image.after call := by
      have hleads := leads_write w call.address call.bytes
      rw [afterWrite]
      rcases hwrite : write call.address call.bytes w with ⟨u, w'⟩ | ⟨failure, w'⟩
      · exact hleads.of_eq_ok hwrite
      · exact hleads.of_eq_error hwrite
    rw [afterWrites, List.foldl_cons, ← afterWrites, ih, hcall, List.foldl_cons]

/-- How far an empty image reaches after some calls. -/
theorem reachedBy_afterWrites (w : Machine) (calls : List Write) :
    Image.ReachedBy w.image.base (w.withEmptyImage.accepted calls)
      (w.withEmptyImage.afterWrites calls).image.bytes := by
  have hofCalls : (w.withEmptyImage.afterWrites calls).image =
      Image.ofCalls w.image.base (calls.filter (·.Fits w.image.base)) := by
    rw [image_afterWrites]
    exact (Image.foldl_after_filter (.empty w.image.base) calls).symm
  rw [hofCalls, accepted_eq_filter]
  exact Image.reachedBy_ofCalls fun call hcall => of_decide_eq_true (List.mem_filter.mp hcall).2

end Machine

end InlineA64
