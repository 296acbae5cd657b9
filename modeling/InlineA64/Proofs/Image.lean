import InlineA64.Proofs.Machine
import Mathlib.Logic.Basic

/-!
# What an image holds

An image holds at each address what was last written there. A write is refused if and only if it
starts below the base or ends beyond the capacity, and then changes nothing; otherwise its bytes
replace what was there, the image grows as far as they reach, and every other byte is kept
(`Image.getElem?_patched`).

* `Machine.last_write_wins`: what a sequence of writes leaves in an empty image.
-/

namespace InlineA64

namespace Image

/-- The image with bytes put in from an offset on. -/
def patched (image : Image) (offset : Nat) (bytes : List Byte) : Image :=
  { image with bytes := put bytes offset (grow (offset + bytes.length) image.bytes) }

/-! ## Growing and putting -/

@[simp]
theorem size_grow (size : Nat) (bytes : Array Byte) :
    (grow size bytes).size = max bytes.size size := by
  rw [grow]
  split
  · simp only [Array.size_append, Array.size_replicate]
    omega
  · omega

/-- The bytes that an array grows by are zeros. -/
theorem getElem?_grow (size i : Nat) (bytes : Array Byte) :
    (grow size bytes)[i]? = if i < max bytes.size size then some (bytes.getD i 0) else none := by
  have hold (h : i < bytes.size) : some (bytes.getD i 0) = bytes[i]? := by
    simp only [Array.getD_eq_getD_getElem?, Array.getElem?_eq_getElem h, Option.getD_some]
  have hgap (h : ¬i < bytes.size) : bytes.getD i 0 = 0 := by
    rw [Array.getD_eq_getD_getElem?, Array.getElem?_eq_none (Nat.not_lt.mp h), Option.getD_none]
  rw [grow]
  by_cases hgrows : bytes.size < size
  · rw [if_pos hgrows, Array.getElem?_append]
    by_cases h : i < bytes.size
    · rw [if_pos h, if_pos (by omega), hold h]
    · rw [if_neg h, Array.getElem?_replicate, hgap h]
      exact if_congr (by omega) rfl rfl
  · rw [if_neg hgrows]
    by_cases h : i < bytes.size
    · rw [if_pos (by omega), hold h]
    · rw [if_neg (by omega), Array.getElem?_eq_none (Nat.not_lt.mp h)]

@[simp]
theorem size_put (word : List Byte) (offset : Nat) (bytes : Array Byte) :
    (put word offset bytes).size = bytes.size := by
  induction word generalizing offset bytes with
  | nil => rfl
  | cons b word ih => rw [put, ih, Array.size_setIfInBounds]

/-- Bytes that are put into an array replace those that they cover and no others. -/
theorem getElem?_put (word : List Byte) {offset i : Nat} {bytes : Array Byte}
    (hi : i < bytes.size) : (put word offset bytes)[i]? =
      if offset ≤ i ∧ i < offset + word.length then word[i - offset]? else bytes[i]? := by
  induction word generalizing offset bytes with
  | nil => rw [put, if_neg (by simp only [List.length_nil]; omega)]
  | cons b word ih =>
    rw [put, ih (by rwa [Array.size_setIfInBounds]), List.length_cons,
      Array.getElem?_setIfInBounds]
    -- the byte at the offset is put first, and those behind it do not touch it
    by_cases hfirst : offset = i
    · subst hfirst
      rw [if_neg (by omega), if_pos rfl, if_pos hi, if_pos (by omega), Nat.sub_self]
      rfl
    · rw [if_neg hfirst]
      by_cases hcovered : offset + 1 ≤ i ∧ i < offset + 1 + word.length
      · obtain ⟨k, hk⟩ : ∃ k, i - offset = k + 1 := ⟨i - offset - 1, by omega⟩
        rw [if_pos hcovered, if_pos (by omega), hk, List.getElem?_cons_succ]
        congr 1
        omega
      · rw [if_neg hcovered, if_neg (by omega)]

@[simp]
theorem size_patched (image : Image) (offset : Nat) (word : List Byte) :
    (image.patched offset word).bytes.size = max image.bytes.size (offset + word.length) := by
  rw [patched, size_put, size_grow]

/-- Each byte of an image is as it was put in, or as it was before, or a zero in a gap. -/
theorem getElem?_patched (image : Image) {offset i : Nat} {word : List Byte}
    (hi : i < (image.patched offset word).bytes.size) :
    (image.patched offset word).bytes[i]? = some
      (if offset ≤ i ∧ i < offset + word.length then word.getD (i - offset) 0
        else image.bytes.getD i 0) := by
  rw [size_patched] at hi
  rw [patched, getElem?_put word (by rwa [size_grow]), getElem?_grow, if_pos hi]
  split
  · next h =>
    rw [List.getD_eq_getElem?_getD, List.getElem?_eq_getElem (by omega), Option.getD_some]
  · rfl

/-! ## Writes -/

/-- A call to write bytes from an address on. -/
structure Write where
  /-- The address of the first byte. -/
  address : UInt64
  /-- The bytes. -/
  bytes : List Byte
deriving DecidableEq, Repr

namespace Write

/-- The byte that a call stores at an address, if it covers that. -/
def byteAt? (call : Write) (address : Nat) : Option Byte :=
  if call.address.toNat ≤ address then call.bytes[address - call.address.toNat]? else none

/-- An image with a base has room for the bytes of a call. -/
def Fits (base : UInt64) (call : Write) : Prop :=
  base ≤ call.address ∧ call.address.toNat + call.bytes.length ≤ base.toNat + capacity

instance (base : UInt64) (call : Write) : Decidable (call.Fits base) :=
  inferInstanceAs (Decidable (_ ∧ _))

theorem not_fits_iff {base : UInt64} {call : Write} : ¬call.Fits base ↔
    call.address < base ∨ base.toNat + capacity < call.address.toNat + call.bytes.length := by
  rw [Fits, not_and_or, UInt64.not_le, Nat.not_le]

/-- The distance of the first byte from a base. -/
def offset (base : UInt64) (call : Write) : Nat :=
  call.address.toNat - base.toNat

theorem byteAt?_eq {base : UInt64} {call : Write} (hfits : call.Fits base) (i : Nat) :
    call.byteAt? (base.toNat + i) =
      if call.offset base ≤ i ∧ i < call.offset base + call.bytes.length then
        some (call.bytes.getD (i - call.offset base) 0)
      else none := by
  have hle : base.toNat ≤ call.address.toNat := UInt64.le_iff_toNat_le.mp hfits.1
  rw [byteAt?, offset]
  have hindex : base.toNat + i - call.address.toNat =
      i - (call.address.toNat - base.toNat) := by omega
  by_cases hstart : call.address.toNat ≤ base.toNat + i
  · rw [if_pos hstart, hindex]
    by_cases hend : i < call.address.toNat - base.toNat + call.bytes.length
    · rw [if_pos (by omega), List.getD_eq_getElem?_getD, List.getElem?_eq_getElem (by omega),
        Option.getD_some]
    · rw [if_neg (by omega), List.getElem?_eq_none (by omega)]
  · rw [if_neg hstart, if_neg (by omega)]

end Write

/-- The byte that the last of some calls that cover an address stores there. -/
def lastByte? (calls : List Write) (address : Nat) : Option Byte :=
  calls.reverse.findSome? (·.byteAt? address)

theorem lastByte?_concat (calls : List Write) (call : Write) (address : Nat) :
    lastByte? (calls ++ [call]) address =
      (call.byteAt? address).or (lastByte? calls address) := by
  rw [lastByte?, List.reverse_append, List.reverse_singleton, List.singleton_append,
    List.findSome?_cons, lastByte?]
  cases call.byteAt? address <;> rfl

/-- A write succeeds if there is room for it. -/
theorem write_eq (image : Image) (call : Write) : image.write call.address call.bytes =
    if call.Fits image.base then .ok (image.patched (call.offset image.base) call.bytes)
    else .error ⟨.addressOutOfRange call.address (image.base + UInt64.ofNat capacity),
      .nowhere⟩ := by
  rw [write, offset?]
  by_cases hbase : image.base ≤ call.address
  · have hle : image.base.toNat ≤ call.address.toNat := UInt64.le_iff_toNat_le.mp hbase
    rw [if_pos hbase]
    by_cases hend : call.address.toNat - image.base.toNat + call.bytes.length ≤ capacity
    · rw [if_pos (show call.Fits image.base from ⟨hbase, by omega⟩), if_pos hend]
      rfl
    · rw [if_neg (show ¬call.Fits image.base from fun h => hend (by have := h.2; omega)),
        if_neg hend]
  · rw [if_neg hbase, if_neg (fun h => hbase h.1)]

/-- An image with a base holds what some calls have stored: at each address the byte of the last
call that covers it, and zeros in the gaps. -/
structure Holds (base : UInt64) (calls : List Write) (image : Image) : Prop where
  base_eq : image.base = base
  getElem?_eq : ∀ i < image.bytes.size,
    image.bytes[i]? = some ((lastByte? calls (base.toNat + i)).getD 0)
  inside : ∀ call ∈ calls, base.toNat ≤ call.address.toNat ∧
    call.address.toNat + call.bytes.length ≤ base.toNat + image.bytes.size

namespace Holds

variable {base : UInt64} {calls : List Write} {image : Image}

theorem empty (base : UInt64) : Holds base [] (.empty base) where
  base_eq := rfl
  getElem?_eq i hi := absurd hi (Nat.not_lt_zero i)
  inside _ hcall := absurd hcall List.not_mem_nil

/-- No call covers an address that the image does not reach. -/
theorem lastByte?_eq_none (h : Holds base calls image) {i : Nat} (hi : image.bytes.size ≤ i) :
    lastByte? calls (base.toNat + i) = none := by
  rw [lastByte?, List.findSome?_eq_none_iff]
  intro call hcall
  have hinside := h.inside call (List.mem_reverse.mp hcall)
  rw [Write.byteAt?, if_pos (by omega), List.getElem?_eq_none (by omega)]

theorem getD_eq (h : Holds base calls image) (i : Nat) :
    image.bytes.getD i 0 = (lastByte? calls (base.toNat + i)).getD 0 := by
  rw [Array.getD_eq_getD_getElem?]
  by_cases hi : i < image.bytes.size
  · rw [h.getElem?_eq i hi, Option.getD_some]
  · rw [Array.getElem?_eq_none (Nat.not_lt.mp hi), h.lastByte?_eq_none (Nat.not_lt.mp hi)]

/-- What a call stores is added to what is held. -/
theorem patched (h : Holds base calls image) {call : Write} (hfits : call.Fits base) :
    Holds base (calls ++ [call]) (image.patched (call.offset base) call.bytes) where
  base_eq := h.base_eq
  getElem?_eq i hi := by
    rw [getElem?_patched image hi, lastByte?_concat, Write.byteAt?_eq hfits, h.getD_eq]
    split <;> rfl
  inside earlier hearlier := by
    have hle : base.toNat ≤ call.address.toNat := UInt64.le_iff_toNat_le.mp hfits.1
    rw [size_patched, Write.offset]
    rcases List.mem_append.mp hearlier with hmem | hmem
    · have hinside := h.inside earlier hmem
      omega
    · obtain rfl := List.mem_singleton.mp hmem
      omega

end Holds

end Image

/-! ## Sequences of writes -/

namespace Machine

open Image (Write)

variable {w : Machine}

/-- The machine after a call to write, whether it is refused or not. -/
def afterWrite (w : Machine) (call : Write) : Machine :=
  match write call.address call.bytes w with
  | .ok _ w' => w'
  | .error _ w' => w'

/-- The machine after some calls to write. -/
def afterWrites (w : Machine) (calls : List Write) : Machine :=
  calls.foldl afterWrite w

/-- The calls of a sequence that succeed, each being made of the machine that those before it have
left. -/
def accepted : Machine → List Write → List Write
  | _, [] => []
  | w, call :: rest =>
    match write call.address call.bytes w with
    | .ok _ w' => call :: accepted w' rest
    | .error _ w' => accepted w' rest

theorem write_eq_of_fits {call : Write} (h : call.Fits w.image.base) :
    write call.address call.bytes w =
      .ok () { w with image := w.image.patched (call.offset w.image.base) call.bytes } := by
  rw [write, Image.write_eq, if_pos h]

theorem write_eq_of_not_fits {call : Write} (h : ¬call.Fits w.image.base) :
    write call.address call.bytes w = .error ⟨.addressOutOfRange call.address
      (w.image.base + UInt64.ofNat Image.capacity), .nowhere⟩ w := by
  rw [write, Image.write_eq, if_neg h]

theorem base_afterWrites (w : Machine) (calls : List Write) :
    (w.afterWrites calls).image.base = w.image.base := by
  induction calls generalizing w with
  | nil => rfl
  | cons call rest ih =>
    rw [afterWrites, List.foldl_cons, ← afterWrites, ih, afterWrite]
    by_cases h : call.Fits w.image.base
    · rw [write_eq_of_fits h]
      rfl
    · rw [write_eq_of_not_fits h]

/-- Calls to write add what they store to what an image holds, those that are refused nothing. -/
theorem holds_afterWrites {base : UInt64} {stored : List Write} (calls : List Write)
    (h : w.image.Holds base stored) :
    (w.afterWrites calls).image.Holds base (stored ++ w.accepted calls) := by
  induction calls generalizing w stored with
  | nil => rwa [afterWrites, List.foldl_nil, accepted, List.append_nil]
  | cons call rest ih =>
    obtain rfl := h.base_eq
    rw [afterWrites, List.foldl_cons, ← afterWrites, afterWrite, accepted]
    by_cases hfits : call.Fits w.image.base
    · rw [write_eq_of_fits hfits, List.append_cons]
      exact ih (w := { w with image := _ }) (h.patched hfits)
    · rw [write_eq_of_not_fits hfits]
      exact ih h

/-- Writes to an empty image: each is refused if and only if it starts below the base or ends
beyond the capacity, and then leaves the machine alone. Afterwards each byte of the image is the one
that the last accepted write to cover it has stored, or 0 if there is none, and no accepted write
reaches beyond the image. -/
theorem last_write_wins (w : Machine) (calls : List Write) :
    let start := w.withEmptyImage
    let base := w.image.base.toNat
    let image := (start.afterWrites calls).image
    (∀ call : Write,
      ((∃ failure w', write call.address call.bytes (start.afterWrites calls) =
          .error failure w') ↔
        call.address < w.image.base ∨
          base + Image.capacity < call.address.toNat + call.bytes.length) ∧
      ∀ failure w', write call.address call.bytes (start.afterWrites calls) =
        .error failure w' → w' = start.afterWrites calls) ∧
    (∀ i (h : i < image.bytes.size),
      image.bytes[i] = (Image.lastByte? (start.accepted calls) (base + i)).getD 0) ∧
    ∀ call ∈ start.accepted calls, base ≤ call.address.toNat ∧
      call.address.toNat + call.bytes.length ≤ base + image.bytes.size := by
  intro start base image
  have hholds : image.Holds w.image.base (start.accepted calls) :=
    holds_afterWrites (w := start) calls (Image.Holds.empty w.image.base)
  have hbase : (start.afterWrites calls).image.base = w.image.base := base_afterWrites start calls
  refine ⟨fun call => ?_, fun i hi => ?_, hholds.inside⟩
  · -- a write that fits cannot fail, and one that does not fit can do nothing else
    rw [← Write.not_fits_iff, ← hbase]
    by_cases hfits : call.Fits (start.afterWrites calls).image.base
    · rw [write_eq_of_fits hfits]
      refine ⟨iff_of_false (fun ⟨_, _, h⟩ => ?_) (not_not.mpr hfits), fun _ _ h => ?_⟩
      · cases h
      · cases h
    · rw [write_eq_of_not_fits hfits]
      refine ⟨iff_of_true ⟨_, _, rfl⟩ hfits, fun failure w' h => ?_⟩
      cases h
      rfl
  · have hbyte := hholds.getElem?_eq i hi
    rwa [Array.getElem?_eq_getElem hi, Option.some.injEq] at hbyte

end Machine

end InlineA64
