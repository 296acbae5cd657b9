import InlineA64.Machine.Basic
import InlineA64.Proofs.Block.History
import InlineA64.Proofs.Block.Layout

/-!
# The limit

The limit is looked at between items. So it is a bound on where an item may start, and the bytes of
the item can lie behind it: those of one item reach no further than 256 bytes
(`Block.writes_within_limit`).
-/

namespace InlineA64

variable {σ Slot : Type}

/-- All but alignments write their bytes in one go. -/
theorem Item.Emits.eq_nil_of_append {item : Item} {done rest : List (List Byte)}
    {bytes : List Byte} (h : item.Emits (done ++ bytes :: rest)) (halign : item.aligns = false) :
    done = [] := by
  -- an item with one chunk has none before it
  have hone {chunk : List Byte} (hchunk : done ++ bytes :: rest = [chunk]) : done = [] := by
    rcases List.append_eq_singleton_iff.mp hchunk with ⟨hdone, -⟩ | ⟨-, hnil⟩
    · exact hdone
    · exact absurd hnil (List.cons_ne_nil _ _)
  cases item with
  | close | separator | comment | label => exact h.elim
  | statement meaning? =>
    rcases meaning? with _ | (d | i | _)
    · exact h.elim
    · cases d with
      | align | word => cases halign
      | data | string =>
        obtain ⟨_, -, hchunks⟩ := h
        exact hone hchunks
      | byte | half | quad =>
        obtain ⟨_, hchunks⟩ := h
        exact hone hchunks
      | options => exact h.elim
    · cases halign
    · exact h.elim

/-- No item moves the limit. -/
theorem Effect.limit_eq {item : Item} {p p' : Position} {calls : List (Call Slot)}
    (h : Effect item p calls p') : p'.placement.limit = p.placement.limit := by
  cases h with
  | close | separator | comment | options => rfl
  | label p slot =>
    rw [Position.labelled]
    split <;> rfl
  | lay h =>
    cases h
    rw [Item.placed]
    split <;> rfl

namespace Story

variable {p : Position} {e : Entry Slot} {entries : List (Entry Slot)} {failure : Option Failure}

theorem limit_eq (h : Story p entries failure) (he : e ∈ entries) :
    e.before.placement.limit = p.placement.limit :=
  h.invariant (motive := fun q => q.placement.limit = p.placement.limit) rfl
    (fun _ _ heffect hlimit => heffect.limit_eq.trans hlimit) e he

/-- An item that writes starts where writing is allowed, and all that it writes is within 256 bytes
of there. -/
theorem write_of_mem (h : Story p entries failure) (he : e ∈ entries) {address : UInt64}
    {bytes : List Byte} (hwrite : .write address bytes ∈ e.calls) :
    e.before.placement.atLimit = false ∧ ∃ offset,
      address = e.before.placement.writeAddress + UInt64.ofNat offset ∧
      offset + bytes.length ≤ 256 ∧ (e.item.aligns = false → offset = 0) := by
  rcases h.cases_of_mem he with ⟨hlimit, hdone⟩ | ⟨-, hnone, -⟩
  · refine ⟨hlimit, ?_⟩
    obtain ⟨done, rest, hemits, rfl⟩ : ∃ done rest, e.item.Emits (done ++ bytes :: rest) ∧
        address = (e.item.placed e.before.settled).placement.writeAddress +
          UInt64.ofNat done.flatten.length := by
      rcases hdone with heffect | hfailing
      · obtain ⟨done, rest, hemits, haddress, -⟩ := heffect.write_of_mem hwrite
        exact ⟨done, rest, hemits, haddress⟩
      · exact hfailing.write_of_mem hwrite
    obtain ⟨pad, hpad, hplaced⟩ := e.item.placed_eq_advance e.before
    -- the padding counts as much as the chunks before this one
    refine ⟨pad + done.flatten.length, ?_, ?_, fun halign => ?_⟩
    · rw [hplaced, Placement.writeAddress_advance, UInt64.ofNat_add, UInt64.add_assoc]
    · have htotal := hemits.length_le
      rw [List.flatten_append, List.flatten_cons, List.length_append, List.length_append] at htotal
      omega
    · rw [halign, if_neg Bool.false_ne_true] at hpad
      rw [hemits.eq_nil_of_append halign, Nat.le_zero.mp hpad]
      rfl
  · rw [hnone] at hwrite
    exact absurd hwrite List.not_mem_nil

end Story

namespace Placement

/-- A placement at 0x1000 with a limit that is checked. -/
def limited (limit : UInt64) : Placement :=
  ((ofOrigin 0x1000).withLimit limit).withOptions (.ofInt 8)

variable {s : Placement}

theorem atLimit_iff (h : s.options.limitCheck = true) :
    s.atLimit = true ↔ s.limit ≤ s.writeAddress := by
  rw [atLimit, h, Bool.true_and, decide_eq_true_eq]

theorem atLimit_eq_false_iff (h : s.options.limitCheck = true) :
    s.atLimit = false ↔ s.writeAddress < s.limit := by
  rw [← Bool.not_eq_true, atLimit_iff h, UInt64.not_le]

end Placement

namespace Block

variable [DecidableEq Slot] {env : Environment σ Slot} {placement : Placement} {state : σ}
  {cursor : Cursor}

/-- While the limit is checked, whatever is written belongs to an item that starts below the limit,
and lies within 256 bytes of that start; unless the item is aligned, its first byte is below the
limit. An item that would start at the limit or beyond makes no call: it is the last that is looked
at, and the block fails because of it. -/
theorem writes_within_limit
    (hcheck : ∀ e ∈ history env placement state cursor,
      e.before.placement.options.limitCheck = true) :
    (∀ address bytes, .write address bytes ∈ calls env placement state cursor →
      ∃ e ∈ history env placement state cursor, .write address bytes ∈ e.calls ∧
        e.before.placement.writeAddress < placement.limit ∧ ∃ offset,
          address = e.before.placement.writeAddress + UInt64.ofNat offset ∧
          offset + bytes.length ≤ 256 ∧ (e.item.aligns = false → offset = 0)) ∧
    ∀ e ∈ history env placement state cursor,
      placement.limit ≤ e.before.placement.writeAddress →
        e.calls = [] ∧ (history env placement state cursor).getLast? = some e ∧
        ∃ failure, (assemble env placement state cursor).failure = some failure ∧
          failure.fault =
            .addressOutOfRange e.before.placement.writeAddress placement.limit := by
  obtain ⟨hstory, hcalls⟩ := story_of_assemble env placement state cursor
  constructor
  · intro address bytes hwrite
    rw [hcalls, List.mem_flatMap] at hwrite
    obtain ⟨e, he, hwrite⟩ := hwrite
    obtain ⟨hlimit, hoffset⟩ := hstory.write_of_mem he hwrite
    rw [Placement.atLimit_eq_false_iff (hcheck e he), hstory.limit_eq he] at hlimit
    exact ⟨e, he, hwrite, hlimit, hoffset⟩
  · -- of what can become of an item, only the stop at the limit is left
    intro e he hreached
    have hlimit : e.before.placement.atLimit = true := by
      rwa [Placement.atLimit_iff (hcheck e he), hstory.limit_eq he]
    rcases hstory.cases_of_mem he with ⟨hbelow, -⟩ | ⟨-, hnone, hlast, failure, hfailure, hfault⟩
    · rw [hlimit] at hbelow
      cases hbelow
    · rw [hstory.limit_eq he] at hfault
      exact ⟨hnone, hlast, failure, hfailure, hfault⟩

/-- Two instructions, and a limit behind the first. -/
theorem writes_within_limit_reached :
    (∀ e ∈ history Machine.environment (.limited 0x1004) (.ofBase 0x1000) (.ofString "NOP:NOP"),
      e.before.placement.options.limitCheck = true) ∧
    (∃ e ∈ history Machine.environment (.limited 0x1004) (.ofBase 0x1000) (.ofString "NOP:NOP"),
      .write 0x1000 [0x1f, 0x20, 0x03, 0xd5] ∈ e.calls ∧
        e.before.placement.writeAddress < 0x1004) ∧
    ∃ failure,
      (assemble Machine.environment (.limited 0x1004) (.ofBase 0x1000)
        (.ofString "NOP:NOP")).failure = some failure ∧
      failure.fault = .addressOutOfRange 0x1004 0x1004 := by
  -- the separator is where the limit is noticed
  let reached : Position := ⟨(Placement.limited 0x1004).advance 4, 0x1000, false⟩
  obtain ⟨hcheck, hwrite, hseparator⟩ :
      (∀ e ∈ history Machine.environment (.limited 0x1004) (.ofBase 0x1000)
        (.ofString "NOP:NOP"), e.before.placement.options.limitCheck = true) ∧
      .write 0x1000 [0x1f, 0x20, 0x03, 0xd5] ∈
        calls Machine.environment (.limited 0x1004) (.ofBase 0x1000) (.ofString "NOP:NOP") ∧
      ⟨.separator, reached, [], reached⟩ ∈
        history Machine.environment (.limited 0x1004) (.ofBase 0x1000) (.ofString "NOP:NOP") := by
    decide +kernel
  obtain ⟨hwrites, hreached⟩ := writes_within_limit hcheck
  obtain ⟨e, he, hwrite, hbelow, -⟩ := hwrites _ _ hwrite
  obtain ⟨-, -, failure, hfailure, hfault⟩ := hreached _ hseparator (by decide)
  exact ⟨hcheck, ⟨e, he, hwrite, hbelow⟩, failure, hfailure, hfault⟩

/-- An instruction that starts below the limit and is aligned to an address behind it. -/
theorem limit_overrun :
    (∀ e ∈ history Machine.environment (.limited 0x1004) (.ofBase 0x1000)
      (.ofString "EQUB 1:NOP"), e.before.placement.options.limitCheck = true) ∧
    ¬ ∀ address bytes, .write address bytes ∈
      calls Machine.environment (.limited 0x1004) (.ofBase 0x1000) (.ofString "EQUB 1:NOP") →
        ∀ k < bytes.length, address + UInt64.ofNat k < 0x1004 := by
  obtain ⟨hcheck, hwrite⟩ :
      (∀ e ∈ history Machine.environment (.limited 0x1004) (.ofBase 0x1000)
        (.ofString "EQUB 1:NOP"), e.before.placement.options.limitCheck = true) ∧
      .write 0x1004 [0x1f, 0x20, 0x03, 0xd5] ∈
        calls Machine.environment (.limited 0x1004) (.ofBase 0x1000)
          (.ofString "EQUB 1:NOP") := by
    decide +kernel
  exact ⟨hcheck, fun h => absurd (h _ _ hwrite 0 (by decide)) (by decide)⟩

end Block

end InlineA64
