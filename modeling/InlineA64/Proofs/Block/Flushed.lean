import InlineA64.Machine.Basic
import InlineA64.Proofs.Block.History
import InlineA64.Proofs.Block.Layout

/-!
# What is flushed

At the end of a statement that is assembled in place, all from its start on is flushed. The
statement starts anew at each item that is aligned: what was written before such an item in the same
statement is not flushed, and everything else is (`Block.flushed_iff_not_realigned`).

The invariant of what remains to be flushed is that the start of the statement does not lie behind
the bytes, nor the end of the code before them.
-/

namespace InlineA64

variable {σ Slot : Type}

/-! ## Addresses -/

/-- What is added to an address does not wrap around if the sum is no less. -/
theorem toNat_add_of_le {a b : UInt64} (h : a ≤ a + b) :
    (a + b).toNat = a.toNat + b.toNat := by
  rw [UInt64.le_iff_toNat_le, UInt64.toNat_add] at h
  rw [UInt64.toNat_add]
  have ha := a.toNat_lt
  have hb := b.toNat_lt
  omega

section

variable {item : Item} {p p' : Position} {calls : List (Call Slot)}

/-- How far an item that lays something out moves the end of the code, if it does not wrap
around. -/
theorem Item.Emits.toNat_moved {chunks : List (List Byte)} (h : item.Emits chunks)
    (hle : p.placement.logical ≤
      ((item.placed p.settled).moved chunks.flatten.length).placement.logical) :
    ∃ pad, (item.placed p.settled).placement.logical.toNat = p.placement.logical.toNat + pad ∧
      ((item.placed p.settled).moved chunks.flatten.length).placement.logical.toNat =
        p.placement.logical.toNat + pad + chunks.flatten.length := by
  obtain ⟨pad, hpad, hplaced⟩ := item.placed_eq_advance p
  have htotal := h.length_le
  have hlogical : (item.placed p.settled).placement.logical =
      p.placement.logical + UInt64.ofNat pad := by rw [hplaced]; rfl
  have hmoved : ((item.placed p.settled).moved chunks.flatten.length).placement.logical =
      p.placement.logical + UInt64.ofNat (pad + chunks.flatten.length) := by
    rw [UInt64.ofNat_add, ← UInt64.add_assoc, ← hlogical]
    rfl
  -- padding and bytes make one small sum, which wraps around or not as a whole
  rw [hmoved] at hle ⊢
  have hsum := toNat_add_of_le hle
  rw [UInt64.toNat_ofNat', Nat.mod_eq_of_lt (by omega)] at hsum
  refine ⟨pad, ?_, by omega⟩
  have hlt := (p.placement.logical + UInt64.ofNat (pad + chunks.flatten.length)).toNat_lt
  rw [hlogical, UInt64.toNat_add, UInt64.toNat_ofNat']
  omega

/-! ## Items -/

namespace Position

variable {start stop : UInt64}

theorem mem_flushes : (.flush start stop : Call Slot) ∈ p.flushes ↔
    p.placement.options.offset = false ∧ p.placement.logical ≠ p.address ∧
      start = p.address ∧ stop = p.placement.logical := by
  have hcond : (!p.placement.options.offset && p.placement.logical != p.address) = true ↔
      p.placement.options.offset = false ∧ p.placement.logical ≠ p.address := by
    rw [Bool.and_eq_true, Bool.not_eq_true', bne_iff_ne]
  rw [flushes, ← and_assoc, ← hcond]
  split
  · next h => simp only [List.mem_singleton, Call.flush.injEq, h, true_and]
  · next h => simp only [List.not_mem_nil, h, Bool.false_eq_true, false_and]

end Position

namespace Effect

/-- Only the ends of statements flush. -/
theorem flush_of_mem (h : Effect item p calls p') {start stop : UInt64}
    (hflush : .flush start stop ∈ calls) :
    (item = .close ∨ item = .separator) ∧ start = p.address ∧ stop = p.placement.logical := by
  cases h with
  | close => exact ⟨.inl rfl, (Position.mem_flushes.mp hflush).2.2⟩
  | separator => exact ⟨.inr rfl, (Position.mem_flushes.mp hflush).2.2⟩
  | comment => exact absurd hflush List.not_mem_nil
  | label | options => simp at hflush
  | lay h =>
    -- nothing but evaluations and writes
    obtain ⟨n, hemits⟩ := h
    rcases List.mem_append.mp hflush with h | h
    · cases List.eq_of_mem_replicate h
    · exact absurd h Call.flush_not_mem_writes

/-- A statement that has code is flushed where it ends. -/
theorem flush_of_ends (h : Effect item p calls p') (hends : item = .close ∨ item = .separator)
    (hoffset : p.placement.options.offset = false) (hcode : p.address ≠ p.placement.logical) :
    .flush p.address p.placement.logical ∈ calls := by
  have hflush : (.flush p.address p.placement.logical : Call Slot) ∈ p.flushes :=
    Position.mem_flushes.mpr ⟨hoffset, hcode.symm, rfl, rfl⟩
  cases h with
  | close | separator => exact hflush
  | comment | label | options => rcases hends with h | h <;> cases h
  | lay h =>
    obtain ⟨n, hemits⟩ := h
    rcases hends with rfl | rfl <;> exact hemits.elim

/-- An item that is aligned has the statement start anew, at or behind the end of the code. -/
theorem address_of_aligns (h : Effect item p calls p')
    (hle : p.placement.logical ≤ p'.placement.logical) (halign : item.aligns = true) :
    p.placement.logical.toNat ≤ p'.address.toNat ∧
      p'.address.toNat ≤ p'.placement.logical.toNat := by
  cases h with
  | close | separator | comment | label | options => cases halign
  | lay h =>
    obtain ⟨n, hemits⟩ := h
    obtain ⟨pad, hplaced, hmoved⟩ := hemits.toNat_moved hle
    have haddress : (item.placed p.settled).address =
        (item.placed p.settled).placement.logical := by
      rw [Item.placed, if_pos halign]
      rfl
    rw [hmoved]
    change _ ≤ (item.placed p.settled).address.toNat ∧ (item.placed p.settled).address.toNat ≤ _
    rw [haddress]
    omega

/-- The statement goes on, or it starts anew at or behind the end of the code. -/
theorem address_cases (h : Effect item p calls p')
    (hle : p.placement.logical ≤ p'.placement.logical) :
    p'.address = p.address ∨ (p.placement.logical.toNat ≤ p'.address.toNat ∧
      p'.address.toNat ≤ p'.placement.logical.toNat) := by
  cases halign : item.aligns with
  | true => exact .inr (h.address_of_aligns hle halign)
  | false =>
    cases h with
    | close | comment | options => exact .inl rfl
    | separator => exact .inr ⟨Nat.le_refl _, Nat.le_refl _⟩
    | label p slot =>
      -- a label is aligned at the start of a block only
      rw [Position.labelled] at hle ⊢
      split at hle
      · next hfresh =>
        rw [if_pos hfresh]
        exact .inr ⟨UInt64.le_iff_toNat_le.mp hle, Nat.le_refl _⟩
      · next hfresh =>
        rw [if_neg hfresh]
        exact .inl rfl
    | lay h =>
      cases h
      rw [Item.placed, halign]
      exact .inl rfl

/-- When a block has had an instruction or data, the statement goes on until an item is aligned. -/
theorem address_eq (h : Effect item p calls p') (hfresh : p.fresh = false)
    (hseparator : item ≠ .separator) (halign : item.aligns = false) :
    p'.address = p.address ∧ p'.fresh = false := by
  cases h with
  | close | comment | options => exact ⟨rfl, hfresh⟩
  | separator => exact absurd rfl hseparator
  | label p slot =>
    rw [Position.labelled, hfresh]
    exact ⟨rfl, hfresh⟩
  | lay h =>
    cases h
    rw [Item.placed, halign]
    exact ⟨rfl, rfl⟩

/-- The ends of statements write nothing. -/
theorem not_ends_of_write (h : Effect item p calls p') {address : UInt64} {bytes : List Byte}
    (hwrite : .write address bytes ∈ calls) : item ≠ .close ∧ item ≠ .separator := by
  obtain ⟨done, rest, hemits, -⟩ := h.write_of_mem hwrite
  constructor <;> rintro rfl <;> exact hemits.elim

/-- A byte that an item writes in place lies between the ends of the code before the item and behind
it, and not before the start of the statement. -/
theorem write_between (h : Effect item p calls p')
    (hle : p.placement.logical ≤ p'.placement.logical)
    (hoffset : p.placement.options.offset = false)
    (hp : p.address.toNat ≤ p.placement.logical.toNat) {address : UInt64} {bytes : List Byte}
    (hwrite : .write address bytes ∈ calls) {k : Nat} (hk : k < bytes.length) :
    p'.fresh = false ∧ p.placement.logical.toNat ≤ address.toNat + k ∧
      address.toNat + k < p'.placement.logical.toNat ∧ p'.address.toNat ≤ address.toNat + k := by
  obtain ⟨done, rest, hemits, rfl, rfl⟩ := h.write_of_mem hwrite
  obtain ⟨pad, hplaced, hmoved⟩ := hemits.toNat_moved hle
  have hlt := ((item.placed p.settled).moved
    (done ++ bytes :: rest).flatten.length).placement.logical.toNat_lt
  have hlength : done.flatten.length + bytes.length ≤ (done ++ bytes :: rest).flatten.length := by
    rw [List.flatten_append, List.flatten_cons, List.length_append, List.length_append]
    omega
  have hinPlace : (item.placed p.settled).placement.writeAddress =
      (item.placed p.settled).placement.logical := by
    obtain ⟨pad, -, hplaced⟩ := item.placed_eq_advance p
    rw [hplaced, Placement.writeAddress, Placement.advance, hoffset]
    rfl
  have haddress : ((item.placed p.settled).placement.writeAddress +
      UInt64.ofNat done.flatten.length).toNat =
        p.placement.logical.toNat + pad + done.flatten.length := by
    rw [hinPlace, UInt64.toNat_add, UInt64.toNat_ofNat', hplaced]
    omega
  -- if it is not aligned, the statement goes on
  have hstart : (item.placed p.settled).address.toNat ≤ p.placement.logical.toNat + pad := by
    rw [← hplaced, Item.placed]
    split
    · exact Nat.le_refl _
    · exact hp
  rw [haddress, hmoved]
  refine ⟨?_, by omega, by omega, Nat.le_trans hstart (by omega)⟩
  change (item.placed p.settled).fresh = false
  rw [Item.placed]
  split <;> rfl

end Effect

end

/-! ## Stories -/

namespace Entry

variable {e : Entry Slot} {entries done rest : List (Entry Slot)}

/-- What comes before the next separator. -/
def restOfStatement (entries : List (Entry Slot)) : List (Entry Slot) :=
  entries.takeWhile (·.item != .separator)

theorem restOfStatement_cons (h : e.item ≠ .separator) :
    restOfStatement (e :: entries) = e :: restOfStatement entries :=
  List.takeWhile_cons_of_pos (bne_iff_ne.mpr h)

theorem restOfStatement_separator (h : e.item = .separator) :
    restOfStatement (e :: entries) = [] :=
  List.takeWhile_cons_of_neg (by rw [h]; decide)

/-- Code is written where it is to run, and its addresses do not wrap around. -/
structure InPlace (entries : List (Entry Slot)) : Prop where
  offset : ∀ e ∈ entries, e.before.placement.options.offset = false
  advances : ∀ e ∈ entries, e.before.placement.logical ≤ e.after.placement.logical

theorem InPlace.of_append (h : InPlace (done ++ rest)) : InPlace rest where
  offset e he := h.offset e (List.mem_append_right done he)
  advances e he := h.advances e (List.mem_append_right done he)

theorem InPlace.of_cons (h : InPlace (e :: rest)) : InPlace rest where
  offset x hx := h.offset x (List.mem_cons_of_mem e hx)
  advances x hx := h.advances x (List.mem_cons_of_mem e hx)

end Entry

open Entry (restOfStatement InPlace restOfStatement_cons restOfStatement_separator)

namespace Story

variable {p : Position} {e : Entry Slot} {entries done rest : List (Entry Slot)}
  {start stop : UInt64} {x : Nat}

/-- The end of the code does not move back. -/
theorem logical_le (h : Story p entries none) (hplace : InPlace entries) (he : e ∈ entries) :
    p.placement.logical.toNat ≤ e.before.placement.logical.toNat :=
  h.invariant (motive := fun q => p.placement.logical.toNat ≤ q.placement.logical.toNat)
    (Nat.le_refl _) (fun e he _ hle =>
      Nat.le_trans hle (UInt64.le_iff_toNat_le.mp (hplace.advances e he))) e he

theorem logical_le_of_mem (h : Story p (done ++ e :: rest) none)
    (hplace : InPlace (done ++ e :: rest)) {f : Entry Slot} (hf : f ∈ done) :
    f.before.placement.logical.toNat ≤ e.before.placement.logical.toNat := by
  -- the item is part of the story from `f` on
  obtain ⟨first, last, rfl⟩ := List.append_of_mem hf
  rw [List.append_assoc, List.cons_append] at h hplace
  exact h.split.logical_le hplace.of_append
    (List.mem_cons_of_mem f (List.mem_append_right last List.mem_cons_self))

/-- A statement does not start behind the end of the code. -/
theorem address_le (h : Story p entries none) (hplace : InPlace entries)
    (hp : p.address.toNat ≤ p.placement.logical.toNat) (he : e ∈ entries) :
    e.before.address.toNat ≤ e.before.placement.logical.toNat := by
  refine h.invariant (motive := fun q => q.address.toNat ≤ q.placement.logical.toNat) hp
    (fun e he heffect hle => ?_) e he
  have hadvances := UInt64.le_iff_toNat_le.mp (hplace.advances e he)
  rcases heffect.address_cases (hplace.advances e he) with heq | ⟨-, hle⟩
  · rw [heq]
    omega
  · exact hle

/-- What is flushed ends where the code ended at some item. -/
theorem flush_of_mem (h : Story p entries none)
    (hflush : .flush start stop ∈ entries.flatMap Entry.calls) :
    ∃ e ∈ entries, (e.item = .close ∨ e.item = .separator) ∧
      start = e.before.address ∧ stop = e.before.placement.logical := by
  obtain ⟨e, he, hflush⟩ := List.mem_flatMap.mp hflush
  exact ⟨e, he, (h.effect_of_mem he).flush_of_mem hflush⟩

/-- What the statement has written since its start is flushed when it ends, unless an item is
aligned before. -/
theorem flushed (h : Story p entries none) (hplace : InPlace entries) (hfresh : p.fresh = false)
    (hstart : p.address.toNat ≤ x) (hstop : x < p.placement.logical.toNat)
    (halign : ∀ e ∈ restOfStatement entries, e.item.aligns = false) :
    ∃ start stop, .flush start stop ∈ entries.flatMap Entry.calls ∧
      start.toNat ≤ x ∧ x < stop.toNat := by
  -- as long as the statement goes on, the byte lies between its start and the end of the code
  have hcode {q : Position} (hstart : q.address.toNat ≤ x) (hstop : x < q.placement.logical.toNat) :
      q.address ≠ q.placement.logical := fun heq => by
    rw [heq] at hstart
    omega
  generalize hnone : none = failure at h
  induction h with
  | stop _ heffect =>
    have hoffset := hplace.offset _ List.mem_cons_self
    have hflush := heffect.flush_of_ends (.inl rfl) hoffset (hcode hstart hstop)
    exact ⟨_, _, List.mem_append_left [] hflush, hstart, hstop⟩
  | fail | limit => cases hnone
  | @more e entries failure _ hclose heffect hrest ih =>
    by_cases hseparator : e.item = .separator
    · have hoffset := hplace.offset e List.mem_cons_self
      have hflush := heffect.flush_of_ends (.inr hseparator) hoffset (hcode hstart hstop)
      exact ⟨_, _, List.mem_append_left _ hflush, hstart, hstop⟩
    · rw [restOfStatement_cons hseparator] at halign
      have hadvances := UInt64.le_iff_toNat_le.mp (hplace.advances e List.mem_cons_self)
      obtain ⟨haddress, hfresh⟩ :=
        heffect.address_eq hfresh hseparator (halign e List.mem_cons_self)
      obtain ⟨start, stop, hflush, hx⟩ := ih hplace.of_cons hfresh
        (by rwa [haddress]) (by omega) (fun e he => halign e (List.mem_cons_of_mem _ he)) hnone
      exact ⟨start, stop, List.mem_append_right e.calls hflush, hx⟩

/-- What lies before the start of a statement is not flushed any more. -/
theorem lt_of_flush (h : Story p entries none) (hplace : InPlace entries)
    (haddress : x < p.address.toNat) (hlogical : x < p.placement.logical.toNat)
    (hflush : .flush start stop ∈ entries.flatMap Entry.calls) : x < start.toNat := by
  obtain ⟨e, he, -, rfl, -⟩ := h.flush_of_mem hflush
  refine (h.invariant (motive := fun q => x < q.address.toNat ∧ x < q.placement.logical.toNat)
    ⟨haddress, hlogical⟩ (fun e he heffect hx => ?_) e he).1
  have hadvances := UInt64.le_iff_toNat_le.mp (hplace.advances e he)
  -- a statement goes on from where it started, or starts where the code ends by then
  rcases heffect.address_cases (hplace.advances e he) with heq | ⟨hle, -⟩
  · rw [heq]
    omega
  · omega

/-- What was written before an item of the same statement that is aligned is not flushed. -/
theorem lt_of_flush_of_aligns (h : Story p entries none) (hplace : InPlace entries)
    (hlogical : x < p.placement.logical.toNat)
    (halign : ∃ e ∈ restOfStatement entries, e.item.aligns = true)
    (hflush : .flush start stop ∈ entries.flatMap Entry.calls) : x < start.toNat := by
  generalize hnone : none = failure at h
  induction h with
  | stop _ heffect =>
    obtain ⟨e, he, halign⟩ := halign
    rw [List.mem_singleton.mp (List.takeWhile_subset _ he)] at halign
    cases halign
  | fail | limit => cases hnone
  | @more e entries failure _ hclose heffect hrest ih =>
    subst hnone
    have hadvances := UInt64.le_iff_toNat_le.mp (hplace.advances e List.mem_cons_self)
    have hplace' : InPlace entries := hplace.of_cons
    have hseparator : e.item ≠ .separator := fun hseparator => by
      rw [restOfStatement_separator hseparator] at halign
      obtain ⟨_, he, -⟩ := halign
      exact absurd he List.not_mem_nil
    -- the item does not end the statement, so it flushes nothing
    rcases List.mem_append.mp hflush with hflush | hflush
    · rcases (heffect.flush_of_mem hflush).1 with h | h
      · exact absurd h hclose
      · exact absurd h hseparator
    rw [restOfStatement_cons hseparator] at halign
    -- from the item that is aligned on, the byte lies before the start of the statement
    obtain ⟨aligned, he, halign⟩ := halign
    rcases List.mem_cons.mp he with heq | he
    · rw [heq] at halign
      have haddress :=
        (heffect.address_of_aligns (hplace.advances _ List.mem_cons_self) halign).1
      exact hrest.lt_of_flush hplace' (by omega) (by omega) hflush
    · exact ih hplace' (by omega) ⟨aligned, he, halign⟩ hflush rfl

end Story

namespace Block

variable [DecidableEq Slot] {env : Environment σ Slot} {placement : Placement} {state : σ}
  {cursor : Cursor}

/-- In a block that is assembled in place, a byte that is written is flushed if and only if no item
is aligned behind it in its statement. -/
theorem flushed_iff_not_realigned
    (hsuccess : (assemble env placement state cursor).failure = none)
    (hplace : InPlace (history env placement state cursor)) {done rest : List (Entry Slot)}
    {e : Entry Slot} (hhistory : history env placement state cursor = done ++ e :: rest)
    {address : UInt64} {bytes : List Byte} (hwrite : .write address bytes ∈ e.calls) {k : Nat}
    (hk : k < bytes.length) :
    (∃ start stop, .flush start stop ∈ calls env placement state cursor ∧
      start.toNat ≤ address.toNat + k ∧ address.toNat + k < stop.toNat) ↔
    ∀ x ∈ restOfStatement rest, x.item.aligns = false := by
  obtain ⟨hstory, hcalls⟩ := story_of_assemble env placement state cursor
  rw [hsuccess, hhistory] at hstory
  rw [hhistory] at hplace
  rw [hcalls, hhistory]
  have he : e ∈ done ++ e :: rest := List.mem_append_right done List.mem_cons_self
  have heffect := hstory.effect_of_mem he
  obtain ⟨hfresh, hlogical, hstop, hstart⟩ := heffect.write_between (hplace.advances e he)
    (hplace.offset e he) (hstory.address_le hplace (Nat.le_refl _) he) hwrite hk
  obtain ⟨hclose, hseparator⟩ := heffect.not_ends_of_write hwrite
  have hrest : Story e.after rest none := hstory.split.tail_of_ne_close hclose
  have hplace' : InPlace rest := hplace.of_append.of_cons
  rw [List.flatMap_append, List.flatMap_cons]
  constructor
  · rintro ⟨first, last, hflush, hle, hlt⟩ x hx
    refine Bool.eq_false_iff.mpr fun halign => ?_
    rcases List.mem_append.mp hflush with hflush | hflush
    · -- what is flushed before the item ends where the code ended by then
      obtain ⟨f, hf, hflush⟩ := List.mem_flatMap.mp hflush
      obtain ⟨-, -, rfl⟩ :=
        (hstory.effect_of_mem (List.mem_append_left _ hf)).flush_of_mem hflush
      have hbefore := hstory.logical_le_of_mem hplace hf
      omega
    rcases List.mem_append.mp hflush with hflush | hflush
    · rcases (heffect.flush_of_mem hflush).1 with h | h
      · exact hclose h
      · exact hseparator h
    · have hbehind := hrest.lt_of_flush_of_aligns hplace' hstop ⟨x, hx, halign⟩ hflush
      omega
  · intro halign
    obtain ⟨first, last, hflush, hx⟩ := hrest.flushed hplace' hfresh hstart hstop halign
    exact ⟨first, last, List.mem_append_right _ (List.mem_append_right _ hflush), hx⟩

/-- Two instructions in statements of their own: the first is flushed. -/
theorem flushed_iff_not_realigned_separate :
    (assemble Machine.environment (.ofOrigin 0x1000) (.ofBase 0x1000)
      (.ofString "NOP:NOP")).failure = none ∧
    InPlace (history Machine.environment (.ofOrigin 0x1000) (.ofBase 0x1000)
      (.ofString "NOP:NOP")) ∧
    ∃ start stop, .flush start stop ∈ calls Machine.environment (.ofOrigin 0x1000)
      (.ofBase 0x1000) (.ofString "NOP:NOP") ∧
        start.toNat ≤ 0x1000 + 3 ∧ 0x1000 + 3 < stop.toNat := by
  obtain ⟨hsuccess, hoffset, hadvances, hitems⟩ :
      (assemble Machine.environment (.ofOrigin 0x1000) (.ofBase 0x1000)
        (.ofString "NOP:NOP")).failure = none ∧
      (∀ e ∈ history Machine.environment (.ofOrigin 0x1000) (.ofBase 0x1000)
        (.ofString "NOP:NOP"), e.before.placement.options.offset = false) ∧
      (∀ e ∈ history Machine.environment (.ofOrigin 0x1000) (.ofBase 0x1000)
        (.ofString "NOP:NOP"), e.before.placement.logical ≤ e.after.placement.logical) ∧
      (history Machine.environment (.ofOrigin 0x1000) (.ofBase 0x1000)
        (.ofString "NOP:NOP")).map (fun e => (e.item, e.calls)) =
        [(.statement (some (.instruction (.fixed noOperation))),
            [.write 0x1000 [0x1f, 0x20, 0x03, 0xd5]]),
          (.separator, [.flush 0x1000 0x1004]),
          (.statement (some (.instruction (.fixed noOperation))),
            [.write 0x1004 [0x1f, 0x20, 0x03, 0xd5]]),
          (.close, [.flush 0x1004 0x1008])] := by decide +kernel
  obtain ⟨e, _, hhistory, he, hrest⟩ := List.map_eq_cons_iff.mp hitems
  obtain ⟨f, rest, rfl, hf, -⟩ := List.map_eq_cons_iff.mp hrest
  have hwrite : .write 0x1000 [0x1f, 0x20, 0x03, 0xd5] ∈ e.calls := by
    rw [(Prod.mk.inj he).2]
    exact List.mem_cons_self
  -- the first statement is over at the separator, with no item behind the instruction
  have halign : ∀ x ∈ restOfStatement (f :: rest), x.item.aligns = false := by
    rw [restOfStatement_separator (Prod.mk.inj hf).1]
    exact fun _ hx => absurd hx List.not_mem_nil
  have hsplit : history Machine.environment (.ofOrigin 0x1000) (.ofBase 0x1000)
      (.ofString "NOP:NOP") = [] ++ e :: f :: rest := hhistory
  exact ⟨hsuccess, ⟨hoffset, hadvances⟩,
    (flushed_iff_not_realigned hsuccess ⟨hoffset, hadvances⟩ hsplit hwrite (by decide)).mpr halign⟩

/-- Two instructions in one statement: the first is not flushed. -/
theorem realigned_not_flushed :
    (assemble Machine.environment (.ofOrigin 0x1000) (.ofBase 0x1000)
      (.ofString "NOP NOP")).failure = none ∧
    InPlace (history Machine.environment (.ofOrigin 0x1000) (.ofBase 0x1000)
      (.ofString "NOP NOP")) ∧
    .write 0x1000 [0x1f, 0x20, 0x03, 0xd5] ∈ calls Machine.environment (.ofOrigin 0x1000)
      (.ofBase 0x1000) (.ofString "NOP NOP") ∧
    ¬ ∃ start stop, .flush start stop ∈ calls Machine.environment (.ofOrigin 0x1000)
      (.ofBase 0x1000) (.ofString "NOP NOP") ∧ start.toNat ≤ 0x1000 ∧ 0x1000 < stop.toNat := by
  obtain ⟨hsuccess, hoffset, hadvances, hcalls⟩ :
      (assemble Machine.environment (.ofOrigin 0x1000) (.ofBase 0x1000)
        (.ofString "NOP NOP")).failure = none ∧
      (∀ e ∈ history Machine.environment (.ofOrigin 0x1000) (.ofBase 0x1000)
        (.ofString "NOP NOP"), e.before.placement.options.offset = false) ∧
      (∀ e ∈ history Machine.environment (.ofOrigin 0x1000) (.ofBase 0x1000)
        (.ofString "NOP NOP"), e.before.placement.logical ≤ e.after.placement.logical) ∧
      calls Machine.environment (.ofOrigin 0x1000) (.ofBase 0x1000) (.ofString "NOP NOP") =
        [.write 0x1000 [0x1f, 0x20, 0x03, 0xd5], .write 0x1004 [0x1f, 0x20, 0x03, 0xd5],
          .flush 0x1004 0x1008] := by decide +kernel
  refine ⟨hsuccess, ⟨hoffset, hadvances⟩, ?_, ?_⟩
  · rw [hcalls]
    exact List.mem_cons_self
  · rintro ⟨start, stop, hflush, hle, -⟩
    rw [hcalls] at hflush
    simp only [List.mem_cons, reduceCtorEq, Call.flush.injEq, List.not_mem_nil, or_false,
      false_or] at hflush
    rw [hflush.1] at hle
    exact absurd hle (by decide)

end Block

end InlineA64
