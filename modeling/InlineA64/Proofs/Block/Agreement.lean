import InlineA64.Machine.Basic
import InlineA64.Proofs.Block.History
import InlineA64.Proofs.Block.Layout

/-!
# Where operands and labels say that code is placed

The operands of an item are evaluated at the address that its first byte is placed at, and the
labels right before it are bound to the address that the code ends at there. The two are one address
unless the item is aligned; and for labels before the first instruction of a block they are one in
any case (`Block.placed_where_seen`).

What labels rely on is that nothing between them and the item moves the code: while a block has had
no instruction and no data, its code ends at a multiple of four behind every label.
-/

namespace InlineA64

variable {σ Slot : Type}

/-! ## Items -/

namespace Item

variable {item : Item} {p : Position}

/-- Nothing is laid out but by instructions and directives. -/
theorem Emits.lays {chunks : List (List Byte)} (h : item.Emits chunks) : item.lays = true := by
  cases item with
  | close | separator | comment | label => exact h.elim
  | statement meaning? =>
    rcases meaning? with _ | (d | i | _)
    · exact h.elim
    · cases d with
      | options => exact h.elim
      | _ => rfl
    · rfl
    · rfl

/-- Operands are evaluated where the item is placed, but for words that are not aligned yet. -/
theorem seen_logical
    (h : item ≠ .statement (some (.directive .word)) ∨ p.placement.logical.toNat % 4 = 0) :
    (item.seen p).placement.logical = (item.placed p).placement.logical := by
  unfold seen
  split
  · next p =>
    rcases h with h | h
    · exact absurd rfl h
    · exact congrArg Placement.logical (Placement.align_of_mod h).symm
  · rfl

end Item

namespace Position

variable {p : Position}

theorem labelled_fresh : p.labelled.fresh = p.fresh := by
  rw [labelled]
  split <;> rfl

/-- Labels before the first instruction of a block are bound to multiples of four. -/
theorem labelled_mod (h : p.fresh = true) : p.labelled.placement.logical.toNat % 4 = 0 := by
  rw [labelled, if_pos h]
  exact p.placement.align_logical_mod

end Position

namespace Effect

variable {item : Item} {p p' : Position} {calls : List (Call Slot)}

/-- An instruction or a directive other than `OPT` evaluates its operands, then it writes its bytes,
one behind the other. -/
theorem lays (h : Effect item p calls p') (hlays : item.lays = true) :
    ∃ n chunks,
      calls = List.replicate n (Call.evaluate (item.seen p.settled).placement.context) ++
        Call.writes (item.placed p.settled).placement.writeAddress chunks ∧
      p' = (item.placed p.settled).moved chunks.flatten.length := by
  cases h with
  | close | separator | comment | label | options => cases hlays
  | lay h =>
    obtain ⟨n, -⟩ := h
    exact ⟨n, _, rfl, rfl⟩

theorem label_eq (h : Effect .label p calls p') :
    p' = p.labelled ∧ ∃ slot, calls = [.store slot p.labelled.placement.logical] := by
  cases h with
  | label p slot => exact ⟨rfl, slot, rfl⟩
  | lay h =>
    obtain ⟨n, hemits⟩ := h
    exact hemits.elim

/-- An item that lays nothing out leaves the end of the code where it is; for a label at the start
of a block that is so because the code is aligned already. -/
theorem logical_eq (h : Effect item p calls p') (hlays : item.lays = false)
    (hp : p.fresh = true → p.placement.logical.toNat % 4 = 0) :
    p'.placement.logical = p.placement.logical ∧ p'.fresh = p.fresh := by
  cases h with
  | close | separator | comment | options => exact ⟨rfl, rfl⟩
  | label p slot =>
    -- a label is aligned at the start of a block only, where the code is aligned by hypothesis
    refine ⟨?_, Position.labelled_fresh⟩
    rw [Position.labelled]
    split
    · next hfresh => exact congrArg Placement.logical (Placement.align_of_mod (hp hfresh))
    · rfl
  | lay h =>
    obtain ⟨n, hemits⟩ := h
    rw [hemits.lays] at hlays
    cases hlays

end Effect

/-! ## Stories -/

namespace Story

variable {p : Position} {e l : Entry Slot} {done between rest : List (Entry Slot)}

/-- Items that lay nothing out leave the end of the code where it is. -/
theorem logical_eq (h : Story p (between ++ e :: rest) none)
    (hbetween : ∀ x ∈ between, x.item.lays = false)
    (hp : p.fresh = true → p.placement.logical.toNat % 4 = 0) :
    e.before.placement.logical = p.placement.logical := by
  induction between generalizing p with
  | nil =>
    rw [List.nil_append] at h
    rw [h.before_eq]
  | cons x between ih =>
    obtain ⟨hlogical, hfresh⟩ :=
      (h.effect_of_mem List.mem_cons_self).logical_eq (hbetween x List.mem_cons_self)
        (by rwa [h.before_eq])
    -- the item before has moved nothing, so the hypothesis on fresh blocks holds behind it, too
    rw [h.before_eq] at hlogical hfresh
    have htail := h.tail (List.append_ne_nil_of_right_ne_nil _ (List.cons_ne_nil _ _))
    rw [ih htail (fun x hx => hbetween x (List.mem_cons_of_mem _ hx)) (by rwa [hlogical, hfresh]),
      hlogical]

/-- A label is bound to where the code ends when the next instruction or directive is reached. -/
theorem label_of_mem (h : Story p (done ++ l :: (between ++ e :: rest)) none)
    (hlabel : l.item = .label) (hbetween : ∀ x ∈ between, x.item.lays = false) :
    (∃ slot, l.calls = [.store slot e.before.placement.logical]) ∧
      (l.before.fresh = true → e.before.placement.logical.toNat % 4 = 0) := by
  have heffect := h.effect_of_mem (List.mem_append_right done List.mem_cons_self)
  rw [hlabel] at heffect
  obtain ⟨hafter, slot, hcalls⟩ := heffect.label_eq
  -- behind the label the code is aligned if the block has had no code yet, and so it stays
  have hrest := h.split.tail (List.append_ne_nil_of_right_ne_nil _ (List.cons_ne_nil _ _))
  rw [hafter] at hrest
  have hlogical := hrest.logical_eq hbetween fun hfresh =>
    Position.labelled_mod (Position.labelled_fresh.symm.trans hfresh)
  rw [hlogical]
  exact ⟨⟨slot, hcalls⟩, Position.labelled_mod⟩

end Story

/-- Where the first byte of an item is placed. -/
def Entry.first (e : Entry Slot) : Placement :=
  if e.item.aligns then e.before.placement.align else e.before.placement

theorem Entry.first_eq {e : Entry Slot}
    (h : e.item.aligns = false ∨ e.before.placement.logical.toNat % 4 = 0) :
    e.first = e.before.placement := by
  rw [first]
  split
  · next halign =>
    rcases h with h | h
    · rw [halign] at h
      cases h
    · exact Placement.align_of_mod h
  · rfl

namespace Block

variable [DecidableEq Slot] {env : Environment σ Slot} {placement : Placement} {state : σ}
  {cursor : Cursor}

/-- In a block that succeeds, an instruction or a directive other than `OPT` evaluates its operands
at the address where its first byte is placed, a word of data at least if it is reached at a
multiple of four. A label with neither between it and the item is bound to the address where the
code ends when the item is reached. That is where the first byte is placed, too, unless the item is
aligned and the address is no multiple of four; it is one for labels before the first instruction of
a block. -/
theorem placed_where_seen (hsuccess : (assemble env placement state cursor).failure = none)
    {done rest : List (Entry Slot)} {e : Entry Slot}
    (hhistory : history env placement state cursor = done ++ e :: rest)
    (hlays : e.item.lays = true) :
    (∃ n context chunks,
      e.calls =
        List.replicate n (Call.evaluate context) ++ Call.writes e.first.writeAddress chunks ∧
      e.after.placement = e.first.advance (UInt64.ofNat chunks.flatten.length) ∧
      (e.item ≠ .statement (some (.directive .word)) ∨
        e.before.placement.logical.toNat % 4 = 0 → context.logical = e.first.logical)) ∧
    ∀ (before between : List (Entry Slot)) (l : Entry Slot), done = before ++ l :: between →
      l.item = .label → (∀ x ∈ between, x.item.lays = false) →
        (∃ slot, l.calls = [.store slot e.before.placement.logical]) ∧
        (l.before.fresh = true ∨ e.item.aligns = false ∨
          e.before.placement.logical.toNat % 4 = 0 →
            e.first.logical = e.before.placement.logical) := by
  obtain ⟨hstory, -⟩ := story_of_assemble env placement state cursor
  rw [hsuccess, hhistory] at hstory
  have he : e ∈ done ++ e :: rest := List.mem_append_right done List.mem_cons_self
  have hfirst : (e.item.placed e.before.settled).placement = e.first :=
    Item.placed_placement e.before
  constructor
  · obtain ⟨n, chunks, hcalls, hafter⟩ := (hstory.effect_of_mem he).lays hlays
    refine ⟨n, (e.item.seen e.before.settled).placement.context, chunks, ?_, ?_, fun h => ?_⟩
    · rw [hcalls, hfirst]
    · rw [hafter, ← hfirst]
      rfl
    · rw [← hfirst]
      exact Item.seen_logical h
  · -- the label comes first in what is left of the story, and nothing is laid out up to the item
    rintro before between l rfl hlabel hbetween
    rw [List.append_assoc, List.cons_append] at hstory
    obtain ⟨hcalls, hmod⟩ := hstory.label_of_mem hlabel hbetween
    refine ⟨hcalls, fun h => ?_⟩
    rw [Entry.first_eq]
    rcases h with h | h
    · exact .inr (hmod h)
    · exact h

/-- A label at the start of a block that is not aligned yet, and an instruction with an operand. -/
theorem placed_where_seen_start :
    (assemble Machine.environment (.ofOrigin 0x1001) (.ofBase 0x1000)
      (.ofString ".x ADR X0,P%")).failure = none ∧
    ∃ (l e : Entry Name) (rest : List (Entry Name)),
      history Machine.environment (.ofOrigin 0x1001) (.ofBase 0x1000)
        (.ofString ".x ADR X0,P%") = [l] ++ e :: rest ∧ e.item.lays = true ∧
      (∃ n context chunks,
        e.calls =
        List.replicate n (Call.evaluate context) ++ Call.writes e.first.writeAddress chunks ∧
        context.logical = e.first.logical) ∧
      (∃ slot, l.calls = [.store slot e.before.placement.logical]) ∧
      e.first.logical = e.before.placement.logical := by
  obtain ⟨hsuccess, hitems⟩ : (assemble Machine.environment (.ofOrigin 0x1001) (.ofBase 0x1000)
        (.ofString ".x ADR X0,P%")).failure = none ∧
      (history Machine.environment (.ofOrigin 0x1001) (.ofBase 0x1000)
        (.ofString ".x ADR X0,P%")).map (fun e => (e.item, e.before.fresh)) =
        [(.label, true), (.statement (some (.instruction (.address false))), true),
          (.close, false)] := by decide +kernel
  obtain ⟨l, _, hhistory, hl, hrest⟩ := List.map_eq_cons_iff.mp hitems
  obtain ⟨e, rest, rfl, he, -⟩ := List.map_eq_cons_iff.mp hrest
  obtain ⟨hlabel, hfresh⟩ := Prod.mk.inj hl
  have hitem := (Prod.mk.inj he).1
  have hlays : e.item.lays = true := by rw [hitem]; rfl
  have hword : e.item ≠ .statement (some (.directive .word)) := by rw [hitem]; decide
  have hsplit : history Machine.environment (.ofOrigin 0x1001) (.ofBase 0x1000)
      (.ofString ".x ADR X0,P%") = [l] ++ e :: rest := hhistory
  obtain ⟨⟨n, context, chunks, hcalls, -, hcontext⟩, hlabels⟩ :=
    placed_where_seen hsuccess hsplit hlays
  obtain ⟨hstore, hfirst⟩ :=
    hlabels [] [] l rfl hlabel fun _ hx => absurd hx List.not_mem_nil
  exact ⟨hsuccess, l, e, rest, hsplit, hlays,
    ⟨n, context, chunks, hcalls, hcontext (.inl hword)⟩, hstore, hfirst (.inl hfresh)⟩

/-- A label and a word of data behind a single byte: both see the address of the padding. -/
theorem label_at_padding :
    (assemble Machine.environment (.ofOrigin 0x1000) (.ofBase 0x1000)
      (.ofString "EQUB 1:.x EQUD P%")).failure = none ∧
    (history Machine.environment (.ofOrigin 0x1000) (.ofBase 0x1000)
      (.ofString "EQUB 1:.x EQUD P%")).map (fun e => (e.item, e.calls)) =
      [(.statement (some (.directive .byte)),
          [.evaluate ⟨0x1000, 0x1000, .standard⟩, .write 0x1000 [1]]),
        (.separator, [.flush 0x1000 0x1001]),
        (.label, [.store "x".toUTF8.toList 0x1001]),
        (.statement (some (.directive .word)),
          [.evaluate ⟨0x1001, 0x1001, .standard⟩, .write 0x1004 [0x01, 0x10, 0x00, 0x00]]),
        (.close, [.flush 0x1004 0x1008])] := by
  decide +kernel

end Block

end InlineA64
