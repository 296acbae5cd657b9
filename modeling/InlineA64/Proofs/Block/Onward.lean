import Mathlib.Tactic.SplitIfs
import InlineA64.Proofs.Block.Closed
import InlineA64.Proofs.Mnemonic

/-!
# Blocks move onward

Whatever an environment does, assembling leaves the text alone and moves the cursor onward in it,
and every item but the last takes a byte at least (`Block.remaining_lt_of_step`). One item more
than there are bytes is therefore enough to reach the end of a block (`Block.next_of_steps`).
-/

namespace InlineA64

variable {σ Slot α : Type}

/-! ## Mnemonics -/

namespace Mnemonic

theorem all_named : all.all (0 < ·.name.utf8ByteSize) = true := by
  -- the names of a finite table
  decide +kernel

theorem pos_of_tokenised? {s : Cursor} {found : Option Mnemonic} {length : Nat}
    (h : tokenised? s = some (found, length)) : 0 < length := by
  simp only [tokenised?] at h
  split_ifs at h <;> simp only [Option.some.injEq, Prod.mk.injEq] at h <;> omega

/-- A mnemonic that is found takes a byte at least. -/
theorem remaining_lookup_lt {s : Cursor} {m : Mnemonic} (h : (lookup s).1 = some m)
    (hpeek : s.skipBlanks.peek ≠ 0) : (lookup s).2.remaining < s.skipBlanks.remaining := by
  rw [lookup] at h ⊢
  split at h
  · next htoken =>
    exact Cursor.remaining_advance_lt hpeek (pos_of_tokenised? htoken)
  · split at h
    · next hfound =>
      exact Cursor.remaining_advance_lt hpeek
        (of_decide_eq_true (List.all_eq_true.mp all_named _ (of_search hfound).1))
    · cases h

end Mnemonic

/-! ## Actions on a block -/

namespace Block

/-- The cursor has moved onward. -/
def Onward (b b' : Block σ Slot) : Prop :=
  b.cursor.Onward b'.cursor

instance : IsPreorder (Block σ Slot) Onward where
  refl b := .refl b.cursor
  trans _ _ _ h h' := h.trans h'

variable {env : Environment σ Slot}

/-- Nothing that happens to a block moves its cursor back. -/
theorem closed_onward (env : Environment σ Slot) : Closed env (fun _ _ => True) Onward where
  moves := env.moves_trivially
  consult _ _ _ h _ := h
  note b _ _ _ _ _ _ := .refl b.cursor
  align b := .refl b.cursor
  emit bytes := by
    refine .get_bind fun _ => Reaches.bind ?_ fun _ b => .modify (.refl b.cursor)
    rw [request_eq_within]
    exact fun b => .within (.of_forall (fun _ _ => .refl b.cursor) fun _ _ => .refl b.cursor)

theorem reaches_perform (m : Mnemonic) : Reaches Onward (perform env m) :=
  (closed_onward env).reaches_perform m fun _ b _ => .refl b.cursor

/-- A statement takes a byte at least. -/
theorem leads_statement {b : Block σ Slot} (hblank : b.cursor.skipBlanks = b.cursor)
    (hpeek : b.cursor.peek ≠ 0) : Leads (statement env) b
      (fun _ b' => b.Onward b' ∧ b'.cursor.remaining < b.cursor.remaining)
      (fun _ b' => b.Onward b') := by
  have honward : b.cursor.Onward (Mnemonic.lookup b.cursor).2 := Mnemonic.onward_lookup b.cursor
  rw [Leads, statement_eq]
  rcases hm : (Mnemonic.lookup b.cursor).1 with _ | m
  · exact honward
  -- the mnemonic takes a byte, and nothing that it stands for goes back
  · have htaken := Mnemonic.remaining_lookup_lt hm (hblank.symm ▸ hpeek)
    rw [hblank] at htaken
    exact (reaches_perform m { b with cursor := (Mnemonic.lookup b.cursor).2 }).mono
      (fun _ b' h => ⟨honward.trans h, Nat.lt_of_le_of_lt h.remaining_le htaken⟩)
      fun _ b' h => honward.trans h

/-! ## Items -/

theorem remaining_takeSeparator_lt {s : Cursor} (h : s.peek ≠ 0) :
    (takeSeparator s).remaining < s.remaining := by
  have htaken : (s.advance 1).remaining < s.remaining :=
    Cursor.remaining_advance_lt h Nat.one_pos
  rw [takeSeparator]
  split
  · exact Nat.lt_of_le_of_lt ((s.advance 1).onward_advance 1).remaining_le htaken
  · exact htaken

variable [DecidableEq Slot]

/-- A label takes its dot at least. -/
theorem leads_label {b : Block σ Slot} (hpeek : b.cursor.peek ≠ 0) : Leads (label env) b
    (fun _ b' => b.Onward b' ∧ b'.cursor.remaining < b.cursor.remaining)
    (fun _ b' => b.Onward b') := by
  have htaken : (b.cursor.advance 1).remaining < b.cursor.remaining :=
    Cursor.remaining_advance_lt hpeek Nat.one_pos
  have hdot := b.cursor.onward_advance 1
  exact ((closed_onward env).leads_label b).mono
    (fun _ b' h => ⟨hdot.trans h, Nat.lt_of_le_of_lt h.remaining_le htaken⟩)
    fun _ b' h => hdot.trans h

/-- An item moves the cursor onward, and takes a byte at least if there are more items. -/
theorem leads_item_onward (b : Block σ Slot) : Leads (item env) b
    (fun next b' => b.Onward b' ∧ (next = .more → b'.cursor.remaining < b.cursor.remaining))
    (fun _ b' => b.Onward b') := by
  have hblanks : b.Onward b.atItem := b.cursor.onward_skipBlanks
  have hblank : b.atItem.cursor.skipBlanks = b.atItem.cursor := b.cursor.skipBlanks_skipBlanks
  -- what an item takes behind the blanks it takes of the block as well
  have hback {b' : Block σ Slot} (h : b.atItem.Onward b' ∧
      b'.cursor.remaining < b.atItem.cursor.remaining) :
      b.Onward b' ∧ (Next.more = .more → b'.cursor.remaining < b.cursor.remaining) :=
    ⟨hblanks.trans h.1, fun _ => Nat.lt_of_lt_of_le h.2 hblanks.remaining_le⟩
  refine leads_item (fun f hf _ => ?_) (fun hpeek _ => ?_) (fun hpeek hcomment _ => ?_)
    (fun hpeek _ => ?_) fun hpeek _ => ?_
  · refine .modify_bind (Leads.bind (Q := fun _ b' => b.Onward b') ?_ fun _ _ h => ⟨h, nofun⟩)
    have hclosed := (closed_onward env).leads_finish b.atItem.cursor.pos
      { b.atItem with cursor := f b.atItem.cursor } (E := fun _ b' => b.Onward b')
      fun _ _ h => hblanks.trans ((hf _).trans h)
    refine hclosed.mono (fun _ _ h => ?_) fun _ _ h => h
    obtain ⟨c, h, rfl⟩ := h
    exact hblanks.trans ((hf _).trans h)
  · have hend := onward_takeSeparator b.atItem.cursor
    refine .modify_bind (Leads.bind
      (Q := fun _ b' => (takeSeparator b.atItem.cursor).Onward b'.cursor) ?_ fun _ b' h => ?_)
    · exact ((closed_onward env).reaches_closeStatement _ _).mono (fun _ _ h => h)
        fun _ _ h => hblanks.trans (hend.trans h)
    · have hopen := h.trans b'.cursor.onward_skipBlanks
      exact hback ⟨hend.trans hopen,
        Nat.lt_of_le_of_lt hopen.remaining_le (remaining_takeSeparator_lt hpeek)⟩
  · exact hback ⟨b.atItem.cursor.onward_skipWhile _,
      Cursor.remaining_skipWhile_lt hpeek hcomment⟩
  · exact (leads_label hpeek).mono (fun _ _ => hback) fun _ _ h => hblanks.trans h
  · exact (leads_statement hblank hpeek).mono (fun _ _ => hback) fun _ _ h => hblanks.trans h

theorem leads_step_onward (b : Block σ Slot) : Leads (step env) b
    (fun next b' => b.Onward b' ∧ (next = .more → b'.cursor.remaining < b.cursor.remaining))
    (fun _ b' => b.Onward b') :=
  .get_bind (.ite (fun _ => .refl b.cursor) fun _ => leads_item_onward b)

/-- An item with others behind it takes a byte at least. -/
theorem remaining_lt_of_step {b b' : Block σ Slot} (h : step env b = .ok .more b') :
    b'.cursor.remaining < b.cursor.remaining :=
  ((leads_step_onward b).of_eq_ok h).2 rfl

/-! ## Runs -/

/-- A run with fuel to spare does not stop for want of it. -/
theorem next_of_steps {fuel : Nat} {b b' : Block σ Slot} {next : Next}
    (hfuel : b.cursor.remaining < fuel) (h : steps env fuel b = .ok next b') : next = .stop := by
  -- every item but the last takes a byte, so the fuel lasts longer than the text
  induction fuel generalizing b with
  | zero => omega
  | succ fuel ih =>
    rw [steps] at h
    obtain ⟨first, b₁, hstep, h⟩ := bind_eq_ok.mp h
    cases first with
    | more =>
      have hless := remaining_lt_of_step hstep
      exact ih (by omega) h
    | stop => exact (pure_eq_ok.mp h).1

end Block

end InlineA64
