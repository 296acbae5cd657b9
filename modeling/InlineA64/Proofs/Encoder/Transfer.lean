import InlineA64.Proofs.Format.Instruction
import InlineA64.Proofs.Reader.Address

/-!
# Encoders of loads and stores fill their formats
-/

namespace InlineA64.Encoder

open Reader Format

/-! ## Transfer registers -/

/-- A transfer register adds only bits of its rule. -/
theorem transferBits?_masked {rule : TransferRule} {t : Register} {bits : UInt32}
    (h : transferBits? rule t = some bits) : bits &&& Formats.transferMask rule = bits := by
  cases hwide : t.isWide <;> cases rule <;>
    simp only [transferBits?, hwide, if_true, if_false, Bool.false_eq_true, reduceCtorEq,
      Option.some.injEq] at h <;> subst h <;> decide

theorem ensures_transferRegister {taken : List Register} {rule : TransferRule}
    {P : List Register → Register × UInt32 → Prop}
    (h : ∀ t bits, Role.plain.Admits t → bits &&& Formats.transferMask rule = bits →
      P (taken ++ [t]) (t, bits)) : (transferRegister rule).Ensures taken P := by
  simp only [transferRegister, ensures_bind, ensures_here, ensures_plainRegister]
  intro _ t ht
  split
  next bits hbits => exact h t bits ht (transferBits?_masked hbits)
  next => trivial

/-! ## Accesses -/

section Access

variable {base : UInt32} {scale : ℕ} {operand : MemoryOperand} {e : Encoding}

theorem unscaled_lt {offset : Int} {imm : ℕ}
    (h : Displacement.unscaled.encode true offset = .ok imm) : imm < 2 ^ 9 :=
  encode_lt (d := .unscaled) h

theorem scaledOffset_lt {offset : Int} {imm : ℕ}
    (h : Immediate.scaledOffset scale offset = .ok imm) : imm < 2 ^ 12 := by
  simp only [Immediate.scaledOffset] at h
  split at h
  next hrange =>
    cases h
    simp only [Bool.and_eq_true, decide_eq_true_eq] at hrange
    omega
  next => cases h

theorem offsetOperand_fills {n : Register} (hn : Role.address.Admits n) {offset : Int}
    (h : offsetOperand base scale offset = .ok e) :
    Fills [Formats.scaledAccess base, Formats.unscaledAccess base] [n] (e.rn n) := by
  rw [offsetOperand] at h
  split at h
  · obtain ⟨imm, himm, ⟨⟩⟩ := except_bind_eq_ok.mp h
    exact .of_mem (.head _) ((Describes.of base).option _
      |>.operand (scaledOffset_lt himm) 10 |>.rn hn) (by simp [Encoding.imm12])
  · obtain ⟨imm, himm, ⟨⟩⟩ := except_bind_eq_ok.mp h
    exact .of_mem (.tail _ (.head _)) ((Describes.of base).operand (unscaled_lt himm) 12
      |>.rn hn) (by simp [Encoding.imm9])

theorem indexedOperand_fills {n index : Register} (hn : Role.address.Admits n)
    (hindex : index.Valid) {modifier : Option IndexModifier} {amount : Int} {written : Bool}
    (h : indexOperand scale index modifier amount written (Encoding.of base |>.option 0x200800) =
      .ok e) :
    Fills [Formats.indexedAccess base] [n, index] (e.rn n) := by
  have hoption : IndexModifier.optionField modifier &&& 0xe000 =
      IndexModifier.optionField modifier := by
    rcases modifier with _ | _ | _ | _ | _ <;> decide
  simp only [indexOperand] at h
  split at h
  next => cases h
  -- the stack pointer has been refused as an index, which the memory operand leaves open
  next hsp =>
    rw [Bool.or_eq_true, not_or, Bool.not_eq_true] at hsp
    have hindex : Role.plain.Admits index := ⟨hindex, hsp.1⟩
    split at h
    next => cases h
    next =>
      cases h
      exact .single ((Describes.of base).option _ |>.choose hoption |>.choice _ _ |>.rm hindex
        |>.rn hn) (by simp)

theorem accessOperand_fills (hvalid : operand.Valid)
    (h : accessOperand base scale operand = .ok e) :
    Fills (Formats.access base) operand.registers e := by
  cases operand with
  | offset n offset =>
    obtain ⟨e', he', ⟨⟩⟩ := except_bind_eq_ok.mp h
    exact (offsetOperand_fills hvalid he').subset (by simp [Formats.access])
  | preIndexed n offset =>
    obtain ⟨imm, himm, ⟨⟩⟩ := except_bind_eq_ok.mp h
    exact .of_mem (.tail _ (.tail _ (.head _))) ((Describes.of base).option _
      |>.operand (unscaled_lt himm) 12 |>.rn hvalid)
      (by simp [Encoding.imm9, MemoryOperand.registers])
  | postIndexed n offset =>
    obtain ⟨imm, himm, ⟨⟩⟩ := except_bind_eq_ok.mp h
    exact .of_mem (.tail _ (.tail _ (.tail _ (.head _)))) ((Describes.of base).option _
      |>.operand (unscaled_lt himm) 12 |>.rn hvalid)
      (by simp [Encoding.imm9, MemoryOperand.registers])
  | indexed n index modifier amount written =>
    obtain ⟨e', he', ⟨⟩⟩ := except_bind_eq_ok.mp h
    exact (indexedOperand_fills hvalid.1 hvalid.2 he').subset (by simp [Formats.access])
  | literal => cases h

end Access

/-! ## Single registers -/

theorem literalLoad_fills {taken : List Register} {base : UInt32} {start : Mark} {offset : Int}
    {t : Register} (ht : Role.plain.Admits t) (htaken : taken ⊆ [t]) :
    (literalLoad base start offset t).Ensures taken (Fills [Formats.literalLoad base]) := by
  simp only [literalLoad, ensures_bind, ensures_reachable, ensures_pure]
  exact .single ((Describes.of base).operand (field_lt .literal _) 5 |>.rt ht)
    (List.Subset.trans htaken (by simp [Encoding.imm19]))

theorem transfer_fills (scale? : Option ℕ) (load : Bool) :
    (transfer scale? load).Ensures [] (Fills (Formats.transfer scale? load)) := by
  simp only [transfer, ensures_bind, ensures_here, ensures_plainRegister, ensures_ite,
    ensures_malformedAt, ensures_comma, implies_true, true_and]
  intro _ t ht _ start
  -- where the mnemonic does not tell the size, the width of the register does
  have hscale : (Formats.access 0x38000000).map
      (Formats.transferAt (scale?.getD (if t.isWide then 3 else 2)) load) ⊆
        Formats.transfer scale? load := by
    cases scale? with
    | some scale => simp [Formats.transfer]
    | none => cases t.isWide <;> simp [Formats.transfer]
  refine ensures_address fun operand hvalid => ?_
  split
  next offset =>
    simp only [MemoryOperand.registers, ensures_bind, ensures_pure]
    refine (literalLoad_fills ht (by simp)).mono fun taken e h => ?_
    obtain ⟨f, hf, hdescribes⟩ := h.describes
    rw [List.mem_singleton.mp hf] at hdescribes
    exact .of_mem (.head _) (hdescribes.choice t.isWide 0x40000000)
      (List.Subset.trans h.registers (by simp))
  next =>
    simp only [ensures_bind, ensures_liftAt, ensures_pure]
    intro e he
    refine ((accessOperand_fills hvalid he).map (Formats.transferAt _ load) (fun f h => ?_)
      fun hregisters => ?_).subset hscale
    · exact h.constant 30 2 _ |>.optionIf load _ |>.rt ht
    · simpa using List.subset_append_of_subset_left [t] hregisters

theorem signedLoad_fills (scale : ℕ) :
    (signedLoad scale).Ensures [] (Fills (Formats.signedLoad scale)) := by
  rw [signedLoad, ensures_bind]
  refine ensures_transferRegister fun t bits ht hbits => ?_
  simp only [ensures_bind, ensures_comma, ensures_here]
  refine fun start => ensures_address fun operand hvalid => ?_
  split
  next =>
    refine (literalLoad_fills ht (by simp [MemoryOperand.registers])).mono fun _ _ h => ?_
    exact h.subset (by simp [Formats.signedLoad])
  next =>
    simp only [ensures_bind, ensures_liftAt, ensures_pure]
    intro e he
    refine ((accessOperand_fills hvalid he).map (Formats.signedLoadAt scale) (fun f h => ?_)
      fun hregisters => ?_).subset (List.subset_cons_self _ _)
    · exact h.constant 30 2 _ |>.choose hbits |>.rt ht
    · simpa using List.subset_append_of_subset_left [t] hregisters

theorem unscaledTransfer_fills (base : UInt32) (rule : TransferRule) :
    (unscaledTransfer base rule).Ensures [] (Fills [Formats.unscaledTransfer base rule]) := by
  rw [unscaledTransfer, ensures_bind]
  refine ensures_transferRegister fun t bits ht hbits => ?_
  simp only [ensures_bind, ensures_comma, ensures_here]
  refine fun start => ensures_address fun operand hvalid => ?_
  split
  next n offset =>
    have hn : Role.address.Admits n := hvalid
    simp only [ensures_bind, ensures_liftAt, ensures_pure]
    intro imm himm
    exact .single ((Describes.of base).choose hbits |>.operand (unscaled_lt himm) 12 |>.rn hn
      |>.rt ht) (by simp [MemoryOperand.registers, Encoding.imm9])
  next => trivial

/-! ## Pairs -/

theorem pairOperand?_registers {kind : PairRule} {operand : MemoryOperand} {mode : UInt32}
    {n : Register} {offset : Int} (hvalid : operand.Valid)
    (h : pairOperand? kind operand = some (mode, n, offset)) :
    Role.address.Admits n ∧ operand.registers = [n] := by
  cases operand with
  | offset base offset =>
    cases h
    exact ⟨hvalid, rfl⟩
  | preIndexed base offset | postIndexed base offset =>
    simp only [pairOperand?] at h
    split at h <;> cases h
    exact ⟨hvalid, rfl⟩
  | indexed | literal => cases h

theorem mem_pairModes {kind : PairRule} {operand : MemoryOperand} {mode : UInt32} {n : Register}
    {offset : Int} (h : pairOperand? kind operand = some (mode, n, offset)) :
    mode ∈ Formats.pairModes kind := by
  cases operand <;> cases kind <;> cases h <;> decide

theorem pairTransfer_fills (base : UInt32) (kind : PairRule) :
    (pairTransfer base kind).Ensures [] (Fills (Formats.pairTransfer base kind)) := by
  simp only [pairTransfer, ensures_bind, ensures_here, ensures_plainRegister, ensures_ite,
    ensures_malformedAt, ensures_comma, ensures_registerOf, implies_true, true_and]
  intro _ t1 ht1 _ t2 ht2 _ start
  refine ensures_address fun operand hvalid => ?_
  split
  next => trivial
  next mode n offset hoperand =>
    obtain ⟨hn, hregisters⟩ := pairOperand?_registers hvalid hoperand
    simp only [ensures_bind, ensures_liftAt, ensures_pure]
    intro imm himm
    have himm : imm < 2 ^ 7 := encode_lt (d := .pair _) himm
    exact .of_mem (List.mem_map_of_mem (mem_pairModes hoperand)) ((Describes.of base).option mode
      |>.choice _ _ |>.operand himm 15 |>.rt2 ht2 |>.rn hn |>.rt ht1) (by simp [hregisters])

/-! ## Ordered and exclusive -/

theorem ordered_fills (base : UInt32) (rule : TransferRule) :
    (ordered base rule).Ensures [] (Fills [Formats.ordered base rule]) := by
  rw [ordered, ensures_bind]
  refine ensures_transferRegister fun t bits ht hbits => ?_
  simp only [ensures_bind, ensures_comma, ensures_plainAddress, ensures_pure]
  intro n hn _
  exact .single ((Describes.of base).choose hbits |>.rn hn |>.rt ht) (by simp)

theorem exclusiveStore_fills (base : UInt32) (rule : TransferRule) :
    (exclusiveStore base rule).Ensures [] (Fills [Formats.exchange base rule]) := by
  simp only [exclusiveStore, ensures_bind, ensures_narrowRegister, ensures_comma]
  refine fun s hs _ => ensures_transferRegister fun t bits ht hbits => ?_
  rw [ensures_plainAddress]
  intro n hn _
  exact .single ((Describes.of base).choose hbits |>.rs hs |>.rn hn |>.rt ht) (by simp)

theorem exclusivePairLoad_fills (base : UInt32) :
    (exclusivePairLoad base).Ensures [] (Fills [Formats.exclusivePairLoad base]) := by
  simp only [exclusivePairLoad, ensures_bind, ensures_plainRegister, ensures_comma,
    ensures_registerOf, ensures_plainAddress, ensures_pure]
  intro t1 ht1 t2 ht2 _ n hn _
  exact .single ((Describes.of base).sizeBit t1 |>.rt2 ht2 |>.rn hn |>.rt ht1) (by simp)

theorem exclusivePairStore_fills (base : UInt32) :
    (exclusivePairStore base).Ensures [] (Fills [Formats.exclusivePairStore base]) := by
  simp only [exclusivePairStore, ensures_bind, ensures_narrowRegister, ensures_plainRegister,
    ensures_comma, ensures_registerOf, ensures_plainAddress, ensures_pure]
  intro s hs _ t1 ht1 t2 ht2 _ n hn _
  exact .single ((Describes.of base).sizeBit t1 |>.rs hs |>.rt2 ht2 |>.rn hn |>.rt ht1) (by simp)

/-! ## Atomics -/

theorem atomic_fills (base : UInt32) (rule : TransferRule) :
    (atomic base rule).Ensures [] (Fills [Formats.exchange base rule]) := by
  rw [atomic, ensures_bind]
  refine ensures_transferRegister fun s bits hs hbits => ?_
  simp only [ensures_bind, ensures_comma, ensures_registerOf, ensures_plainAddress, ensures_pure]
  intro t ht _ n hn _
  exact .single ((Describes.of base).choose hbits |>.rs hs |>.rn hn |>.rt ht) (by simp)

theorem atomicStore_fills (base : UInt32) (rule : TransferRule) :
    (atomicStore base rule).Ensures [] (Fills [Formats.atomicStore base rule]) := by
  rw [atomicStore, ensures_bind]
  refine ensures_transferRegister fun s bits hs hbits => ?_
  simp only [ensures_bind, ensures_comma, ensures_plainAddress, ensures_pure]
  intro n hn _
  exact .single ((Describes.of base).choose hbits |>.rs hs |>.rn hn) (by simp)

/-- Of each pair of registers only the first is in a field, the second being the next one. -/
theorem compareAndSwapPairs_describes (base : UInt32) :
    (compareAndSwapPairs base).Ensures [] fun taken e =>
      (Formats.compareAndSwapPairs base).Describes e ∧ ∀ r ∈ taken,
        r ∈ e.registers ∨ Role.plain.Admits r ∧ ∃ first ∈ e.registers, isPair first r = true := by
  simp only [compareAndSwapPairs, ensures_bind, ensures_here, ensures_plainRegister, ensures_comma,
    ensures_plainAddress, ensures_ite, ensures_malformedAt, ensures_pure, implies_true, and_true,
    Bool.and_eq_true]
  rintro _ s1 hs1 s2 hs2 t1 ht1 t2 ht2 n hn _ ⟨⟨hs, ht⟩, -⟩
  refine ⟨(Describes.of base).sizeBit s1 |>.rs hs1 |>.rn hn |>.rt ht1, ?_⟩
  have hfirst : s1 ∈ (Encoding.of base |>.sizeBit s1 |>.rs s1 |>.rn n |>.rt t1).registers ∧
      t1 ∈ (Encoding.of base |>.sizeBit s1 |>.rs s1 |>.rn n |>.rt t1).registers ∧
      n ∈ (Encoding.of base |>.sizeBit s1 |>.rs s1 |>.rn n |>.rt t1).registers := by
    simp
  intro r hr
  simp only [List.nil_append, List.cons_append, List.mem_cons, List.not_mem_nil, or_false] at hr
  -- the two registers compared with, the two that are swapped in, and the address
  rcases hr with rfl | rfl | rfl | rfl | rfl
  · exact Or.inl hfirst.1
  · exact Or.inr ⟨hs2, s1, hfirst.1, hs⟩
  · exact Or.inl hfirst.2.1
  · exact Or.inr ⟨ht2, t1, hfirst.2.1, ht⟩
  · exact Or.inl hfirst.2.2

/-! ## Authenticated loads -/

theorem authenticatedOperand?_registers {operand : MemoryOperand} {n : Register} {offset : Int}
    {writeBack : Bool} (hvalid : operand.Valid)
    (h : authenticatedOperand? operand = some (n, offset, writeBack)) :
    Role.address.Admits n ∧ operand.registers = [n] := by
  cases operand with
  | offset base offset | preIndexed base offset =>
    cases h
    exact ⟨hvalid, rfl⟩
  | postIndexed | indexed | literal => cases h

theorem authenticatedLoad_fills (base : UInt32) :
    (authenticatedLoad base).Ensures [] (Fills [Formats.authenticatedLoad base]) := by
  simp only [authenticatedLoad, ensures_bind, ensures_wideRegister, ensures_comma, ensures_here]
  refine fun t ht _ start => ensures_address fun operand hvalid => ?_
  split
  next => trivial
  next n offset writeBack hoperand =>
    obtain ⟨hn, hregisters⟩ := authenticatedOperand?_registers hvalid hoperand
    simp only [ensures_bind, ensures_liftAt, ensures_pure]
    intro imm himm
    have himm : imm < 2 ^ 10 := encode_lt (d := .authenticated) himm
    -- the highest bit of the offset stands apart from the others
    have hhigh : imm / 512 < 2 ^ 1 := by omega
    have hlow : imm % 512 < 2 ^ 9 := Nat.mod_lt _ (by decide)
    exact .single ((Describes.of base).choice writeBack _ |>.operand hhigh 22 |>.operand hlow 12
      |>.rn hn |>.rt ht) (by simp [hregisters, Encoding.imm9])

/-! ## Prefetch -/

theorem prefetchOperation_ensures {N : List Register → ℕ → Prop} {taken : List Register}
    (h : ∀ operation < 2 ^ 5, N taken operation) : prefetchOperation.Ensures taken N := by
  have hkind : ∀ kind ∈ Vocabulary.prefetchKinds.entries.map Prod.snd, kind ≤ 2 := by decide
  have hcache : ∀ cache ∈ Vocabulary.prefetchCaches.entries.map Prod.snd, cache ≤ 2 := by decide
  have hpolicy : ∀ policy ∈ Vocabulary.prefetchPolicies.entries.map Prod.snd, policy ≤ 1 := by
    decide
  simp only [prefetchOperation, ensures_bind, ensures_sees, ensures_ite, ensures_here,
    ensures_keyword, ensures_malformedAt, ensures_pure, implies_true, true_and]
  refine fun _ => ⟨fun _ => ?_, fun _ _ kind hk cache hc policy hp => h _ ?_⟩
  · exact ensures_constant fun operation hoperation => h operation (Nat.lt_succ_of_le hoperation)
  · have hk := hkind kind hk
    have hc := hcache cache hc
    have hp := hpolicy policy hp
    omega

theorem prefetchOperand_fills {operand : MemoryOperand} {e : Encoding} (hvalid : operand.Valid)
    (h : prefetchOperand operand = .ok e) :
    Fills [Formats.scaledAccess 0xf8800000, Formats.unscaledAccess 0xf8800000,
      Formats.indexedAccess 0xf8800000] operand.registers e := by
  cases operand with
  | offset n offset =>
    obtain ⟨e', he', ⟨⟩⟩ := except_bind_eq_ok.mp h
    exact (offsetOperand_fills hvalid he').subset (by simp)
  | indexed n index modifier amount written =>
    simp only [prefetchOperand] at h
    split at h
    next => cases h
    next =>
      obtain ⟨e', he', ⟨⟩⟩ := except_bind_eq_ok.mp h
      exact (indexedOperand_fills hvalid.1 hvalid.2 he').subset (by simp)
  | preIndexed | postIndexed | literal => cases h

theorem prefetch_fills : prefetch.Ensures [] (Fills Formats.prefetch) := by
  rw [prefetch, ensures_bind]
  refine prefetchOperation_ensures fun operation hoperation => ?_
  simp only [ensures_bind, ensures_comma, ensures_here]
  refine fun start => ensures_address fun operand hvalid => ?_
  split
  next =>
    simp only [MemoryOperand.registers, ensures_bind, ensures_reachable, ensures_pure]
    exact .of_mem (.head _) ((Describes.of _).operand (field_lt .literal _) 5
      |>.operand hoperation 0) (by simp)
  next =>
    simp only [ensures_bind, ensures_liftAt, ensures_pure]
    intro e he
    refine ((prefetchOperand_fills hvalid he).map (·.operand 0 5) (fun f h => ?_)
      fun hregisters => ?_).subset (List.subset_cons_self _ _)
    · exact h.operand hoperation 0
    · simpa using hregisters

end InlineA64.Encoder
