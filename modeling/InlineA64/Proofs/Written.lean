import InlineA64.Proofs.Block.Closed
import InlineA64.Proofs.Block.History
import InlineA64.Proofs.Block.Layout
import InlineA64.Proofs.Extent
import InlineA64.Proofs.TwoPass

/-!
# What a program writes

A block changes the image of a machine by its calls to write and by nothing else. The image of a
program is therefore what the calls of the second pass leave of an empty image, and it ends at the
highest byte that is stored unless a string without any bytes is written beyond that.

* `Block.image_of_assemble`: the image after a block;
* `Program.ends_at_highest_byte_iff`: how far an image reaches after any calls, how far the image of
  a program does, and which directives write no bytes.
-/

namespace InlineA64

variable {Slot : Type}

/-- The call to write into an image that a call of the environment is, if it is one. -/
def Call.write? : Call Slot → Option Image.Write
  | .write address bytes => some ⟨address, bytes⟩
  | .evaluate _ | .store .. | .flush .. => none

/-! ## Blocks -/

open Machine (environment)

namespace Recorded

/-- The image of the second state is that of the first after the calls recorded in between. -/
def Written (w w' : Recorded Machine Name) : Prop :=
  ∃ calls, w'.calls = w.calls ++ calls ∧
    w'.state.image = (calls.filterMap Call.write?).foldl Image.after w.state.image

instance : IsPreorder (Recorded Machine Name) Written where
  refl w := ⟨[], (List.append_nil _).symm, rfl⟩
  trans := by
    rintro u v w ⟨calls, hcalls, himage⟩ ⟨calls', hcalls', himage'⟩
    refine ⟨calls ++ calls', by rw [hcalls', hcalls, List.append_assoc], ?_⟩
    rw [himage', himage, List.filterMap_append, List.foldl_append]

/-- Where calls do not write and the image is left alone, all is as recorded. -/
theorem Written.of_silent {w w' : Recorded Machine Name} (calls : List (Call Name))
    (hcalls : w'.calls = w.calls ++ calls) (hsilent : calls.filterMap Call.write? = [])
    (himage : w'.state.image = w.state.image) : Written w w' :=
  ⟨calls, hcalls, by rw [hsilent, himage, List.foldl_nil]⟩

end Recorded

namespace Block

open Recorded (Written)

theorem moves_written : environment.recorded.Moves Written where
  evaluate context p := .within (Machine.leads_evaluate
    (.of_forall (fun _ _ => .of_silent [_] rfl rfl rfl) fun _ _ => .of_silent [_] rfl rfl rfl))
  slot p := by
    have hnone : p.2.Written ⟨p.2.state, p.2.calls⟩ := Std.Refl.refl p.2
    refine .within (Machine.leads_slot (.of_forall (fun name _ => ?_) fun _ _ => hnone) hnone)
    refine .of_silent [] (List.append_nil _).symm rfl ?_
    change (p.2.state.declare name).image = p.2.state.image
    rw [Machine.declare_eq]
  store slot address w := .of_silent [_] rfl rfl rfl
  flush start stop w := .of_silent [_] rfl rfl rfl
  listing line w := .of_silent [] (List.append_nil _).symm rfl rfl

/-- A call to write is recorded whether it is refused or not. -/
theorem written_write (address : UInt64) (bytes : List Byte) :
    Reaches Written (environment.recorded.write address bytes) := fun w =>
  .within ((Machine.leads_write w.state address bytes).mono
    (fun _ _ h => ⟨[.write address bytes], rfl, h⟩) fun _ _ h => ⟨[.write address bytes], rfl, h⟩)

/-- The image of the second block is that of the first after the calls recorded in between. -/
def ImageWritten (b b' : Block (Recorded Machine Name) Name) : Prop :=
  Written b.state b'.state

instance : IsPreorder (Block (Recorded Machine Name) Name) ImageWritten where
  refl b := Std.Refl.refl (r := Written) b.state
  trans _ _ _ h h' := IsTrans.trans (r := Written) _ _ _ h h'

/-- Whatever a block does, its calls are all that happens to the image. -/
theorem closed_imageWritten : Closed environment.recorded Written ImageWritten where
  moves := moves_written
  consult _ _ _ _ h := h
  note b _ _ _ _ _ _ := Std.Refl.refl (r := Written) b.state
  align b := Std.Refl.refl (r := Written) b.state
  emit bytes := by
    refine .get_bind fun b => Reaches.bind ?_ fun _ b =>
      .modify (Std.Refl.refl (r := Written) b.state)
    rw [request_eq_within]
    exact (written_write _ bytes).within fun _ _ h => h

/-- The image after a block is what the calls of the block leave of the image before it. -/
theorem image_of_assemble (placement : Placement) (w : Machine) (cursor : Cursor) :
    (assemble environment placement w cursor).state.image =
      ((calls environment placement w cursor).filterMap Call.write?).foldl Image.after w.image := by
  have hwritten :
      Written ⟨w, []⟩ (assemble environment.recorded placement ⟨w, []⟩ cursor).state := by
    have hsteps := closed_imageWritten.reaches_steps
      (fun b _ => Std.Refl.refl (r := Written) b.state)
      (cursor.skipBlanks.remaining + 1) (opening placement w cursor)
    have hrun : run environment.recorded (ofPlacement placement ⟨w, []⟩ cursor) =
        steps environment.recorded (cursor.skipBlanks.remaining + 1) (opening placement w cursor) :=
      rfl
    rw [assemble, hrun]
    rcases hb : steps environment.recorded (cursor.skipBlanks.remaining + 1)
      (opening placement w cursor) with ⟨next, b⟩ | ⟨failure, b⟩
    · exact hsteps.of_eq_ok hb
    · exact hsteps.of_eq_error hb
  -- recording the calls does not change what the block comes to
  obtain ⟨-, -, hstate, -⟩ :=
    assemble_corresponds environment.recorded_corresponds (⟨rfl, rfl, rfl, rfl⟩ :
      placement.Similar Eq placement) (rfl : (⟨w, []⟩ : Recorded Machine Name).state = w) cursor
  obtain ⟨calls, hcalls, himage⟩ := hwritten
  rw [← hstate, Block.calls, himage, hcalls, List.nil_append]

end Block

/-! ## Writes without bytes -/

/-- Only strings can be laid out as no bytes at all. -/
theorem Item.Emits.data_or_string {item : Item} {chunks : List (List Byte)} (h : item.Emits chunks)
    (hnil : [] ∈ chunks) : item = .statement (some (.directive .data)) ∨
      item = .statement (some (.directive .string)) := by
  -- all else is laid out as numbers, which have bytes
  have hbytes (count n : Nat) (hcount : count ≠ 0) : Block.bytesOfNat count n ≠ [] := by
    rwa [ne_eq, ← List.length_eq_zero_iff, Block.length_bytesOfNat]
  rcases item with _ | _ | _ | _ | _ | (d | i | _)
  case statement.some.instruction =>
    obtain ⟨word, rfl⟩ := h
    exact absurd (List.mem_singleton.mp hnil).symm (hbytes 4 _ (by decide))
  case statement.some.directive =>
    cases d with
    | data => exact .inl rfl
    | string => exact .inr rfl
    | align =>
      obtain ⟨count, -, rfl⟩ := h
      exact absurd (List.eq_of_mem_replicate hnil).symm (hbytes 4 _ (by decide))
    | byte | half | word | quad =>
      obtain ⟨n, rfl⟩ := h
      exact absurd (List.mem_singleton.mp hnil).symm (hbytes _ _ (by decide))
    | options => exact h.elim
  all_goals exact h.elim

/-! ## Programs -/

namespace Program

variable {base : UInt64} {options : Options} {machine w : Machine} {cursor : Cursor}

/-- What the second pass over a program does, item by item. -/
def history (base : UInt64) (cursor : Cursor) : List (Entry Name) :=
  match pass base (.ofInt 0) (.ofBase base) cursor with
  | .ok first => Block.history environment ((Placement.ofOrigin base).withOptions (.ofInt 2))
      first.withEmptyImage cursor
  | .error _ => []

/-- The calls to write that the second pass over a program makes. -/
def writes (base : UInt64) (cursor : Cursor) : List Image.Write :=
  (history base cursor).flatMap fun e => e.calls.filterMap Call.write?

/-- A pass that succeeds is a block without a failure. -/
theorem outcome_of_pass (h : pass base options machine cursor = .ok w) :
    let outcome := Block.assemble environment ((Placement.ofOrigin base).withOptions options)
      machine.withEmptyImage cursor
    outcome.failure = none ∧ outcome.state = w := by
  intro outcome
  simp only [pass] at h
  split at h
  · cases h
  · next hnone =>
    split at h
    · exact ⟨hnone, Except.ok.inj h⟩
    · cases h

/-- The image of a program is what the second pass writes. -/
theorem image_of_assemble {bytes : Array Byte} (h : assemble cursor base = .ok bytes) :
    bytes = ((Machine.ofBase base).afterWrites (writes base cursor)).image.bytes ∧
      Story ⟨(Placement.ofOrigin base).withOptions (.ofInt 2), base, true⟩ (history base cursor)
        none := by
  obtain ⟨first, hfirst, h⟩ := except_bind_eq_ok.mp h
  obtain ⟨second, hsecond, h⟩ := except_bind_eq_ok.mp h
  have hbase : first.image.base = base := congrArg Prod.fst (fixed_of_pass hfirst)
  obtain ⟨hfailure, rfl⟩ := outcome_of_pass hsecond
  obtain ⟨hstory, hcalls⟩ := Block.story_of_assemble environment
    ((Placement.ofOrigin base).withOptions (.ofInt 2)) first.withEmptyImage cursor
  have hhistory : history base cursor = Block.history environment
      ((Placement.ofOrigin base).withOptions (.ofInt 2)) first.withEmptyImage cursor := by
    rw [history, hfirst]
  rw [hfailure, ← hhistory] at hstory
  refine ⟨?_, hstory⟩
  rw [← Except.ok.inj h, Block.image_of_assemble, hcalls, ← hhistory, List.filterMap_flatMap,
    Machine.image_afterWrites, Machine.withEmptyImage, hbase]
  rfl

/-- An image reaches as far as the calls to write that were accepted, whatever those calls are. It
ends at the highest byte that was stored if and only if no call without bytes was made beyond that;
where one was, there are zeros from that byte on. The image of a program is reached by the calls of
the second pass, and only directives for data and strings make any without bytes. -/
theorem ends_at_highest_byte_iff (w : Machine) (calls : List Image.Write) (cursor : Cursor)
    (base : UInt64) (bytes : Array Byte) :
    Image.ReachedBy w.image.base (w.withEmptyImage.accepted calls)
      (w.withEmptyImage.afterWrites calls).image.bytes ∧
    (assemble cursor base = .ok bytes →
      Image.ReachedBy base ((Machine.ofBase base).accepted (writes base cursor)) bytes ∧
      ∀ e ∈ history base cursor, ∀ address, .write address [] ∈ e.calls →
        e.item = .statement (some (.directive .data)) ∨
          e.item = .statement (some (.directive .string))) := by
  refine ⟨w.reachedBy_afterWrites calls, fun h => ?_⟩
  obtain ⟨hbytes, hstory⟩ := image_of_assemble h
  refine ⟨?_, fun e he address hwrite => ?_⟩
  · rw [hbytes]
    exact Machine.reachedBy_afterWrites (.ofBase base) (writes base cursor)
  · obtain ⟨done, rest, hemits, -⟩ := (hstory.effect_of_mem he).write_of_mem hwrite
    exact hemits.data_or_string (List.mem_append_right _ List.mem_cons_self)

/-- A byte stands behind the string without any bytes, so the image ends at that. -/
theorem ends_at_highest_byte_iff_behind :
    (assemble (.ofString "EQUB 1:ALIGN:EQUS \"\":EQUB 2") 0).toOption = some #[1, 0, 0, 0, 2] ∧
      Image.ReachedBy 0 ((Machine.ofBase 0).accepted (writes 0
        (.ofString "EQUB 1:ALIGN:EQUS \"\":EQUB 2"))) #[1, 0, 0, 0, 2] := by
  have h : (assemble (.ofString "EQUB 1:ALIGN:EQUS \"\":EQUB 2") 0).toOption =
      some #[1, 0, 0, 0, 2] := by
    decide +kernel
  exact ⟨h, ((ends_at_highest_byte_iff (.ofBase 0) [] _ _ _).2 (except_toOption_eq_some.mp h)).1⟩

/-- A string without any bytes stands last behind an alignment, and three zeros with it. -/
theorem ends_beyond_highest_byte :
    writes 0 (.ofString "EQUB 1:ALIGN:EQUS \"\"") = [⟨0, [1]⟩, ⟨4, []⟩] ∧
      (assemble (.ofString "EQUB 1:ALIGN:EQUS \"\"") 0).toOption = some #[1, 0, 0, 0] ∧
      (assemble (.ofString "EQUB 1:ALIGN") 0).toOption = some #[1] := by
  decide +kernel

end Program

end InlineA64
