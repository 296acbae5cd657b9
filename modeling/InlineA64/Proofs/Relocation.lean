import InlineA64.Proofs.Block.Displaced
import InlineA64.Proofs.TwoPass

/-!
# Position-independent programs

A program that refers to its code only by the distance of a label, and else names numbers and
strings, assembles to the same bytes wherever it is to run (`Program.position_independent`), as long
as it keeps its place in the greatest unit that code can be aligned to. In both passes the labels of
one run are those of the other at the distance of the bases.
-/

namespace InlineA64

open Machine (environment)

namespace Expression

/-- At the cursor stands the name of a label and nothing else. -/
def isLabel (s : Cursor) : Bool :=
  (plainName? s).any fun name => name != bytesOf "P%" && name != bytesOf "O%"

/-- No name stands for a floating-point number. -/
theorem Scope.value?_ne_float {scope : Scope} {name : Name} {v : Value}
    (h : scope.value? name = some v) (f : Float) : v ≠ .float f := by
  rintro rfl
  rw [value?] at h
  split at h
  · cases h
  split at h
  · cases h
  split at h
  · next w _ => cases w <;> cases h
  · split at h <;> cases h

end Expression

/-- The value does not depend on where code is placed, or comes to the same at any distance: a
constant has no names in it, and a target is a label. The distance in pages does depend on the
place. -/
def Evaluation.relocatable (e : Evaluation) : Bool :=
  match e.purpose with
  | .constant => e.readsIn fun _ => none
  | .target => Expression.isLabel e.cursor
  | .page => false

namespace Block

/-- The next item of a block does not set the options, and no expression that it has evaluated tells
where the code is placed. -/
def relocatable (b : Block Machine Name) : Bool :=
  b.upcoming != .statement (some (.directive .options)) && b.evaluations.all Evaluation.relocatable

variable {δ : UInt64} {o o' : Options} {k k' : Standing} {b : Block Machine Name}

/-- A label is as far away at a distance. -/
theorem Displaced.agrees (h : Displaced δ o o' k k') {v : Value} (hv : ∀ f, v ≠ .float f) :
    Purpose.target.Agrees k.scope.context k'.scope.context v (v.displaced δ) := by
  cases v with
  | int n =>
    refine congrArg some ?_
    change n - _ = n + δ.toInt64 - _
    rw [h.toInt64_logical]
    grind
  | float f => exact absurd rfl (hv f)
  | string bytes => rfl

theorem plain_of_relocatable (hcheck : o.rangeCheck = o'.rangeCheck) (h : b.relocatable = true) :
    b.Plain #[] #[] (Displaced δ o o') := by
  rw [relocatable, Bool.and_eq_true, bne_iff_ne] at h
  refine ⟨fun heq => absurd heq h.1, fun e he k k' hk hscope => ?_, nofun⟩
  have hrelocatable := List.all_eq_true.mp h.2 e he
  obtain ⟨purpose, scope, cursor⟩ := e
  obtain rfl : scope = k.scope := hscope
  cases purpose with
  | constant =>
    exact Evaluation.carries_of_readsIn hrelocatable (fun v => rfl) (fun _ _ h => nomatch h)
      fun _ _ h => nomatch h
  | target =>
    change Expression.isLabel cursor = true at hrelocatable
    rw [Expression.isLabel] at hrelocatable
    rcases hname : Expression.plainName? cursor with _ | name
    · rw [hname] at hrelocatable
      cases hrelocatable
    rw [hname, Option.any_some, Bool.and_eq_true, bne_iff_ne, bne_iff_ne] at hrelocatable
    -- what is read is the value of the name, in either block
    obtain ⟨t, hread⟩ := Expression.readIn_of_plainName hname
    intro s hs v u hv
    obtain ⟨hvalue, rfl⟩ := (hread _ v u).mp hv
    obtain ⟨_, u', hv', -, hu, honward⟩ := Expression.takes_readIn (fun _ _ h => h) hs hv
    obtain rfl := hs.eq
    obtain ⟨-, rfl⟩ := (hread _ _ u').mp hv'
    refine ⟨v.displaced δ, _, (hread _ _ _).mpr ⟨?_, rfl⟩, ?_, hu, honward⟩
    · rw [hk.value?_eq hcheck hrelocatable.2, hvalue, Option.map_some]
    · exact hk.agrees (Expression.Scope.value?_ne_float hvalue)
  | page =>
    -- the distance in pages is not relocatable
    cases hrelocatable

end Block

namespace Program

variable {base base' δ : UInt64} {options : Options} {m m' w first : Machine} {s : Cursor}
  {bytes : Array Byte}

/-- The blocks from which the items of both passes start that succeed. -/
def stages (base : UInt64) (s : Cursor) : List (Block Machine Name) :=
  Block.stages environment (start base (.ofInt 0) (.ofBase base) s) ++
    match pass base (.ofInt 0) (.ofBase base) s with
    | .ok first => Block.stages environment (start base (.ofInt 2) first s)
    | .error _ => []

/-- A pass that succeeds does so at a distance. -/
theorem exists_pass (hδ : δ % 128 = 0) (hlimit : options.limitCheck = false)
    (h : Block.Displaced δ options options (start base options m s).standing
      (start base' options m' s).standing)
    (hs : s.pos ≤ s.text.size)
    (hplain : ∀ b ∈ Block.stages environment (start base options m s), b.relocatable = true)
    (hpass : pass base options m s = .ok w) :
    ∃ w', pass base' options m' s = .ok w' ∧ w'.image.bytes = w.image.bytes ∧
      ∀ name, w'.vars.get? name = (w.vars.get? name).map (Variable.displaced δ) := by
  simp only [pass] at hpass ⊢
  split at hpass
  · cases hpass
  · next hok =>
    obtain ⟨hcursor, k, k', hk, hclosed, hclosed'⟩ :=
      h.assemble hδ rfl hlimit hs (fun b hb => Block.plain_of_relocatable rfl (hplain b hb)) hok
    -- a pass has to end where the source does, which both do at one place
    split at hpass
    · next hend =>
      rw [hclosed'.failure, hcursor]
      cases hpass
      refine ⟨_, if_pos hend, ?_, fun name => ?_⟩
      · rw [hclosed.image, hclosed'.image, hk.bytes]
      · rw [hclosed.vars, hclosed'.vars, hk.vars]
    · cases hpass

/-- The blocks of a pass at two bases are at a distance when they start, if the variables are. -/
theorem displaced_start (hlow : Image.Low base) (hlow' : Image.Low base') (hbase : base' = base + δ)
    (hm : m.fixed = (Machine.ofBase base).fixed) (hm' : m'.fixed = (Machine.ofBase base').fixed)
    (hvars : ∀ name, m'.vars.get? name = (m.vars.get? name).map (Variable.displaced δ))
    (hothers : options.rangeCheck = true ∨ ∀ name, m.vars.get? name = none) :
    Block.Displaced δ options options (start base options m s).standing
      (start base' options m' s).standing := by
  simp only [Machine.fixed, Prod.mk.injEq] at hm hm'
  -- bytes go to the start of the image at first, whether they are written apart or not
  have hplace {base : UInt64} {m : Machine} (hm : m.image.base = base) :
      (start base options m s).placement.writeAddress - m.image.base = 0 := by
    change (if options.offset then base else base) - m.image.base = 0
    rw [ite_self, hm, UInt64.sub_self]
  exact {
    logical := hbase
    place := (hplace hm'.1).trans (hplace hm.1).symm
    options := rfl
    options' := rfl
    fresh := rfl
    labels := rfl
    low := hm.1 ▸ hlow
    low' := hm'.1 ▸ hlow'
    bytes := rfl
    vars := hvars
    symbols := hm'.2.1.trans hm.2.1.symm
    systemCalls := hm'.2.2.trans hm.2.2.symm
    others := hothers.imp_right fun hnone => .inr fun name hname =>
      absurd hname (Option.not_isSome_iff_eq_none.mpr (hnone name)) }

theorem assemble_of_displaced (hlow : Image.Low base) (hlow' : Image.Low base')
    (hbase : base' = base + δ) (hδ : δ % 128 = 0) (hs : s.pos ≤ s.text.size)
    (hplain : ∀ b ∈ stages base s, b.relocatable = true) (h : assemble s base = .ok bytes) :
    assemble s base' = .ok bytes := by
  obtain ⟨first, hfirst, h⟩ := except_bind_eq_ok.mp h
  obtain ⟨second, hsecond, h⟩ := except_bind_eq_ok.mp h
  rw [stages, hfirst] at hplain
  -- the first pass leaves the variables at the distance
  obtain ⟨first', hfirst', -, hvars⟩ := exists_pass hδ rfl
    (displaced_start hlow hlow' hbase rfl rfl (fun _ => rfl) (.inr fun _ => rfl)) hs
    (fun b hb => hplain b (List.mem_append_left _ hb)) hfirst
  -- with which the second writes the same bytes
  obtain ⟨second', hsecond', hbytes, -⟩ := exists_pass hδ rfl
    (displaced_start hlow hlow' hbase (fixed_of_pass hfirst) (fixed_of_pass hfirst') hvars
      (.inl rfl)) hs (fun b hb => hplain b (List.mem_append_right _ hb)) hsecond
  refine except_bind_eq_ok.mpr ⟨first', hfirst', except_bind_eq_ok.mpr ⟨second', hsecond', ?_⟩⟩
  rw [hbytes]
  exact h

/-- Where a program that refers to its code by labels alone is to run makes no difference to its
bytes, nor to whether it can be assembled, between bases that agree modulo the greatest unit that
code can be aligned to. -/
theorem position_independent (base base' : UInt64) (hbase : base.toNat ≤ 2 ^ 64 - 2 ^ 25)
    (hbase' : base'.toNat ≤ 2 ^ 64 - 2 ^ 25) (hmod : base.toNat % 128 = base'.toNat % 128)
    {s : Cursor} (hs : s.pos ≤ s.text.size)
    (h : ∀ b ∈ stages base s, b.relocatable = true)
    (h' : ∀ b ∈ stages base' s, b.relocatable = true) (bytes : Array Byte) :
    assemble s base = .ok bytes ↔ assemble s base' = .ok bytes := by
  have hδ {base base' : UInt64} (hmod : base.toNat % 128 = base'.toNat % 128) :
      (base' - base) % 128 = 0 := by
    have hlt := base.toNat_lt
    apply UInt64.toNat_inj.mp
    rw [UInt64.toNat_mod, UInt64.toNat_sub]
    change (2 ^ 64 - base.toNat + base'.toNat) % 2 ^ 64 % 128 = 0
    omega
  exact ⟨assemble_of_displaced hbase hbase' (by grind) (hδ hmod) hs h,
    assemble_of_displaced hbase' hbase (by grind) (hδ hmod.symm) hs h'⟩

/-- Branches and loads to labels before and behind them, far apart and not at a word. -/
theorem position_independent_labels :
    assemble (.ofString ".on EQUB 1:ADR X0,on:ALIGN 16:B off:CBZ X1,on:.off LDR X2,on") 0x123483 =
      .ok #[0, 0x01, 0, 0, 0, 0xe0, 0xff, 0xff, 0x10, 0x1f, 0x20, 0x03, 0xd5, 0x02, 0, 0, 0x14,
        0x81, 0xff, 0xff, 0xb4, 0x62, 0xff, 0xff, 0x58] :=
  (position_independent 0x8003 _ (by decide) (by decide) (by decide) (by decide +kernel)
    (List.all_eq_true.mp (by decide +kernel)) (List.all_eq_true.mp (by decide +kernel)) _).mp
    (except_toOption_eq_some.mp (by decide +kernel))

end Program

end InlineA64
