/-
  VmkLinux/Heap/Kmalloc.lean
  ==========================
  **The size of a block** (`vmklinux26/vmware/linux_heap.c`): what `vmklnx_kmalloc`,
  `vmklnx_kzmalloc` and `vmklnx_kmalloc_align` ask the heap for.

  The size is rounded up to a power of two with `fls` of its low 32 bits and a shift of an `int`,
  and the heap takes a `vmk_uint32`.  A block holds what it was asked for exactly up to 2^31 bytes
  (`le_heapSize_iff`); beyond that, `remnant` is what is left of the size (`kmalloc_rounds_up`).
-/
import Mathlib.Algebra.Group.Int.Defs
import Mathlib.Algebra.Group.Nat.Defs
import Mathlib.Data.Nat.Log

namespace VmkLinux.Heap

/-- `fls`. -/
def fls (x : BitVec 32) : Nat := if x = 0 then 0 else x.toNat.log2 + 1

/-- `1 << n` of an `int`: the machine takes the amount modulo 32. -/
def shiftOne (n : Int) : BitVec 32 := (1 : BitVec 32) <<< (n % 32).toNat

/-- `actual` in `vmklnx_kmalloc` and `vmklnx_kmalloc_align`, after it was doubled. -/
def actualSize (size : BitVec 64) : BitVec 64 :=
  let actual := (shiftOne ((fls (size.setWidth 32) : Int) - 1)).signExtend 64
  if actual < size then actual <<< 1 else actual

/-- The argument of `vmk_HeapAllocWithRA` and `vmk_HeapAlignWithRA`. -/
def heapSize (size : BitVec 64) : BitVec 32 := (actualSize size).setWidth 32

/-- `kmalloc`; `heapAlloc` is what the heap gives for a size. -/
def kmalloc {α : Type} (heapAlloc : BitVec 32 → Option α) (size : BitVec 64) : Option α :=
  if size = 0 then none else heapAlloc (heapSize size)

/-- What a function asks the heap for, and what it returns. -/
structure Answer where
  asked : Option (BitVec 32)
  block : Option (BitVec 64)
deriving DecidableEq, Repr

/-- `vmklnx_kmalloc`; `heapAlloc` is `vmk_HeapAllocWithRA`. -/
def vmklnxKmalloc (heapAlloc : BitVec 32 → Option (BitVec 64)) (size : BitVec 64) : Answer :=
  if size = 0 then ⟨none, none⟩
  else ⟨some (heapSize size), heapAlloc (heapSize size)⟩

/-- `vmklnx_kzmalloc`, with the number of bytes that it clears from the block on. -/
def vmklnxKzmalloc (heapAlloc : BitVec 32 → Option (BitVec 64)) (size : BitVec 64) :
    Answer × Nat :=
  let p := vmklnxKmalloc heapAlloc size
  (p, if p.block.isSome then size.toNat else 0)

/-- `vmklnx_kmalloc_align`; `heapAlign` is `vmk_HeapAlignWithRA`. -/
def vmklnxKmallocAlign (heapAlign : BitVec 32 → BitVec 32 → Option (BitVec 64))
    (size align : BitVec 64) : Answer :=
  if size = 0 then ⟨none, none⟩
  else ⟨some (heapSize size), heapAlign (heapSize size) (align.setWidth 32)⟩

/-- `kmalloc` is `vmklnx_kmalloc`. -/
theorem kmalloc_eq (heapAlloc : BitVec 32 → Option (BitVec 64)) (size : BitVec 64) :
    kmalloc heapAlloc size = (vmklnxKmalloc heapAlloc size).block := by
  unfold kmalloc vmklnxKmalloc
  split
  · rfl
  · rfl

/-! ### The low half -/

theorem toNat_shiftOne {n : Nat} (h : n < 32) : (shiftOne n).toNat = 2 ^ n := by
  have hmod : ((n : Int) % 32).toNat = n := by omega
  have hpow : 2 ^ n < 2 ^ 32 := Nat.pow_lt_pow_right (by decide) h
  have hone : (1 : BitVec 32).toNat = 1 := rfl
  rw [shiftOne, hmod, BitVec.toNat_shiftLeft, Nat.shiftLeft_eq, hone, Nat.one_mul,
    Nat.mod_eq_of_lt hpow]

theorem toNat_signExtend {x : BitVec 32} (h : x.toNat < 2 ^ 31) :
    (x.signExtend 64).toNat = x.toNat := by
  have hmsb : x.msb = false := by
    rw [BitVec.msb_eq_decide]
    simp only [decide_eq_false_iff_not]
    omega
  rw [BitVec.signExtend_eq_setWidth_of_msb_false hmsb, BitVec.toNat_setWidth]
  omega

/-- The exponent is that of the low 32 bits. -/
theorem fls_pred {x : BitVec 32} (hpos : x ≠ 0) : ((fls x : Int) - 1) = (x.toNat.log2 : Nat) := by
  rw [fls, if_neg hpos]
  omega

theorem toNat_low {size : BitVec 64} (h : size.toNat < 2 ^ 32) :
    (size.setWidth 32).toNat = size.toNat := by
  rw [BitVec.toNat_setWidth]
  omega

theorem low_ne_zero {size : BitVec 64} (hpos : size ≠ 0) (h : size.toNat < 2 ^ 32) :
    size.setWidth 32 ≠ 0 := by
  intro hzero
  apply hpos
  apply BitVec.eq_of_toNat_eq
  rw [← toNat_low h, hzero]
  rfl

/-- Without the highest of the 32 bits, the power of two is doubled where it is too small. -/
theorem heapSize_of_low {size : BitVec 64} (hpos : size.setWidth 32 ≠ 0)
    (h : (size.setWidth 32).toNat < 2 ^ 31) :
    (heapSize size).toNat =
      if 2 ^ (size.setWidth 32).toNat.log2 < size.toNat then
        2 ^ ((size.setWidth 32).toNat.log2 + 1)
      else 2 ^ (size.setWidth 32).toNat.log2 := by
  have hne : (size.setWidth 32).toNat ≠ 0 := fun hz => hpos (BitVec.eq_of_toNat_eq hz)
  have hlog : (size.setWidth 32).toNat.log2 < 31 := (Nat.log2_lt hne).mpr h
  have hpow : 2 ^ (size.setWidth 32).toNat.log2 ≤ 2 ^ 30 :=
    Nat.pow_le_pow_right (by decide) (by omega)
  have hone := toNat_shiftOne (show (size.setWidth 32).toNat.log2 < 32 by omega)
  have hactual := toNat_signExtend (hone ▸ Nat.lt_of_le_of_lt hpow (by decide))
  have hdouble : 2 ^ ((size.setWidth 32).toNat.log2 + 1) =
      2 ^ (size.setWidth 32).toNat.log2 * 2 := Nat.pow_succ ..
  rw [hone] at hactual
  rw [heapSize, actualSize, fls_pred hpos, BitVec.toNat_setWidth, hdouble]
  generalize 2 ^ (size.setWidth 32).toNat.log2 = p at *
  by_cases hlt : p < size.toNat
  · rw [if_pos hlt, if_pos (by rwa [BitVec.lt_def, hactual]), BitVec.toNat_shiftLeft,
      Nat.shiftLeft_eq, hactual]
    omega
  · rw [if_neg hlt, if_neg (by rwa [BitVec.lt_def, hactual]), hactual]
    omega

/-- With the highest bit the `int` is negative, and its sign goes into the upper half. -/
theorem heapSize_of_low_ge {size : BitVec 64} (h : 2 ^ 31 ≤ (size.setWidth 32).toNat) :
    heapSize size = if 0xffffffff80000000 < size.toNat then 0 else 0x80000000 := by
  have hne : (size.setWidth 32).toNat ≠ 0 := by omega
  have hpos : size.setWidth 32 ≠ 0 := fun hzero => hne (congrArg BitVec.toNat hzero)
  have hlog : (size.setWidth 32).toNat.log2 = 31 := by
    have hless : (size.setWidth 32).toNat.log2 < 32 := (Nat.log2_lt hne).mpr (BitVec.isLt _)
    have hmore : 31 ≤ (size.setWidth 32).toNat.log2 := (Nat.le_log2 hne).mpr h
    omega
  have hactual : (shiftOne (31 : Nat)).signExtend 64 = 0xffffffff80000000 := by decide
  rw [heapSize, actualSize, fls_pred hpos, hlog, hactual]
  by_cases hlt : 0xffffffff80000000 < size.toNat
  · rw [if_pos hlt, if_pos (by rwa [BitVec.lt_def])]
    rfl
  · rw [if_neg hlt, if_neg (by rwa [BitVec.lt_def])]
    rfl

/-- Below 2^31 the block has the next power of two. -/
theorem heapSize_of_lt {size : BitVec 64} (hpos : size ≠ 0) (h : size.toNat < 2 ^ 31) :
    (heapSize size).toNat.isPowerOfTwo ∧ size.toNat ≤ (heapSize size).toNat ∧
      (heapSize size).toNat < 2 * size.toNat := by
  have hlow := toNat_low (show size.toNat < 2 ^ 32 by omega)
  have hsize := heapSize_of_low (low_ne_zero hpos (by omega)) (hlow ▸ h)
  have hne : size.toNat ≠ 0 := fun hz => hpos (BitVec.eq_of_toNat_eq hz)
  have hself := Nat.log2_self_le hne
  have htop := @Nat.lt_log2_self size.toNat
  rw [hlow] at hsize
  rw [Nat.pow_succ] at htop
  by_cases hlt : 2 ^ size.toNat.log2 < size.toNat
  · rw [if_pos hlt] at hsize
    refine ⟨⟨_, hsize⟩, ?_⟩
    rw [hsize, Nat.pow_succ]
    omega
  · rw [if_neg hlt] at hsize
    refine ⟨⟨_, hsize⟩, ?_⟩
    omega

/-- From 2^31 on, as far as 32 bits go, the shift reaches the sign bit. -/
theorem heapSize_of_ge {size : BitVec 64} (hge : 2 ^ 31 ≤ size.toNat) (hlt : size.toNat < 2 ^ 32) :
    (heapSize size).toNat = 2 ^ 31 := by
  rw [heapSize_of_low_ge (toNat_low hlt ▸ hge), if_neg (by omega)]
  rfl

/-- A multiple of 2^32 has no bit among the low 32, and the shift is by -1. -/
theorem heapSize_of_low_zero {size : BitVec 64} (hlow : size.setWidth 32 = 0)
    (h : size.toNat ≤ 0xffffffff80000000) : heapSize size = 0x80000000 := by
  have hactual : (shiftOne ((fls 0 : Int) - 1)).signExtend 64 = 0xffffffff80000000 := by decide
  have hnot : ¬(0xffffffff80000000 : BitVec 64) < size := by
    rw [BitVec.lt_def]
    exact Nat.not_lt.mpr h
  rw [heapSize, actualSize, hlow, hactual]
  rw [if_neg hnot]
  rfl

/-- A block holds what it was asked for up to 2^31 bytes, and never beyond. -/
theorem le_heapSize_iff {size : BitVec 64} (hpos : size ≠ 0) :
    size.toNat ≤ (heapSize size).toNat ↔ size.toNat ≤ 2 ^ 31 := by
  have hheap := (heapSize size).isLt
  constructor
  · intro hle
    by_cases hge : 2 ^ 31 ≤ size.toNat
    · rwa [heapSize_of_ge hge (by omega)] at hle
    · omega
  · intro hle
    rcases Nat.lt_or_eq_of_le hle with hlt | heq
    · exact (heapSize_of_lt hpos hlt).2.1
    · rw [heapSize_of_ge (by omega) (by omega)]
      exact hle

/-! ### What is meant -/

/-- Nothing is returned, or the heap was asked for the next power of two. -/
def Answer.RoundsUp (size : BitVec 64) (answer : Answer) : Prop :=
  answer.block = none ∨
    ∃ p, answer.asked = some p ∧ p.toNat.isPowerOfTwo ∧ size.toNat ≤ p.toNat ∧
      p.toNat < 2 * size.toNat

/-- What is left of a size above 2^31: twice the highest bit of its low half; 2^31, where that has
    32 bits or none; and nothing of the last 2^31 sizes. -/
def remnant (size : BitVec 64) : BitVec 32 :=
  let low := size.toNat % 2 ^ 32
  if 0xffffffff80000000 < size.toNat then 0
  else if low = 0 ∨ 2 ^ 31 ≤ low then 0x80000000
  else BitVec.ofNat 32 (2 ^ (low.log2 + 1))

theorem heapSize_eq_remnant {size : BitVec 64} (h : 2 ^ 31 < size.toNat) :
    heapSize size = remnant size := by
  have hsize := size.isLt
  have hlow : (size.setWidth 32).toNat = size.toNat % 2 ^ 32 := BitVec.toNat_setWidth 32 size
  unfold remnant
  dsimp only
  rcases Nat.eq_zero_or_pos (size.toNat % 2 ^ 32) with hzero | hpos
  · have hle : size.toNat ≤ 0xffffffff80000000 := by omega
    rw [if_neg (Nat.not_lt.mpr hle), if_pos (.inl hzero)]
    exact heapSize_of_low_zero (BitVec.eq_of_toNat_eq (hlow.trans hzero)) hle
  rcases Nat.lt_or_ge (size.toNat % 2 ^ 32) (2 ^ 31) with hlt | hge
  · have hne : size.setWidth 32 ≠ 0 := by
      intro hzero
      have hnone : (size.setWidth 32).toNat = 0 := congrArg BitVec.toNat hzero
      omega
    have hlog : (size.toNat % 2 ^ 32).log2 < 31 := (Nat.log2_lt (by omega)).mpr hlt
    have hpow : 2 ^ (size.toNat % 2 ^ 32).log2 ≤ 2 ^ 30 :=
      Nat.pow_le_pow_right (by decide) (by omega)
    have heq := heapSize_of_low hne (hlow ▸ hlt)
    rw [hlow, if_pos (by omega)] at heq
    rw [if_neg (by omega), if_neg (by omega)]
    apply BitVec.eq_of_toNat_eq
    rw [heq, BitVec.toNat_ofNat, Nat.pow_succ]
    omega
  · rw [heapSize_of_low_ge (hlow ▸ hge)]
    rw [if_pos (show size.toNat % 2 ^ 32 = 0 ∨ 2 ^ 31 ≤ size.toNat % 2 ^ 32 from .inr hge)]

/-! ### What the heap is asked for -/

/-- The two functions ask for the same. -/
theorem roundsUp_iff {size : BitVec 64} (hpos : size ≠ 0) (heap : BitVec 32 → Option (BitVec 64)) :
    Answer.RoundsUp size ⟨some (heapSize size), heap (heapSize size)⟩ ↔
      size.toNat ≤ 2 ^ 31 ∨ heap (remnant size) = none := by
  constructor
  · rintro (hnone | ⟨p, hp, -, hle, -⟩)
    · rcases Nat.lt_or_ge (2 ^ 31) size.toNat with hgt | hle
      · rw [heapSize_eq_remnant hgt] at hnone
        exact .inr hnone
      · exact .inl hle
    · obtain rfl := Option.some.inj hp
      exact .inl ((le_heapSize_iff hpos).mp hle)
  · intro h
    rcases Nat.lt_trichotomy size.toNat (2 ^ 31) with hlt | heq | hgt
    · exact .inr ⟨_, rfl, heapSize_of_lt hpos hlt⟩
    · have hsize := heapSize_of_ge (Nat.le_of_eq heq.symm) (by omega)
      refine .inr ⟨_, rfl, ⟨31, hsize⟩, ?_⟩
      omega
    · rcases h with hle | hnone
      · exact absurd hle (Nat.not_le.mpr hgt)
      · rw [heapSize_eq_remnant hgt]
        exact .inl hnone

theorem kmalloc_rounds_up (heapAlloc : BitVec 32 → Option (BitVec 64))
    (heapAlign : BitVec 32 → BitVec 32 → Option (BitVec 64)) (size align : BitVec 64)
    (hpos : size ≠ 0) :
    ((vmklnxKmalloc heapAlloc size).RoundsUp size ↔
      size.toNat ≤ 2 ^ 31 ∨ heapAlloc (remnant size) = none) ∧
    ((vmklnxKmallocAlign heapAlign size align).RoundsUp size ↔
      size.toNat ≤ 2 ^ 31 ∨ heapAlign (remnant size) (align.setWidth 32) = none) := by
  rw [vmklnxKmalloc, vmklnxKmallocAlign, if_neg hpos, if_neg hpos]
  exact ⟨roundsUp_iff hpos heapAlloc, roundsUp_iff hpos fun n => heapAlign n (align.setWidth 32)⟩

theorem kmalloc_rounds_up_three :
    ((vmklnxKmalloc (fun _ => some 0x1000) 3).RoundsUp 3 ↔
      (3 : BitVec 64).toNat ≤ 2 ^ 31 ∨ some (0x1000 : BitVec 64) = none) ∧
    ((vmklnxKmallocAlign (fun _ _ => some 0x1000) 3 16).RoundsUp 3 ↔
      (3 : BitVec 64).toNat ≤ 2 ^ 31 ∨ some (0x1000 : BitVec 64) = none) :=
  kmalloc_rounds_up (fun _ => some 0x1000) (fun _ _ => some 0x1000) 3 16 (by decide)

/-- For one byte more than 2^31 the heap is asked for 2^31 bytes, and for one more than 2^32 for
    two. -/
theorem block_too_small :
    ¬(vmklnxKmalloc (fun _ => some 0x1000) 0x80000001).RoundsUp 0x80000001 ∧
      ¬(vmklnxKmallocAlign (fun _ _ => some 0x1000) 0x100000001 16).RoundsUp 0x100000001 := by
  constructor
  · rintro (hnone | ⟨p, hp, -, hle, -⟩)
    · exact absurd hnone nofun
    · have hasked : p = 0x80000000 := (Option.some.inj hp).symm.trans (by decide)
      rw [hasked] at hle
      exact absurd hle (by decide)
  · rintro (hnone | ⟨p, hp, -, hle, -⟩)
    · exact absurd hnone nofun
    · have hasked : p = 2 := (Option.some.inj hp).symm.trans (by decide)
      rw [hasked] at hle
      exact absurd hle (by decide)

/-- What `vmklnx_kzmalloc` clears is in the block. -/
theorem kzmalloc_clears_block (heapAlloc : BitVec 32 → Option (BitVec 64)) (size : BitVec 64)
    (hpos : size ≠ 0) :
    (∀ p, (vmklnxKzmalloc heapAlloc size).1.asked = some p →
        (vmklnxKzmalloc heapAlloc size).2 ≤ p.toNat) ↔
      size.toNat ≤ 2 ^ 31 ∨ heapAlloc (remnant size) = none := by
  rw [vmklnxKzmalloc, vmklnxKmalloc, if_neg hpos]
  dsimp only
  rcases Nat.lt_or_ge (2 ^ 31) size.toNat with hgt | hle
  · have hno : ¬size.toNat ≤ (heapSize size).toNat := by
      rw [le_heapSize_iff hpos]
      exact Nat.not_le.mpr hgt
    rw [← heapSize_eq_remnant hgt]
    cases heapAlloc (heapSize size) with
    | none => exact iff_of_true (fun p _ => Nat.zero_le _) (.inr rfl)
    | some addr =>
      refine iff_of_false (fun hall => hno (hall _ rfl)) ?_
      rintro (hle | hnone)
      · exact absurd hle (Nat.not_le.mpr hgt)
      · exact absurd hnone nofun
  · refine iff_of_true ?_ (.inl hle)
    intro p hp
    obtain rfl := Option.some.inj hp
    split
    · exact (le_heapSize_iff hpos).mpr hle
    · exact Nat.zero_le _

end VmkLinux.Heap
