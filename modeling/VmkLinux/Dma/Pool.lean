/-
  VmkLinux/Dma/Pool.lean
  ======================
  **DMA pools** (`vmklinux26/vmware/linux_dma.c`): `dma_pool_create` and `dma_pool_alloc`.

  A pool keeps no boundary.  That its blocks do not cross one rests on the alignment alone: it
  is a power of two and not below the size of a block, so a block lies between two of its
  multiples, and of two powers of two one divides the other (`block_fits`).

  The alignment is rounded up in `int` arithmetic: `fls` takes an `int` and so does the shift.
  A `size_t` has 64 bits, so from `2 ^ 30` on a size that is no power of two and not below the
  requested alignment is rounded to something else (`pool_too_small`).
-/
import Mathlib.Algebra.Group.Int.Defs
import Mathlib.Algebra.Group.Nat.Defs
import Mathlib.Data.Nat.Basic
import VmkLinux.Heap.Kmalloc

namespace VmkLinux.Dma

open VmkLinux.Heap (fls)

/-! ### Data -/

/-- `struct dma_pool`, without its name. -/
structure DmaPool where
  dev : Option Nat
  size : BitVec 64
  align : BitVec 64
  heapId : Nat
deriving DecidableEq, Repr

/-- `struct device`: its heap, 0 for `VMK_INVALID_HEAP_ID`. -/
structure Device where
  dmaMem : Nat
deriving DecidableEq, Repr

/-- `1 << CONFIG_X86_L1_CACHE_SHIFT`. -/
def smpCacheBytes : BitVec 64 := 64

/-- `1 << k`, an `int`; `past` says what the shift gives where the bit does not fit into one,
    which the language leaves open. -/
def shiftOne (past : Nat → BitVec 32) (k : Nat) : BitVec 32 :=
  if k < 31 then 1#32 <<< k else past k

/-- What the processor makes of it: it takes the count modulo 32. -/
def processorShift (k : Nat) : BitVec 32 := 1#32 <<< (k % 32)

def notPowerOfTwo (n : BitVec 64) : Bool := decide (n &&& (n - 1) ≠ 0)

/-! ### `dma_pool_create` -/

/-- The rounding of `dma_pool_create`. -/
def roundAlign (past : Nat → BitVec 32) (size align : BitVec 64) : BitVec 64 :=
  if align < size then
    if notPowerOfTwo size then (shiftOne past (fls (size.setWidth 32))).signExtend 64 else size
  else align

/-- `dma_pool_create`; `memory` answers `kmalloc`, `moduleHeap` is `Linux_GetModuleHeapID`. -/
def dmaPoolCreate (past : Nat → BitVec 32) (memory : Bool) (moduleHeap : Nat)
    (dev : Option Device) (size align boundary : BitVec 64) : Option DmaPool :=
  if align ≠ 0 ∧ notPowerOfTwo align then none
  else if boundary ≠ 0 ∧ (boundary < size ∨ notPowerOfTwo boundary) then none
  else if size = 0 then none
  else if memory = false then none
  else
    let heapID := (dev.map Device.dmaMem).getD 0
    some
      { dev := dev.map Device.dmaMem
        size := size
        align := roundAlign past size (if align = 0 then smpCacheBytes else align)
        heapId := if heapID = 0 then moduleHeap else heapID }

/-- `dma_pool_alloc`; `kmallocAlign` stands for `vmklnx_kmalloc_align` with `virt_to_bus`. -/
def dmaPoolAlloc (kmallocAlign : Nat → BitVec 64 → BitVec 64 → Option Nat) (pool : DmaPool) :
    Option Nat :=
  kmallocAlign pool.heapId pool.size pool.align

/-! ### Powers of two -/

section PowersOfTwo

variable {a b n : Nat}

theorem dvd_of_powers (ha : a.isPowerOfTwo) (hb : b.isPowerOfTwo) (h : a ≤ b) : a ∣ b := by
  obtain ⟨i, rfl⟩ := ha
  obtain ⟨j, rfl⟩ := hb
  exact Nat.pow_dvd_pow 2 ((Nat.pow_le_pow_iff_right (by decide)).mp h)

/-- Between two powers of two that follow each other there is none. -/
theorem not_power_between (k : Nat) (hlow : 2 ^ k < n) (hhigh : n < 2 ^ (k + 1)) :
    ¬ n.isPowerOfTwo := by
  rintro ⟨j, rfl⟩
  have hkj := (Nat.pow_lt_pow_iff_right (by decide)).mp hlow
  have hjk := (Nat.pow_lt_pow_iff_right (by decide)).mp hhigh
  omega

/-- A block between two multiples of its alignment crosses no boundary: the smaller one of
    alignment and boundary divides both. -/
theorem block_inside {addr size m : Nat} (ha : a.isPowerOfTwo) (hb : b.isPowerOfTwo)
    (hsa : size ≤ a) (hsb : size ≤ b) (haddr : a ∣ addr) (hm : b ∣ m) :
    ¬ (addr < m ∧ m < addr + size) := by
  rintro ⟨hlow, hhigh⟩
  have hdvd : min a b ∣ m - addr := by
    rcases Nat.le_total a b with hle | hle
    · rw [Nat.min_eq_left hle]
      exact Nat.dvd_sub (Nat.dvd_trans (dvd_of_powers ha hb hle) hm) haddr
    · rw [Nat.min_eq_right hle]
      exact Nat.dvd_sub hm (Nat.dvd_trans (dvd_of_powers hb ha hle) haddr)
  have hle := Nat.le_of_dvd (by omega) hdvd
  omega

theorem isPowerOfTwo_iff (n : BitVec 64) (hn : n ≠ 0) :
    n.toNat.isPowerOfTwo ↔ notPowerOfTwo n = false := by
  have hne : n.toNat ≠ 0 := fun h => hn (BitVec.eq_of_toNat_eq h)
  have hsub : (n - 1).toNat = n.toNat - 1 := BitVec.toNat_sub_of_le (by
    rw [BitVec.le_def]
    exact Nat.pos_of_ne_zero hne)
  rw [← Nat.and_sub_one_eq_zero_iff_isPowerOfTwo hne, notPowerOfTwo, decide_eq_false_iff_not,
    not_not, ← BitVec.toNat_inj, BitVec.toNat_and, hsub]
  rfl

end PowersOfTwo

/-! ### The rounding -/

theorem toNat_signExtend (w : BitVec 32) :
    (w.signExtend 64).toNat = w.toNat + if 2 ^ 31 ≤ w.toNat then 2 ^ 64 - 2 ^ 32 else 0 := by
  have hlt := w.isLt
  rw [BitVec.toNat_signExtend, BitVec.toNat_setWidth, Nat.mod_eq_of_lt (by omega),
    BitVec.msb_eq_decide]
  simp only [decide_eq_true_eq]

/-- An `int` that is a power of two as a `size_t` is at most `2 ^ 30`. -/
theorem le_of_power (w : BitVec 32) (h : (w.signExtend 64).toNat.isPowerOfTwo) :
    (w.signExtend 64).toNat ≤ 2 ^ 30 := by
  have hlt := w.isLt
  have hval := toNat_signExtend w
  by_contra hlarge
  split at hval
  · exact not_power_between 63 (by omega) (by omega) h
  · exact not_power_between 30 (by omega) (by omega) h

/-- Up to `2 ^ 30` the shift fits into an `int`. -/
theorem toNat_shift (past : Nat → BitVec 32) {size : BitVec 64} (hpos : size ≠ 0)
    (hnot : notPowerOfTwo size = true) (hle : size.toNat ≤ 2 ^ 30) :
    ((shiftOne past (fls (size.setWidth 32))).signExtend 64).toNat =
      2 ^ (size.toNat.log2 + 1) := by
  have hne : size.toNat ≠ 0 := fun h => hpos (BitVec.eq_of_toNat_eq h)
  have hlow : (size.setWidth 32).toNat = size.toNat := by
    rw [BitVec.toNat_setWidth, Nat.mod_eq_of_lt (by omega)]
  have hne' : size.setWidth 32 ≠ 0 := fun h => hne (by rw [← hlow, h]; rfl)
  have hpower : ¬ size.toNat.isPowerOfTwo := by
    rw [isPowerOfTwo_iff size hpos, hnot]
    exact Bool.noConfusion
  have hlt : size.toNat < 2 ^ 30 := by
    refine Nat.lt_of_le_of_ne hle fun h => hpower ⟨30, h⟩
  have hlog : size.toNat.log2 < 30 := (Nat.log2_lt hne).mpr hlt
  have hfls : fls (size.setWidth 32) = size.toNat.log2 + 1 := by
    rw [fls, if_neg hne', hlow]
  have hpow : 2 ^ (size.toNat.log2 + 1) ≤ 2 ^ 30 := Nat.pow_le_pow_right (by decide) hlog
  have hshift : (shiftOne past (fls (size.setWidth 32))).toNat = 2 ^ (size.toNat.log2 + 1) := by
    rw [hfls, shiftOne, if_pos (by omega), BitVec.toNat_shiftLeft, Nat.shiftLeft_eq,
      BitVec.toNat_ofNat, Nat.one_mod_two_pow (by decide), Nat.one_mul]
    exact Nat.mod_eq_of_lt (by omega)
  rw [toNat_signExtend, hshift, if_neg (by omega), Nat.add_zero]

/-! ### Pools -/

/-- What a block is to satisfy: it starts on the caller's alignment and crosses no boundary. -/
structure BlockFits (size align boundary addr : Nat) : Prop where
  aligned : align ∣ addr
  inside : boundary ≠ 0 → ∀ m, boundary ∣ m → ¬ (addr < m ∧ m < addr + size)

/-- The alignment that the caller asks for. -/
def requested (align : BitVec 64) : BitVec 64 := if align = 0 then smpCacheBytes else align

/-- The pool keeps what its creation was asked for. -/
structure DmaPool.Sound (pool : DmaPool) (align boundary : BitVec 64) : Prop where
  blocks : ∀ addr, pool.align.toNat ∣ addr →
    BlockFits pool.size.toNat (requested align).toNat boundary.toNat addr
  power : pool.align.toNat.isPowerOfTwo
  large : pool.size ≤ pool.align

section Pools

variable {past : Nat → BitVec 32} {memory : Bool} {moduleHeap : Nat} {dev : Option Device}
  {size align boundary : BitVec 64} {pool : DmaPool}

/-- What `dma_pool_create` has checked when it returns a pool. -/
theorem dmaPoolCreate_some (h : dmaPoolCreate past memory moduleHeap dev size align boundary =
      some pool) :
    (requested align).toNat.isPowerOfTwo ∧
    (boundary ≠ 0 → size ≤ boundary ∧ boundary.toNat.isPowerOfTwo) ∧
    size ≠ 0 ∧ pool.size = size ∧ pool.align = roundAlign past size (requested align) := by
  unfold dmaPoolCreate at h
  split at h
  · cases h
  rename_i halign
  split at h
  · cases h
  rename_i hboundary
  split at h
  · cases h
  rename_i hsize
  split at h
  · cases h
  cases h
  refine ⟨?_, fun hne => ?_, hsize, rfl, rfl⟩
  · unfold requested
    split
    · decide
    · rename_i hne
      rw [isPowerOfTwo_iff align hne]
      rw [not_and, Bool.not_eq_true] at halign
      exact halign hne
  · rw [not_and, not_or, Bool.not_eq_true] at hboundary
    obtain ⟨hle, hpower⟩ := hboundary hne
    exact ⟨BitVec.not_lt.mp hle, (isPowerOfTwo_iff boundary hne).mpr hpower⟩

variable (past) in
/-- The alignment of a pool is right where it was not rounded, or rounded within an `int`. -/
theorem roundAlign_sound (hpower : (requested align).toNat.isPowerOfTwo) (hpos : size ≠ 0)
    (h : size ≤ requested align ∨ size.toNat.isPowerOfTwo ∨ size.toNat ≤ 2 ^ 30) :
    (roundAlign past size (requested align)).toNat.isPowerOfTwo ∧
      size ≤ roundAlign past size (requested align) ∧
      (requested align).toNat ∣ (roundAlign past size (requested align)).toNat := by
  unfold roundAlign
  split
  · rename_i hlt
    have hlt' : (requested align).toNat < size.toNat := hlt
    split
    · rename_i hnot
      have hround : size.toNat ≤ 2 ^ 30 := by
        rcases h with hle | hsize | hle
        · exact absurd hlt (BitVec.not_lt.mpr hle)
        · rw [isPowerOfTwo_iff size hpos, hnot] at hsize
          cases hsize
        · exact hle
      have hval := toNat_shift past hpos hnot hround
      have hlog : size.toNat < 2 ^ (size.toNat.log2 + 1) := Nat.lt_log2_self
      have hshift : ((shiftOne past (fls (size.setWidth 32))).signExtend 64).toNat.isPowerOfTwo :=
        ⟨_, hval⟩
      refine ⟨hshift, ?_, dvd_of_powers hpower hshift ?_⟩
      · rw [BitVec.le_def]
        omega
      · omega
    · rename_i hsize
      rw [Bool.not_eq_true, ← isPowerOfTwo_iff size hpos] at hsize
      exact ⟨hsize, BitVec.le_refl size, dvd_of_powers hpower hsize (Nat.le_of_lt hlt')⟩
  · rename_i hle
    exact ⟨hpower, BitVec.not_lt.mp hle, Nat.dvd_refl _⟩

/-- An alignment that was rounded past `2 ^ 30` is no power of two, or below the size. -/
theorem not_sound_of_overflow (hnot : ¬ size ≤ requested align)
    (hpower : ¬ size.toNat.isPowerOfTwo) (hpos : size ≠ 0) (hlarge : ¬ size.toNat ≤ 2 ^ 30)
    (hround : (roundAlign past size (requested align)).toNat.isPowerOfTwo) :
    ¬ size ≤ roundAlign past size (requested align) := by
  rw [isPowerOfTwo_iff size hpos, Bool.not_eq_false] at hpower
  rw [roundAlign, if_pos (BitVec.not_le.mp hnot), if_pos hpower] at hround ⊢
  have hle := le_of_power _ hround
  rw [BitVec.le_def]
  omega

/-- **The blocks of a pool honour its alignment and its boundary**, exactly where the alignment
    is not rounded up from a size that passes `2 ^ 30` and is no power of two. -/
theorem pool_blocks_fit
    (h : dmaPoolCreate past memory moduleHeap dev size align boundary = some pool) :
    pool.Sound align boundary ↔
      (size ≤ requested align ∨ size.toNat.isPowerOfTwo ∨ size.toNat ≤ 2 ^ 30) := by
  obtain ⟨hrequest, hboundary, hpos, hsize, halign⟩ := dmaPoolCreate_some h
  constructor
  · rintro ⟨-, hpower, hlarge⟩
    rw [halign] at hpower hlarge
    rw [hsize] at hlarge
    by_contra hnot
    rw [not_or, not_or] at hnot
    exact not_sound_of_overflow hnot.1 hnot.2.1 hpos hnot.2.2 hpower hlarge
  · intro hround
    obtain ⟨hpower, hlarge, hdvd⟩ := roundAlign_sound past hrequest hpos hround
    rw [← halign] at hpower hlarge hdvd
    refine ⟨fun addr haddr => ⟨Nat.dvd_trans hdvd haddr, fun hne m hm => ?_⟩, hpower,
      hsize ▸ hlarge⟩
    have hne' : boundary ≠ 0 := fun hzero => hne (by rw [hzero]; rfl)
    obtain ⟨hle, hbpower⟩ := hboundary hne'
    rw [hsize]
    exact block_inside hpower hbpower hlarge hle haddr hm

/-- What `dma_pool_alloc` returns, when the allocator honours the alignment that it is given. -/
theorem dmaPoolAlloc_fits {kmallocAlign : Nat → BitVec 64 → BitVec 64 → Option Nat} {addr : Nat}
    (hsound : pool.Sound align boundary)
    (hkmalloc : ∀ heap size align addr, kmallocAlign heap size align = some addr →
      align.toNat ∣ addr)
    (h : dmaPoolAlloc kmallocAlign pool = some addr) :
    BlockFits pool.size.toNat (requested align).toNat boundary.toNat addr :=
  hsound.blocks addr (hkmalloc _ _ _ _ h)

end Pools

/-- Blocks of 100 bytes that are not to cross a page, and one of them, from an allocator that
    gives out the address three times the alignment. -/
theorem pool_blocks_fit_in_page :
    (DmaPool.mk none 100 128 1).Sound 0 4096 ∧
      dmaPoolAlloc (fun _ _ align => some (3 * align.toNat)) (DmaPool.mk none 100 128 1) =
        some 384 ∧
      BlockFits 100 64 4096 384 := by
  have hcreate : dmaPoolCreate processorShift true 1 none 100 0 4096 =
      some (DmaPool.mk none 100 128 1) := by decide
  have hsound := (pool_blocks_fit hcreate).mpr (.inr (.inr (by decide)))
  have halloc : dmaPoolAlloc (fun _ _ align => some (3 * align.toNat))
      (DmaPool.mk none 100 128 1) = some 384 := rfl
  refine ⟨hsound, halloc, dmaPoolAlloc_fits hsound ?_ halloc⟩
  rintro heap size align addr ⟨⟩
  exact Nat.dvd_mul_left _ _

/-- The size of a pool of blocks of `2 ^ 31 + 1` bytes is rounded up to 1. -/
theorem pool_too_small :
    ¬ ∀ (size align boundary : BitVec 64) (pool : DmaPool),
      dmaPoolCreate processorShift true 1 none size align boundary = some pool →
        pool.Sound align boundary := by
  intro h
  have hsound := h 0x80000001 0 0 (DmaPool.mk none 0x80000001 1 1) (by decide)
  exact absurd hsound.large (by decide)

end VmkLinux.Dma
