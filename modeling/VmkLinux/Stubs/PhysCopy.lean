/-
  VmkLinux/Stubs/PhysCopy.lean
  ============================
  **Copies from and to machine addresses** (`vmklinux26/vmware/linux_stubs.c`):
  `vmklnx_p2v_memcpy`, `vmklnx_v2p_memcpy` and `__ioremap`.

  `vmklnx_phys_to_kmap` maps the pages of a chunk and returns where the first of them begins; it
  does not add the place of the address in that page, as `__ioremap` does.  A copy is right for
  an address at the beginning of a page, and there only (`physical_copies`).
-/
import VmkLinux.Pieces

namespace VmkLinux.Stubs.PhysCopy

open VmkLinux.Pieces

/-! ### The code -/

/-- `VMK_PAGE_SIZE`. -/
def pageSize : Nat := 4096

instance : NeZero pageSize := ⟨by decide⟩

/-- `vmk_MachPageRange`. -/
structure MachPageRange where
  startPage : BitVec 32
  numPages : BitVec 32

/-- The mappings of the VMkernel: `vmk_MapVA` and `vmk_MapVAUncached`, and the machine address that
    a virtual address is mapped to. -/
structure Vmk where
  mapVA : Bool → MachPageRange → Nat
  machAddr : Nat → Nat
  contiguous : ∀ uncached range k, k < range.numPages.toNat * pageSize →
    machAddr (mapVA uncached range + k) = range.startPage.toNat * pageSize + k

/-- A pointer into pages that are mapped at `vaddr`. -/
structure Mapped where
  vaddr : Nat
  bytes : Nat
  ptr : Nat

/-- The machine address of `ptr[j]`, if it is mapped. -/
def Mapped.byte (vmk : Vmk) (m : Mapped) (j : Nat) : Option Nat :=
  if m.vaddr ≤ m.ptr + j ∧ m.ptr + j < m.vaddr + m.bytes then some (vmk.machAddr (m.ptr + j))
  else none

/-- `vmk_MachAddrToMachPage`. -/
def machAddrToMachPage (maddr : BitVec 64) : BitVec 32 := (maddr >>> 12).setWidth 32

/-- The range of pages that `vmklnx_phys_to_kmap` and `__ioremap` map. -/
def pageRange (maddr length : BitVec 64) : MachPageRange :=
  let firstMPN := machAddrToMachPage maddr
  let lastMPN := machAddrToMachPage (maddr + length - 1)
  ⟨firstMPN, lastMPN - firstMPN + 1⟩

def Vmk.map (vmk : Vmk) (uncached : Bool) (range : MachPageRange) : Mapped :=
  ⟨vmk.mapVA uncached range, range.numPages.toNat * pageSize, vmk.mapVA uncached range⟩

/-- `vmklnx_phys_to_kmap`. -/
def physToKmap (vmk : Vmk) (maddr : BitVec 64) (length : Nat) : Mapped :=
  vmk.map false (pageRange maddr (BitVec.ofNat 64 length))

/-- The contents of memory, or of a buffer from its beginning. -/
abbrev Memory := Nat → UInt8

/-- `vmklnx_p2v_memcpy`; `none` is an access that is not mapped. -/
def p2vMemcpy (vmk : Vmk) (src : BitVec 64) (length : BitVec 32) (mem dst : Memory) :
    Option Memory :=
  loop pageSize (fun offset xferSz dst =>
    let srcVirt := physToKmap vmk (src + BitVec.ofNat 64 offset) xferSz
    piece xferSz (fun j (dst : Memory) =>
      (srcVirt.byte vmk j).map fun a => Function.update dst (offset + j) (mem a)) dst)
    length.toNat length.toNat dst

/-- `vmklnx_v2p_memcpy`. -/
def v2pMemcpy (vmk : Vmk) (dst : BitVec 64) (src : Memory) (length : BitVec 32) (mem : Memory) :
    Option Memory :=
  loop pageSize (fun offset xferSz mem =>
    let dstVirt := physToKmap vmk (dst + BitVec.ofNat 64 offset) xferSz
    piece xferSz (fun j (mem : Memory) =>
      (dstVirt.byte vmk j).map fun a => Function.update mem a (src (offset + j))) mem)
    length.toNat length.toNat mem

/-- `_PAGE_PCD`. -/
def pagePcd : BitVec 64 := 0x10

/-- `__ioremap`. -/
def ioremap (vmk : Vmk) (physAddr size flags : BitVec 64) : Mapped :=
  let addr := vmk.map (flags &&& pagePcd != 0) (pageRange physAddr size)
  { addr with ptr := addr.ptr + (physAddr &&& 4095).toNat }

/-- `addr[i]` of a mapped pointer. -/
def Mapped.read (vmk : Vmk) (m : Mapped) (mem : Memory) (i : Nat) : Option UInt8 :=
  (m.byte vmk i).map mem

/-! ### Pages -/

theorem toNat_machPage (maddr : BitVec 64) :
    (machAddrToMachPage maddr).toNat = maddr.toNat / pageSize % 2 ^ 32 := by
  rw [machAddrToMachPage, BitVec.toNat_setWidth, BitVec.toNat_ushiftRight,
    Nat.shiftRight_eq_div_pow]
  rfl

section Pages

variable {maddr length : BitVec 64}

/-- The number of pages, as it is computed. -/
theorem toNat_numPages (hpos : 0 < length.toNat)
    (hfit : maddr.toNat % pageSize + length.toNat ≤ 2 ^ 44 - pageSize) :
    (pageRange maddr length).numPages.toNat =
      (maddr.toNat % pageSize + length.toNat - 1) / pageSize + 1 := by
  have hmaddr := maddr.isLt
  have hlast : (maddr + length - 1).toNat = (maddr.toNat + length.toNat - 1) % 2 ^ 64 := by
    bv_omega
  have hfirst := toNat_machPage maddr
  have hlast' := toNat_machPage (maddr + length - 1)
  unfold pageRange
  simp only [BitVec.toNat_add, BitVec.toNat_sub]
  rw [hfirst, hlast', hlast]
  unfold pageSize at *
  simp
  omega

/-- The pages that are mapped go as far as the bytes that they are mapped for. -/
theorem lt_numPages {k : Nat} (hpos : 0 < length.toNat)
    (hfit : maddr.toNat % pageSize + length.toNat ≤ 2 ^ 44 - pageSize)
    (hk : k < maddr.toNat % pageSize + length.toNat) :
    k < (pageRange maddr length).numPages.toNat * pageSize := by
  rw [toNat_numPages hpos hfit]
  unfold pageSize at *
  omega

/-- What is mapped is the pages of the range, and nothing after them. -/
theorem byte_map (vmk : Vmk) (uncached : Bool) (range : MachPageRange) (k j : Nat) :
    Mapped.byte vmk { vmk.map uncached range with ptr := vmk.mapVA uncached range + k } j =
      if k + j < range.numPages.toNat * pageSize then
        some (range.startPage.toNat * pageSize + (k + j))
      else none := by
  unfold Mapped.byte Vmk.map
  dsimp only
  rw [Nat.add_assoc]
  by_cases hk : k + j < range.numPages.toNat * pageSize
  · rw [if_pos hk, if_pos ⟨by omega, by omega⟩, vmk.contiguous uncached range (k + j) hk]
  · rw [if_neg hk, if_neg (by omega)]

end Pages

/-- The machine address that byte `i` of a copy comes from, or goes to. -/
def chunkAddr (addr i : Nat) : Nat :=
  (addr + i / pageSize * pageSize) / pageSize % 2 ^ 32 * pageSize + i % pageSize

/-- A chunk is taken from the beginning of the page that its address is in. -/
theorem byte_chunk (vmk : Vmk) (addr : BitVec 64) {off n j : Nat} (hoff : pageSize ∣ off)
    (hn : n ≤ pageSize) (hj : j < n) :
    (physToKmap vmk (addr + BitVec.ofNat 64 off) n).byte vmk j =
      some (chunkAddr addr.toNat (off + j)) := by
  obtain ⟨q, rfl⟩ := hoff
  have hlength : (BitVec.ofNat 64 n).toNat = n := by
    rw [BitVec.toNat_ofNat, Nat.mod_eq_of_lt]
    unfold pageSize at hn
    omega
  have haddr : (addr + BitVec.ofNat 64 (pageSize * q)).toNat / pageSize % 2 ^ 32 =
      (addr.toNat + pageSize * q) / pageSize % 2 ^ 32 := by
    rw [BitVec.toNat_add, BitVec.toNat_ofNat]
    unfold pageSize
    omega
  have hindex : (pageSize * q + j) / pageSize = q ∧ (pageSize * q + j) % pageSize = j := by
    unfold pageSize at *
    omega
  generalize hmaddr : addr + BitVec.ofNat 64 (pageSize * q) = maddr at haddr
  have hin : 0 + j < (pageRange maddr (BitVec.ofNat 64 n)).numPages.toNat * pageSize := by
    apply lt_numPages
    · omega
    · rw [hlength]
      have hmod := Nat.mod_lt maddr.toNat (Nat.pos_of_neZero pageSize)
      unfold pageSize at *
      omega
    · omega
  have hbyte := byte_map vmk false (pageRange maddr (BitVec.ofNat 64 n)) 0 j
  rw [if_pos hin, Nat.zero_add] at hbyte
  rw [chunkAddr, hindex.1, hindex.2, Nat.mul_comm q, ← haddr, ← toNat_machPage]
  exact hbyte

/-- Byte `i` of a copy is byte `i` from the address on. -/
def Straight (addr length : Nat) : Prop := addr % pageSize = 0 ∧ addr + length ≤ 2 ^ 44

instance (addr length : Nat) : Decidable (Straight addr length) :=
  inferInstanceAs (Decidable (_ ∧ _))

theorem chunkAddr_eq {addr length i : Nat} (h : Straight addr length) (hi : i < length) :
    chunkAddr addr i = addr + i := by
  obtain ⟨hpage, hend⟩ := h
  unfold chunkAddr
  unfold pageSize at *
  omega

/-- The first byte that is not where it belongs is before the address. -/
theorem exists_chunkAddr_lt {addr length : Nat} (h : ¬Straight addr length) (hpos : 0 < length)
    (hlength : length < 2 ^ 32) : ∃ i < length, chunkAddr addr i < addr := by
  by_cases hpage : addr % pageSize = 0
  · have hend : 2 ^ 44 < addr + length := by
      by_contra hend
      exact h ⟨hpage, Nat.le_of_not_lt hend⟩
    by_cases haddr : addr < 2 ^ 44
    · refine ⟨2 ^ 44 - addr, by omega, ?_⟩
      unfold chunkAddr
      unfold pageSize at *
      omega
    · refine ⟨0, hpos, ?_⟩
      unfold chunkAddr
      unfold pageSize at *
      omega
  · refine ⟨0, hpos, ?_⟩
    unfold chunkAddr
    unfold pageSize at *
    omega

/-! ### The copies -/

section Copies

variable (vmk : Vmk) (addr : BitVec 64) (length : BitVec 32) (mem buf : Memory)

theorem p2vMemcpy_eq : p2vMemcpy vmk addr length mem buf =
    some (steps (fun i (dst : Memory) => Function.update dst i (mem (chunkAddr addr.toNat i))) 0
      length.toNat buf) := by
  apply loop_all
  intro off n dst hoff hn _
  apply piece_eq
  intro j hj dst
  rw [byte_chunk vmk addr hoff hn hj]
  rfl

theorem v2pMemcpy_eq : v2pMemcpy vmk addr buf length mem =
    some (steps (fun i (mem : Memory) => Function.update mem (chunkAddr addr.toNat i) (buf i)) 0
      length.toNat mem) := by
  apply loop_all
  intro off n mem hoff hn _
  apply piece_eq
  intro j hj mem
  rw [byte_chunk vmk addr hoff hn hj]
  rfl

end Copies

/-- What `vmklnx_p2v_memcpy` is for: `length` bytes from the machine address on, and no other byte
    of the destination. -/
def CopiedIn (addr length : Nat) (mem dst : Memory) : Memory :=
  fun i => if i < length then mem (addr + i) else dst i

/-- What `vmklnx_v2p_memcpy` is for. -/
def CopiedOut (addr length : Nat) (src mem : Memory) : Memory :=
  fun a => if addr ≤ a ∧ a < addr + length then src (a - addr) else mem a

section Right

variable {vmk : Vmk} {addr : BitVec 64} {length : BitVec 32}

theorem steps_store {v : Nat → UInt8} {n i : Nat} (m : Memory) :
    steps (fun i (m : Memory) => Function.update m i (v i)) 0 n m i =
      if i < n then v i else m i := by
  have hstore := @steps_update UInt8 v n 0 i m
  simpa only [Nat.zero_add, Nat.zero_le, true_and, Nat.sub_zero] using hstore

/-- In a copy that is not straight, a byte is taken from before the address. -/
theorem chunkAddr_lt_of_not (h : ¬(length = 0 ∨ Straight addr.toNat length.toNat)) :
    ∃ i < length.toNat, chunkAddr addr.toNat i < addr.toNat := by
  obtain ⟨hne, hstraight⟩ := not_or.mp h
  apply exists_chunkAddr_lt hstraight _ length.isLt
  apply Nat.pos_of_ne_zero
  intro hzero
  exact hne (BitVec.eq_of_toNat_eq hzero)

theorem chunkAddr_of_good (h : length = 0 ∨ Straight addr.toNat length.toNat) {i : Nat}
    (hi : i < length.toNat) : chunkAddr addr.toNat i = addr.toNat + i := by
  rcases h with rfl | hstraight
  · exact absurd hi (Nat.not_lt_zero i)
  · exact chunkAddr_eq hstraight hi

theorem p2vMemcpy_right_iff :
    (∀ mem dst, p2vMemcpy vmk addr length mem dst =
      some (CopiedIn addr.toNat length.toNat mem dst)) ↔
    length = 0 ∨ Straight addr.toNat length.toNat := by
  constructor
  · intro h
    by_contra hno
    obtain ⟨i, hi, hlt⟩ := chunkAddr_lt_of_not hno
    -- a memory that is different before the address
    have hright := h (fun a => if a < addr.toNat then 1 else 0) (fun _ => 0)
    rw [p2vMemcpy_eq] at hright
    have hbyte := congrFun (Option.some.inj hright) i
    rw [steps_store, if_pos hi, if_pos hlt, CopiedIn, if_pos hi, if_neg (by omega)] at hbyte
    exact absurd hbyte (by decide)
  · intro hgood mem dst
    rw [p2vMemcpy_eq]
    congr 1
    funext i
    rw [steps_store, CopiedIn]
    split
    · rename_i hi
      rw [chunkAddr_of_good hgood hi]
    · rfl

theorem v2pMemcpy_right_iff :
    (∀ src mem, v2pMemcpy vmk addr src length mem =
      some (CopiedOut addr.toNat length.toNat src mem)) ↔
    length = 0 ∨ Straight addr.toNat length.toNat := by
  constructor
  · intro h
    by_contra hno
    obtain ⟨i, hi, hlt⟩ := chunkAddr_lt_of_not hno
    -- one value that stands nowhere yet, and comes to stand before the address
    have hright := h (fun _ => 1) (fun _ => 0)
    rw [v2pMemcpy_eq] at hright
    have hbyte := congrFun (Option.some.inj hright) (chunkAddr addr.toNat i)
    rw [steps_update_const hi, CopiedOut, if_neg (by omega)] at hbyte
    exact absurd hbyte (by decide)
  · intro hgood src mem
    rw [v2pMemcpy_eq]
    congr 1
    funext a
    rw [CopiedOut, ← steps_update]
    apply congrFun
    apply steps_congr
    intro i hi m
    rw [chunkAddr_of_good hgood hi]

variable {size flags : BitVec 64}

theorem byte_ioremap (i : Nat) : (ioremap vmk addr size flags).byte vmk i =
    if addr.toNat % pageSize + i < (pageRange addr size).numPages.toNat * pageSize then
      some (addr.toNat / pageSize % 2 ^ 32 * pageSize + (addr.toNat % pageSize + i))
    else none := by
  have hmask : (addr &&& 4095).toNat = addr.toNat % pageSize := by
    rw [BitVec.toNat_and]
    exact Nat.and_two_pow_sub_one_eq_mod addr.toNat 12
  rw [← toNat_machPage, ← hmask]
  exact byte_map vmk (flags &&& pagePcd != 0) (pageRange addr size) (addr &&& 4095).toNat i

/-- `__ioremap` is right for every address of a machine page. -/
theorem ioremap_right_iff (hpos : 0 < size.toNat) :
    (∀ mem, ∀ i < size.toNat, (ioremap vmk addr size flags).read vmk mem i =
      some (mem (addr.toNat + i))) ↔
    addr.toNat < 2 ^ 44 ∧ addr.toNat % pageSize + size.toNat ≤ 2 ^ 44 - pageSize := by
  constructor
  · intro h
    have hbyte : ∀ i < size.toNat,
        addr.toNat % pageSize + i < (pageRange addr size).numPages.toNat * pageSize ∧
        addr.toNat / pageSize % 2 ^ 32 * pageSize + (addr.toNat % pageSize + i) =
          addr.toNat + i := by
      intro i hi
      have hread := h (fun a => if a = addr.toNat + i then 1 else 0) i hi
      rw [Mapped.read, byte_ioremap, if_pos rfl] at hread
      split at hread
      · rename_i hin
        refine ⟨hin, ?_⟩
        by_contra hne
        rw [Option.map_some, if_neg hne] at hread
        exact absurd hread (by decide)
      · exact absurd hread nofun
    have hpages := (pageRange addr size).numPages.isLt
    have hfirst := (hbyte 0 hpos).2
    have hlast := (hbyte (size.toNat - 1) (by omega)).1
    unfold pageSize at *
    omega
  · rintro ⟨haddr, hfit⟩ mem i hi
    have hin := lt_numPages hpos hfit (Nat.add_lt_add_left hi _)
    have hpage : addr.toNat / pageSize % 2 ^ 32 * pageSize + (addr.toNat % pageSize + i) =
        addr.toNat + i := by
      unfold pageSize
      omega
    rw [Mapped.read, byte_ioremap, if_pos hin, hpage]
    rfl

end Right

/-! ### Every address and length -/

theorem physical_copies (vmk : Vmk) (addr : BitVec 64) (length : BitVec 32)
    (size flags : BitVec 64) :
    (∀ mem buf, p2vMemcpy vmk addr length mem buf ≠ none ∧
      v2pMemcpy vmk addr buf length mem ≠ none) ∧
    ((∀ mem dst, p2vMemcpy vmk addr length mem dst =
        some (CopiedIn addr.toNat length.toNat mem dst)) ↔
      length = 0 ∨ Straight addr.toNat length.toNat) ∧
    ((∀ src mem, v2pMemcpy vmk addr src length mem =
        some (CopiedOut addr.toNat length.toNat src mem)) ↔
      length = 0 ∨ Straight addr.toNat length.toNat) ∧
    (0 < size.toNat →
      ((∀ mem, ∀ i < size.toNat, (ioremap vmk addr size flags).read vmk mem i =
          some (mem (addr.toNat + i))) ↔
        addr.toNat < 2 ^ 44 ∧ addr.toNat % pageSize + size.toNat ≤ 2 ^ 44 - pageSize)) := by
  refine ⟨?_, p2vMemcpy_right_iff, v2pMemcpy_right_iff, ioremap_right_iff⟩
  intro mem buf
  rw [p2vMemcpy_eq, v2pMemcpy_eq]
  exact ⟨nofun, nofun⟩

/-- Pages at their machine addresses. -/
def identity : Vmk where
  mapVA _ range := range.startPage.toNat * pageSize
  machAddr a := a
  contiguous _ _ _ _ := rfl

theorem physical_copies_aligned :
    (∀ mem dst, p2vMemcpy identity 0x2000 5000 mem dst =
      some (CopiedIn 0x2000 5000 mem dst)) ∧
    ∀ mem, ∀ i < 5000, (ioremap identity 0x2001 5000 0).read identity mem i =
      some (mem (0x2001 + i)) :=
  ⟨(physical_copies identity 0x2000 5000 0 0).2.1.mpr (.inr (by decide)),
    ((physical_copies identity 0x2001 0 5000 0).2.2.2 (by decide)).mpr (by decide)⟩

/-- The one byte at machine address 1 is taken from address 0, and put there. -/
theorem unaligned_copied_from_page :
    p2vMemcpy identity 1 1 (fun a => if a = 0 then 7 else 0) (fun _ => 0) ≠
        some (CopiedIn 1 1 (fun a => if a = 0 then 7 else 0) fun _ => 0) ∧
      v2pMemcpy identity 1 (fun _ => 7) 1 (fun _ => 0) ≠
        some (CopiedOut 1 1 (fun _ => 7) fun _ => 0) := by
  rw [p2vMemcpy_eq, v2pMemcpy_eq]
  constructor
  · intro h
    have hbyte := congrFun (Option.some.inj h) 0
    exact absurd hbyte (by decide)
  · intro h
    have hbyte := congrFun (Option.some.inj h) 0
    exact absurd hbyte (by decide)

end VmkLinux.Stubs.PhysCopy
