/-
  VmkLinux/Block/Bio.lean
  =======================
  **Block requests** (`include/linux/bio.h`, `vmklinux26/vmware/linux_block.c`): the bios of a
  request, their vectors, and how `LinuxBlockIssueCmd` makes a bio of a scatter-gather list.

  Addresses have 64 bits, lengths 32 and the counters of a bio 16, and all of them wrap around.
  The bytes of a piece of memory are the addresses of its bytes, one after the other.
-/
import Mathlib.Algebra.Group.Int.Defs
import Mathlib.Algebra.Group.Nat.Defs
import Mathlib.Algebra.GroupWithZero.Nat
import Mathlib.Data.List.Basic

namespace VmkLinux.Block.Io

/-! ### Data -/

/-- `struct bio_vec`; a `struct page` is the number of the page. -/
structure BioVec where
  addr : BitVec 64 := 0
  bvPage : BitVec 64 := 0
  bvLen : BitVec 32 := 0
  bvOffset : BitVec 32 := 0
deriving DecidableEq, Repr

/-- `LinuxBlockBuffer.spccmd`. -/
inductive Spccmd where
  | normalIo
  | specialIo
  | dumpIo
deriving DecidableEq, Repr

/-- `LinuxBlockBuffer`; a `vmk_ScsiCommand` is known by a number. -/
structure LinuxBlockBuffer where
  cmd : Nat
  lastOne : Bool
  spccmd : Spccmd
deriving DecidableEq, Repr

/-- `struct bio`; `biPrivate` is what it points to. -/
structure Bio where
  biSector : BitVec 64
  biRead : Bool
  biVcnt : BitVec 16 := 0
  biIdx : BitVec 16 := 0
  biPhysSegments : BitVec 16 := 0
  biHwSegments : BitVec 16 := 0
  biSize : BitVec 32 := 0
  biIoVec : List BioVec
  biPrivate : LinuxBlockBuffer
deriving DecidableEq, Repr

/-- `struct request`; `bio` with the bios behind it. -/
structure Request where
  bios : List Bio
  sector : BitVec 64
  nrSectors : BitVec 64
  currentNrSectors : BitVec 32
  nrPhysSegments : BitVec 16
  nrHwSegments : BitVec 16
  errors : Nat
  isRead : Bool
deriving DecidableEq, Repr

/-- `vmk_SgElem`. -/
structure SgElem where
  addr : BitVec 64
  length : BitVec 32
deriving DecidableEq, Repr

/-! ### Pages -/

/-- `phys_to_page`. -/
def physToPage (addr : BitVec 64) : BitVec 64 := addr >>> 12

/-- `page_to_phys`. -/
def pageToPhys (page : BitVec 64) : BitVec 64 := page <<< 12

/-- `offset_in_page`. -/
def offsetInPage (addr : BitVec 64) : BitVec 64 := addr &&& 0xfff

/-- `bvec_to_phys`. -/
def bvecToPhys (bv : BioVec) : BitVec 64 := pageToPhys bv.bvPage + bv.bvOffset.setWidth 64

theorem toNat_offsetInPage (addr : BitVec 64) :
    (offsetInPage addr).toNat = addr.toNat % 2 ^ 12 := by
  have hmask : (0xfff : BitVec 64).toNat = 2 ^ 12 - 1 := rfl
  rw [offsetInPage, BitVec.toNat_and, hmask, Nat.and_two_pow_sub_one_eq_mod]

/-- An offset in a page fits in every number of 12 bits or more. -/
theorem setWidth_offsetInPage {w : Nat} {addr : BitVec 64} (h : 12 ≤ w) :
    ((offsetInPage addr).setWidth w).setWidth 64 = offsetInPage addr := by
  have hpow : 2 ^ 12 ≤ 2 ^ w := Nat.pow_le_pow_right (by decide) h
  have hlt : addr.toNat % 2 ^ 12 < 2 ^ 12 := Nat.mod_lt _ (by decide)
  apply BitVec.eq_of_toNat_eq
  rw [BitVec.toNat_setWidth, BitVec.toNat_setWidth, toNat_offsetInPage,
    Nat.mod_eq_of_lt (Nat.lt_of_lt_of_le hlt hpow)]
  exact Nat.mod_eq_of_lt (by omega)

/-- An address is its page and its offset there. -/
theorem page_addr (addr : BitVec 64) : pageToPhys (physToPage addr) + offsetInPage addr = addr := by
  have hlt := addr.isLt
  apply BitVec.eq_of_toNat_eq
  dsimp only [pageToPhys, physToPage]
  rw [BitVec.toNat_add, BitVec.toNat_shiftLeft, BitVec.toNat_ushiftRight, toNat_offsetInPage,
    Nat.shiftLeft_eq, Nat.shiftRight_eq_div_pow]
  omega

/-! ### The vectors of a request -/

/-- `bio_for_each_segment`. -/
def Bio.segments (bio : Bio) : List BioVec :=
  (bio.biIoVec.take bio.biVcnt.toNat).drop bio.biIdx.toNat

/-- The vectors that `rq_for_each_bio` and `bio_for_each_segment` visit. -/
def Request.bvecs (rq : Request) : List BioVec := rq.bios.flatMap Bio.segments

/-- The addresses of the bytes from `addr` on. -/
def bytes (addr : BitVec 64) (length : Nat) : List (BitVec 64) :=
  (List.range length).map fun i => addr + BitVec.ofNat 64 i

def BioVec.bytes (bv : BioVec) : List (BitVec 64) := Io.bytes bv.addr bv.bvLen.toNat

theorem length_bytes (addr : BitVec 64) (n : Nat) : (bytes addr n).length = n := by
  simp [bytes]

/-- Memory that follows on. -/
theorem bytes_append (addr : BitVec 64) (m n : Nat) :
    bytes addr m ++ bytes (addr + BitVec.ofNat 64 m) n = bytes addr (m + n) := by
  simp [bytes, List.range_add, Function.comp_def, BitVec.ofNat_add, BitVec.add_assoc]

/-! ### The bio of a command -/

/-- The vector that `LinuxBlockIssueCmd` makes of an element. -/
def SgElem.bvec (elem : SgElem) : BioVec :=
  { bvPage := physToPage elem.addr
    addr := elem.addr
    bvLen := elem.length
    bvOffset := (offsetInPage elem.addr).setWidth 32 }

/-- One round of the loop of `LinuxBlockIssueCmd`. -/
def addSgElem (bio : Bio) (elem : SgElem) : Bio :=
  { bio with
    biIoVec := bio.biIoVec.set bio.biVcnt.toNat elem.bvec
    biVcnt := bio.biVcnt + 1
    biPhysSegments := bio.biPhysSegments + 1
    biHwSegments := bio.biHwSegments + 1
    biSize := bio.biSize + elem.length }

/-- The bio that `LinuxBlockIssueCmd` makes of a scatter-gather list. -/
def buildBio (sgArray : List SgElem) (b : LinuxBlockBuffer) (sectorNumber : BitVec 32)
    (isRead : Bool) : Bio :=
  sgArray.foldl addSgElem
    { biSector := sectorNumber.setWidth 64
      biRead := isRead
      biIoVec := List.replicate sgArray.length {}
      biPrivate := b }

/-- The vectors that `LinuxBlockIssueCmd` makes agree with their pages. -/
theorem addr_bvec (elem : SgElem) : elem.bvec.addr = bvecToPhys elem.bvec := by
  dsimp only [SgElem.bvec, bvecToPhys]
  rw [setWidth_offsetInPage (by decide), page_addr]

theorem foldl_biPrivate (sgArray : List SgElem) (bio : Bio) :
    (sgArray.foldl addSgElem bio).biPrivate = bio.biPrivate := by
  induction sgArray generalizing bio with
  | nil => rfl
  | cons elem sgArray ih => exact ih (addSgElem bio elem)

/-- The loop fills the vectors one after the other, as far as the counter goes. -/
theorem foldl_addSgElem (sgArray : List SgElem) :
    ∀ (bio : Bio) (filled : List BioVec),
      bio.biIoVec = filled ++ List.replicate sgArray.length ({} : BioVec) →
      bio.biVcnt.toNat = filled.length →
      filled.length + sgArray.length < 2 ^ 16 →
      (sgArray.foldl addSgElem bio).biIoVec = filled ++ sgArray.map SgElem.bvec ∧
        (sgArray.foldl addSgElem bio).biVcnt.toNat = filled.length + sgArray.length ∧
        (sgArray.foldl addSgElem bio).biIdx = bio.biIdx := by
  induction sgArray with
  | nil => exact fun bio filled hvec hcnt _ => ⟨hvec, hcnt, rfl⟩
  | cons elem sgArray ih =>
    intro bio filled hvec hcnt hbound
    rw [List.length_cons] at hvec hbound
    have hset : (addSgElem bio elem).biIoVec =
        filled ++ [elem.bvec] ++ List.replicate sgArray.length ({} : BioVec) := by
      dsimp only [addSgElem]
      rw [hvec, hcnt, List.set_append_right _ _ (Nat.le_refl _), Nat.sub_self,
        List.replicate_succ, List.set_cons_zero, List.append_assoc]
      rfl
    have hnext : (addSgElem bio elem).biVcnt.toNat = (filled ++ [elem.bvec]).length := by
      have hone : (1 : BitVec 16).toNat = 1 := rfl
      dsimp only [addSgElem]
      rw [BitVec.toNat_add, hcnt, hone, List.length_append, List.length_singleton]
      exact Nat.mod_eq_of_lt (by omega)
    have hlength : (filled ++ [elem.bvec]).length = filled.length + 1 := List.length_append
    obtain ⟨hvecs, hvcnt, hidx⟩ := ih (addSgElem bio elem) (filled ++ [elem.bvec]) hset hnext
      (by omega)
    refine ⟨?_, ?_, hidx⟩
    · rw [List.foldl_cons, hvecs, List.map_cons, List.append_assoc]
      rfl
    · rw [List.foldl_cons, hvcnt, hlength, List.length_cons]
      omega

/-- The bio of a command visits the elements of its scatter-gather list. -/
theorem segments_buildBio {sgArray : List SgElem} (b : LinuxBlockBuffer)
    (sectorNumber : BitVec 32) (isRead : Bool) (h : sgArray.length < 2 ^ 16) :
    (buildBio sgArray b sectorNumber isRead).segments = sgArray.map SgElem.bvec := by
  obtain ⟨hvecs, hvcnt, hidx⟩ := foldl_addSgElem sgArray
    { biSector := sectorNumber.setWidth 64
      biRead := isRead
      biIoVec := List.replicate sgArray.length {}
      biPrivate := b } [] rfl rfl (by simpa using h)
  have htake : (sgArray.map SgElem.bvec).take sgArray.length = sgArray.map SgElem.bvec :=
    List.take_of_length_le (Nat.le_of_eq (List.length_map ..))
  unfold Bio.segments buildBio
  rw [hvecs, hvcnt, hidx, List.nil_append, List.length_nil, Nat.zero_add, htake]
  rfl

end VmkLinux.Block.Io
