/-
  VmkLinux/Stubs/UserCopy.lean
  ============================
  **Copies from and to user space** (`vmklinux26/vmware/linux_stubs.c`): `compat_alloc_user_space`
  and the four functions that copy.

  A buffer of `compat_alloc_user_space` is kernel memory; its pointer is marked with the highest
  bit, and `__CopyOut` and `__CopyIn` copy to and from it when the range they are given is in the
  buffer of the world.  The end of the range is computed with an addition that wraps around, and
  the block is one of `kmalloc`, which has at most 2^31 bytes (`user_copies_stay_inside`).
-/
import VmkLinux.Heap.Kmalloc
import VmkLinux.Sequence
import Mathlib.Logic.Function.Basic

namespace VmkLinux.Stubs.UserCopy

open VmkLinux.Heap VmkLinux.Sequence

/-! ### Marked pointers -/

/-- `VMKBUF_MASK`. -/
def vmkbufMask : BitVec 64 := 1 <<< 63

/-- `__MarkPtrAsVMKBuffer`. -/
def markPtrAsVMKBuffer (ptr : BitVec 64) : BitVec 64 := ptr ||| vmkbufMask

/-- `__IsPtrVMKBuffer`. -/
def isPtrVMKBuffer (ptr : BitVec 64) : Bool := ptr &&& vmkbufMask == vmkbufMask

/-- `__SanitizeVMKBufferPtr`. -/
def sanitizeVMKBufferPtr (ptr : BitVec 64) : BitVec 64 := ptr &&& ~~~vmkbufMask

/-! ### The code -/

/-- `struct umem` at an address, with the number of bytes of its block. -/
structure Umem where
  addr : BitVec 64
  len : BitVec 64
  block : Nat
deriving DecidableEq, Repr

/-- `&umem->data[i]`. -/
def Umem.data (u : Umem) (i : BitVec 64) : BitVec 64 := u.addr + 8 + i

/-- What every world has under `umem_key`. -/
abbrev State := Nat → Option Umem

/-- `MIN_UMEM_SIZE`. -/
def minUmemSize : BitVec 64 := 128

/-- `compat_alloc_user_space`: the pointer and the state after it.  `alloc` is where `kmalloc` finds
    a block, and `set` says whether `vmk_WorldSetPrivateInfo` succeeds. -/
def compatAllocUserSpace (world : Nat) (len : BitVec 64) (alloc : Option (BitVec 64)) (set : Bool)
    (s : State) : Option (BitVec 64) × State :=
  match (s world).filter fun u => len.sle u.len with
  | some u => (some (markPtrAsVMKBuffer (u.data 0)), s)
  | none =>
      let len := if len.slt minUmemSize then minUmemSize else len
      match alloc with
      | none => (none, s)
      | some addr =>
          let u : Umem := ⟨addr, len, (heapSize (8 + len)).toNat⟩
          if set then
            (some (markPtrAsVMKBuffer (u.data 0)), Function.update s world (some u))
          else (none, s)

/-- What a copy does with a pointer: a `memcpy` on a buffer, or `vmk_CopyToUser` or
    `vmk_CopyFromUser`. -/
inductive Access where
  | memcpy (vmkBuf l : BitVec 64)
  | copyUser (ptr l : BitVec 64)
deriving DecidableEq, Repr

/-- The range check. -/
def Umem.contains (u : Umem) (vmkBuf l : BitVec 64) : Bool :=
  decide (u.data 0 ≤ vmkBuf) && decide (vmkBuf + l ≤ u.data u.len)

/-- `__CopyOut` and `__CopyIn` with the pointer to user space, in a world or not: the access, and
    whether 0 is returned.  `ok` is the answer of `vmk_CopyToUser` or `vmk_CopyFromUser`. -/
def copy (umem : Option Umem) (inWorld : Bool) (ptr l : BitVec 64) (ok : Bool) : Access × Bool :=
  let vmkBuf := sanitizeVMKBufferPtr ptr
  if isPtrVMKBuffer ptr && inWorld && umem.any fun u => u.contains vmkBuf l then
    (.memcpy vmkBuf l, true)
  else (.copyUser ptr l, ok)

/-- A call of `__CopyOut` or `__CopyIn`: what it is given, and what it does. -/
structure Entry where
  ptr : BitVec 64
  l : BitVec 64
  access : Access
deriving DecidableEq, Repr

/-- `copy_in_user`; `ks` says whether there is memory. -/
def copyInUser (umem : Option Umem) (inWorld : Bool) (d s l : BitVec 64) (ks okIn okOut : Bool) :
    List Entry :=
  if ks then
    let copyIn := copy umem inWorld s l okIn
    ⟨s, l, copyIn.1⟩ ::
      if copyIn.2 then [⟨d, l, (copy umem inWorld d l okOut).1⟩] else []
  else []

/-- The loop of `clear_user`; `ok k` is the answer for chunk `k`. -/
def clearUser (umem : Option Umem) (inWorld : Bool) (ok : Nat → Bool) (k : Nat) (cmem : BitVec 64)
    (l : Nat) : List Entry :=
  if l = 0 then []
  else
    let nbytes := BitVec.ofNat 64 (min l 64)
    let copyOut := copy umem inWorld cmem nbytes (ok k)
    ⟨cmem, nbytes, copyOut.1⟩ ::
      if copyOut.2 then clearUser umem inWorld ok (k + 1) (cmem + nbytes) (l - min l 64) else []
termination_by l

/-! ### Calls -/

/-- The calls, with the world that makes them and the answers they get. -/
inductive Call where
  | compatAlloc (world : Nat) (len : BitVec 64) (alloc : Option (BitVec 64)) (set : Bool)
  | copyToUser (world : Nat) (inWorld : Bool) (d l : BitVec 64) (ok : Bool)
  | copyFromUser (world : Nat) (inWorld : Bool) (s l : BitVec 64) (ok : Bool)
  | copyInUser (world : Nat) (inWorld : Bool) (d s l : BitVec 64) (ks okIn okOut : Bool)
  | clearUser (world : Nat) (inWorld : Bool) (mem l : BitVec 64) (ok : Nat → Bool)

/-- The size that `kmalloc` is asked for. -/
def allocSize (len : BitVec 64) : BitVec 64 :=
  8 + if len.slt minUmemSize then minUmemSize else len

/-- A block of the heap is in the half of the address space that is not marked. -/
def Placed (len : BitVec 64) (alloc : Option (BitVec 64)) : Prop :=
  ∀ addr, alloc = some addr → addr.toNat + (heapSize (allocSize len)).toNat ≤ 2 ^ 63

instance (len : BitVec 64) (alloc : Option (BitVec 64)) : Decidable (Placed len alloc) :=
  match alloc with
  | none => isTrue nofun
  | some addr =>
      decidable_of_iff (addr.toNat + (heapSize (allocSize len)).toNat ≤ 2 ^ 63)
        ⟨fun h _ he => Option.some.inj he ▸ h, fun h => h addr rfl⟩

/-- The state after a call. -/
def step (call : Call) (s : State) : Option State :=
  match call with
  | .compatAlloc world len alloc set =>
      if Placed len alloc then some (compatAllocUserSpace world len alloc set s).2 else none
  | _ => some s

/-- The calls of `__CopyOut` and `__CopyIn` in a call. -/
def trace (s : State) : Call → List Entry
  | .compatAlloc .. => []
  | .copyToUser world inWorld d l ok => [⟨d, l, (copy (s world) inWorld d l ok).1⟩]
  | .copyFromUser world inWorld src l ok => [⟨src, l, (copy (s world) inWorld src l ok).1⟩]
  | .copyInUser world inWorld d src l ks okIn okOut =>
      UserCopy.copyInUser (s world) inWorld d src l ks okIn okOut
  | .clearUser world inWorld mem l ok => UserCopy.clearUser (s world) inWorld ok 0 mem l.toNat

def Call.world : Call → Nat
  | .compatAlloc world .. | .copyToUser world .. | .copyFromUser world ..
  | .copyInUser world .. | .clearUser world .. => world

/-! ### What is meant -/

/-- The buffer is in its block, which is in the half that is not marked. -/
structure Umem.InBlock (u : Umem) : Prop where
  nonneg : u.len.toNat < 2 ^ 63
  inside : 8 + u.len.toNat ≤ u.block
  block : u.addr.toNat + u.block ≤ 2 ^ 63

/-- A `memcpy` is on a marked pointer and in the buffer of the world; every other access passes
    the pointer on as it is. -/
def Entry.Served (umem : Option Umem) (e : Entry) : Prop :=
  match e.access with
  | .memcpy vmkBuf l =>
      l = e.l ∧ isPtrVMKBuffer e.ptr = true ∧ vmkBuf = sanitizeVMKBufferPtr e.ptr ∧
        ∃ u, umem = some u ∧ u.addr.toNat + 8 ≤ vmkBuf.toNat ∧
          vmkBuf.toNat + l.toNat ≤ u.addr.toNat + 8 + u.len.toNat
  | .copyUser ptr l => ptr = e.ptr ∧ l = e.l

/-- A pointer that `compat_alloc_user_space` returns is the one to the buffer of the world, which
    is in its block and has the length. -/
def Call.Allocates (s : State) : Call → Prop
  | .compatAlloc world len alloc set =>
      ∀ ptr s', compatAllocUserSpace world len alloc set s = (some ptr, s') →
        ∃ u, s' world = some u ∧ ptr = markPtrAsVMKBuffer (u.data 0) ∧ len.toInt ≤ u.len.toInt ∧
          u.InBlock
  | _ => True

def Call.Meets (s : State) (call : Call) : Prop :=
  call.Allocates s ∧ ∀ e ∈ trace s call, e.Served (s call.world)

/-- The end of the range wraps around, and comes to lie before the end of the buffer. -/
def Wraps (umem : Option Umem) (inWorld : Bool) (ptr l : BitVec 64) : Prop :=
  isPtrVMKBuffer ptr = true ∧ inWorld = true ∧ ∃ u, umem = some u ∧
    u.addr.toNat + 8 ≤ (sanitizeVMKBufferPtr ptr).toNat ∧
    2 ^ 64 ≤ (sanitizeVMKBufferPtr ptr).toNat + l.toNat ∧
    (sanitizeVMKBufferPtr ptr).toNat + l.toNat - 2 ^ 64 ≤ u.addr.toNat + 8 + u.len.toNat

/-- A new buffer is of at most 2^31 bytes, and no range wraps around. -/
def Call.Fine (s : State) : Call → Prop
  | .compatAlloc world len alloc set =>
      (∃ u, s world = some u ∧ len.toInt ≤ u.len.toInt) ∨ alloc = none ∨ set = false ∨
        (allocSize len).toNat ≤ 2 ^ 31
  | .copyToUser world inWorld d l _ => ¬Wraps (s world) inWorld d l
  | .copyFromUser world inWorld src l _ => ¬Wraps (s world) inWorld src l
  | .copyInUser world inWorld d src l ks okIn _ => ks = true →
      ¬Wraps (s world) inWorld src l ∧
        ((copy (s world) inWorld src l okIn).2 = true → ¬Wraps (s world) inWorld d l)
  | .clearUser .. => True

/-! ### The range check -/

theorem toNat_sanitize (ptr : BitVec 64) :
    (sanitizeVMKBufferPtr ptr).toNat = ptr.toNat % 2 ^ 63 := by
  have hmask : ~~~vmkbufMask = 0x7fffffffffffffff := by decide
  rw [sanitizeVMKBufferPtr, hmask, BitVec.toNat_and]
  exact Nat.and_two_pow_sub_one_eq_mod ptr.toNat 63

section Range

variable {u : Umem} {vmkBuf l ptr : BitVec 64} {umem : Option Umem} {inWorld ok : Bool}

theorem Umem.InBlock.contains_iff (h : u.InBlock) : u.contains vmkBuf l = true ↔
    u.addr.toNat + 8 ≤ vmkBuf.toNat ∧
      (vmkBuf.toNat + l.toNat) % 2 ^ 64 ≤ u.addr.toNat + 8 + u.len.toNat := by
  have hnonneg := h.nonneg
  have hinside := h.inside
  have hblock := h.block
  have hfirst : (u.data 0).toNat = u.addr.toNat + 8 := by
    rw [Umem.data, BitVec.toNat_add, BitVec.toNat_add]
    have height : (8 : BitVec 64).toNat = 8 := rfl
    have hzero : (0 : BitVec 64).toNat = 0 := rfl
    omega
  have hend : (u.data u.len).toNat = u.addr.toNat + 8 + u.len.toNat := by
    rw [Umem.data, BitVec.toNat_add, BitVec.toNat_add]
    have height : (8 : BitVec 64).toNat = 8 := rfl
    omega
  rw [Umem.contains, Bool.and_eq_true, decide_eq_true_iff, decide_eq_true_iff, BitVec.le_def,
    BitVec.le_def, BitVec.toNat_add, hfirst, hend]

/-- A copy goes astray exactly when the end of its range wraps around. -/
theorem served_copy_iff (h : ∀ u, umem = some u → u.InBlock) :
    Entry.Served umem ⟨ptr, l, (copy umem inWorld ptr l ok).1⟩ ↔ ¬Wraps umem inWorld ptr l := by
  have hbuf : (sanitizeVMKBufferPtr ptr).toNat < 2 ^ 63 := by
    rw [toNat_sanitize]
    exact Nat.mod_lt _ (by decide)
  have hl := l.isLt
  unfold copy
  dsimp only
  by_cases hin : (isPtrVMKBuffer ptr && inWorld && umem.any fun u =>
      u.contains (sanitizeVMKBufferPtr ptr) l) = true
  · rw [if_pos hin]
    rw [Bool.and_eq_true, Bool.and_eq_true, Option.any_eq_true] at hin
    obtain ⟨⟨hmarked, hworld⟩, u, rfl, hcontains⟩ := hin
    obtain ⟨hlow, hend⟩ := (h u rfl).contains_iff.mp hcontains
    constructor
    · rintro ⟨-, -, -, u', hu', -, hle⟩ ⟨-, -, u'', hu'', -, hwraps, -⟩
      obtain rfl := Option.some.inj hu'
      have hin := (h u rfl).inside
      have hblock := (h u rfl).block
      omega
    · intro hno
      refine ⟨rfl, hmarked, rfl, u, rfl, hlow, ?_⟩
      by_contra hover
      apply hno
      refine ⟨hmarked, hworld, u, rfl, hlow, ?_, ?_⟩ <;> omega
  · rw [if_neg hin]
    refine iff_of_true ⟨rfl, rfl⟩ ?_
    rintro ⟨hmarked, hworld, u, rfl, hlow, hwraps, hend⟩
    apply hin
    rw [hmarked, hworld, Option.any_some, (h u rfl).contains_iff.mpr ⟨hlow, by omega⟩]
    rfl

end Range

/-- A chunk of `clear_user` has no more than 64 bytes. -/
theorem served_clearUser {umem : Option Umem} {inWorld : Bool} {ok : Nat → Bool}
    (h : ∀ u, umem = some u → u.InBlock) (k : Nat) (cmem : BitVec 64) (l : Nat) :
    ∀ e ∈ clearUser umem inWorld ok k cmem l, e.Served umem := by
  induction l using Nat.strongRecOn generalizing k cmem with
  | ind l ih =>
    intro e he
    rw [clearUser] at he
    split at he
    · exact absurd he List.not_mem_nil
    rcases List.mem_cons.mp he with rfl | he
    · rw [served_copy_iff h]
      rintro ⟨-, -, u, -, -, hwraps, -⟩
      have hbuf : (sanitizeVMKBufferPtr cmem).toNat < 2 ^ 63 := by
        rw [toNat_sanitize]
        exact Nat.mod_lt _ (by decide)
      have hbytes : (BitVec.ofNat 64 (min l 64)).toNat ≤ 64 := by
        rw [BitVec.toNat_ofNat]
        exact Nat.le_trans (Nat.mod_le _ _) (Nat.min_le_right _ _)
      omega
    · split at he
      · exact ih (l - min l 64) (by omega) _ _ e he
      · exact absurd he List.not_mem_nil

/-! ### Buffers -/

section Alloc

variable {s s' : State} {world : Nat} {len : BitVec 64} {alloc : Option (BitVec 64)} {set : Bool}

/-- The length that a new buffer gets. -/
theorem toNat_allocSize (len : BitVec 64) :
    (if len.slt minUmemSize then minUmemSize else len).toNat < 2 ^ 63 ∧
      len.toInt ≤ (if len.slt minUmemSize then minUmemSize else len).toInt ∧
      (allocSize len).toNat = 8 + (if len.slt minUmemSize then minUmemSize else len).toNat := by
  have hmin : minUmemSize.toInt = 128 := rfl
  have hmin' : minUmemSize.toNat = 128 := rfl
  have height : (8 : BitVec 64).toNat = 8 := rfl
  rw [allocSize, BitVec.toNat_add, height]
  by_cases hlt : len.slt minUmemSize = true
  · rw [if_pos hlt, hmin, hmin']
    rw [BitVec.slt_iff_toInt_lt, hmin] at hlt
    exact ⟨by decide, Int.le_of_lt hlt, rfl⟩
  · rw [if_neg hlt]
    rw [BitVec.slt_iff_toInt_lt, hmin, BitVec.toInt_eq_toNat_cond] at hlt
    have hlen := len.isLt
    split at hlt <;> omega

/-- A new buffer is in its block exactly when `kmalloc` was asked for no more than 2^31 bytes. -/
theorem inBlock_new_iff {addr : BitVec 64} (h : Placed len (some addr)) :
    Umem.InBlock ⟨addr, if len.slt minUmemSize then minUmemSize else len,
      (heapSize (allocSize len)).toNat⟩ ↔ (allocSize len).toNat ≤ 2 ^ 31 := by
  obtain ⟨hnonneg, -, hsize⟩ := toNat_allocSize len
  have hpos : allocSize len ≠ 0 := by
    intro hzero
    have hnone : (allocSize len).toNat = 0 := congrArg BitVec.toNat hzero
    omega
  constructor
  · intro hin
    have hinside := hin.inside
    exact (le_heapSize_iff hpos).mp (hsize ▸ hinside)
  · intro hle
    refine ⟨hnonneg, ?_, h addr rfl⟩
    have hinside := (le_heapSize_iff hpos).mpr hle
    rw [hsize] at hinside
    exact hinside

theorem compatAlloc_cases (world : Nat) (len : BitVec 64) (alloc : Option (BitVec 64)) (set : Bool)
    (s : State) :
    (∃ u, s world = some u ∧ len.toInt ≤ u.len.toInt ∧
      compatAllocUserSpace world len alloc set s = (some (markPtrAsVMKBuffer (u.data 0)), s)) ∨
    (∀ u, s world = some u → ¬len.toInt ≤ u.len.toInt) ∧
      ((alloc = none ∨ set = false) ∧ compatAllocUserSpace world len alloc set s = (none, s) ∨
      ∃ addr u, alloc = some addr ∧ set = true ∧
        u = Umem.mk addr (if len.slt minUmemSize then minUmemSize else len)
          (heapSize (allocSize len)).toNat ∧
        compatAllocUserSpace world len alloc set s =
          (some (markPtrAsVMKBuffer (u.data 0)), Function.update s world (some u))) := by
  unfold compatAllocUserSpace
  cases hfilter : (s world).filter fun u => len.sle u.len with
  | some u =>
    obtain ⟨hu, hle⟩ := Option.filter_eq_some_iff.mp hfilter
    exact .inl ⟨u, hu, BitVec.sle_iff_toInt_le.mp hle, rfl⟩
  | none =>
    refine .inr ⟨?_, ?_⟩
    · intro u hu hle
      rw [hu, Option.filter_some, if_pos (BitVec.sle_iff_toInt_le.mpr hle)] at hfilter
      exact absurd hfilter nofun
    · cases alloc with
      | none => exact .inl ⟨.inl rfl, rfl⟩
      | some addr =>
        cases set with
        | false => exact .inl ⟨.inr rfl, rfl⟩
        | true => exact .inr ⟨addr, _, rfl, rfl, rfl, rfl⟩

/-- What `compat_alloc_user_space` returns is right exactly when the call is fine. -/
theorem allocates_iff (hI : ∀ world u, s world = some u → u.InBlock) (h : Placed len alloc) :
    Call.Allocates s (.compatAlloc world len alloc set) ↔
      Call.Fine s (.compatAlloc world len alloc set) := by
  rcases compatAlloc_cases world len alloc set s with
    ⟨u, hu, hle, heq⟩ | ⟨hsmall, ⟨hno, heq⟩ | ⟨addr, u, rfl, rfl, hu, heq⟩⟩
  · refine iff_of_true ?_ (.inl ⟨u, hu, hle⟩)
    intro ptr s' hresult
    obtain ⟨hptr, rfl⟩ := Prod.mk.inj (heq.symm.trans hresult)
    exact ⟨u, hu, (Option.some.inj hptr).symm, hle, hI world u hu⟩
  · refine iff_of_true ?_ (.inr (or_assoc.mp (.inl hno)))
    intro ptr s' hresult
    rw [heq] at hresult
    exact absurd (Prod.mk.inj hresult).1 nofun
  · have hin := inBlock_new_iff h
    rw [← hu] at hin
    constructor
    · intro hright
      obtain ⟨u', hu', -, -, hblock⟩ := hright _ _ heq
      rw [Function.update_self] at hu'
      obtain rfl := Option.some.inj hu'
      exact .inr (.inr (.inr (hin.mp hblock)))
    · rintro (⟨u', hu', hle⟩ | hnone | hset | hle) ptr s' hresult
      · exact absurd hle (hsmall u' hu')
      · exact absurd hnone nofun
      · exact absurd hset nofun
      · obtain ⟨hptr, rfl⟩ := Prod.mk.inj (heq.symm.trans hresult)
        refine ⟨u, Function.update_self _ _ _, (Option.some.inj hptr).symm, ?_, hin.mpr hle⟩
        rw [hu]
        exact (toNat_allocSize len).2.1

end Alloc

/-! ### Every sequence of calls -/

theorem meets_iff_fine {s : State} (hI : ∀ world u, s world = some u → u.InBlock) (call : Call)
    (hstep : step call s ≠ none) : call.Meets s ↔ call.Fine s := by
  cases call with
  | compatAlloc world len alloc set =>
    have hplaced : Placed len alloc := by
      by_contra hno
      exact hstep (if_neg hno)
    rw [Call.Meets, allocates_iff hI hplaced]
    exact and_iff_left fun e he => absurd he List.not_mem_nil
  | copyToUser world inWorld d l ok =>
    rw [Call.Meets, Call.Fine, trace, List.forall_mem_singleton, Call.world,
      served_copy_iff (hI world)]
    exact and_iff_right trivial
  | copyFromUser world inWorld src l ok =>
    rw [Call.Meets, Call.Fine, trace, List.forall_mem_singleton, Call.world,
      served_copy_iff (hI world)]
    exact and_iff_right trivial
  | copyInUser world inWorld d src l ks okIn okOut =>
    rw [Call.Meets, Call.Fine, trace, Call.world, copyInUser]
    refine (and_iff_right trivial).trans ?_
    cases ks with
    | false => exact iff_of_true (fun e he => absurd he List.not_mem_nil) nofun
    | true =>
      rw [if_pos rfl, List.forall_mem_cons, served_copy_iff (hI world)]
      refine Iff.trans ?_ ⟨fun h _ => h, fun h => h rfl⟩
      refine and_congr_right fun _ => ?_
      cases (copy (s world) inWorld src l okIn).2 with
      | false => exact iff_of_true (fun e he => absurd he List.not_mem_nil) nofun
      | true =>
        rw [if_pos rfl, List.forall_mem_singleton, served_copy_iff (hI world)]
        exact ⟨fun h _ => h, fun h => h rfl⟩
  | clearUser world inWorld mem l ok =>
    exact iff_of_true ⟨trivial, served_clearUser (hI world) 0 mem l.toNat⟩ trivial

/-- Every buffer is in its block. -/
theorem inBlock_of_reach {s : State}
    (h : Reach step (fun s call => call.Fine s) (fun _ => none) s) :
    ∀ world u, s world = some u → u.InBlock := by
  refine Reach.invariant (fun s => ∀ world u, s world = some u → u.InBlock) nofun ?_ h
  intro s call s' hI hfine hstep
  cases call with
  | compatAlloc world len alloc set =>
    have hmeets := (meets_iff_fine hI _ (by rw [hstep]; exact nofun)).mpr hfine
    have hs' : s' = (compatAllocUserSpace world len alloc set s).2 := by
      rw [step] at hstep
      split at hstep
      · exact (Option.some.inj hstep).symm
      · exact absurd hstep nofun
    subst hs'
    rcases compatAlloc_cases world len alloc set s with
      ⟨u, -, -, heq⟩ | ⟨-, ⟨-, heq⟩ | ⟨addr, u, -, -, -, heq⟩⟩
    · rw [heq]
      exact hI
    · rw [heq]
      exact hI
    · obtain ⟨u', hu', -, -, hblock⟩ := hmeets.1 _ _ heq
      rw [heq]
      intro other v hv
      rcases eq_or_ne other world with rfl | hne
      · obtain rfl := Option.some.inj (hu'.symm.trans hv)
        exact hblock
      · exact hI other v (by rw [← hv]; exact (Function.update_of_ne hne _ _).symm)
  | copyToUser | copyFromUser | copyInUser | clearUser => exact Option.some.inj hstep ▸ hI

theorem user_copies_stay_inside (s : State)
    (h : Reach step (fun s call => call.Fine s) (fun _ => none) s) :
    (∀ world u, s world = some u → u.InBlock) ∧
      ∀ call, step call s ≠ none → (call.Meets s ↔ call.Fine s) :=
  ⟨inBlock_of_reach h, meets_iff_fine (inBlock_of_reach h)⟩

/-- A buffer of 128 bytes at 0x1000. -/
def smallBuffer : Call := .compatAlloc 0 100 (some 0x1000) true

theorem fine_smallBuffer : smallBuffer.Fine fun _ => none := .inr (.inr (.inr (by decide)))

theorem user_copies_stay_inside_small :
    ∃ s, s 0 = some ⟨0x1000, 128, 256⟩ ∧
      (Call.Meets s (.copyToUser 0 true 0x8000000000001008 128 true) ↔
        Call.Fine s (.copyToUser 0 true 0x8000000000001008 128 true)) := by
  exact ⟨_, rfl, (user_copies_stay_inside _ (.call .init fine_smallBuffer rfl)).2 _ nofun⟩

/-- The check lets a length through that goes nearly around the address space; and a block of 2^31
    bytes is allocated for a buffer of as many. -/
theorem copy_outside_buffer :
    (∃ s, Reachable step (fun _ => none) s ∧
      ¬Call.Meets s (.copyToUser 0 true 0x8000000000001008 0xfffffffffffffff8 true)) ∧
    step (.compatAlloc 0 0x80000000 (some 0x1000) true) (fun _ => none) ≠ none ∧
      ¬Call.Meets (fun _ => none) (.compatAlloc 0 0x80000000 (some 0x1000) true) := by
  have hstep : step (.compatAlloc 0 0x80000000 (some 0x1000) true) (fun _ => none) ≠ none := by
    rw [step, if_pos (by decide)]
    exact nofun
  have hempty : ∀ (world : Nat) (u : Umem), (fun _ => none : State) world = some u → u.InBlock := by
    intro world u hu
    exact absurd hu nofun
  refine ⟨⟨_, @Reach.call _ _ step _ _ _ _ smallBuffer .init trivial rfl, ?_⟩, hstep, ?_⟩
  · have hwraps : Wraps (some ⟨0x1000, 128, 256⟩) true 0x8000000000001008 0xfffffffffffffff8 :=
      ⟨by decide, rfl, _, rfl, by decide, by decide, by decide⟩
    intro hmeets
    have hblock := inBlock_of_reach (.call .init fine_smallBuffer rfl)
    have hiff := meets_iff_fine hblock
      (.copyToUser 0 true 0x8000000000001008 0xfffffffffffffff8 true) (Option.some_ne_none _)
    exact hiff.mp hmeets hwraps
  · rw [meets_iff_fine hempty _ hstep]
    rintro (⟨u, hu, -⟩ | hnone | hset | hle)
    · exact absurd hu nofun
    · exact absurd hnone nofun
    · exact absurd hset nofun
    · exact absurd hle (by decide)

end VmkLinux.Stubs.UserCopy
