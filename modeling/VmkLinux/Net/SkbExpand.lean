/-
  VmkLinux/Net/SkbExpand.lean
  ===========================
  **`pskb_expand_head` keeps the content** of a socket buffer whose `frag_list` has none: the
  shared info stays where it is when the head is replaced, and `skb_release_data`, which is to
  release the old head, drops the `frag_list` of the socket buffer that goes on.
-/
import VmkLinux.Net.SkbContent

namespace VmkLinux.Net.Reshape

/-! ### The heap -/

theorem skbDataAlign_eq (x : BitVec 32) : skbDataAlign x = (x + 63) >>> 6 <<< 6 := by
  unfold skbDataAlign
  apply BitVec.eq_of_getLsbD_eq
  intro i hi
  rw [BitVec.getLsbD_and, BitVec.getLsbD_not, BitVec.getLsbD_shiftLeft, BitVec.getLsbD_ushiftRight]
  by_cases h : i < 6
  · interval_cases i <;> simp
  · have h63 : (63 : BitVec 32).getLsbD i = false :=
      Nat.testBit_lt_two_pow (Nat.lt_of_lt_of_le (by decide : 63 < 2 ^ 6)
        (Nat.pow_le_pow_right (by decide) (by omega)))
    rw [h63]
    simp only [hi, h, decide_true, decide_false, Bool.not_false, Bool.and_true, Bool.true_and]
    congr 1
    omega

theorem toNat_skbDataAlign {n : Nat} (h : n + 63 < 2 ^ 31) :
    (skbDataAlign (BitVec.ofNat 32 n)).toNat = (n + 63) / 64 * 64 := by
  rw [skbDataAlign_eq, BitVec.toNat_shiftLeft, BitVec.toNat_ushiftRight, BitVec.toNat_add,
    BitVec.toNat_ofNat, Nat.shiftLeft_eq, Nat.shiftRight_eq_div_pow]
  have h63 : (63 : BitVec 32).toNat = 63 := rfl
  rw [h63]
  omega

theorem signExtend_eq_zero_iff {size : BitVec 32} : size.signExtend 64 = 0 ↔ size = 0 := by
  constructor
  · intro h
    have hint : (size.signExtend 64).toInt = size.toInt :=
      BitVec.toInt_signExtend_of_le (by decide)
    rw [h] at hint
    exact BitVec.eq_of_toInt_eq hint.symm
  · rintro rfl
    rfl

theorem kmalloc_zero (kernel : Kernel) : kmalloc kernel 0 = none := rfl

theorem kmalloc_of_ne {kernel : Kernel} {size : BitVec 32} (h : size ≠ 0) :
    kmalloc kernel size = kernel.heapAlloc (Heap.heapSize (size.signExtend 64)).toNat :=
  if_neg fun hzero => h (signExtend_eq_zero_iff.mp hzero)

/-- The block is large enough. -/
theorem le_heapSize {size : BitVec 32} (hpos : size ≠ 0) (h : size.toNat < 2 ^ 31) :
    size.toNat ≤ (Heap.heapSize (size.signExtend 64)).toNat := by
  have hsize := Heap.toNat_signExtend h
  have hne : size.signExtend 64 ≠ 0 := fun hzero => hpos (signExtend_eq_zero_iff.mp hzero)
  rw [← hsize]
  exact (Heap.le_heapSize_iff hne).mpr (by omega)

theorem length_kmalloc {kernel : Kernel} {size : BitVec 32} {m : List UInt8}
    (h : kmalloc kernel size = some m) :
    m.length = (Heap.heapSize (size.signExtend 64)).toNat := by
  by_cases hzero : size = 0
  · rw [hzero, kmalloc_zero] at h
    cases h
  · rw [kmalloc_of_ne hzero] at h
    exact kernel.length_heapAlloc _ _ h

/-! ### The new head -/

section Expanded

variable {kernel : Kernel} {b : SkBuff} {list : List Skb} {nhead ntail : Nat} {m : List UInt8}

/-- The memory from the new `head` to the new `end`. -/
def newHead (b : SkBuff) (nhead ntail : Nat) (m : List UInt8) : List UInt8 :=
  (write m nhead (b.head.take b.tail)).take (max (expandSize b nhead ntail).toNat (nhead + b.tail))

/-- What the socket buffer becomes when there is memory for it. -/
def SkBuff.expanded (b : SkBuff) (nhead ntail : Nat) (m : List UInt8) : SkBuff :=
  { b with
    mhead := true
    head := newHead b nhead ntail m
    data := b.data + nhead
    tail := b.tail + nhead
    mac := b.mac + nhead
    h := b.h + nhead
    nh := b.nh + nhead
    dataref := 1
    fragsref := b.fragsref + 1 - 1 }

theorem le_expandSize (hsize : nhead + b.head.length + ntail + 63 < 2 ^ 31) :
    nhead + b.head.length + ntail ≤ (expandSize b nhead ntail).toNat ∧
      (expandSize b nhead ntail).toNat < 2 ^ 31 := by
  unfold expandSize
  rw [toNat_skbDataAlign hsize]
  omega

theorem length_newHead (hform : Formed b list) (hroom : nhead + b.tail ≤ m.length) :
    (newHead b nhead ntail m).length =
      min (max (expandSize b nhead ntail).toNat (nhead + b.tail)) m.length := by
  have htake : (b.head.take b.tail).length = b.tail := List.length_take_of_le hform.tail_le
  unfold newHead
  rw [List.length_take, length_write _ _ (by omega)]

theorem linear_expanded (hform : Formed b list) (hroom : nhead + b.tail ≤ m.length) :
    (b.expanded nhead ntail m).linear = b.linear := by
  have htail := hform.tail_le
  have htake : (b.head.take b.tail).length = b.tail := List.length_take_of_le htail
  have hwrite : (write m nhead (b.head.take b.tail)).take (b.tail + nhead) =
      m.take nhead ++ b.head.take b.tail := by
    rw [← take_write m _ (by omega), htake, Nat.add_comm]
  have hm' : (m.take nhead).length = nhead := List.length_take_of_le (by omega)
  have hmin : min (b.tail + nhead) (max (expandSize b nhead ntail).toNat (nhead + b.tail)) =
      b.tail + nhead := by omega
  unfold SkBuff.linear SkBuff.expanded newHead
  dsimp only
  rw [List.take_take, hmin, hwrite, List.drop_append, hm', List.drop_eq_nil_of_le (by omega),
    List.nil_append, Nat.add_sub_cancel]

/-- The content loses that of the `frag_list`. -/
theorem content_expanded (hform : Formed b list) (hroom : nhead + b.tail ≤ m.length)
    (mem : Pages) :
    Skb.content mem (.mk b list) =
      Skb.content mem (.mk (b.expanded nhead ntail m) []) ++ listContent mem list := by
  simp only [Skb.content, listContent, linear_expanded hform hroom, List.append_nil,
    List.append_assoc]
  rfl

theorem headlen_expanded : (b.expanded nhead ntail m).headlen = b.headlen := rfl

theorem placed_expanded (hform : Formed b list) (hroom : nhead + b.tail ≤ m.length) :
    Placed (b.expanded nhead ntail m) := by
  have htail := hform.tail_eq
  have hlen := @length_newHead b list nhead ntail m hform hroom
  constructor
  · rw [headlen_expanded]
    simp only [SkBuff.expanded]
    omega
  · simp only [SkBuff.expanded]
    omega

theorem formed_expanded (hform : Formed b list) (hlist : listLen list = 0)
    (hroom : nhead + b.tail ≤ m.length) : Formed (b.expanded nhead ntail m) [] := by
  refine ⟨placed_expanded hform hroom, hform.dataLen_le, ?_, rfl, hform.fragsref, ?_⟩
  · have heq := hform.dataLen_eq
    rw [hlist] at heq
    exact heq
  · intro s hs
    cases hs

/-- **What `pskb_expand_head` does** when it gets memory, -/
theorem pskbExpandHead_some (hform : Formed b list) (husers : b.users = 1)
    (hroom : nhead + b.tail ≤ m.length)
    (hm : kmalloc kernel (expandSize b nhead ntail) = some m) :
    pskbExpandHead kernel b list nhead ntail =
      .ok (0, .mk (b.expanded nhead ntail m) [], if b.mhead then [.head] else []) := by
  have hdrop := dropList_skbCloneFraglist hform.users
  unfold pskbExpandHead
  dsimp only
  rw [if_neg (by omega), hm]
  dsimp only
  rw [if_neg (by omega)]
  simp [skbReleaseData, hform.dataref, releaseOwn, hdrop, hform.fragsref, SkBuff.expanded, newHead]

/-- when that is too small, as the size has wrapped, -/
theorem pskbExpandHead_fault (husers : b.users = 1) (hroom : m.length < nhead + b.tail)
    (hm : kmalloc kernel (expandSize b nhead ntail) = some m) :
    pskbExpandHead kernel b list nhead ntail = .error .fault := by
  unfold pskbExpandHead
  dsimp only
  rw [if_neg (by omega), hm]
  dsimp only
  rw [if_pos hroom]

/-- and when it gets none. -/
theorem pskbExpandHead_none (husers : b.users = 1)
    (hm : kmalloc kernel (expandSize b nhead ntail) = none) :
    pskbExpandHead kernel b list nhead ntail = .ok (-enomem, .mk b list, []) := by
  unfold pskbExpandHead
  dsimp only
  rw [if_neg (by omega), hm]

/-! ### When the content stays -/

/-- `pskb_expand_head` returns 0 with the content and the headroom that are due, or `-ENOMEM` with
    the socket buffer as it was. -/
def ExpandKeeps (kernel : Kernel) (s : Skb) (nhead ntail : Nat) : Prop :=
  ∀ mem, match pskbExpandHead kernel s.buff s.fragList nhead ntail with
    | .error _ => False
    | .ok (err, s', log) => s'.Consistent mem log ∧
        ((err = 0 ∧ s'.content mem = s.content mem ∧ s'.buff.data = s.buff.data + nhead) ∨
          (err = -enomem ∧ s' = s))

/-- There is no memory; or no `frag_list` that could be lost, and room in the memory that the heap
    is asked for. -/
def ExpandFits (kernel : Kernel) (s : Skb) (nhead ntail : Nat) : Prop :=
  kmalloc kernel (expandSize s.buff nhead ntail) = none ∨
    (listLen s.fragList = 0 ∧
      nhead + s.buff.tail ≤ (Heap.heapSize ((expandSize s.buff nhead ntail).signExtend 64)).toNat)

/-- As long as the sizes fit an `int`, the memory has the room. -/
theorem expandFits_iff {s : Skb} (hform : s.WellFormed)
    (hsize : nhead + s.buff.head.length + ntail + 63 < 2 ^ 31) :
    ExpandFits kernel s nhead ntail ↔
      kmalloc kernel (expandSize s.buff nhead ntail) = none ∨ listLen s.fragList = 0 := by
  obtain ⟨b, list⟩ := s
  obtain ⟨hle, hlt⟩ := le_expandSize hsize
  have htail := hform.here.tail_le
  constructor
  · rintro (hnone | ⟨hlist, _⟩)
    · exact .inl hnone
    · exact .inr hlist
  · rintro (hnone | hlist)
    · exact .inl hnone
    · by_cases hzero : expandSize b nhead ntail = 0
      · refine .inl ?_
        rw [Skb.buff_mk, hzero, kmalloc_zero]
      · have hroom := le_heapSize hzero hlt
        refine .inr ⟨hlist, ?_⟩
        rw [Skb.buff_mk] at hle ⊢
        omega

theorem expandKeeps_of (hform : Skb.WellFormed (.mk b list)) (husers : b.users = 1)
    (hroom : nhead + b.tail ≤ m.length) (hlist : listLen list = 0)
    (hm : kmalloc kernel (expandSize b nhead ntail) = some m) :
    ExpandKeeps kernel (.mk b list) nhead ntail := by
  intro mem
  dsimp only [Skb.buff, Skb.fragList]
  rw [pskbExpandHead_some hform.here husers hroom hm]
  have hnil : listContent mem list = [] := by
    rw [← List.length_eq_zero_iff, hform.length_listContent, hlist]
  have heq := @content_expanded b list nhead ntail m hform.here hroom mem
  rw [hnil, List.append_nil] at heq
  refine ⟨⟨?_, ?_⟩, .inl ⟨rfl, heq.symm, rfl⟩⟩
  · rw [← heq, hform.length_content]
    rfl
  · split
    · simp [handles]
    · simp

theorem expandKeeps_iff {s : Skb} (hform : s.WellFormed) (husers : s.buff.users = 1) :
    ExpandKeeps kernel s nhead ntail ↔ ExpandFits kernel s nhead ntail := by
  obtain ⟨b, list⟩ := s
  unfold ExpandFits
  dsimp only [Skb.buff, Skb.fragList] at husers ⊢
  cases hm : kmalloc kernel (expandSize b nhead ntail) with
  | none =>
    refine ⟨fun _ => .inl rfl, fun _ mem => ?_⟩
    dsimp only [Skb.buff, Skb.fragList]
    rw [pskbExpandHead_none husers hm]
    refine ⟨⟨?_, by simp⟩, .inr ⟨rfl, rfl⟩⟩
    exact (hform.length_content mem).symm
  | some m =>
    rw [← length_kmalloc hm]
    constructor
    · intro h
      right
      have hzero := h fun _ _ => 0
      dsimp only [Skb.buff, Skb.fragList] at hzero
      by_cases hroom : nhead + b.tail ≤ m.length
      · rw [pskbExpandHead_some hform.here husers hroom hm] at hzero
        obtain ⟨_, ⟨_, heq, _⟩ | ⟨h0, _⟩⟩ := hzero
        · rw [content_expanded hform.here hroom, List.self_eq_append_right] at heq
          refine ⟨?_, hroom⟩
          rw [← hform.length_listContent fun _ _ => 0, heq]
          rfl
        · exact absurd h0 (by decide)
      · rw [pskbExpandHead_fault husers (by omega) hm] at hzero
        exact hzero.elim
    · rintro (h | ⟨hlist, hroom⟩)
      · cases h
      · exact expandKeeps_of hform husers hroom hlist hm

end Expanded

end VmkLinux.Net.Reshape
