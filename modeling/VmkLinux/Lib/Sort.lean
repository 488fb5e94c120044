/-
  VmkLinux/Lib/Sort.lean
  ======================
  **Sorting in place**, `vmklinux26/linux/lib/sort.c`: `sort` and its two ways of swapping,
  with the comparison that `mptbase.c` calls it with.

  The counters are those of the source, scaled by the size of an element: `i`, `n`, `c` and
  `r` are of type `int`, `num` and `size` of type `size_t`, and what mixes the two is
  worked out in `size_t` and cut to an `int` where it is assigned.  A product of two values
  of type `int` that overflows has no result.

  Memory is the array at `base`, byte by byte: to read or write outside of it has no result
  either.  Both passes run in the given number of rounds, and each entry sinks in the given
  number of steps, or the call has no result.
-/
import VmkLinux.BinaryHeap
import Mathlib.Algebra.Group.Int.Defs
import Mathlib.Algebra.Group.Nat.Defs
import Mathlib.Data.List.Basic
import Mathlib.Tactic.SplitIfs

namespace VmkLinux.Sort

open BinaryHeap

/-! ### Memory and numbers -/

/-- The bytes at `base`. -/
abbrev Mem := List UInt8

/-- What is converted to `size_t`. -/
def sizeT (x : Int) : Int := x % 2 ^ 64

/-- What is converted to `int`. -/
def toInt (x : Int) : Int := (x + 2 ^ 31) % 2 ^ 32 - 2 ^ 31

/-- A result of type `int`. -/
def inInt (x : Int) : Option Int := if -2 ^ 31 ≤ x ∧ x < 2 ^ 31 then some x else none

/-- The `len` bytes at `base + off`. -/
def readAt (m : Mem) (off : Int) (len : Nat) : Option (List UInt8) :=
  if 0 ≤ off ∧ off + len ≤ m.length then some ((m.drop off.toNat).take len) else none

def writeAt (m : Mem) (off : Int) (bytes : List UInt8) : Option Mem :=
  if 0 ≤ off ∧ off + bytes.length ≤ m.length then
    some (m.take off.toNat ++ bytes ++ m.drop (off.toNat + bytes.length))
  else none

/-! ### Swapping -/

/-- `t = *a; *a = *b; *b = t` for values of `len` bytes. -/
def exchange (len : Nat) (m : Mem) (a b : Int) : Option Mem := do
  let t ← readAt m a len
  let u ← readAt m b len
  let m ← writeAt m a u
  writeAt m b t

/-- The type of the `swap` functions. -/
abbrev Swap := Mem → Int → Int → Int → Option Mem

def u32Swap : Swap := fun m a b _ => exchange 4 m a b

/-- The loop of `generic_swap`, which comes to a byte before it looks at `size`. -/
def swapBytes (m : Mem) (a b : Int) : Nat → Option Mem
  | 0 => exchange 1 m a b
  | size + 1 => do
      let m ← exchange 1 m a b
      if size = 0 then some m else swapBytes m (a + 1) (b + 1) size

def genericSwap : Swap := fun m a b size => swapBytes m a b size.toNat

/-! ### The two passes -/

/-- `cmp`, called with the elements at two places. -/
abbrev Cmp := List UInt8 → List UInt8 → Int

def compareAt (cmp : Cmp) (size : Nat) (m : Mem) (a b : Int) : Option Int := do
  let x ← readAt m a size
  let y ← readAt m b size
  some (cmp x y)

/-- The larger child, of the one at `c` and the one after it. -/
def largerChild (cmp : Cmp) (size : Nat) (bound : Int) (m : Mem) (c : Int) : Option Int :=
  if sizeT c < sizeT (bound - size) then do
    let order ← compareAt cmp size m c (c + size)
    some (if order < 0 then toInt (c + size) else c)
  else some c

/-- The inner loop of both passes, which stops at `bound`. -/
def siftDown (cmp : Cmp) (swap : Swap) (size : Nat) (bound : Int) :
    Nat → Int → Mem → Option Mem
  | 0, _, _ => none
  | depth + 1, r, m => do
      let twice ← inInt (r * 2)
      if sizeT (twice + size) < sizeT bound then
        let c ← largerChild cmp size bound m (toInt (twice + size))
        let order ← compareAt cmp size m r c
        if 0 ≤ order then some m
        else
          let m ← swap m r c (toInt size)
          siftDown cmp swap size bound depth c m
      else some m

/-- The first pass: `for (; i >= 0; i -= size)`. -/
def heapify (cmp : Cmp) (swap : Swap) (size : Nat) (n : Int) (depth : Nat) :
    Nat → Int → Mem → Option Mem
  | 0, _, _ => none
  | rounds + 1, i, m =>
      if 0 ≤ i then do
        let m ← siftDown cmp swap size n depth i m
        heapify cmp swap size n depth rounds (toInt (i - size)) m
      else some m

/-- The second pass. -/
def drain (cmp : Cmp) (swap : Swap) (size : Nat) (depth : Nat) :
    Nat → Int → Mem → Option Mem
  | 0, _, _ => none
  | rounds + 1, i, m =>
      if 0 ≤ i then do
        let m ← swap m 0 i (toInt size)
        let m ← siftDown cmp swap size i depth 0 m
        drain cmp swap size depth rounds (toInt (i - size)) m
      else some m

/-- The function that `sort` swaps with. -/
def swapOf (size : Nat) : Option Swap → Swap
  | some swap => swap
  | none => if size = 4 then u32Swap else genericSwap

def sort (num size : Nat) (cmp : Cmp) (swap : Option Swap) (rounds depth : Nat) (m : Mem) :
    Option Mem := do
  let n := toInt (num * size)
  let m ← heapify cmp (swapOf size swap) size n depth rounds
    (toInt (sizeT ((num / 2 : Nat) - 1) * size)) m
  drain cmp (swapOf size swap) size depth rounds (toInt (n - size)) m

/-! ### The volumes of an adapter -/

def volumeId (vol : List UInt8) : UInt8 := vol.getD 0 0

def volumeBus (vol : List UInt8) : UInt8 := vol.getD 1 0

def mptSortIocPg2 (a b : List UInt8) : Int :=
  if volumeBus a = volumeBus b then
    if volumeId a = volumeId b then 0
    else if volumeId a < volumeId b then -1
    else 1
  else if volumeBus a < volumeBus b then -1
  else 1

/-! ### Numbers that fit -/

theorem sizeT_of_fits {x : Int} (h : 0 ≤ x) (hlt : x < 2 ^ 64) : sizeT x = x :=
  Int.emod_eq_of_lt h hlt

theorem toInt_of_fits {x : Int} (h : -2 ^ 31 ≤ x) (hlt : x < 2 ^ 31) : toInt x = x := by
  unfold toInt
  rw [Int.emod_eq_of_lt (by omega) (by omega)]
  omega

theorem inInt_of_fits {x : Int} (h : -2 ^ 31 ≤ x) (hlt : x < 2 ^ 31) : inInt x = some x :=
  if_pos ⟨h, hlt⟩

/-- Where the element number `k` is. -/
def place (size k : Nat) : Int := ((k * size : Nat) : Int)

section Places

variable {size j k num : Nat}

theorem place_nonneg : 0 ≤ place size k := Int.natCast_nonneg _

@[simp] theorem place_zero : place size 0 = 0 := by simp [place]

theorem place_add_size : place size k + size = place size (k + 1) := by
  unfold place
  rw [Nat.add_mul, Nat.one_mul]
  exact (Int.natCast_add _ _).symm

theorem place_sub_size : place size (k + 1) - size = place size k := by
  rw [← place_add_size]
  omega

theorem place_child : place size k * 2 + size = place size (2 * k + 1) := by
  unfold place
  rw [Nat.add_mul, Nat.mul_assoc, Nat.one_mul]
  omega

theorem place_lt_place (hsize : 0 < size) : place size j < place size k ↔ j < k := by
  unfold place
  rw [Int.ofNat_lt, Nat.mul_lt_mul_right hsize]

/-- A place in the array, or at its end, is a number of type `int`. -/
theorem place_le_of_le (hfit : num * size ≤ 2 ^ 30) (h : k ≤ num) : place size k ≤ 2 ^ 30 := by
  have hle : k * size ≤ num * size := Nat.mul_le_mul_right size h
  unfold place
  omega

end Places

/-! ### Elements -/

/-- The element number `k`. -/
def elem (size : Nat) (m : Mem) (k : Nat) : List UInt8 := (m.drop (k * size)).take size

/-- All elements, in their order. -/
def elems (num size : Nat) (m : Mem) : List (List UInt8) := (List.range num).map (elem size m)

theorem end_le {num k : Nat} (size : Nat) (h : k < num) : k * size + size ≤ num * size := by
  have hle : (k + 1) * size ≤ num * size := Nat.mul_le_mul_right size h
  rw [Nat.add_mul, Nat.one_mul] at hle
  exact hle

theorem readAt_place {num size k : Nat} {m : Mem} (hm : m.length = num * size) (h : k < num) :
    readAt m (place size k) size = some (elem size m k) := by
  have hend := end_le size h
  unfold readAt place
  rw [if_pos (by omega), Int.toNat_natCast]
  rfl

theorem compareAt_place {num size j k : Nat} {cmp : Cmp} {m : Mem} (hm : m.length = num * size)
    (hj : j < num) (hk : k < num) :
    compareAt cmp size m (place size j) (place size k) =
      some (cmp (elem size m j) (elem size m k)) := by
  unfold compareAt
  rw [readAt_place hm hj, readAt_place hm hk]
  rfl

/-! ### What a swap comes to -/

/-- Where the byte at `x` was before the `len` bytes at `a` and at `b` changed places. -/
def mirror (a b len x : Nat) : Nat :=
  if a ≤ x ∧ x < a + len then x - a + b
  else if b ≤ x ∧ x < b + len then x - b + a
  else x

/-- `m'` is `m` with the `len` bytes at `a` and at `b` in each other's place. -/
def Swapped (a b len : Nat) (m m' : Mem) : Prop :=
  m'.length = m.length ∧ ∀ x, m'[x]? = m[mirror a b len x]?

/-- Two places that are the same or do not touch. -/
def Apart (a b len : Nat) : Prop := a = b ∨ a + len ≤ b ∨ b + len ≤ a

theorem readAt_nat {m : Mem} {a len : Nat} (h : a + len ≤ m.length) :
    readAt m a len = some ((m.drop a).take len) := if_pos (by omega)

theorem exists_writeAt {m : Mem} {a : Nat} (bytes : List UInt8)
    (h : a + bytes.length ≤ m.length) :
    ∃ m', writeAt m a bytes = some m' ∧ m'.length = m.length ∧
      ∀ x, m'[x]? = if a ≤ x ∧ x < a + bytes.length then bytes[x - a]? else m[x]? := by
  refine ⟨_, if_pos (by omega), ?_, ?_⟩
  · simp only [List.length_append, List.length_take, List.length_drop, Int.toNat_natCast]
    omega
  · intro x
    rw [Int.toNat_natCast, List.append_assoc]
    rcases Nat.lt_or_ge x a with hx | hx
    · rw [if_neg (by omega), List.getElem?_append_left (by simp; omega),
        List.getElem?_take_of_lt hx]
    · rw [List.getElem?_append_right (by simp; omega), List.length_take,
        Nat.min_eq_left (by omega)]
      split
      · rw [List.getElem?_append_left (by omega)]
      · rw [List.getElem?_append_right (by omega), List.getElem?_drop]
        congr 1
        omega

theorem exists_exchange {m : Mem} {a b : Nat} (len : Nat) (ha : a + len ≤ m.length)
    (hb : b + len ≤ m.length) (hab : Apart a b len) :
    ∃ m', exchange len m a b = some m' ∧ Swapped a b len m m' := by
  have hlen : ∀ c, c + len ≤ m.length → ((m.drop c).take len).length = len := by
    intro c hc
    rw [List.length_take, List.length_drop]
    omega
  obtain ⟨m₁, hm₁, hlen₁, hget₁⟩ := exists_writeAt (m := m) (a := a)
    ((m.drop b).take len) (by rw [hlen b hb]; exact ha)
  obtain ⟨m₂, hm₂, hlen₂, hget₂⟩ := exists_writeAt (m := m₁) (a := b)
    ((m.drop a).take len) (by rw [hlen a ha, hlen₁]; exact hb)
  rw [hlen b hb] at hget₁
  rw [hlen a ha] at hget₂
  refine ⟨m₂, ?_, hlen₂.trans hlen₁, ?_⟩
  · unfold exchange
    rw [readAt_nat ha, readAt_nat hb]
    show (writeAt m a _).bind (fun m => writeAt m b _) = _
    rw [hm₁]
    exact hm₂
  · intro x
    have hread : ∀ c, c ≤ x → x < c + len → ∀ d, ((m.drop d).take len)[x - c]? = m[x - c + d]? := by
      intro c hc hlt d
      rw [List.getElem?_take_of_lt (by omega), List.getElem?_drop, Nat.add_comm]
    unfold mirror
    rw [hget₂]
    by_cases hxb : b ≤ x ∧ x < b + len
    · rw [if_pos hxb, if_pos hxb, hread b hxb.1 hxb.2]
      split
      · rename_i hxa
        obtain rfl : a = b := by
          unfold Apart at hab
          omega
        rfl
      · rfl
    · rw [if_neg hxb, if_neg hxb, hget₁]
      split
      · rename_i hxa
        exact hread a hxa.1 hxa.2 b
      · rfl

theorem mirror_step {a b len x : Nat} (hab : Apart a b (len + 1)) :
    mirror a b 1 (mirror (a + 1) (b + 1) len x) = mirror a b (len + 1) x := by
  unfold Apart at hab
  unfold mirror
  split_ifs <;> omega

/-- **The loop of `generic_swap`** exchanges all bytes of the two elements. -/
theorem exists_swapBytes {size : Nat} (hsize : 0 < size) {m : Mem} {a b : Nat}
    (ha : a + size ≤ m.length) (hb : b + size ≤ m.length) (hab : Apart a b size) :
    ∃ m', swapBytes m a b size = some m' ∧ Swapped a b size m m' := by
  induction size generalizing m a b with
  | zero => exact absurd hsize (Nat.lt_irrefl 0)
  | succ size ih =>
    have hone : Apart a b 1 := by
      unfold Apart at hab ⊢
      omega
    obtain ⟨m₁, hm₁, hswap₁⟩ := exists_exchange (m := m) 1 (by omega) (by omega) hone
    unfold swapBytes
    rw [hm₁]
    show ∃ m', (if size = 0 then some m₁ else swapBytes m₁ (a + 1) (b + 1) size) = some m' ∧ _
    by_cases hzero : size = 0
    · subst hzero
      exact ⟨m₁, if_pos rfl, hswap₁⟩
    · have hrest : Apart (a + 1) (b + 1) size := by
        unfold Apart at hab ⊢
        omega
      have hlen := hswap₁.1
      obtain ⟨m₂, hm₂, hswap₂⟩ := ih (Nat.pos_of_ne_zero hzero) (m := m₁) (a := a + 1)
        (b := b + 1) (by omega) (by omega) hrest
      refine ⟨m₂, ?_, hswap₂.1.trans hlen, ?_⟩
      · rw [if_neg hzero]
        exact hm₂
      · intro x
        rw [hswap₂.2, hswap₁.2, mirror_step hab]

theorem elem_getElem? {size l t : Nat} {m : Mem} :
    (elem size m l)[t]? = if t < size then m[l * size + t]? else none := by
  unfold elem
  split
  · rename_i ht
    rw [List.getElem?_take_of_lt ht, List.getElem?_drop]
  · rename_i ht
    exact List.getElem?_eq_none (by rw [List.length_take]; omega)

theorem apart_places {size : Nat} (j k : Nat) : Apart (j * size) (k * size) size := by
  unfold Apart
  rcases Nat.lt_trichotomy j k with h | rfl | h
  · exact .inr (.inl (end_le size h))
  · exact .inl rfl
  · exact .inr (.inr (end_le size h))

/-- Elements change places as a whole. -/
theorem mirror_place {size j k l t : Nat} (ht : t < size) :
    mirror (j * size) (k * size) size (l * size + t) = Equiv.swap j k l * size + t := by
  have hout : ∀ i, l ≠ i → ¬ (i * size ≤ l * size + t ∧ l * size + t < i * size + size) := by
    intro i hne hin
    rcases Nat.lt_or_gt_of_ne hne with h | h
    · have hle := end_le size h
      omega
    · have hle := end_le size h
      omega
  unfold mirror
  rw [Equiv.swap_apply_def]
  by_cases hj : l = j
  · subst hj
    rw [if_pos (by omega), if_pos rfl]
    omega
  · rw [if_neg (hout j hj), if_neg hj]
    by_cases hk : l = k
    · subst hk
      rw [if_pos (by omega), if_pos rfl]
      omega
    · rw [if_neg (hout k hk), if_neg hk]

theorem Swapped.elem {size j k : Nat} {m m' : Mem}
    (h : Swapped (j * size) (k * size) size m m') :
    elem size m' = elem size m ∘ Equiv.swap j k := by
  funext l
  apply List.ext_getElem?
  intro t
  rw [Function.comp_apply, elem_getElem?, elem_getElem?]
  split
  · rename_i ht
    rw [h.2, mirror_place ht]
  · rfl

/-- `swap` exchanges the elements at two places of an array. -/
def Exchanges (num size : Nat) (swap : Swap) : Prop :=
  ∀ m j k, m.length = num * size → j < num → k < num →
    ∃ m', swap m (place size j) (place size k) size = some m' ∧ m'.length = m.length ∧
      elem size m' = elem size m ∘ Equiv.swap j k

theorem exchanges_genericSwap {num size : Nat} (hsize : 0 < size) :
    Exchanges num size genericSwap := by
  intro m j k hm hj hk
  obtain ⟨m', hrun, hswap⟩ := exists_swapBytes hsize (m := m) (a := j * size) (b := k * size)
    (by rw [hm]; exact end_le _ hj) (by rw [hm]; exact end_le _ hk) (apart_places j k)
  refine ⟨m', ?_, hswap.1, hswap.elem⟩
  unfold genericSwap
  rw [Int.toNat_natCast]
  exact hrun

theorem exchanges_u32Swap {num : Nat} : Exchanges num 4 u32Swap := by
  intro m j k hm hj hk
  obtain ⟨m', hrun, hswap⟩ := exists_exchange (m := m) (a := j * 4) (b := k * 4) 4
    (by rw [hm]; exact end_le _ hj) (by rw [hm]; exact end_le _ hk) (apart_places j k)
  exact ⟨m', hrun, hswap.1, hswap.elem⟩

/-- The function that is chosen for an element of the size. -/
theorem exchanges_swapOf {num size : Nat} {swap : Option Swap} (hsize : 0 < size)
    (h : ∀ s, swap = some s → Exchanges num size s) : Exchanges num size (swapOf size swap) := by
  cases swap with
  | some s => exact h s rfl
  | none =>
    show Exchanges num size (if size = 4 then u32Swap else genericSwap)
    split
    · rename_i hfour
      subst hfour
      exact exchanges_u32Swap
    · exact exchanges_genericSwap hsize

/-! ### One entry sinks -/

/-- The order of the comparison, as the heap has it. -/
def Ge (cmp : Cmp) (x y : List UInt8) : Prop := 0 ≤ cmp x y

section Order

variable {cmp : Cmp} [Std.Total (Ge cmp)]

theorem Ge.refl (x : List UInt8) : Ge cmp x x := (Std.Total.total (r := Ge cmp) x x).elim id id

theorem Ge.of_lt {x y : List UInt8} (h : cmp x y < 0) : Ge cmp y x := by
  rcases Std.Total.total (r := Ge cmp) x y with hge | hge
  · exact absurd h (Int.not_lt.mpr hge)
  · exact hge

end Order

section Passes

variable {swap : Swap} {num size : Nat}

theorem exists_largerChild (cmp : Cmp) [Std.Total (Ge cmp)] {hi c : Nat} {m : Mem}
    (hsize : 0 < size) (hfit : num * size ≤ 2 ^ 30) (hhi : hi ≤ num)
    (hm : m.length = num * size) (hc : c < hi) :
    ∃ d, largerChild cmp size (place size hi) m (place size c) = some (place size d) ∧ d < hi ∧
      (d = c ∨ d = c + 1) ∧ Ge cmp (elem size m d) (elem size m c) ∧
      (c + 1 < hi → Ge cmp (elem size m d) (elem size m (c + 1))) := by
  obtain ⟨h, rfl⟩ : ∃ h, hi = h + 1 := ⟨hi - 1, by omega⟩
  have hplace : ∀ k, k ≤ num → 0 ≤ place size k ∧ place size k ≤ 2 ^ 30 := fun k hk =>
    ⟨place_nonneg, place_le_of_le hfit hk⟩
  have hc' := hplace c (by omega)
  have hh := hplace h (by omega)
  have hnext := hplace (c + 1) (by omega)
  unfold largerChild
  rw [place_sub_size, place_add_size, sizeT_of_fits hc'.1 (by omega),
    sizeT_of_fits hh.1 (by omega), toInt_of_fits (by omega) (by omega)]
  by_cases hlt : c < h
  · rw [if_pos ((place_lt_place hsize).mpr hlt),
      compareAt_place hm (by omega) (by omega)]
    by_cases hless : cmp (elem size m c) (elem size m (c + 1)) < 0
    · refine ⟨c + 1, ?_, by omega, .inr rfl, Ge.of_lt hless, fun _ => Ge.refl _⟩
      exact congrArg some (if_pos hless)
    · refine ⟨c, ?_, hc, .inl rfl, Ge.refl _, fun _ => Int.not_lt.mp hless⟩
      exact congrArg some (if_neg hless)
  · refine ⟨c, ?_, hc, .inl rfl, Ge.refl _, fun hnext => absurd hnext (by omega)⟩
    exact if_neg (mt (place_lt_place hsize).mp hlt)

variable {cmp : Cmp} [IsTrans _ (Ge cmp)] [Std.Total (Ge cmp)]

/-- **The inner loop** lets the entry at `r` sink to its place, in as many steps as the heap
    has levels below it. -/
theorem exists_siftDown {lo hi : Nat} (hsize : 0 < size) (hfit : num * size ≤ 2 ^ 30)
    (hswap : Exchanges num size swap) (hhi : hi ≤ num) {depth r : Nat} {m : Mem}
    (hm : m.length = num * size) (hheap : HeapExcept (Ge cmp) (elem size m) r lo hi)
    (hlo : lo ≤ r) (hr : r < num) (hpos : 0 < depth) (hdepth : hi < (r + 1) * 2 ^ depth) :
    ∃ m', siftDown cmp swap size (place size hi) depth (place size r) m = some m' ∧
      m'.length = m.length ∧ HeapFrom (Ge cmp) (elem size m') lo hi ∧
      Rearranged (elem size m) (elem size m') hi := by
  induction depth generalizing r m with
  | zero => exact absurd hpos (Nat.lt_irrefl 0)
  | succ depth ih =>
    have hone : size ≤ num * size := Nat.le_mul_of_pos_left size (by omega)
    have hrend := end_le size hr
    have hplace : place size r < 2 ^ 30 := by
      unfold place
      omega
    have hnonneg : 0 ≤ place size r := place_nonneg
    have hhi' : place size hi ≤ 2 ^ 30 := place_le_of_le hfit hhi
    have hhinonneg : 0 ≤ place size hi := place_nonneg
    unfold siftDown
    rw [inInt_of_fits (by omega) (by omega)]
    show ∃ m', (if sizeT (place size r * 2 + size) < sizeT (place size hi) then _ else some m) =
      some m' ∧ _
    rw [sizeT_of_fits (by omega) (by omega), sizeT_of_fits hhinonneg (by omega), place_child]
    by_cases hchild : 2 * r + 1 < hi
    · rw [if_pos ((place_lt_place hsize).mpr hchild)]
      have hcfit : place size (2 * r + 1) ≤ 2 ^ 30 := place_le_of_le hfit (by omega)
      have hcnonneg : 0 ≤ place size (2 * r + 1) := place_nonneg
      rw [toInt_of_fits (by omega) (by omega)]
      obtain ⟨c, hlarger, hc, hwhich, hleft, hright⟩ :=
        exists_largerChild cmp hsize hfit hhi hm hchild
      have hrc : Child r c := by
        unfold Child
        omega
      have hbest : ∀ d, Child r d → d < hi → Ge cmp (elem size m c) (elem size m d) := by
        intro d hd hlt
        rcases hd with rfl | rfl
        · exact hleft
        · exact hright hlt
      rw [hlarger]
      show ∃ m', (compareAt cmp size m (place size r) (place size c)).bind _ = some m' ∧ _
      rw [compareAt_place hm hr (by omega)]
      show ∃ m', (if 0 ≤ cmp (elem size m r) (elem size m c) then some m else _) = some m' ∧ _
      by_cases hge : 0 ≤ cmp (elem size m r) (elem size m c)
      · rw [if_pos hge]
        refine ⟨m, rfl, rfl, hheap.stop fun d hd hlt => ?_, Rearranged.refl _ _⟩
        exact IsTrans.trans _ _ _ hge (hbest d hd hlt)
      · rw [if_neg hge]
        obtain ⟨m₁, hrun₁, hlen₁, helem₁⟩ := hswap m r c hm hr (by omega)
        have hsink := hheap.sink hlo hrc hc hbest (Ge.of_lt (Int.not_le.mp hge))
        rw [← helem₁] at hsink
        have hpow : hi < (c + 1) * 2 ^ depth := by
          calc hi < (r + 1) * 2 ^ (depth + 1) := hdepth
            _ = (2 * r + 2) * 2 ^ depth := by
              rw [Nat.pow_succ, Nat.mul_comm (2 ^ depth), ← Nat.mul_assoc]
              congr 1
              omega
            _ ≤ (c + 1) * 2 ^ depth := Nat.mul_le_mul_right _ (by omega)
        have hleft : 0 < depth := by
          rcases Nat.eq_zero_or_pos depth with rfl | h
          · omega
          · exact h
        obtain ⟨m₂, hrun₂, hlen₂, hheap₂, hmoved⟩ := ih (m := m₁) (r := c) (by omega) hsink
          (by omega) (by omega) hleft hpow
        refine ⟨m₂, ?_, hlen₂.trans hlen₁, hheap₂, ?_⟩
        · rw [toInt_of_fits (by omega) (by omega), hrun₁]
          exact hrun₂
        · have hfirst : Rearranged (elem size m) (elem size m₁) hi := by
            rw [helem₁]
            exact Rearranged.swap (by omega) hc
          exact hfirst.trans hmoved
    · rw [if_neg (mt (place_lt_place hsize).mp hchild)]
      refine ⟨m, rfl, rfl, hheap.stop fun d hd hlt => ?_, Rearranged.refl _ _⟩
      unfold Child at hd
      omega

/-! ### Both passes -/

/-- The entries from number `k` on are heaps already; those before it are made heaps one by
    one. -/
theorem exists_heapify (hsize : 0 < size) (hfit : num * size ≤ 2 ^ 30)
    (hswap : Exchanges num size swap) {depth : Nat} (hdepth : num < 2 ^ depth) {rounds k : Nat}
    {m : Mem} (hrounds : k < rounds) (hk : k ≤ num) (hfits : size ≤ 2 ^ 30)
    (hm : m.length = num * size) (hheap : HeapFrom (Ge cmp) (elem size m) k num) :
    ∃ m', heapify cmp swap size (place size num) depth rounds (place size k - size) m = some m' ∧
      m'.length = m.length ∧ HeapFrom (Ge cmp) (elem size m') 0 num ∧
      Rearranged (elem size m) (elem size m') num := by
  induction rounds generalizing k m with
  | zero => exact absurd hrounds (Nat.not_lt_zero k)
  | succ rounds ih =>
    unfold heapify
    cases k with
    | zero =>
      rw [if_neg (by rw [place_zero]; omega)]
      exact ⟨m, rfl, rfl, hheap, Rearranged.refl _ _⟩
    | succ k =>
      have hkle : place size k ≤ 2 ^ 30 := place_le_of_le hfit (by omega)
      have hknonneg : 0 ≤ place size k := place_nonneg
      have hpos : 0 < depth := by
        rcases Nat.eq_zero_or_pos depth with rfl | h
        · omega
        · exact h
      have hlevels : num < (k + 1) * 2 ^ depth :=
        Nat.lt_of_lt_of_le hdepth (Nat.le_mul_of_pos_left _ (Nat.succ_pos k))
      obtain ⟨m₁, hrun₁, hlen₁, hheap₁, hmoved₁⟩ := exists_siftDown hsize hfit hswap
        (Nat.le_refl num) hm hheap.except (Nat.le_refl k) (by omega) hpos hlevels
      obtain ⟨m₂, hrun₂, hlen₂, hheap₂, hmoved₂⟩ := ih (m := m₁) (k := k) (by omega) (by omega)
        (by omega) hheap₁
      refine ⟨m₂, ?_, hlen₂.trans hlen₁, hheap₂, hmoved₁.trans hmoved₂⟩
      rw [place_sub_size, if_pos hknonneg, hrun₁]
      show heapify cmp swap size (place size num) depth rounds (toInt (place size k - size)) m₁ = _
      rw [toInt_of_fits (by omega) (by omega)]
      exact hrun₂

/-- The first `k` entries are a heap and the others in their places. -/
theorem exists_drain (hsize : 0 < size) (hfit : num * size ≤ 2 ^ 30)
    (hswap : Exchanges num size swap) {depth : Nat} (hdepth : num < 2 ^ depth) {rounds k : Nat}
    {m : Mem} (hrounds : k < rounds) (hk : k ≤ num) (hfits : size ≤ 2 ^ 30)
    (hm : m.length = num * size) (hheap : HeapFrom (Ge cmp) (elem size m) 0 k)
    (hdrained : Drained (Ge cmp) (elem size m) k num) :
    ∃ m', drain cmp swap size depth rounds (place size k - size) m = some m' ∧
      m'.length = m.length ∧ Drained (Ge cmp) (elem size m') 0 num ∧
      Rearranged (elem size m) (elem size m') num := by
  induction rounds generalizing k m with
  | zero => exact absurd hrounds (Nat.not_lt_zero k)
  | succ rounds ih =>
    unfold drain
    cases k with
    | zero =>
      rw [if_neg (by rw [place_zero]; omega)]
      exact ⟨m, rfl, rfl, hdrained, Rearranged.refl _ _⟩
    | succ k =>
      have hkle : place size k ≤ 2 ^ 30 := place_le_of_le hfit (by omega)
      have hknonneg : 0 ≤ place size k := place_nonneg
      have hpos : 0 < depth := by
        rcases Nat.eq_zero_or_pos depth with rfl | h
        · omega
        · exact h
      have hlevels : k < (0 + 1) * 2 ^ depth := by omega
      obtain ⟨m₁, hrun₁, hlen₁, helem₁⟩ := hswap m 0 k hm (by omega) (by omega)
      have hroot := hheap.drain
      have hplaced := hdrained.drain hheap
      rw [← helem₁] at hroot hplaced
      obtain ⟨m₂, hrun₂, hlen₂, hheap₂, hmoved₂⟩ := exists_siftDown hsize hfit hswap
        (Nat.le_of_succ_le hk) (hlen₁.trans hm) hroot.except (Nat.le_refl 0) (by omega) hpos hlevels
      obtain ⟨m₃, hrun₃, hlen₃, hdrained₃, hmoved₃⟩ := ih (m := m₂) (k := k) (by omega) (by omega)
        (by omega) hheap₂ (hplaced.rearranged hmoved₂)
      have hfirst : Rearranged (elem size m) (elem size m₁) num := by
        rw [helem₁]
        exact Rearranged.swap (by omega) (by omega)
      refine ⟨m₃, ?_, hlen₃.trans (hlen₂.trans hlen₁), hdrained₃,
        (hfirst.trans (hmoved₂.mono (by omega))).trans hmoved₃⟩
      rw [place_zero] at hrun₁ hrun₂
      rw [place_sub_size, if_pos hknonneg, toInt_of_fits (by omega) (by omega), hrun₁]
      show (siftDown cmp swap size (place size k) depth 0 m₁).bind _ = _
      rw [hrun₂]
      show drain cmp swap size depth rounds (toInt (place size k - size)) m₂ = _
      rw [toInt_of_fits (by omega) (by omega)]
      exact hrun₃

end Passes

/-- Where the first pass begins: with the last element that has a child. -/
theorem heapify_start {num size : Nat} (hsize : 0 < size) (hfits : size ≤ 2 ^ 30)
    (hfit : num * size ≤ 2 ^ 30) :
    toInt (sizeT ((num / 2 : Nat) - 1) * size) = place size (num / 2) - size := by
  rcases Nat.eq_zero_or_pos (num / 2) with hzero | hpos
  · rw [hzero, place_zero]
    unfold toInt sizeT
    omega
  · obtain ⟨k, hk⟩ : ∃ k, num / 2 = k + 1 := ⟨num / 2 - 1, by omega⟩
    have hnum : num ≤ num * size := Nat.le_mul_of_pos_right num hsize
    have hkle : place size k ≤ 2 ^ 30 := place_le_of_le hfit (by omega)
    have hknonneg : 0 ≤ place size k := place_nonneg
    rw [hk, place_sub_size, sizeT_of_fits (by omega) (by omega)]
    have hplace : (((k + 1 : Nat) : Int) - 1) * size = place size k := by
      unfold place
      rw [Int.natCast_mul]
      congr 1
      omega
    rw [hplace, toInt_of_fits (by omega) (by omega)]

/-- **`sort` sorts**: for every comparison that is a total preorder and every array whose size
    in bytes is at most `2 ^ 30`, the call ends, without reading or writing outside of the
    array, after `num + 1` rounds of each pass in which an element sinks no more often than
    `num` has binary digits.  The array then holds the same elements, none of them before
    one that it stands above. -/
theorem sort_sorts (num size : Nat) (cmp : Cmp) (swap : Option Swap) (rounds depth : Nat)
    (m : Mem) (hsize : 0 < size) (hfits : size ≤ 2 ^ 30) (hfit : num * size ≤ 2 ^ 30)
    (hm : m.length = num * size) (htotal : ∀ x y, 0 ≤ cmp x y ∨ 0 ≤ cmp y x)
    (htrans : ∀ x y z, 0 ≤ cmp x y → 0 ≤ cmp y z → 0 ≤ cmp x z)
    (hswap : ∀ s, swap = some s → Exchanges num size s) (hrounds : num < rounds)
    (hdepth : num < 2 ^ depth) :
    ∃ m', sort num size cmp swap rounds depth m = some m' ∧ m'.length = m.length ∧
      (elems num size m').Pairwise (fun x y => 0 ≤ cmp y x) ∧
      (elems num size m').Perm (elems num size m) := by
  have htotal' : Std.Total (Ge cmp) := ⟨htotal⟩
  have htrans' : IsTrans _ (Ge cmp) := ⟨htrans⟩
  have hexch := exchanges_swapOf hsize hswap
  have hn : toInt (num * size) = place size num := by
    have hle : place size num ≤ 2 ^ 30 := place_le_of_le hfit (Nat.le_refl num)
    have hnonneg : 0 ≤ place size num := place_nonneg
    have hplace : ((num : Int) * size) = place size num := (Int.natCast_mul num size).symm
    rw [hplace, toInt_of_fits (by omega) (by omega)]
  have hend : toInt (place size num - size) = place size num - size := by
    have hle : place size num ≤ 2 ^ 30 := place_le_of_le hfit (Nat.le_refl num)
    have hnonneg : 0 ≤ place size num := place_nonneg
    exact toInt_of_fits (by omega) (by omega)
  have hleaves : HeapFrom (Ge cmp) (elem size m) (num / 2) num := HeapFrom.leaves (by omega)
  have hfirst : num / 2 < rounds := Nat.lt_of_le_of_lt (Nat.div_le_self num 2) hrounds
  obtain ⟨m₁, hrun₁, hlen₁, hheap₁, hmoved₁⟩ := exists_heapify hsize hfit hexch hdepth hfirst
    (Nat.div_le_self num 2) hfits hm hleaves
  obtain ⟨m₂, hrun₂, hlen₂, hdrained, hmoved₂⟩ := exists_drain hsize hfit hexch hdepth hrounds
    (Nat.le_refl num) hfits (hlen₁.trans hm) hheap₁ Drained.start
  refine ⟨m₂, ?_, hlen₂.trans hlen₁, hdrained.pairwise, (hmoved₁.trans hmoved₂).perm⟩
  unfold sort
  simp only [hn, hend, heapify_start hsize hfits hfit, hrun₁]
  exact hrun₂

/-! ### The volumes of an adapter are sorted -/

theorem mptSortIocPg2_nonneg {a b : List UInt8} :
    0 ≤ mptSortIocPg2 a b ↔
      256 * (volumeBus b).toNat + (volumeId b).toNat ≤
        256 * (volumeBus a).toNat + (volumeId a).toNat := by
  have hb := (volumeId b).toNat_lt
  have ha := (volumeId a).toNat_lt
  unfold mptSortIocPg2
  simp only [← UInt8.toNat_inj, UInt8.lt_iff_toNat_lt]
  split_ifs <;> omega

/-- The volumes that `mpt_findImVolumes` sorts come out in the order of their buses and, on
    one bus, of their numbers. -/
theorem sort_sorts_volumes :
    ∃ m', sort 3 8 mptSortIocPg2 none 4 2
        [7, 1, 0, 0, 0, 0, 0, 0, 9, 0, 0, 0, 0, 0, 0, 0, 2, 1, 0, 0, 0, 0, 0, 0] = some m' ∧
      m'.length = 24 ∧ (elems 3 8 m').Pairwise (fun x y => 0 ≤ mptSortIocPg2 y x) ∧
      (elems 3 8 m').Perm (elems 3 8
        [7, 1, 0, 0, 0, 0, 0, 0, 9, 0, 0, 0, 0, 0, 0, 0, 2, 1, 0, 0, 0, 0, 0, 0]) := by
  apply sort_sorts 3 8 mptSortIocPg2 none 4 2
  · decide
  · decide
  · decide
  · rfl
  · intro x y
    simp only [mptSortIocPg2_nonneg]
    omega
  · intro x y z
    simp only [mptSortIocPg2_nonneg]
    omega
  · intro s hs
    cases hs
  · decide
  · decide

end VmkLinux.Sort
