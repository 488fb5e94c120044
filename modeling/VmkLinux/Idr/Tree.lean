/-
  VmkLinux/Idr/Tree.lean
  ======================
  **What is in a tree of layers.**

  `Holds d n b s` says that `s` has `n` layers below it and that `b` tells whether all their
  places are taken: what a bit of a bitmap stands for, at each level.  A new identifier is
  found by the bits alone, and a layer is let go when its count gets to 0; so both are
  right only as long as `Good` holds of every layer.  With `d`, no layer is without an
  entry.

  The functions of the source go down with the layers above in hand, and change these on
  the way back.  What they do to a layer is stated together with the path above it.
-/
import VmkLinux.Idr.Model
import VmkLinux.Digits
import Mathlib.Algebra.BigOperators.Group.Finset.Basic
import Mathlib.Data.Finset.Card
import Mathlib.Data.Fintype.Basic

namespace VmkLinux.Idr

/-! ### Layers -/

namespace Layer

variable {α : Type} (p : Layer α) (i j : Fin 64) (a : α)

@[simp] theorem bit_set : (p.set i a).bit j = p.bit j := rfl

@[simp] theorem ary_set_self : (p.set i a).ary i = a := if_pos rfl

theorem ary_set_of_ne {i j : Fin 64} (h : j ≠ i) : (p.set i a).ary j = p.ary j := if_neg h

@[simp] theorem bit_setBit_self : (p.setBit i).bit i = true := by
  simp [bit, setBit]

@[simp] theorem bit_clearBit_self : (p.clearBit i).bit i = false := by
  simp [bit, clearBit]

variable {p i j}

theorem bit_setBit_of_ne (h : j ≠ i) : (p.setBit i).bit j = p.bit j := by
  have hne : ¬ i.val = j.val := fun heq => h (Fin.ext heq.symm)
  unfold bit setBit
  rw [BitVec.getLsbD_or, BitVec.getLsbD_twoPow, decide_eq_false hne, Bool.and_false, Bool.or_false]

theorem bit_clearBit_of_ne (h : j ≠ i) : (p.clearBit i).bit j = p.bit j := by
  have hne : ¬ i.val = j.val := fun heq => h (Fin.ext heq.symm)
  unfold bit clearBit
  rw [BitVec.getLsbD_and, BitVec.getLsbD_not, BitVec.getLsbD_twoPow, decide_eq_false hne,
    decide_eq_true j.isLt, Bool.and_false, Bool.not_false, Bool.and_true, Bool.and_true]

/-- An entry and its bit: the others are as before. -/
theorem set_others (p : Layer α) (i : Fin 64) (a : α) :
    ∀ j, j ≠ i → (p.set i a).bit j = p.bit j ∧ (p.set i a).ary j = p.ary j := by
  intro j hj
  exact ⟨rfl, ary_set_of_ne p a hj⟩

theorem setBit_set_others (p : Layer α) (i : Fin 64) (a : α) :
    ∀ j, j ≠ i →
      ((p.set i a).setBit i).bit j = p.bit j ∧ ((p.set i a).setBit i).ary j = p.ary j := by
  intro j hj
  exact ⟨bit_setBit_of_ne hj, ary_set_of_ne p a hj⟩

theorem clearBit_set_others (p : Layer α) (i : Fin 64) (a : α) :
    ∀ j, j ≠ i →
      ((p.clearBit i).set i a).bit j = p.bit j ∧ ((p.clearBit i).set i a).ary j = p.ary j := by
  intro j hj
  exact ⟨bit_clearBit_of_ne hj, ary_set_of_ne _ a hj⟩

theorem bitmap_eq_iff {q : Layer α} : p.bitmap = q.bitmap ↔ ∀ i, p.bit i = q.bit i := by
  refine ⟨fun h i => by unfold bit; rw [h], fun h => BitVec.eq_of_getLsbD_eq fun i hi => ?_⟩
  exact h ⟨i, hi⟩

theorem full_eq_true_iff : p.full = true ↔ ∀ i, p.bit i = true := by
  unfold full
  rw [beq_iff_eq]
  constructor
  · intro h i
    unfold bit
    rw [h, BitVec.getLsbD_allOnes]
    exact decide_eq_true i.isLt
  · intro h
    apply BitVec.eq_of_getLsbD_eq
    intro i hi
    rw [BitVec.getLsbD_allOnes, decide_eq_true hi]
    exact h ⟨i, hi⟩

theorem full_eq_false (h : p.bit i = false) : p.full = false := by
  by_contra hfull
  have hbit := full_eq_true_iff.mp (Bool.eq_true_of_not_eq_false hfull) i
  rw [h] at hbit
  cases hbit

theorem clearBit_of_eq_false (h : p.bit i = false) : p.clearBit i = p := by
  have hbitmap : (p.clearBit i).bitmap = p.bitmap := by
    refine bitmap_eq_iff.mpr fun j => ?_
    by_cases hj : j = i
    · rw [hj, bit_clearBit_self, h]
    · exact bit_clearBit_of_ne hj
  obtain ⟨bitmap, ary, count⟩ := p
  exact congrArg (fun bm => (⟨bm, ary, count⟩ : Layer α)) hbitmap

theorem set_of_eq (h : p.ary i = a) : p.set i a = p := by
  have hary : (fun j => if j = i then a else p.ary j) = p.ary := by
    funext j
    by_cases hj : j = i
    · rw [if_pos hj, hj, h]
    · exact if_neg hj
  unfold set
  rw [hary]

/-- `find_next_bit` finds the first bit. -/
theorem nextSpace_eq_some {n m : Fin 64} (h : p.nextSpace n = some m) :
    p.bit m = false ∧ ∀ i, n ≤ i → i < m → p.bit i = true := by
  unfold nextSpace at h
  obtain ⟨hm, hbefore⟩ := Fin.find?_eq_some_iff.mp h
  rw [Bool.and_eq_true, decide_eq_true_eq, Bool.not_eq_true'] at hm
  refine ⟨hm.2, fun i hi him => ?_⟩
  have hi' := hbefore i him
  rw [decide_eq_true hi, Bool.true_and, Bool.not_eq_false'] at hi'
  exact hi'

theorem exists_nextSpace {n : Fin 64} (hfull : p.full = false)
    (hbelow : ∀ i < n, p.bit i = true) :
    ∃ m, p.nextSpace n = some m ∧ p.bit m = false ∧ ∀ i < m, p.bit i = true := by
  cases h : p.nextSpace n with
  | none =>
    exfalso
    have hall : p.full = true := full_eq_true_iff.mpr fun i => by
      by_cases hi : n ≤ i
      · unfold nextSpace at h
        have hnot := Fin.find?_eq_none_iff.mp h i
        rw [decide_eq_true hi, Bool.true_and, Bool.not_eq_false'] at hnot
        exact hnot
      · exact hbelow i (not_le.mp hi)
    rw [hfull] at hall
    cases hall
  | some m =>
    obtain ⟨hm, hbetween⟩ := nextSpace_eq_some h
    refine ⟨m, rfl, hm, fun i hi => ?_⟩
    by_cases hn : n ≤ i
    · exact hbetween i hn hi
    · exact hbelow i (not_le.mp hn)

end Layer

/-! ### Trees -/

/-- What `count` counts: in a leaf the identifiers, above the leaves the layers. -/
def used (n : Nat) (p : IdrLayer) (i : Fin 64) : Bool :=
  if n = 0 then p.bit i else !(p.ary i).isNull

def entries (f : Fin 64 → Bool) : Nat := (Finset.univ.filter fun i => f i = true).card

def Holds (d : Bool) : Nat → Bool → Slot → Prop
  | 0, b, s => ∃ ptr, s = .user ptr ∧ (b = false → ptr = 0)
  | n + 1, b, s =>
      (s = null ∧ b = false) ∨
        ∃ p, s = .layer p ∧
          ((∀ i, Holds d n (p.bit i) (p.ary i)) ∧ p.count = entries (used n p)) ∧
          b = p.full ∧ (d = true → p.count ≠ 0)

/-- A layer with `n` layers below. -/
def Good (d : Bool) (n : Nat) (p : IdrLayer) : Prop :=
  (∀ i, Holds d n (p.bit i) (p.ary i)) ∧ p.count = entries (used n p)

/-- The pointer that an identifier leads to, if it has been given out. -/
def content : Nat → Bool → Slot → Nat → Option Nat
  | 0, b, .user ptr, _ => if b then some ptr else none
  | n + 1, _, .layer p, id => content n (p.bit (digit id n)) (p.ary (digit id n)) id
  | _, _, _, _ => none

def Layer.content (n : Nat) (p : IdrLayer) (id : Nat) : Option Nat :=
  Idr.content n (p.bit (digit id n)) (p.ary (digit id n)) id

section Trees

variable {d b : Bool} {n : Nat} {s : Slot} {p : IdrLayer}

theorem holds_null (d : Bool) (n : Nat) : Holds d n false null := by
  cases n with
  | zero => exact ⟨0, rfl, fun _ => rfl⟩
  | succ n => exact .inl ⟨rfl, rfl⟩

theorem Good.holds (h : Good d n p) (hcount : d = true → p.count ≠ 0) :
    Holds d (n + 1) p.full (.layer p) :=
  .inr ⟨p, rfl, h, rfl, hcount⟩

theorem content_null (n : Nat) (id : Nat) : content n false null id = none := by
  cases n <;> rfl

theorem content_of_full (h : Holds d n true s) (id : Nat) :
    ∃ ptr, content n true s id = some ptr := by
  induction n generalizing s with
  | zero =>
    obtain ⟨ptr, rfl, -⟩ := h
    exact ⟨ptr, rfl⟩
  | succ n ih =>
    rcases h with ⟨-, hb⟩ | ⟨p, rfl, hgood, hb, -⟩
    · cases hb
    · have hbit := Layer.full_eq_true_iff.mp hb.symm (digit id n)
      have hchild := hgood.1 (digit id n)
      show ∃ ptr, content n (p.bit _) _ id = some ptr
      rw [hbit] at hchild ⊢
      exact ih hchild

theorem Good.content_of_bit (h : Good d n p) {id : Nat} (hbit : p.bit (digit id n) = true) :
    p.content n id ≠ none := by
  have hchild := h.1 (digit id n)
  rw [hbit] at hchild
  obtain ⟨ptr, hptr⟩ := content_of_full hchild id
  unfold Layer.content
  rw [hbit, hptr]
  simp

/-- With no layer to be empty, there is still none. -/
theorem Holds.weaken (h : Holds d n b s) : Holds false n b s := by
  induction n generalizing b s with
  | zero => exact h
  | succ n ih =>
    rcases h with ⟨rfl, rfl⟩ | ⟨p, rfl, ⟨hchildren, hcount⟩, rfl, -⟩
    · exact .inl ⟨rfl, rfl⟩
    · exact .inr ⟨p, rfl, ⟨fun i => ih (hchildren i), hcount⟩, rfl, fun hd => by cases hd⟩

theorem Good.weaken (h : Good d n p) : Good false n p := ⟨fun i => (h.1 i).weaken, h.2⟩

/-! ### Sizes -/

/-- The number of layers in a tree. -/
def Slot.size : Slot → Nat
  | .user _ => 0
  | .layer ⟨_, ary, _⟩ => 1 + ∑ i, (ary i).size

theorem size_layer (p : IdrLayer) : (Slot.layer p).size = 1 + ∑ i, (p.ary i).size := by
  obtain ⟨bitmap, ary, count⟩ := p
  rw [Slot.size]

@[simp] theorem size_user (ptr : Nat) : (Slot.user ptr).size = 0 := rfl

attribute [irreducible] Slot.size

theorem size_null : null.size = 0 := size_user 0

theorem size_blank : (Slot.layer blank).size = 1 := by
  rw [size_layer]
  exact congrArg (1 + ·) (Finset.sum_eq_zero fun i _ => size_null)

/-- One entry of a layer is changed. -/
theorem size_update {p q : IdrLayer} {m : Fin 64} (h : ∀ i, i ≠ m → q.ary i = p.ary i) :
    (Slot.layer q).size + (p.ary m).size = (Slot.layer p).size + (q.ary m).size := by
  have hrest : ∑ i ∈ Finset.univ.erase m, (q.ary i).size =
      ∑ i ∈ Finset.univ.erase m, (p.ary i).size :=
    Finset.sum_congr rfl fun i hi => by rw [h i (Finset.ne_of_mem_erase hi)]
  have hp := Finset.add_sum_erase Finset.univ (fun i => (p.ary i).size) (Finset.mem_univ m)
  have hq := Finset.add_sum_erase Finset.univ (fun i => (q.ary i).size) (Finset.mem_univ m)
  rw [size_layer, size_layer]
  omega

theorem size_congr {p q : IdrLayer} (h : ∀ i, q.ary i = p.ary i) :
    (Slot.layer q).size = (Slot.layer p).size := by
  rw [size_layer, size_layer]
  exact congrArg (1 + ·) (Finset.sum_congr rfl fun i _ => by rw [h i])

/-- What a leaf refers to is not a layer. -/
theorem Holds.size_eq_zero (h : Holds d 0 b s) : s.size = 0 := by
  obtain ⟨ptr, rfl, -⟩ := h
  exact size_user ptr

/-! ### Counts -/

theorem used_of_layer {c : IdrLayer} {i : Fin 64} (hc : p.ary i = .layer c) :
    used (n + 1) p i = true := by
  unfold used
  rw [if_neg (Nat.succ_ne_zero n), hc]
  rfl

theorem used_of_null {i : Fin 64} (hc : p.ary i = null) : used (n + 1) p i = false := by
  unfold used
  rw [if_neg (Nat.succ_ne_zero n), hc]
  rfl

theorem entries_eq_succ {f g : Fin 64 → Bool} {i : Fin 64} (hf : f i = true) (hg : g i = false)
    (h : ∀ j, j ≠ i → f j = g j) : entries f = entries g + 1 := by
  have hinsert : (Finset.univ.filter fun j => f j = true) =
      insert i (Finset.univ.filter fun j => g j = true) := by
    ext j
    by_cases hj : j = i
    · simp [hj, hf]
    · simp [hj, h j hj]
  unfold entries
  rw [hinsert, Finset.card_insert_of_notMem (by simp [hg])]

/-- A change in one place. -/
theorem entries_update {f g : Fin 64 → Bool} {i : Fin 64} (h : ∀ j, j ≠ i → f j = g j) :
    entries f + (g i).toNat = entries g + (f i).toNat := by
  cases hf : f i with
  | false =>
    cases hg : g i with
    | false =>
      have heq : f = g := funext fun j => by
        by_cases hj : j = i
        · rw [hj, hf, hg]
        · exact h j hj
      rw [heq]
    | true => rw [entries_eq_succ hg hf fun j hj => (h j hj).symm]; rfl
  | true =>
    cases hg : g i with
    | false => rw [entries_eq_succ hf hg h]; rfl
    | true =>
      have heq : f = g := funext fun j => by
        by_cases hj : j = i
        · rw [hj, hf, hg]
        · exact h j hj
      rw [heq]

/-- One entry of a layer is changed, and its count by as much. -/
theorem Good.update {q : IdrLayer} (h : Good d n p) {m : Fin 64}
    (hothers : ∀ i, i ≠ m → q.bit i = p.bit i ∧ q.ary i = p.ary i)
    (hm : Holds d n (q.bit m) (q.ary m))
    (hcount : q.count + (used n p m).toNat = p.count + (used n q m).toNat) : Good d n q := by
  constructor
  · intro i
    by_cases hi : i = m
    · rw [hi]
      exact hm
    · rw [(hothers i hi).1, (hothers i hi).2]
      exact h.1 i
  · have hentries : entries (used n q) + (used n p m).toNat =
        entries (used n p) + (used n q m).toNat := by
      refine entries_update fun j hj => ?_
      unfold used
      rw [(hothers j hj).1, (hothers j hj).2]
    have hp := h.2
    omega

theorem content_of_ne {q : IdrLayer} {m : Fin 64}
    (hothers : ∀ i, i ≠ m → q.bit i = p.bit i ∧ q.ary i = p.ary i) {j : Nat}
    (hj : digit j n ≠ m) : q.content n j = p.content n j := by
  unfold Layer.content
  rw [(hothers _ hj).1, (hothers _ hj).2]

theorem Good.count_ne_zero (h : Good d n p) {i : Fin 64} (hi : used n p i = true) :
    p.count ≠ 0 := by
  have hpos : 0 < entries (used n p) := Finset.card_pos.mpr ⟨i, by simp [hi]⟩
  have hcount := h.2
  omega

/-- A layer whose count gets to 0 is as the constructor of the cache makes it. -/
theorem Good.eq_blank (h : Good d n p) (hzero : p.count = 0) : p = blank := by
  have hunused : ∀ i, used n p i = false := fun i => by
    by_contra hi
    exact h.count_ne_zero (Bool.eq_true_of_not_eq_false hi) hzero
  have hslot : ∀ i, p.bit i = false ∧ p.ary i = null := fun i => by
    have hchild := h.1 i
    have hi := hunused i
    cases n with
    | zero =>
      have hbit : p.bit i = false := hi
      obtain ⟨ptr, hptr, hnull⟩ := hchild
      rw [hnull hbit] at hptr
      exact ⟨hbit, hptr⟩
    | succ n =>
      rcases hchild with ⟨hnull, hbit⟩ | ⟨c, hc, -⟩
      · exact ⟨hbit, hnull⟩
      · rw [used_of_layer hc] at hi
        cases hi
  have hbitmap : p.bitmap = blank.bitmap := Layer.bitmap_eq_iff.mpr fun i => by
    rw [(hslot i).1]
    simp [Layer.bit, blank]
  have hary : p.ary = blank.ary := funext fun i => (hslot i).2
  obtain ⟨bitmap, ary, count⟩ := p
  dsimp only at hbitmap hary hzero
  rw [hbitmap, hary, hzero]
  rfl

theorem good_blank (d : Bool) (n : Nat) : Good d n blank := by
  have hbit : ∀ i, blank.bit i = false := fun i => by simp [Layer.bit, blank]
  refine ⟨fun i => ?_, ?_⟩
  · rw [hbit i]
    exact holds_null d n
  · have hused : ∀ i, used n blank i = false := fun i => by
      unfold used
      split
      · exact hbit i
      · rfl
    unfold entries
    rw [Finset.filter_false_of_mem fun i _ => by rw [hused i]; simp]
    rfl

end Trees

end VmkLinux.Idr
