/-
  VmkLinux/BinaryHeap.lean
  ========================
  **Binary heaps** in a numbered array, for any total preorder: what letting an entry sink
  keeps, and what taking the root away again and again comes to.

  The array is a function from positions, and only the positions below a bound belong to
  the heap.  The children of `p` are `2p + 1` and `2p + 2`.
-/
import Mathlib.Data.List.Nodup
import Mathlib.Logic.Equiv.Basic
import Mathlib.Order.Defs.Unbundled

namespace VmkLinux.BinaryHeap

variable {α : Type*}

def Child (p c : Nat) : Prop := c = 2 * p + 1 ∨ c = 2 * p + 2

theorem Child.lt {p c : Nat} (h : Child p c) : p < c := by
  unfold Child at h
  omega

theorem Child.unique {p q c : Nat} (hp : Child p c) (hq : Child q c) : p = q := by
  unfold Child at hp hq
  omega

/-! ### Rearrangements -/

/-- `b` has the entries of `a`, moved about below `hi`. -/
def Rearranged (a b : Nat → α) (hi : Nat) : Prop :=
  ∃ σ : Equiv.Perm Nat, (∀ k, hi ≤ k → σ k = k) ∧ b = a ∘ σ

namespace Rearranged

variable {a b c : Nat → α} {hi : Nat}

theorem refl (a : Nat → α) (hi : Nat) : Rearranged a a hi := ⟨Equiv.refl Nat, fun _ _ => rfl, rfl⟩

theorem trans (hab : Rearranged a b hi) (hbc : Rearranged b c hi) : Rearranged a c hi := by
  obtain ⟨σ, hσ, rfl⟩ := hab
  obtain ⟨τ, hτ, rfl⟩ := hbc
  refine ⟨τ.trans σ, fun k hk => ?_, rfl⟩
  rw [Equiv.trans_apply, hτ k hk, hσ k hk]

theorem mono {hi' : Nat} (h : Rearranged a b hi) (hle : hi ≤ hi') : Rearranged a b hi' := by
  obtain ⟨σ, hσ, hb⟩ := h
  exact ⟨σ, fun k hk => hσ k (Nat.le_trans hle hk), hb⟩

theorem swap {i j : Nat} (hi' : i < hi) (hj : j < hi) :
    Rearranged a (a ∘ Equiv.swap i j) hi :=
  ⟨Equiv.swap i j, fun k hk => Equiv.swap_apply_of_ne_of_ne (by omega) (by omega), rfl⟩

/-- A position below the bound comes from one below it. -/
theorem lt_of_fixed {σ : Equiv.Perm Nat} (hσ : ∀ k, hi ≤ k → σ k = k) {k : Nat} (hk : k < hi) :
    σ k < hi := by
  by_contra hge
  have heq : σ (σ k) = σ k := hσ (σ k) (Nat.le_of_not_lt hge)
  have hself : σ k = k := σ.injective heq
  omega

theorem perm (h : Rearranged a b hi) :
    ((List.range hi).map b).Perm ((List.range hi).map a) := by
  obtain ⟨σ, hσ, rfl⟩ := h
  have hmap : ((List.range hi).map σ).Perm (List.range hi) := by
    apply (List.perm_ext_iff_of_nodup (List.nodup_range.map σ.injective) List.nodup_range).mpr
    intro k
    simp only [List.mem_map, List.mem_range]
    constructor
    · rintro ⟨j, hj, rfl⟩
      exact lt_of_fixed hσ hj
    · intro hk
      have hinv : ∀ l, hi ≤ l → σ.symm l = l := by
        intro l hl
        rw [Equiv.symm_apply_eq, hσ l hl]
      exact ⟨σ.symm k, lt_of_fixed hinv hk, σ.apply_symm_apply k⟩
  rw [← List.map_map]
  exact hmap.map a

end Rearranged

/-! ### Heaps -/

/-- Every entry from `lo` on stands above its children, as far as these are below `hi`. -/
def HeapFrom (ge : α → α → Prop) (a : Nat → α) (lo hi : Nat) : Prop :=
  ∀ p c, lo ≤ p → Child p c → c < hi → ge (a p) (a c)

/-- A heap but for the entry at `r`, which may be too small for its place: its children are
    below its parent. -/
structure HeapExcept (ge : α → α → Prop) (a : Nat → α) (r lo hi : Nat) : Prop where
  others : ∀ p c, lo ≤ p → p ≠ r → Child p c → c < hi → ge (a p) (a c)
  bridge : ∀ p c, lo ≤ p → Child p r → Child r c → c < hi → ge (a p) (a c)

section Heaps

variable {ge : α → α → Prop} {a : Nat → α} {r c lo hi : Nat}

/-- Entries without children are heaps. -/
theorem HeapFrom.leaves (h : hi ≤ 2 * lo + 1) : HeapFrom ge a lo hi := by
  intro p c hp hc hlt
  unfold Child at hc
  omega

theorem HeapFrom.except (h : HeapFrom ge a (lo + 1) hi) : HeapExcept ge a lo lo hi := by
  refine ⟨?_, ?_⟩
  · intro p c hp hne hc hlt
    exact h p c (by omega) hc hlt
  · intro p c hp hchild hc hlt
    have hlt := hchild.lt
    omega

/-- An entry that stands above its children has sunk far enough. -/
theorem HeapExcept.stop (h : HeapExcept ge a r lo hi)
    (habove : ∀ c, Child r c → c < hi → ge (a r) (a c)) : HeapFrom ge a lo hi := by
  intro p c hp hc hlt
  by_cases hpr : p = r
  · subst hpr
    exact habove c hc hlt
  · exact h.others p c hp hpr hc hlt

/-- **One step down**: the entry changes places with the larger of its children. -/
theorem HeapExcept.sink (h : HeapExcept ge a r lo hi) (hlo : lo ≤ r) (hc : Child r c)
    (hlt : c < hi) (hbest : ∀ d, Child r d → d < hi → ge (a c) (a d)) (habove : ge (a c) (a r)) :
    HeapExcept ge (a ∘ Equiv.swap r c) c lo hi := by
  have hrc := hc.lt
  have hat : (a ∘ Equiv.swap r c) r = a c := congrArg a (Equiv.swap_apply_left r c)
  have hto : (a ∘ Equiv.swap r c) c = a r := congrArg a (Equiv.swap_apply_right r c)
  have helse : ∀ k, k ≠ r → k ≠ c → (a ∘ Equiv.swap r c) k = a k := fun k hkr hkc =>
    congrArg a (Equiv.swap_apply_of_ne_of_ne hkr hkc)
  refine ⟨?_, ?_⟩
  · intro p d hp hpc hd hdlt
    have hpd := hd.lt
    by_cases hpr : p = r
    · subst hpr
      rw [hat]
      by_cases hdc : d = c
      · rw [hdc, hto]
        exact habove
      · rw [helse d (by omega) hdc]
        exact hbest d hd hdlt
    · rw [helse p hpr hpc]
      by_cases hdr : d = r
      · subst hdr
        rw [hat]
        exact h.bridge p c hp hd hc hlt
      · have hdc : d ≠ c := by
          rintro rfl
          exact hpr (hd.unique hc)
        rw [helse d hdr hdc]
        exact h.others p d hp hpr hd hdlt
  · intro p d hp hpc hd hdlt
    have hcd := hd.lt
    obtain rfl := hpc.unique hc
    rw [hat, helse d (by omega) (by omega)]
    exact h.others c d (by omega) (by omega) hd hdlt

variable [IsTrans α ge] [Std.Total ge]

theorem HeapFrom.root_ge (h : HeapFrom ge a 0 hi) : ∀ k, k < hi → ge (a 0) (a k) := by
  intro k
  induction k using Nat.strongRecOn with
  | ind k ih =>
    intro hk
    rcases Nat.eq_zero_or_pos k with rfl | hpos
    · exact (Std.Total.total (r := ge) (a 0) (a 0)).elim id id
    · have hchild : Child ((k - 1) / 2) k := by
        unfold Child
        omega
      have hparent := ih _ hchild.lt (Nat.lt_trans hchild.lt hk)
      exact IsTrans.trans _ _ _ hparent (h _ k (Nat.zero_le _) hchild hk)

end Heaps

/-! ### Taking the root away -/

/-- The entries from `hi` on are in their places: each stands above all that are before it. -/
def Drained (ge : α → α → Prop) (a : Nat → α) (hi num : Nat) : Prop :=
  ∀ j k, j ≤ k → hi ≤ k → k < num → ge (a k) (a j)

section Drained

variable {ge : α → α → Prop} {a b : Nat → α} {hi num : Nat}

theorem Drained.start : Drained ge a num num := fun j k _ hle hlt => absurd hlt (by omega)

/-- What goes on below the bound does not matter. -/
theorem Drained.rearranged (h : Drained ge a hi num) (hab : Rearranged a b hi) :
    Drained ge b hi num := by
  obtain ⟨σ, hσ, rfl⟩ := hab
  intro j k hjk hle hlt
  show ge (a (σ k)) (a (σ j))
  rw [hσ k hle]
  refine h (σ j) k ?_ hle hlt
  rcases Nat.lt_or_ge j hi with hj | hj
  · exact Nat.le_of_lt (Nat.lt_of_lt_of_le (Rearranged.lt_of_fixed hσ hj) hle)
  · rw [hσ j hj]
    exact hjk

/-- The root changes places with the last entry of the heap: what is left is a heap but for
    its root. -/
theorem HeapFrom.drain (h : HeapFrom ge a 0 (hi + 1)) :
    HeapFrom ge (a ∘ Equiv.swap 0 hi) 1 hi := by
  intro p c hp hc hlt
  have hpc := hc.lt
  have hkeep : ∀ k, 1 ≤ k → k < hi → (a ∘ Equiv.swap 0 hi) k = a k := fun k hk hk' =>
    congrArg a (Equiv.swap_apply_of_ne_of_ne (by omega) (by omega))
  rw [hkeep p hp (by omega), hkeep c (by omega) hlt]
  exact h p c (Nat.zero_le _) hc (by omega)

theorem Drained.pairwise (h : Drained ge a 0 num) :
    ((List.range num).map a).Pairwise fun x y => ge y x := by
  rw [List.pairwise_map]
  refine List.Pairwise.imp_of_mem ?_ List.pairwise_lt_range
  intro j k _ hk hjk
  exact h j k (Nat.le_of_lt hjk) (Nat.zero_le _) (List.mem_range.mp hk)

variable [IsTrans α ge] [Std.Total ge]

theorem Drained.drain (h : Drained ge a (hi + 1) num) (hheap : HeapFrom ge a 0 (hi + 1)) :
    Drained ge (a ∘ Equiv.swap 0 hi) hi num := by
  have hmoved : Rearranged a (a ∘ Equiv.swap 0 hi) (hi + 1) :=
    Rearranged.swap (by omega) (by omega)
  have hlater := h.rearranged hmoved
  intro j k hjk hle hlt
  rcases Nat.lt_or_ge hi k with hk | hk
  · exact hlater j k hjk hk hlt
  · obtain rfl : k = hi := Nat.le_antisymm hk hle
    show ge (a (Equiv.swap 0 k k)) (a (Equiv.swap 0 k j))
    rw [Equiv.swap_apply_right]
    apply hheap.root_ge
    apply Rearranged.lt_of_fixed (fun l hl => Equiv.swap_apply_of_ne_of_ne (by omega) (by omega))
    omega

end Drained

end VmkLinux.BinaryHeap
