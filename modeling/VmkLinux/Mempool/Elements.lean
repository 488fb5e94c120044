/-
  VmkLinux/Mempool/Elements.lean
  ==============================
  **Where the elements of a pool are.**

  Every element that `pool->alloc` has returned and `pool->free` not taken back is in one
  place: in the pool, with a caller, or with a call that is on its way (`Sound.counts`).  So
  nothing is lost and nothing is freed twice, whatever the calls of `mempool_alloc`,
  `mempool_free` and `mempool_resize` do at the same time, as long as one `mempool_resize`
  has returned before the next is called.

  Without `mempool_resize` a pool keeps its promise too (`Reserve`): `mempool_free` gives an
  element away only when others than those that are about to be given away make up
  `min_nr`, although it looks at the pool without its lock.
-/
import VmkLinux.Mempool.Model

namespace VmkLinux.Mempool

open Interleave

/-! ### Elements -/

/-- What is in the pool. -/
def Shared.contents (s : Shared) : List Nat := s.elements.take s.currNr

def Pc.carries (e : Nat) (t : Pc) : Nat := if t.element = some e then 1 else 0

def Pc.resizes (t : Pc) : Nat := if t.resizing then 1 else 0

/-- The size that a call makes the pool smaller to. -/
def Pc.target : Pc → Option Nat
  | .shrinkFree n _ | .shrinkLock n => some n
  | _ => none

theorem Pc.resizes_of_target {t : Pc} {n : Nat} (h : t.target = some n) : t.resizes = 1 := by
  unfold Pc.target at h
  split at h
  · rfl
  · rfl
  · cases h

theorem exists_addElement {s : Shared} (hlt : s.currNr < s.minNr)
    (hle : s.minNr ≤ s.elements.length) (e : Nat) :
    ∃ s', addElement s e = some s' ∧
      s' = { s with elements := s.elements.set s.currNr e, currNr := s.currNr + 1 } ∧
      s'.contents = s.contents ++ [e] := by
  refine ⟨_, ?_, rfl, ?_⟩
  · unfold addElement
    rw [if_neg (by omega), if_pos (by omega)]
  · have hpos : s.currNr < s.elements.length := by omega
    unfold Shared.contents
    dsimp only
    rw [List.take_add_one, List.take_set_of_le (Nat.le_refl _), List.getElem?_set_self hpos]
    rfl

theorem exists_removeElement {s : Shared} (hpos : s.currNr ≠ 0)
    (hle : s.currNr ≤ s.elements.length) :
    ∃ e s', removeElement s = some (e, s') ∧ s' = { s with currNr := s.currNr - 1 } ∧
      s.contents = s'.contents ++ [e] := by
  obtain ⟨k, hk⟩ : ∃ k, s.currNr = k + 1 := ⟨s.currNr - 1, by omega⟩
  have hget : s.elements[k]? = some s.elements[k] := List.getElem?_eq_getElem (by omega)
  refine ⟨s.elements[k], _, ?_, rfl, ?_⟩
  · unfold removeElement
    rw [if_neg hpos, hk, Nat.add_sub_cancel, hget]
    rfl
  · unfold Shared.contents
    dsimp only
    rw [hk, Nat.add_sub_cancel, List.take_add_one, hget]
    rfl

theorem poolFree_of_mem {s : Shared} {e : Nat} (h : e ∈ s.live) :
    poolFree s e = some { s with live := s.live.erase e } := if_pos h

/-! ### One step -/

/-- What holds of the pool and of a call, where the other calls carry the element `e` `o e`
    times and `r` of them are calls of `mempool_resize`. -/
structure Sound (o : Nat → Nat) (r : Nat) (s : Shared) (t : Pc) : Prop where
  curr_le : s.currNr ≤ s.minNr
  min_le : s.minNr ≤ s.elements.length
  counts : ∀ e, s.live.count e = s.contents.count e + s.held.count e + (t.carries e + o e)
  nodup : s.live.Nodup
  alone : t.resizes + r ≤ 1
  running : t ≠ .crashed
  target : ∀ n, t.target = some n → n ≤ s.minNr

section Steps

variable {o : Nat → Nat} {r : Nat} {s s' : Shared} {t t' : Pc}

/-- A call that does nothing to the pool. -/
theorem Sound.next (h : Sound o r s t) (helement : t'.element = t.element)
    (hresizes : t'.resizes ≤ t.resizes) (hrunning : t' ≠ .crashed) (htarget : t'.target = none) :
    Sound o r s t' := by
  refine ⟨h.curr_le, h.min_le, fun e => ?_, h.nodup, ?_, hrunning, fun n hn => ?_⟩
  · rw [h.counts e]
    unfold Pc.carries
    rw [helement]
  · have halone := h.alone
    omega
  · rw [htarget] at hn
    cases hn

/-- The element that a call carries is one that `pool->alloc` has returned. -/
theorem Sound.mem_live (h : Sound o r s t) {e : Nat} (he : t.element = some e) : e ∈ s.live := by
  have hcounts := h.counts e
  unfold Pc.carries at hcounts
  rw [if_pos he] at hcounts
  exact List.count_pos_iff.mp (by omega)

theorem carries_self {e : Nat} (h : t.element = some e) (f : Nat) :
    t.carries f = [e].count f := by
  unfold Pc.carries
  rw [h, List.count_singleton]
  by_cases hf : e = f
  · rw [if_pos (congrArg some hf), if_pos (beq_iff_eq.mpr hf)]
  · rw [if_neg (fun heq => hf (Option.some.inj heq)), if_neg (fun heq => hf (beq_iff_eq.mp heq))]

theorem carries_none (h : t.element = none) (f : Nat) : t.carries f = 0 := by
  unfold Pc.carries
  rw [h]
  rfl

/-- `pool->free` takes the element of a call. -/
theorem Sound.poolFree (h : Sound o r s t) (t' : Pc) {e : Nat} (he : t.element = some e)
    (hnone : t'.element = none) (hresizes : t'.resizes ≤ t.resizes) (hrunning : t' ≠ .crashed)
    (htarget : ∀ n, t'.target = some n → n ≤ s.minNr) :
    ∃ s', Mempool.poolFree s e = some s' ∧ s'.minNr = s.minNr ∧ Sound o r s' t' := by
  refine ⟨_, poolFree_of_mem (h.mem_live he), rfl, h.curr_le, h.min_le, fun f => ?_,
    h.nodup.erase e, ?_, hrunning, htarget⟩
  · have hcounts := h.counts f
    rw [carries_self he, List.count_singleton] at hcounts
    rw [carries_none hnone]
    show (s.live.erase e).count f = s.contents.count f + s.held.count f + _
    rw [List.count_erase]
    omega
  · have halone := h.alone
    omega

/-- `add_element` takes the element of a call. -/
theorem Sound.addElement (h : Sound o r s t) (t' : Pc) {e : Nat} (he : t.element = some e)
    (hlt : s.currNr < s.minNr) (hnone : t'.element = none) (hresizes : t'.resizes ≤ t.resizes)
    (hrunning : t' ≠ .crashed) (htarget : t'.target = none) :
    ∃ s', Mempool.addElement s e = some s' ∧ s'.minNr = s.minNr ∧ Sound o r s' t' := by
  obtain ⟨s', hadd, rfl, hcontents⟩ := exists_addElement hlt h.min_le e
  refine ⟨_, hadd, rfl, hlt, ?_, fun f => ?_, h.nodup, ?_, hrunning, fun n hn => ?_⟩
  · show s.minNr ≤ (s.elements.set s.currNr e).length
    rw [List.length_set]
    exact h.min_le
  · have hcounts := h.counts f
    rw [carries_self he] at hcounts
    rw [carries_none hnone, hcontents, List.count_append]
    show s.live.count f = _ + s.held.count f + _
    omega
  · have halone := h.alone
    omega
  · rw [htarget] at hn
    cases hn

/-- `remove_element` gives a call an element. -/
theorem Sound.removeElement (h : Sound o r s t) (hpos : s.currNr ≠ 0) (hnone : t.element = none) :
    ∃ e s', Mempool.removeElement s = some (e, s') ∧
      s' = { s with currNr := s.currNr - 1 } ∧
      ∀ t' : Pc, t'.element = some e → t'.resizes ≤ t.resizes → t' ≠ .crashed →
        (∀ n, t'.target = some n → n ≤ s.minNr) → Sound o r s' t' := by
  have hcurr := h.curr_le
  have halone := h.alone
  obtain ⟨e, s', hremove, rfl, hcontents⟩ :=
    exists_removeElement hpos (Nat.le_trans hcurr h.min_le)
  refine ⟨e, _, hremove, rfl, fun t' helement hresizes hrunning htarget => ?_⟩
  refine ⟨by dsimp only; omega, h.min_le, fun f => ?_, h.nodup, by omega, hrunning, htarget⟩
  have hcounts := h.counts f
  rw [carries_none hnone, hcontents, List.count_append] at hcounts
  rw [carries_self helement]
  show s.live.count f = _ + s.held.count f + _
  omega

/-- The loop that makes the pool smaller: a turn of it, or its end. -/
theorem Sound.shrinkLoop (h : Sound o r s t) (hnone : t.element = none) (hresizes : t.resizes = 1)
    {n : Nat} (hn : n ≤ s.minNr) {s' : Shared} {t' : Pc}
    (hstep : Mempool.shrinkLoop s n = (s', t')) : Sound o r s' t' := by
  have halone := h.alone
  unfold Mempool.shrinkLoop at hstep
  split at hstep
  · rename_i hlt
    obtain ⟨e, s₁, hremove, -, htake⟩ := h.removeElement (by omega) hnone
    rw [hremove] at hstep
    obtain ⟨rfl, rfl⟩ := Prod.mk.inj hstep
    refine htake _ rfl (Nat.le_of_eq hresizes.symm) (by simp) fun m hm => ?_
    obtain rfl := Option.some.inj hm
    exact hn
  · rename_i hge
    obtain ⟨rfl, rfl⟩ := Prod.mk.inj hstep
    refine ⟨Nat.le_of_not_lt hge, Nat.le_trans hn h.min_le, fun f => ?_, h.nodup, ?_, by simp,
      fun m hm => by cases hm⟩
    · rw [carries_none rfl, ← carries_none hnone f]
      exact h.counts f
    · show 0 + r ≤ 1
      omega

theorem Sound.fillLoop (h : Sound o r s t) (hnone : t.element = none) (hresizes : t.resizes = 1)
    (hstep : Mempool.fillLoop s = (s', t')) : Sound o r s' t' := by
  unfold Mempool.fillLoop at hstep
  split at hstep
  · obtain ⟨rfl, rfl⟩ := Prod.mk.inj hstep
    exact h.next hnone.symm (Nat.le_of_eq hresizes.symm) (by simp) rfl
  · obtain ⟨rfl, rfl⟩ := Prod.mk.inj hstep
    exact h.next hnone.symm (by show 0 ≤ _; omega) (by simp) rfl

/-- `pool->alloc` returns an element, for a call that keeps it. -/
theorem Sound.poolAlloc (h : Sound o r s t) (hnone : t.element = none) {e : Nat}
    (he : e ∉ s.live) (helement : t'.element = some e) (hresizes : t'.resizes ≤ t.resizes)
    (hrunning : t' ≠ .crashed) (htarget : t'.target = none) :
    Sound o r { s with live := e :: s.live } t' := by
  refine ⟨h.curr_le, h.min_le, fun f => ?_, List.nodup_cons.mpr ⟨he, h.nodup⟩, ?_, hrunning,
    fun n hn => ?_⟩
  · have hcounts := h.counts f
    rw [carries_none hnone] at hcounts
    rw [carries_self helement, List.count_singleton]
    show (e :: s.live).count f = s.contents.count f + s.held.count f + _
    rw [List.count_cons]
    omega
  · have halone := h.alone
    omega
  · rw [htarget] at hn
    cases hn

/-- A call hands its element to its caller. -/
theorem Sound.handOver (h : Sound o r s t) {e : Nat} (he : t.element = some e)
    (hnone : t'.element = none) (hresizes : t'.resizes ≤ t.resizes) (hrunning : t' ≠ .crashed)
    (htarget : t'.target = none) : Sound o r { s with held := e :: s.held } t' := by
  refine ⟨h.curr_le, h.min_le, fun f => ?_, h.nodup, ?_, hrunning, fun n hn => ?_⟩
  · have hcounts := h.counts f
    rw [carries_self he, List.count_singleton] at hcounts
    rw [carries_none hnone]
    show s.live.count f = s.contents.count f + (e :: s.held).count f + _
    rw [List.count_cons]
    omega
  · have halone := h.alone
    omega
  · rw [htarget] at hn
    cases hn

/-- A larger array. -/
theorem Sound.newElements (h : Sound o r s t) {n : Nat} (hn : s.minNr < n)
    (htarget : t.target = none) :
    ∃ s', Mempool.newElements s n = some s' ∧ Sound o r s' t := by
  have hcurr := h.curr_le
  have hmin := h.min_le
  refine ⟨_, if_pos (by omega), by dsimp only; omega, ?_, fun f => ?_, h.nodup, h.alone, h.running,
    fun m hm => ?_⟩
  · simp only [List.length_append, List.length_take, List.length_replicate]
    omega
  · rw [h.counts f]
    unfold Shared.contents
    dsimp only
    rw [List.take_append_of_le_length (by rw [List.length_take]; omega), List.take_take,
      Nat.min_self]
  · rw [htarget] at hm
    cases hm

/-- A step of `mempool_alloc`. -/
theorem Sound.stepAlloc (h : Sound o r s t) (ht : t = .alloc ∨ t = .allocLock) {a : Choice}
    (hstep : Mempool.step a s t = some (s', t')) : Sound o r s' t' ∧ s'.minNr = s.minNr := by
  rcases ht with rfl | rfl
  · simp only [Mempool.step] at hstep
    split at hstep
    · obtain ⟨rfl, rfl⟩ := Prod.mk.inj (Option.some.inj hstep)
      exact ⟨h.next rfl (Nat.le_refl 0) (by simp) rfl, rfl⟩
    · rename_i e helement
      split at hstep
      · cases hstep
      · rename_i he
        obtain ⟨rfl, rfl⟩ := Prod.mk.inj (Option.some.inj hstep)
        have htaken : Sound o r { s with live := e :: s.live } (.free e) :=
          h.poolAlloc rfl he rfl (Nat.le_refl 0) (by simp) rfl
        exact ⟨htaken.handOver rfl rfl (Nat.le_refl 0) (by simp) rfl, rfl⟩
  · simp only [Mempool.step] at hstep
    split at hstep
    · rename_i hpos
      obtain ⟨e, s₁, hremove, rfl, htake⟩ := h.removeElement hpos rfl
      rw [hremove] at hstep
      obtain ⟨rfl, rfl⟩ := Prod.mk.inj (Option.some.inj hstep)
      have htaken := htake (.free e) rfl (Nat.le_refl 0) (by simp) (fun n hn => by cases hn)
      exact ⟨htaken.handOver rfl rfl (Nat.le_refl 0) (by simp) rfl, rfl⟩
    · obtain ⟨rfl, rfl⟩ := Prod.mk.inj (Option.some.inj hstep)
      exact ⟨h.next rfl (Nat.le_refl 0) (by simp) rfl, rfl⟩

/-- The locked part of `mempool_free`: the element goes into the pool, or back. -/
theorem Sound.stepFreeLock {e : Nat} (h : Sound o r s (.freeLock e)) {a : Choice}
    (hstep : Mempool.step a s (.freeLock e) = some (s', t')) :
    Sound o r s' t' ∧ s'.minNr = s.minNr := by
  have hstep := Option.some.inj hstep
  split at hstep
  · rename_i hlt
    obtain ⟨s₁, hadd, hmin, hsound⟩ := h.addElement .freed rfl hlt rfl (Nat.le_refl 0)
      (by simp) rfl
    rw [hadd] at hstep
    obtain ⟨rfl, rfl⟩ := Prod.mk.inj hstep
    exact ⟨hsound, hmin⟩
  · obtain ⟨rfl, rfl⟩ := Prod.mk.inj hstep
    exact ⟨h.next rfl (Nat.le_refl 0) (by simp) rfl, rfl⟩

/-- An element is given back to `pool->free`. -/
theorem Sound.orCrash (h : Sound o r s t) (next : Pc) {e : Nat} (he : t.element = some e)
    (hnone : next.element = none) (hresizes : next.resizes ≤ t.resizes)
    (hrunning : next ≠ .crashed) (htarget : ∀ n, next.target = some n → n ≤ s.minNr)
    (hstep : Mempool.orCrash s next (Mempool.poolFree s e) = (s', t')) :
    Sound o r s' t' ∧ s'.minNr = s.minNr := by
  obtain ⟨s₁, hfree, hmin, hsound⟩ := h.poolFree next he hnone hresizes hrunning htarget
  rw [hfree] at hstep
  obtain ⟨rfl, rfl⟩ := Prod.mk.inj hstep
  exact ⟨hsound, hmin⟩

/-- The second locked part of `mempool_resize`: the array becomes larger. -/
theorem Sound.stepGrowLock {n : Nat} (h : Sound o r s (.growLock n)) {a : Choice}
    (hstep : Mempool.step a s (.growLock n) = some (s', t')) : Sound o r s' t' := by
  simp only [Mempool.step] at hstep
  split at hstep
  · obtain ⟨rfl, rfl⟩ := Prod.mk.inj (Option.some.inj hstep)
    exact h.next rfl (Nat.zero_le 1) (by simp) rfl
  · rename_i hn
    obtain ⟨s₁, hnew, hsound⟩ := h.newElements (Nat.lt_of_not_le hn) rfl
    rw [hnew] at hstep
    exact hsound.fillLoop rfl rfl (Option.some.inj hstep)

/-- The loop that fills the larger array, outside the lock and under it. -/
theorem Sound.stepFill (h : Sound o r s t) (ht : t = .fill ∨ ∃ e, t = .fillLock e) {a : Choice}
    (hstep : Mempool.step a s t = some (s', t')) : Sound o r s' t' := by
  rcases ht with rfl | ⟨e, rfl⟩
  · simp only [Mempool.step] at hstep
    split at hstep
    · obtain ⟨rfl, rfl⟩ := Prod.mk.inj (Option.some.inj hstep)
      exact h.next rfl (Nat.zero_le 1) (by simp) rfl
    · split at hstep
      · cases hstep
      · rename_i he
        obtain ⟨rfl, rfl⟩ := Prod.mk.inj (Option.some.inj hstep)
        exact h.poolAlloc rfl he rfl (Nat.le_refl 1) (by simp) rfl
  · simp only [Mempool.step] at hstep
    split at hstep
    · rename_i hlt
      obtain ⟨s₁, hadd, -, hsound⟩ := h.addElement .fill rfl hlt rfl (Nat.le_refl 1)
        (by simp) rfl
      rw [hadd] at hstep
      exact hsound.fillLoop rfl rfl (Option.some.inj hstep)
    · obtain ⟨rfl, rfl⟩ := Prod.mk.inj (Option.some.inj hstep)
      exact h.next rfl (Nat.le_refl 1) (by simp) rfl

/-- **One step of a call.** -/
theorem Sound.step (h : Sound o r s t) {a : Choice} (hstep : Mempool.step a s t = some (s', t')) :
    Sound o r s' t' ∧ (s'.minNr = s.minNr ∨ t.resizes = 1) := by
  cases t with
  | alloc =>
    have hnext := h.stepAlloc (.inl rfl) hstep
    exact ⟨hnext.1, .inl hnext.2⟩
  | allocLock =>
    have hnext := h.stepAlloc (.inr rfl) hstep
    exact ⟨hnext.1, .inl hnext.2⟩
  | free e =>
    obtain ⟨rfl, rfl⟩ := Prod.mk.inj (Option.some.inj hstep)
    exact ⟨h.next rfl (Nat.le_refl 0) (by simp) rfl, .inl rfl⟩
  | freeRead e curr =>
    obtain ⟨rfl, rfl⟩ := Prod.mk.inj (Option.some.inj hstep)
    split
    · exact ⟨h.next rfl (Nat.le_refl 0) (by simp) rfl, .inl rfl⟩
    · exact ⟨h.next rfl (Nat.le_refl 0) (by simp) rfl, .inl rfl⟩
  | freeLock e =>
    have hnext := h.stepFreeLock hstep
    exact ⟨hnext.1, .inl hnext.2⟩
  | drop e =>
    have hnext := h.orCrash .freed rfl rfl (Nat.le_refl 0) (by simp) (fun n hn => by cases hn)
      (Option.some.inj hstep)
    exact ⟨hnext.1, .inl hnext.2⟩
  | resize n =>
    refine ⟨?_, .inr rfl⟩
    have hstep := Option.some.inj hstep
    split at hstep
    · rename_i hn
      exact h.shrinkLoop rfl rfl hn hstep
    · obtain ⟨rfl, rfl⟩ := Prod.mk.inj hstep
      exact h.next rfl (Nat.le_refl 1) (by simp) rfl
  | shrinkFree n e =>
    have hnext := h.orCrash (.shrinkLock n) rfl rfl (Nat.le_refl 1) (by simp)
      (fun m hm => h.target m hm) (Option.some.inj hstep)
    exact ⟨hnext.1, .inr rfl⟩
  | shrinkLock n =>
    exact ⟨h.shrinkLoop rfl rfl (h.target n rfl) (Option.some.inj hstep), .inr rfl⟩
  | grow n =>
    refine ⟨?_, .inr rfl⟩
    obtain ⟨rfl, rfl⟩ := Prod.mk.inj (Option.some.inj hstep)
    split
    · exact h.next rfl (Nat.le_refl 1) (by simp) rfl
    · exact h.next rfl (Nat.zero_le 1) (by simp) rfl
  | growLock n => exact ⟨h.stepGrowLock hstep, .inr rfl⟩
  | fill => exact ⟨h.stepFill (.inl rfl) hstep, .inr rfl⟩
  | fillLock e => exact ⟨h.stepFill (.inr ⟨e, rfl⟩) hstep, .inr rfl⟩
  | raced e =>
    have hnext := h.orCrash (.resized 0) rfl rfl (Nat.zero_le 1) (by simp) (fun m hm => by cases hm)
      (Option.some.inj hstep)
    exact ⟨hnext.1, .inr rfl⟩
  | returned element => cases hstep
  | freed => cases hstep
  | resized ret => cases hstep
  | crashed => cases hstep

end Steps

/-! ### Setting up and taking down -/

/-- With an empty pool, and nothing on its way, nothing is left. -/
theorem Sound.live_eq_nil {s : Shared} (h : Sound (fun _ => 0) 0 s .alloc) (hheld : s.held = [])
    (hzero : s.currNr = 0) : s.live = [] := by
  apply List.eq_nil_iff_forall_not_mem.mpr
  intro e he
  have hcounts := h.counts e
  have hpos := List.count_pos_iff.mpr he
  rw [hheld, carries_none rfl] at hcounts
  unfold Shared.contents at hcounts
  rw [hzero, List.take_zero, List.count_nil] at hcounts
  omega

/-- `free_pool` gives back all that there is, when it is all in the pool. -/
theorem exists_freePool {s : Shared} (h : Sound (fun _ => 0) 0 s .alloc) (hheld : s.held = [])
    {fuel : Nat} (hfuel : s.currNr ≤ fuel) :
    ∃ s', freePool fuel s = some s' ∧ s'.live = [] := by
  induction fuel generalizing s with
  | zero =>
    have hzero : s.currNr = 0 := Nat.le_zero.mp hfuel
    exact ⟨s, if_pos hzero, h.live_eq_nil hheld hzero⟩
  | succ fuel ih =>
    unfold freePool
    by_cases hzero : s.currNr = 0
    · exact ⟨s, if_pos hzero, h.live_eq_nil hheld hzero⟩
    · obtain ⟨e, s₁, hremove, rfl, htake⟩ := h.removeElement hzero rfl
      have htaken := htake (.drop e) rfl (Nat.le_refl 0) (by simp) (fun n hn => by cases hn)
      obtain ⟨s₂, hfree, -, hsound⟩ := htaken.poolFree .alloc rfl rfl (Nat.le_refl 0)
        (by simp) (fun n hn => by cases hn)
      obtain rfl := Option.some.inj ((poolFree_of_mem (htaken.mem_live rfl)).symm.trans hfree)
      obtain ⟨s', hrest, hlive⟩ := ih hsound hheld (by dsimp only; omega)
      refine ⟨s', ?_, hlive⟩
      rw [if_neg hzero, hremove]
      show (Mempool.poolFree _ e).bind _ = _
      rw [hfree]
      exact hrest

/-- The elements that `alloc_fn` returns to `mempool_create_node` are all different. -/
def Distinct (alloc : Nat → Option Nat) : Prop :=
  ∀ j k e, alloc j = some e → alloc k = some e → j = k

/-- The loop of `mempool_create_node` comes to its end: with a full pool, or with nothing. -/
theorem exists_createLoop {alloc : Nat → Option Nat} (hdistinct : Distinct alloc) {n : Nat}
    {s : Shared} (h : Sound (fun _ => 0) 0 s .alloc) (hheld : s.held = [])
    (hn : s.currNr + n = s.minNr) (hlive : ∀ e ∈ s.live, ∃ j < s.currNr, alloc j = some e) :
    ∃ r, createLoop alloc n s = some r ∧ (∀ s', r = .error s' → s'.live = []) ∧
      ∀ s', r = .ok s' → Sound (fun _ => 0) 0 s' .alloc ∧ s'.held = [] ∧ s'.minNr = s.minNr ∧
        s'.currNr = s.minNr := by
  induction n generalizing s with
  | zero =>
    refine ⟨.ok s, rfl, fun s' hs' => (by cases hs'), fun s' hs' => ?_⟩
    cases hs'
    exact ⟨h, hheld, rfl, hn⟩
  | succ n ih =>
    cases halloc : alloc s.currNr with
    | none =>
      obtain ⟨s', hfree, hempty⟩ := exists_freePool h hheld (Nat.le_refl s.currNr)
      refine ⟨.error s', ?_, fun s'' hs'' => ?_, fun s'' hs'' => by cases hs''⟩
      · unfold createLoop
        rw [halloc, hfree]
        rfl
      · cases hs''
        exact hempty
    | some e =>
      have hfresh : e ∉ s.live := by
        intro he
        obtain ⟨j, hj, halloc'⟩ := hlive e he
        have heq := hdistinct j s.currNr e halloc' halloc
        omega
      have htaken : Sound (fun _ => 0) 0 { s with live := e :: s.live } (.free e) :=
        h.poolAlloc rfl hfresh rfl (Nat.le_refl 0) (by simp) rfl
      obtain ⟨s₁, hadd, -, hsound⟩ := htaken.addElement .alloc rfl (by dsimp only; omega)
        rfl (Nat.le_refl 0) (by simp) rfl
      obtain ⟨s₂, hadd', rfl, -⟩ := exists_addElement (s := { s with live := e :: s.live })
        (by dsimp only; omega) h.min_le e
      obtain rfl := Option.some.inj (hadd'.symm.trans hadd)
      obtain ⟨res, hrun, herror, hok⟩ := ih hsound hheld (by dsimp only; omega) (by
        intro f hf
        rcases List.mem_cons.mp hf with rfl | hf
        · exact ⟨s.currNr, Nat.lt_succ_self _, halloc⟩
        · obtain ⟨j, hj, halloc'⟩ := hlive f hf
          exact ⟨j, Nat.lt_succ_of_lt hj, halloc'⟩)
      refine ⟨res, ?_, herror, hok⟩
      unfold createLoop
      rw [halloc]
      show (Mempool.addElement _ e).bind _ = _
      rw [hadd]
      exact hrun

/-- **`mempool_create_node`** makes a full pool, or gives back what it has allocated. -/
theorem exists_mempoolCreateNode {alloc : Nat → Option Nat} (hdistinct : Distinct alloc)
    (minNr : Nat) :
    ∃ r, mempoolCreateNode minNr alloc = some r ∧ (∀ s, r = .error s → s.live = []) ∧
      ∀ s, r = .ok s → Sound (fun _ => 0) 0 s .alloc ∧ s.held = [] ∧ s.minNr = minNr ∧
        s.currNr = minNr := by
  have hsound : Sound (fun _ => 0) 0 ⟨minNr, 0, List.replicate minNr 0, [], []⟩ .alloc := by
    refine ⟨Nat.zero_le _, ?_, fun e => rfl, List.nodup_nil, Nat.zero_le 1, by simp,
      fun n hn => by cases hn⟩
    exact Nat.le_of_eq List.length_replicate.symm
  exact exists_createLoop hdistinct hsound rfl (Nat.zero_add minNr) fun e he => by cases he

/-! ### Runs -/

/-- A call of `mempool_resize` comes when no other is there, and asks for at least one
    element. -/
def resizesFollow (c : Config Shared Pc) (e : Event Call Choice) : Prop :=
  ∀ n, e = .start (.resize n) → 0 < n ∧ ∀ t ∈ c.pool, t.resizing = false

structure Inv (c : Config Shared Pc) : Prop where
  curr_le : c.shared.currNr ≤ c.shared.minNr
  min_le : c.shared.minNr ≤ c.shared.elements.length
  counts : ∀ e, c.shared.live.count e =
    c.shared.contents.count e + c.shared.held.count e + total (Pc.carries e) c.pool
  nodup : c.shared.live.Nodup
  alone : total Pc.resizes c.pool ≤ 1
  calls : Each (fun _ t => t ≠ .crashed ∧ ∀ n, t.target = some n → n ≤ c.shared.minNr) c.pool

theorem Inv.sound {c : Config Shared Pc} (h : Inv c) {i : Nat} {t : Pc}
    (hi : c.pool[i]? = some t) :
    Sound (fun e => others (Pc.carries e) c.pool i) (others Pc.resizes c.pool i) c.shared t := by
  obtain ⟨hrunning, htarget⟩ := h.calls i t hi
  refine ⟨h.curr_le, h.min_le, fun e => ?_, h.nodup, ?_, hrunning, htarget⟩
  · rw [h.counts e, total_eq_others _ hi]
    omega
  · have halone := h.alone
    rw [total_eq_others _ hi] at halone
    omega

theorem Inv.step {c : Config Shared Pc} (h : Inv c) {i : Nat} {a : Choice} {t t' : Pc}
    {s' : Shared} (hi : c.pool[i]? = some t) (hstep : step a c.shared t = some (s', t')) :
    Inv ⟨s', c.pool.set i t'⟩ := by
  obtain ⟨hsound, hmin⟩ := (h.sound hi).step hstep
  refine ⟨hsound.curr_le, hsound.min_le, fun e => ?_, hsound.nodup, ?_, ?_⟩
  · rw [total_set _ t' hi, hsound.counts e]
    dsimp only
    omega
  · have halone := hsound.alone
    rw [total_set _ t' hi]
    omega
  · refine h.calls.set (fun j u hji hj hu => ⟨hu.1, fun n hn => ?_⟩) ⟨hsound.running, hsound.target⟩
    rcases hmin with hmin | hresizes
    · exact Nat.le_trans (hu.2 n hn) (Nat.le_of_eq hmin.symm)
    · -- The call that steps is the only one of `mempool_resize`.
      have halone := (h.sound hi).alone
      have hother := le_others Pc.resizes hji hj
      rw [Pc.resizes_of_target hn] at hother
      omega

theorem Inv.start {c : Config Shared Pc} (h : Inv c) {call : Call} {t : Pc} {s' : Shared}
    (hok : resizesFollow c (.start call)) (hstart : enter c.shared call = some (s', t)) :
    Inv ⟨s', c.pool ++ [t]⟩ := by
  have hcalls : ∀ (i : Nat) (u : Pc), c.pool[i]? = some u →
      (u ≠ .crashed ∧ ∀ n, u.target = some n → n ≤ c.shared.minNr) →
      u ≠ .crashed ∧ ∀ n, u.target = some n → n ≤ c.shared.minNr := fun _ _ _ hu => hu
  cases call with
  | alloc =>
    obtain ⟨rfl, rfl⟩ := Prod.mk.inj (Option.some.inj hstart)
    refine ⟨h.curr_le, h.min_le, fun e => ?_, h.nodup, ?_,
      h.calls.append hcalls ⟨by simp, fun n hn => by cases hn⟩⟩
    · rw [total_append, carries_none rfl]
      exact h.counts e
    · rw [total_append]
      exact h.alone
  | free e =>
    unfold enter at hstart
    dsimp only at hstart
    split at hstart
    · rename_i he
      obtain ⟨rfl, rfl⟩ := Prod.mk.inj (Option.some.inj hstart)
      refine ⟨h.curr_le, h.min_le, fun f => ?_, h.nodup, ?_,
        h.calls.append hcalls ⟨by simp, fun n hn => by cases hn⟩⟩
      · have hcounts := h.counts f
        have hpos := List.count_pos_iff.mpr he
        rw [total_append, carries_self rfl, List.count_singleton]
        show c.shared.live.count f = c.shared.contents.count f + (c.shared.held.erase e).count f + _
        rw [List.count_erase]
        by_cases hf : (e == f) = true
        · obtain rfl := beq_iff_eq.mp hf
          rw [if_pos hf]
          omega
        · rw [if_neg hf]
          omega
      · rw [total_append]
        exact h.alone
    · cases hstart
  | resize n =>
    obtain ⟨hpos, hnone⟩ := hok n rfl
    obtain ⟨rfl, rfl⟩ := Prod.mk.inj (Option.some.inj hstart)
    rw [if_neg (by omega)]
    refine ⟨h.curr_le, h.min_le, fun e => ?_, h.nodup, ?_,
      h.calls.append hcalls ⟨by simp, fun m hm => by cases hm⟩⟩
    · rw [total_append, carries_none rfl]
      exact h.counts e
    · have hzero : total Pc.resizes c.pool = 0 := total_eq_zero fun t ht => by
        unfold Pc.resizes
        rw [hnone t ht]
        rfl
      rw [total_append, hzero]
      exact Nat.le_refl 1

theorem Inv.created {alloc : Nat → Option Nat} (hdistinct : Distinct alloc) {minNr : Nat}
    {s : Shared} (hcreate : mempoolCreateNode minNr alloc = some (.ok s)) : Inv ⟨s, []⟩ := by
  obtain ⟨r, hr, -, hok⟩ := exists_mempoolCreateNode hdistinct minNr
  obtain rfl := Option.some.inj (hr.symm.trans hcreate)
  obtain ⟨hsound, -, -, -⟩ := hok s rfl
  exact ⟨hsound.curr_le, hsound.min_le, hsound.counts, hsound.nodup, Nat.zero_le 1, each_nil _⟩

theorem Inv.reach {alloc : Nat → Option Nat} (hdistinct : Distinct alloc) {minNr : Nat}
    {s : Shared} (hcreate : mempoolCreateNode minNr alloc = some (.ok s)) {c : Config Shared Pc}
    (h : machine.Reach resizesFollow ⟨s, []⟩ c) : Inv c := by
  refine h.invariant Inv (Inv.created hdistinct hcreate) ?_ ?_
  · intro c call s' t _ hinv hok hstart
    exact hinv.start hok hstart
  · intro c i a t s' t' _ hinv _ hi hstep
    exact hinv.step hi hstep

/-- **No element is lost or freed twice.**  However calls of `mempool_alloc`, `mempool_free`
    and, one after the other, `mempool_resize` take turns on a pool that
    `mempool_create_node` has made: no `BUG_ON` strikes and no store misses the array of
    elements; there are never more elements in the pool than `min_nr`, and room for so many;
    and every element that `pool->alloc` returned and `pool->free` did not take back is in
    one place: in the pool, with a caller, or with a call that is on its way. -/
theorem mempool_elements {alloc : Nat → Option Nat} (hdistinct : Distinct alloc) {minNr : Nat}
    {s : Shared} (hcreate : mempoolCreateNode minNr alloc = some (.ok s)) {c : Config Shared Pc}
    (h : machine.Reach resizesFollow ⟨s, []⟩ c) :
    Pc.crashed ∉ c.pool ∧ c.shared.currNr ≤ c.shared.minNr ∧
      c.shared.minNr ≤ c.shared.elements.length ∧ c.shared.live.Nodup ∧
      ∀ e, c.shared.live.count e =
        c.shared.contents.count e + c.shared.held.count e + total (Pc.carries e) c.pool := by
  have hinv := Inv.reach hdistinct hcreate h
  refine ⟨fun hcrashed => ?_, hinv.curr_le, hinv.min_le, hinv.nodup, hinv.counts⟩
  obtain ⟨i, hi⟩ := List.mem_iff_getElem?.mp hcrashed
  exact (hinv.calls i _ hi).1 rfl

/-- Two elements, `0` and `1`, in a pool for two. -/
def pairPool : Shared := ⟨2, 2, [0, 1], [1, 0], []⟩

theorem created_pairPool : mempoolCreateNode 2 some = some (.ok pairPool) := rfl

theorem distinct_some : Distinct some := fun _ _ _ hj hk => Option.some.inj (hj.trans hk.symm)

/-- While the pool grows from two elements to four, `mempool_free` brings back the one that
    `mempool_alloc` has taken from it. -/
def grownRun : List (Event Call Choice) :=
  [.start .alloc, .act 0 ⟨none, true⟩, .act 0 ⟨none, true⟩, .start (.resize 4),
    .act 1 ⟨none, true⟩, .act 1 ⟨none, true⟩, .act 1 ⟨none, true⟩, .start (.free 1),
    .act 2 ⟨none, true⟩, .act 2 ⟨none, true⟩, .act 1 ⟨some 7, true⟩]

/-- `resizesFollow`, as a test. -/
def isAlone (c : Config Shared Pc) : Event Call Choice → Bool
  | .start (.resize n) => decide (0 < n ∧ ∀ t ∈ c.pool, t.resizing = false)
  | _ => true

theorem mempool_elements_grown : ∃ c, machine.Reach resizesFollow ⟨pairPool, []⟩ c ∧
    c.pool = [.returned (some 1), .fillLock 7, .freeLock 1] ∧ Pc.crashed ∉ c.pool ∧
    c.shared.live.count 7 =
      c.shared.contents.count 7 + c.shared.held.count 7 + total (Pc.carries 7) c.pool := by
  obtain ⟨c, hc, hpool⟩ := machine.exists_reach_of_runIf isAlone grownRun ⟨pairPool, []⟩
    Config.pool [.returned (some 1), .fillLock 7, .freeLock 1] (by decide)
  have hreach : machine.Reach resizesFollow ⟨pairPool, []⟩ c := by
    refine hc.mono fun _ _ hok n hn => ?_
    subst hn
    exact of_decide_eq_true hok
  obtain ⟨hrunning, -, -, -, hcounts⟩ := mempool_elements distinct_some created_pairPool hreach
  exact ⟨c, hreach, hpool, hrunning, hcounts 7⟩

/-- While a `mempool_resize` to 3 has let go of the lock, one to 1 and one to 2 come: the first
    sets `min_nr` to 3, with room for two elements, and filling the pool goes past its array. -/
def overlappingRun : List (Event Call Choice) :=
  [.start (.resize 3), .act 0 ⟨none, true⟩,
    .start (.resize 1), .act 1 ⟨none, true⟩, .act 1 ⟨none, true⟩, .act 1 ⟨none, true⟩,
    .act 1 ⟨none, true⟩, .act 1 ⟨none, true⟩,
    .start (.resize 2), .act 2 ⟨none, true⟩, .act 2 ⟨none, true⟩, .act 2 ⟨none, true⟩,
    .act 0 ⟨none, true⟩, .act 0 ⟨none, true⟩,
    .act 2 ⟨some 4, true⟩, .act 2 ⟨none, true⟩, .act 2 ⟨some 5, true⟩, .act 2 ⟨none, true⟩]

example :
    (machine.run overlappingRun ⟨⟨4, 4, [0, 1, 2, 3], [3, 2, 1, 0], []⟩, []⟩).map
      (fun c => c.pool) = some [.resized 0, .resized 0, .crashed] := by
  decide

/-! ### The reserve -/

/-- A call of `mempool_free` whose element is not about to be given away. -/
def Pc.brings (m : Nat) : Pc → Nat
  | .free _ | .freeLock _ => 1
  | .freeRead _ curr => if curr < m then 1 else 0
  | _ => 0

/-- The elements in the pool, with callers and on their way, where the other calls have `b` on
    their way. -/
def reserve (s : Shared) (t : Pc) (b : Nat) : Nat :=
  s.currNr + s.held.length + (t.brings s.minNr + b)

/-- **The reserve is kept**: a call gives an element away only when the pool is full. -/
theorem Sound.reserve_step {o : Nat → Nat} {r b : Nat} {s s' : Shared} {t t' : Pc} {a : Choice}
    (hsound : Sound o r s t) (hplain : t.resizing = false)
    (hstep : Mempool.step a s t = some (s', t')) (h : s.minNr ≤ reserve s t b) :
    t'.resizing = false ∧ s'.minNr = s.minNr ∧ s'.minNr ≤ reserve s' t' b := by
  unfold reserve at h ⊢
  cases t with
  | alloc =>
    simp only [Mempool.step] at hstep
    split at hstep
    · obtain ⟨rfl, rfl⟩ := Prod.mk.inj (Option.some.inj hstep)
      exact ⟨rfl, rfl, h⟩
    · split at hstep
      · cases hstep
      · obtain ⟨rfl, rfl⟩ := Prod.mk.inj (Option.some.inj hstep)
        refine ⟨rfl, rfl, Nat.le_trans h ?_⟩
        simp only [Pc.brings, List.length_cons]
        omega
  | allocLock =>
    simp only [Mempool.step] at hstep
    split at hstep
    · rename_i hpos
      obtain ⟨e, s₁, hremove, rfl, -⟩ := hsound.removeElement hpos rfl
      rw [hremove] at hstep
      obtain ⟨rfl, rfl⟩ := Prod.mk.inj (Option.some.inj hstep)
      refine ⟨rfl, rfl, Nat.le_trans h ?_⟩
      simp only [Pc.brings, List.length_cons]
      omega
    · obtain ⟨rfl, rfl⟩ := Prod.mk.inj (Option.some.inj hstep)
      exact ⟨rfl, rfl, h⟩
  | free e =>
    obtain ⟨rfl, rfl⟩ := Prod.mk.inj (Option.some.inj hstep)
    refine ⟨rfl, rfl, ?_⟩
    simp only [Pc.brings] at h ⊢
    split
    · exact h
    · omega
  | freeRead e curr =>
    obtain ⟨rfl, rfl⟩ := Prod.mk.inj (Option.some.inj hstep)
    simp only [Pc.brings] at h
    split
    · rename_i hlt
      rw [if_pos hlt] at h
      exact ⟨rfl, rfl, h⟩
    · rename_i hge
      rw [if_neg hge] at h
      exact ⟨rfl, rfl, h⟩
  | freeLock e =>
    have hstep := Option.some.inj hstep
    split at hstep
    · rename_i hlt
      obtain ⟨s₁, hadd, rfl, -⟩ := exists_addElement hlt hsound.min_le e
      rw [hadd] at hstep
      obtain ⟨rfl, rfl⟩ := Prod.mk.inj hstep
      refine ⟨rfl, rfl, Nat.le_trans h ?_⟩
      simp only [Pc.brings]
      omega
    · obtain ⟨rfl, rfl⟩ := Prod.mk.inj hstep
      exact ⟨rfl, rfl, by omega⟩
  | drop e =>
    have hstep := Option.some.inj hstep
    rw [poolFree_of_mem (hsound.mem_live rfl)] at hstep
    obtain ⟨rfl, rfl⟩ := Prod.mk.inj hstep
    exact ⟨rfl, rfl, h⟩
  | returned element => cases hstep
  | freed => cases hstep
  | resized ret => cases hstep
  | crashed => cases hstep
  | _ => cases hplain

/-- No call of `mempool_resize`. -/
def neverResized (_ : Config Shared Pc) (e : Event Call Choice) : Prop :=
  ∀ n, e ≠ .start (.resize n)

structure Kept (m : Nat) (c : Config Shared Pc) : Prop where
  inv : Inv c
  minNr : c.shared.minNr = m
  reserve : m ≤ c.shared.currNr + c.shared.held.length + total (Pc.brings m) c.pool
  plain : Each (fun _ t => t.resizing = false) c.pool

theorem Kept.step {m : Nat} {c : Config Shared Pc} (h : Kept m c) {i : Nat} {a : Choice}
    {t t' : Pc} {s' : Shared} (hi : c.pool[i]? = some t)
    (hstep : step a c.shared t = some (s', t')) : Kept m ⟨s', c.pool.set i t'⟩ := by
  obtain ⟨hinv, hmin, hreserve, hplain⟩ := h
  subst hmin
  rw [total_eq_others _ hi] at hreserve
  obtain ⟨hplain', hmin', hreserve'⟩ := (hinv.sound hi).reserve_step (hplain i t hi) hstep
    (b := others (Pc.brings c.shared.minNr) c.pool i) (by unfold Mempool.reserve; omega)
  refine ⟨hinv.step hi hstep, hmin', ?_, hplain.set (fun _ _ _ _ hu => hu) hplain'⟩
  unfold Mempool.reserve at hreserve'
  rw [total_set _ t' hi]
  rw [hmin'] at hreserve'
  dsimp only
  omega

theorem Kept.start {m : Nat} {c : Config Shared Pc} (h : Kept m c) {call : Call} {t : Pc}
    {s' : Shared} (hok : neverResized c (.start call))
    (hstart : enter c.shared call = some (s', t)) : Kept m ⟨s', c.pool ++ [t]⟩ := by
  have hinv := h.inv.start (fun n hn => absurd hn (hok n)) hstart
  cases call with
  | alloc =>
    obtain ⟨rfl, rfl⟩ := Prod.mk.inj (Option.some.inj hstart)
    refine ⟨hinv, h.minNr, ?_, h.plain.append (fun _ _ _ hu => hu) rfl⟩
    rw [total_append]
    exact h.reserve
  | free e =>
    unfold enter at hstart
    dsimp only at hstart
    split at hstart
    · rename_i he
      obtain ⟨rfl, rfl⟩ := Prod.mk.inj (Option.some.inj hstart)
      refine ⟨hinv, h.minNr, ?_, h.plain.append (fun _ _ _ hu => hu) rfl⟩
      have hreserve := h.reserve
      have hpos := List.length_pos_of_mem he
      rw [total_append]
      show m ≤ c.shared.currNr + (c.shared.held.erase e).length + (_ + 1)
      rw [List.length_erase_of_mem he]
      omega
    · cases hstart
  | resize n => exact absurd rfl (hok n)

theorem Kept.reach {alloc : Nat → Option Nat} (hdistinct : Distinct alloc) {minNr : Nat}
    {s : Shared} (hcreate : mempoolCreateNode minNr alloc = some (.ok s)) {c : Config Shared Pc}
    (h : machine.Reach neverResized ⟨s, []⟩ c) : Kept minNr c := by
  have hcreated : Kept minNr ⟨s, []⟩ := by
    obtain ⟨r, hr, -, hok⟩ := exists_mempoolCreateNode hdistinct minNr
    obtain rfl := Option.some.inj (hr.symm.trans hcreate)
    obtain ⟨-, -, hmin, hcurr⟩ := hok s rfl
    refine ⟨Inv.created hdistinct hcreate, hmin, ?_, each_nil _⟩
    dsimp only
    omega
  refine h.invariant (Kept minNr) hcreated ?_ ?_
  · intro c call s' t _ hkept hok hstart
    exact hkept.start hok hstart
  · intro c i a t s' t' _ hkept _ hi hstep
    exact hkept.step hi hstep

/-- A pool to which everything has come back is full. -/
theorem Kept.currNr_eq {m : Nat} {c : Config Shared Pc} (h : Kept m c)
    (hheld : c.shared.held = []) (hend : ∀ t ∈ c.pool, t.atEnd = true) :
    c.shared.currNr = c.shared.minNr := by
  have hzero : total (Pc.brings m) c.pool = 0 := total_eq_zero fun t ht => by
    have hatEnd := hend t ht
    cases t <;> first | rfl | cases hatEnd
  have hreserve := h.reserve
  have hcurr := h.inv.curr_le
  have hmin := h.minNr
  rw [hheld, hzero] at hreserve
  simp only [List.length_nil] at hreserve
  omega

/-- **A pool keeps its reserve.**  As long as it is not resized, and whatever calls of
    `mempool_alloc` and `mempool_free` do at the same time: `mempool_alloc` returns `NULL`
    only while `min_nr` elements are with callers or on their way back from them; and when
    all elements have been returned and no call is left, `mempool_destroy` finds the pool
    full, passes its `BUG_ON` and gives every element back to `pool->free`. -/
theorem mempool_reserve {alloc : Nat → Option Nat} (hdistinct : Distinct alloc) {minNr : Nat}
    {s : Shared} (hcreate : mempoolCreateNode minNr alloc = some (.ok s)) {c : Config Shared Pc}
    (h : machine.Reach neverResized ⟨s, []⟩ c) :
    (∀ (i : Nat) (a : Choice) (c' : Config Shared Pc), c.pool[i]? = some .allocLock →
        machine.exec c (.act i a) = some c' → c'.pool[i]? = some (.returned none) →
        minNr ≤ c'.shared.held.length + total (Pc.brings minNr) c'.pool) ∧
      (c.shared.held = [] → (∀ t ∈ c.pool, t.atEnd = true) →
        ∃ s', mempoolDestroy c.shared = some s' ∧ s'.live = []) := by
  have hkept := Kept.reach hdistinct hcreate h
  refine ⟨fun i a c' hi hexec hnull => ?_, fun hheld hend => ?_⟩
  · have hkept' : Kept minNr c' := by
      obtain ⟨t, s', t', ht, hstep, rfl⟩ := Machine.exec_act_eq_some.mp hexec
      exact hkept.step ht hstep
    have hempty : c'.shared.currNr = 0 := by
      obtain ⟨t, s', t', ht, hstep, rfl⟩ := Machine.exec_act_eq_some.mp hexec
      obtain rfl := Option.some.inj (hi.symm.trans ht)
      rw [List.getElem?_set_self (List.getElem?_eq_some_iff.mp hi).1] at hnull
      obtain rfl := Option.some.inj hnull
      have hstep : step a c.shared .allocLock = some (s', .returned none) := hstep
      simp only [step] at hstep
      split at hstep
      · split at hstep
        · cases hstep
        · cases hstep
      · rename_i hzero
        obtain ⟨rfl, -⟩ := Prod.mk.inj (Option.some.inj hstep)
        exact not_not.mp hzero
    have hreserve := hkept'.reserve
    omega
  · have hcurr := hkept.currNr_eq hheld hend
    have hsound : Sound (fun _ => 0) 0 c.shared .alloc := by
      have hinv := hkept.inv
      refine ⟨hinv.curr_le, hinv.min_le, fun e => ?_, hinv.nodup, Nat.zero_le 1, by simp,
        fun n hn => by cases hn⟩
      have hzero : total (Pc.carries e) c.pool = 0 := total_eq_zero fun t ht => by
        have hatEnd := hend t ht
        cases t <;> first | rfl | cases hatEnd
      rw [hinv.counts e, hzero, carries_none rfl]
    obtain ⟨s', hfree, hlive⟩ := exists_freePool hsound hheld (Nat.le_refl _)
    refine ⟨s', ?_, hlive⟩
    unfold mempoolDestroy
    rw [if_neg (not_not.mpr hcurr)]
    exact hfree

/-- Two calls of `mempool_alloc` empty the pool. -/
def emptiedRun : List (Event Call Choice) :=
  [.start .alloc, .act 0 ⟨none, true⟩, .act 0 ⟨none, true⟩, .start .alloc, .act 1 ⟨none, true⟩,
    .act 1 ⟨none, true⟩, .start .alloc, .act 2 ⟨none, true⟩, .start (.free 0), .act 3 ⟨none, true⟩]

/-- The third call finds nothing. -/
def refilledRun : List (Event Call Choice) :=
  emptiedRun ++ [.act 2 ⟨none, true⟩, .act 3 ⟨none, true⟩, .act 3 ⟨none, true⟩, .start (.free 1),
    .act 4 ⟨none, true⟩, .act 4 ⟨none, true⟩, .act 4 ⟨none, true⟩]

def isPlain : Event Call Choice → Bool
  | .start (.resize _) => false
  | _ => true

theorem mempool_reserve_emptied :
    (∃ c c', machine.Reach neverResized ⟨pairPool, []⟩ c ∧
      machine.exec c (.act 2 ⟨none, true⟩) = some c' ∧ c'.pool[2]? = some (.returned none) ∧
      2 ≤ c'.shared.held.length + total (Pc.brings 2) c'.pool) ∧
    ∃ c, machine.Reach neverResized ⟨pairPool, []⟩ c ∧
      c.pool = [.returned (some 1), .returned (some 0), .returned none, .freed, .freed] ∧
      ∃ s', mempoolDestroy c.shared = some s' ∧ s'.live = [] := by
  have hreach : ∀ {c}, machine.Reach (fun _ e => isPlain e = true) ⟨pairPool, []⟩ c →
      machine.Reach neverResized ⟨pairPool, []⟩ c := by
    intro c hc
    refine hc.mono fun _ _ hok n hn => ?_
    subst hn
    cases hok
  constructor
  · obtain ⟨c, hc, hobserved⟩ := machine.exists_reach_of_runIf (fun _ => isPlain) emptiedRun
      ⟨pairPool, []⟩
      (fun c => (c.pool[2]?, (machine.exec c (.act 2 ⟨none, true⟩)).map fun c' => c'.pool[2]?))
      (some .allocLock, some (some (.returned none))) (by decide)
    obtain ⟨hlock, hexec⟩ := Prod.mk.inj hobserved
    obtain ⟨c', hc', hnull⟩ := Option.map_eq_some_iff.mp hexec
    exact ⟨c, c', hreach hc, hc', hnull,
      (mempool_reserve distinct_some created_pairPool (hreach hc)).1 2 _ c' hlock hc' hnull⟩
  · obtain ⟨c, hc, hobserved⟩ := machine.exists_reach_of_runIf (fun _ => isPlain) refilledRun
      ⟨pairPool, []⟩
      (fun c => (c.pool, c.shared.held))
      ([.returned (some 1), .returned (some 0), .returned none, .freed, .freed], []) (by decide)
    obtain ⟨hpool, hheld⟩ := Prod.mk.inj hobserved
    refine ⟨c, hreach hc, hpool,
      (mempool_reserve distinct_some created_pairPool (hreach hc)).2 hheld ?_⟩
    rw [hpool]
    decide

end VmkLinux.Mempool
