/-
  VmkLinux/Net/TxClose.lean
  =========================
  **A closed device does not transmit.**  `dev_close` blocks the device: new calls of
  `netdev_tx` turn back at `__LINK_STATE_BLOCKED`, `block_tx_soft_queue` empties every
  queue under its `queue_lock`, and `spin_unlock_wait` on every `_xmit_lock` sits out the
  calls of the driver that are in progress.  From `dev->stop` on nothing should be queued
  and `hard_start_xmit` should not run.

  A thread inside `process_tx_queue` needs a packet on the list to go for `_xmit_lock`,
  so the argument stands as long as an emptied queue stays empty.  It does not when a
  thread that had its packet in hand across `block_tx_soft_queue` is refused by the driver
  and puts the packet back: neither `process_tx_queue` nor `net_tx_action` looks at
  `softq.state`.  `closed_device_silent` has that as its condition, and
  `closed_device_transmits` is the run without it.
-/
import VmkLinux.Net.TxLocks

namespace VmkLinux.Net.Tx

open VmkLinux.Interleave

variable {n : Nat}

/-- No call unblocks a queue, and a refused packet is put back on a queue that is not
    blocked. -/
def putsBackOpen (c : Config Shared Thread) : Event Call Choice → Bool
  | .act i _ =>
      match c.pool[i]? with
      | some t => decide (t.pc = .putBack → (c.shared.queue t.queue).unblocked = true)
      | none => true
  | .start (.unblockQueue _) => false
  | .start _ => true

/-! ### An emptied queue stays empty -/

/-- Points that are reached with a packet on the list, and left with it there. -/
def Pc.seesPkt : Pc → Bool
  | .tryXmit | .setProcessing | .testStopped | .popHead => true
  | _ => false

def Thread.Sees (s : Shared) (t : Thread) : Prop :=
  (t.pc.seesPkt = true → (s.queue t.queue).outputList ≠ []) ∧
    (t.pc = .queuePkts → (s.queue t.queue).unblocked = true) ∧
    t.pc ≠ .unblockLock ∧ t.pc ≠ .unblockQueue

structure Emptied (c : Config Shared Thread) : Prop where
  sees : Each (fun _ t => t.Sees c.shared) c.pool
  empty : ∀ q, (c.shared.queue q).unblocked = false → (c.shared.queue q).outputList = []

section Step

variable {a : Choice} {s s' : Shared} {t t' : Thread} {q : Nat}

/-- The list and the state of a queue change under its lock. -/
theorem step_guarded (h : step n a s t = some (s', t')) (hfree : onQueue Pc.queueLocked q t = 0) :
    (s'.queue q).outputList = (s.queue q).outputList ∧
      (s'.queue q).unblocked = (s.queue q).unblocked := by
  unfold step at h
  cases hpc : t.pc
  all_goals simp only [stepOn, hpc] at h
  all_goals repeat' split at h
  all_goals simp only [Option.some.injEq, Prod.mk.injEq, reduceCtorEq] at h
  all_goals obtain ⟨rfl, rfl⟩ := h
  all_goals simp only [onQueue, hpc, Pc.queueLocked] at hfree
  all_goals simp only [Shared.setQueue, Shared.insertQueue]
  all_goals grind -linarith

/-- Only `unblock_tx_soft_queue` unblocks a queue. -/
theorem step_blocked (h : step n a s t = some (s', t')) (hpt : t.pc ≠ .unblockQueue)
    (hon : (s'.queue q).unblocked = true) : (s.queue q).unblocked = true := by
  unfold step at h
  cases hpc : t.pc
  all_goals simp only [stepOn, hpc] at h
  all_goals repeat' split at h
  all_goals simp only [Option.some.injEq, Prod.mk.injEq, reduceCtorEq] at h
  all_goals obtain ⟨rfl, rfl⟩ := h
  all_goals try simp only [Shared.setQueue, Shared.insertQueue] at hon
  all_goals grind -linarith

theorem step_sees (h : step n a s t = some (s', t')) (hI : t.Sees s) : t'.Sees s' := by
  unfold step at h
  cases hpc : t.pc
  all_goals simp only [stepOn, hpc] at h
  all_goals repeat' split at h
  all_goals simp only [Option.some.injEq, Prod.mk.injEq, reduceCtorEq] at h
  all_goals obtain ⟨rfl, rfl⟩ := h
  all_goals simp_all [Thread.Sees, Pc.seesPkt, Shared.setQueue]

theorem step_empty (h : step n a s t = some (s', t')) (hI : t.Sees s)
    (hok : t.pc = .putBack → (s.queue t.queue).unblocked = true)
    (hempty : (s.queue q).unblocked = false → (s.queue q).outputList = [])
    (hoff : (s'.queue q).unblocked = false) : (s'.queue q).outputList = [] := by
  unfold step at h
  cases hpc : t.pc
  all_goals simp only [stepOn, hpc] at h
  all_goals repeat' split at h
  all_goals simp only [Option.some.injEq, Prod.mk.injEq, reduceCtorEq] at h
  all_goals obtain ⟨rfl, rfl⟩ := h
  all_goals simp only [Thread.Sees, Shared.setQueue, Shared.insertQueue, hpc, Pc.seesPkt]
    at hI hok hoff ⊢
  all_goals grind -linarith

/-- `_xmit_lock` is taken for a packet on the list. -/
theorem step_driving (h : step n a s t = some (s', t')) :
    onQueue Pc.driving q t' ≤ onQueue Pc.driving q t ∨ (t.pc = .tryXmit ∧ t.queue = q) := by
  unfold step at h
  cases hpc : t.pc
  all_goals simp only [stepOn, hpc] at h
  all_goals repeat' split at h
  all_goals simp only [Option.some.injEq, Prod.mk.injEq, reduceCtorEq] at h
  all_goals obtain ⟨rfl, rfl⟩ := h
  all_goals simp only [onQueue, hpc, Pc.driving]
  all_goals grind -linarith

end Step

theorem emptied_of_reach {size : Nat → Nat} {c : Config Shared Thread}
    (h : (machine n).Reach (fun c e => putsBackOpen c e = true) (initial size) c) :
    Emptied c := by
  refine Machine.Reach.invariant Emptied ⟨each_nil _, by simp [initial]⟩ ?_ ?_ h
  · intro c call s t _ hI hok hs
    change enter n c.pool.length call c.shared = some (s, t) at hs
    obtain ⟨hqueue, -⟩ := enter_queue hs
    refine ⟨hI.sees.append (fun _ u _ hu => ?_) ?_, ?_⟩
    · unfold Thread.Sees at hu ⊢
      rw [hqueue]
      exact hu
    · cases call <;> simp only [enter] at hs
      case unblockQueue => cases hok
      all_goals try split at hs
      all_goals simp only [Option.some.injEq, Prod.mk.injEq, reduceCtorEq] at hs
      all_goals obtain ⟨rfl, rfl⟩ := hs
      all_goals simp [Thread.Sees, Pc.seesPkt]
    · rw [hqueue]
      exact hI.empty
  · intro c i a t s t' hc hI hok hi hs
    change step n a c.shared t = some (s, t') at hs
    have hmine := hI.sees i t hi
    refine ⟨hI.sees.set (fun j u hji hj hu => ?_) (step_sees hs hmine), fun q => ?_⟩
    · -- the other thread sees its queue under `queue_lock`
      by_cases hheld : u.pc.queueLocked = 1
      · have hfree : onQueue Pc.queueLocked u.queue t = 0 :=
          (locks_of_reach u.queue hc).alone hj hi (Ne.symm hji) (by simp [onQueue, hheld])
        obtain ⟨hlist, hopen⟩ := step_guarded hs hfree
        unfold Thread.Sees at hu ⊢
        rw [hlist, hopen]
        exact hu
      · refine ⟨fun hsees => ?_, fun hpc => ?_, hu.2.2⟩
        · cases hpc : u.pc <;> simp [Pc.seesPkt, Pc.queueLocked, hpc] at hsees hheld
        · simp [hpc, Pc.queueLocked] at hheld
    · simp only [putsBackOpen, hi, decide_eq_true_eq] at hok
      exact step_empty hs hmine hok (hI.empty q)

/-! ### The way through `dev_close` -/

def Pc.closing : Pc → Nat
  | .blockNetDev | .blockLock | .blockSoft | .blockUnlock | .blockRelease | .blockSched
  | .rxWait | .xmitWait | .devStop => 1
  | _ => 0

def Thread.closing (t : Thread) : Nat := t.pc.closing

/-- A queue that is blocked and that no thread is driving. -/
def Quiet (c : Config Shared Thread) (q : Nat) : Prop :=
  (c.shared.queue q).unblocked = false ∧ total (onQueue Pc.driving q) c.pool = 0

/-- How far `dev_close` has come. -/
def Thread.Closed (n : Nat) (c : Config Shared Thread) (t : Thread) : Prop :=
  match t.pc with
  | .blockNetDev => c.shared.blocked = false
  | .blockLock | .blockSoft => ∀ q < t.queue, (c.shared.queue q).unblocked = false
  | .blockUnlock | .blockRelease | .blockSched =>
      ∀ q < t.queue + 1, (c.shared.queue q).unblocked = false
  | .rxWait => ∀ q < n, (c.shared.queue q).unblocked = false
  | .xmitWait =>
      (∀ q < n, (c.shared.queue q).unblocked = false) ∧ ∀ q < t.queue, q < n → Quiet c q
  | .devStop => ∀ q < n, Quiet c q
  | _ => True

structure Closing (n : Nat) (c : Config Shared Thread) : Prop where
  single : total Thread.closing c.pool ≤ c.shared.closing.toNat
  unblocked : c.shared.closing = false → c.shared.blocked = false
  closed : Each (fun _ t => t.Closed n c) c.pool
  stopped : c.shared.stopped = true → ∀ q < n, Quiet c q

theorem blocked_step {a : Choice} {s s' : Shared} {t t' : Thread} {q : Nat}
    (h : step n a s t = some (s', t')) (hI : t.Sees s) (hoff : (s.queue q).unblocked = false) :
    (s'.queue q).unblocked = false := by
  cases hon : (s'.queue q).unblocked with
  | false => rfl
  | true =>
    rw [step_blocked h hI.2.2.2 hon] at hoff
    cases hoff

/-- Quiet for good: whoever goes for `_xmit_lock` has seen a packet, and there is none. -/
theorem Quiet.step {a : Choice} {i q : Nat} {c : Config Shared Thread} {s : Shared}
    {t t' : Thread} (hI : Emptied c) (hi : c.pool[i]? = some t)
    (h : step n a c.shared t = some (s, t')) (hq : Quiet c q) :
    Quiet ⟨s, c.pool.set i t'⟩ q := by
  obtain ⟨hoff, hzero⟩ := hq
  refine ⟨blocked_step h (hI.sees i t hi) hoff, ?_⟩
  rw [total_eq_others _ hi] at hzero
  rw [total_set _ _ hi]
  rcases step_driving (q := q) h with hle | ⟨hpc, rfl⟩
  · omega
  · have hsees := (hI.sees i t hi).1 (by rw [hpc]; rfl)
    exact absurd (hI.empty _ hoff) hsees

theorem quiet_of_unlocked {q : Nat} {c : Config Shared Thread} (hlocks : Locks q c)
    (hoff : (c.shared.queue q).unblocked = false) (hfree : (c.shared.queue q).xmitLock = false) :
    Quiet c q := by
  have hsum := hlocks.xmitLock
  rw [hfree, Bool.toNat_false] at hsum
  have hle : total (onQueue Pc.driving q) c.pool ≤ total (onQueue Pc.xmitLocked q) c.pool := by
    apply total_le_total
    intro t _
    unfold onQueue
    split
    · cases t.pc <;> simp [Pc.driving, Pc.xmitLocked]
    · exact Nat.le_refl _
  exact ⟨hoff, by omega⟩

theorem step_closing {a : Choice} {s s' : Shared} {t t' : Thread}
    (h : step n a s t = some (s', t')) :
    t'.closing ≤ t.closing ∧ s'.closing = s.closing ∧
      (s'.blocked = s.blocked ∨ t.closing = 1) ∧
      (s'.stopped = s.stopped ∨ t.pc = .devStop) := by
  unfold step at h
  cases hpc : t.pc
  all_goals simp only [stepOn, hpc] at h
  all_goals repeat' split at h
  all_goals simp only [Option.some.injEq, Prod.mk.injEq, reduceCtorEq] at h
  all_goals obtain ⟨rfl, rfl⟩ := h
  all_goals simp [Thread.closing, Pc.closing, hpc, Shared.setQueue, Shared.insertQueue]

/-- The other threads keep what they have, a second `dev_close` apart. -/
theorem Thread.Closed.mono {c c' : Config Shared Thread} {t : Thread}
    (hoff : ∀ q, (c.shared.queue q).unblocked = false → (c'.shared.queue q).unblocked = false)
    (hquiet : ∀ q, Quiet c q → Quiet c' q)
    (hblocked : t.closing = 1 → c'.shared.blocked = c.shared.blocked) (h : t.Closed n c) :
    t.Closed n c' := by
  cases hpc : t.pc <;> simp only [Thread.Closed, hpc] at h ⊢
  case blockNetDev =>
    rw [hblocked (by simp [Thread.closing, hpc, Pc.closing])]
    exact h
  case xmitWait => exact ⟨fun q hq => hoff q (h.1 q hq), fun q hq hn => hquiet q (h.2 q hq hn)⟩
  case devStop => exact fun q hq => hquiet q (h q hq)
  all_goals exact fun q hq => hoff q (h q hq)

theorem closed_of_not_closing {c : Config Shared Thread} {t : Thread} (h : t.closing = 0) :
    t.Closed n c := by
  cases hpc : t.pc <;> simp [Thread.closing, hpc, Pc.closing] at h <;> simp [Thread.Closed, hpc]

/-- A step of `dev_close` gets it where it says it is. -/
theorem step_closed {a : Choice} {i : Nat} {c : Config Shared Thread} {s : Shared}
    {t t' : Thread} (hi : c.pool[i]? = some t) (h : step n a c.shared t = some (s, t'))
    (hE : Emptied c) (hlocks : ∀ q, Locks q c) (hI : t.Closed n c) :
    t'.Closed n ⟨s, c.pool.set i t'⟩ ∧
      (t.pc = .devStop → ∀ q < n, Quiet ⟨s, c.pool.set i t'⟩ q) := by
  have hoff : ∀ q, (c.shared.queue q).unblocked = false → (s.queue q).unblocked = false :=
    fun q => blocked_step h (hE.sees i t hi)
  have hquiet : ∀ q, Quiet c q → Quiet ⟨s, c.pool.set i t'⟩ q := fun q => Quiet.step hE hi h
  have hstep := h
  unfold step at h
  cases hpc : t.pc
  case blockNetDev =>
    simp only [Thread.Closed, hpc] at hI
    simp only [stepOn, hpc, hI, Bool.false_eq_true, if_false, Option.some.injEq,
      Prod.mk.injEq] at h
    obtain ⟨rfl, rfl⟩ := h
    exact ⟨by simp [Thread.Closed], by simp⟩
  case blockLock =>
    simp only [Thread.Closed, hpc] at hI
    simp only [stepOn, hpc] at h
    repeat' split at h
    all_goals simp only [Option.some.injEq, Prod.mk.injEq, reduceCtorEq] at h
    all_goals obtain ⟨rfl, rfl⟩ := h
    · exact ⟨fun q hq => hoff q (hI q hq), by simp⟩
    · exact ⟨fun q hq => hoff q (hI q (by omega)), by simp⟩
  case blockSoft =>
    simp only [Thread.Closed, hpc] at hI
    simp only [stepOn, hpc, Option.some.injEq, Prod.mk.injEq] at h
    obtain ⟨rfl, rfl⟩ := h
    refine ⟨fun q hq => ?_, by simp⟩
    rcases Nat.lt_succ_iff_lt_or_eq.mp hq with hlt | rfl
    · exact hoff q (hI q hlt)
    · simp
  case blockUnlock =>
    simp only [Thread.Closed, hpc] at hI
    simp only [stepOn, hpc, Option.some.injEq, Prod.mk.injEq] at h
    obtain ⟨rfl, rfl⟩ := h
    exact ⟨fun q hq => hoff q (hI q hq), by simp⟩
  case blockRelease =>
    simp only [Thread.Closed, hpc] at hI
    simp only [stepOn, hpc, Option.some.injEq, Prod.mk.injEq] at h
    obtain ⟨rfl, rfl⟩ := h
    exact ⟨fun q hq => hoff q (hI q hq), by simp⟩
  case blockSched =>
    simp only [stepOn, hpc] at h
    split at h
    all_goals simp only [Option.some.injEq, Prod.mk.injEq] at h
    all_goals obtain ⟨rfl, rfl⟩ := h
    · exact ⟨hI.mono hoff hquiet (fun _ => rfl), by simp⟩
    · simp only [Thread.Closed, hpc] at hI
      exact ⟨fun q hq => hoff q (hI q hq), by simp⟩
  case rxWait =>
    simp only [Thread.Closed, hpc] at hI
    simp only [stepOn, hpc, Option.some.injEq, Prod.mk.injEq] at h
    obtain ⟨rfl, rfl⟩ := h
    exact ⟨⟨fun q hq => hoff q (hI q hq), by simp⟩, by simp⟩
  case xmitWait =>
    simp only [Thread.Closed, hpc] at hI
    simp only [stepOn, hpc] at h
    repeat' split at h
    all_goals simp only [Option.some.injEq, Prod.mk.injEq, reduceCtorEq] at h
    all_goals obtain ⟨rfl, rfl⟩ := h
    · rename_i hlt hfree
      refine ⟨?_, by simp⟩
      simp only [Thread.Closed]
      refine ⟨fun q hq => hoff q (hI.1 q hq), fun q hq hn => ?_⟩
      rcases Nat.lt_succ_iff_lt_or_eq.mp hq with hlt' | rfl
      · exact hquiet q (hI.2 q hlt' hn)
      · exact hquiet _ (quiet_of_unlocked (hlocks _) (hI.1 _ hn) (by simpa using hfree))
    · rename_i hge
      exact ⟨fun q hq => hquiet q (hI.2 q (by omega) hq), by simp⟩
  case devStop =>
    simp only [Thread.Closed, hpc] at hI
    simp only [stepOn, hpc, Option.some.injEq, Prod.mk.injEq] at h
    obtain ⟨rfl, rfl⟩ := h
    exact ⟨trivial, fun _ q hq => hquiet q (hI q hq)⟩
  all_goals
    have hle := (step_closing hstep).1
    simp only [Thread.closing, hpc, Pc.closing] at hle
    exact ⟨closed_of_not_closing (Nat.le_zero.mp hle), by simp⟩

theorem closing_enter {c : Config Shared Thread} {call : Call} {s : Shared} {t : Thread}
    (h : enter n c.pool.length call c.shared = some (s, t)) (hI : Closing n c) :
    Closing n ⟨s, c.pool ++ [t]⟩ := by
  obtain ⟨hsingle, hunblocked, hclosed, hstopped⟩ := hI
  obtain ⟨hqueue, -⟩ := enter_queue h
  have hnew : t.closing + c.shared.closing.toNat ≤ s.closing.toNat ∧ t.pc.driving = 0 ∧
      s.blocked = c.shared.blocked ∧ s.stopped = c.shared.stopped ∧
      (t.closing = 0 ∨ (t.pc = .blockNetDev ∧ c.shared.closing = false)) := by
    cases call <;> simp only [enter] at h
    all_goals try split at h
    all_goals simp only [Option.some.injEq, Prod.mk.injEq, reduceCtorEq] at h
    all_goals obtain ⟨rfl, rfl⟩ := h
    all_goals simp_all [Thread.closing, Pc.closing, Pc.driving]
  obtain ⟨hcount, hdriving, hblocked, hsame, hpc⟩ := hnew
  have hquiet : ∀ q, Quiet c q → Quiet ⟨s, c.pool ++ [t]⟩ q := by
    rintro q ⟨hoff, hzero⟩
    refine ⟨?_, ?_⟩
    · rw [hqueue]
      exact hoff
    · simpa [onQueue_of_zero q hdriving] using hzero
  refine ⟨?_, fun hopen => ?_, hclosed.append (fun _ u _ hu => ?_) ?_, fun hs q hq => ?_⟩
  · simp only [total_append]
    omega
  · rw [hblocked]
    apply hunblocked
    rw [hopen, Bool.toNat_false] at hcount
    exact Bool.toNat_eq_zero.mp (by omega)
  · exact hu.mono (fun q hq => by rw [hqueue]; exact hq) hquiet (fun _ => hblocked)
  · rcases hpc with hzero | ⟨hpc, hopen⟩
    · exact closed_of_not_closing hzero
    · simp only [Thread.Closed, hpc]
      rw [hblocked]
      exact hunblocked hopen
  · exact hquiet q (hstopped (by rw [← hsame]; exact hs) q hq)

theorem closing_step {a : Choice} {i : Nat} {c : Config Shared Thread} {s : Shared}
    {t t' : Thread} (hi : c.pool[i]? = some t) (h : step n a c.shared t = some (s, t'))
    (hE : Emptied c) (hlocks : ∀ q, Locks q c) (hI : Closing n c) :
    Closing n ⟨s, c.pool.set i t'⟩ := by
  obtain ⟨hsingle, hunblocked, hclosed, hstopped⟩ := hI
  rw [total_eq_others _ hi] at hsingle
  obtain ⟨hle, hsame, hblocked, hstop⟩ := step_closing h
  obtain ⟨hmine, hall⟩ := step_closed hi h hE hlocks (hclosed i t hi)
  have hquiet : ∀ q, Quiet c q → Quiet ⟨s, c.pool.set i t'⟩ q := fun q => Quiet.step hE hi h
  have hbound := Bool.toNat_le c.shared.closing
  refine ⟨?_, fun hopen => ?_, hclosed.set (fun j u hji hj hu => ?_) hmine, fun hs q hq => ?_⟩
  · rw [total_set _ _ hi]
    show _ ≤ s.closing.toNat
    rw [hsame]
    omega
  · change s.closing = false at hopen
    rw [hsame] at hopen
    rw [hopen, Bool.toNat_false] at hsingle
    rcases hblocked with heq | hone
    · show s.blocked = false
      rw [heq]
      exact hunblocked hopen
    · omega
  · have hother : u.closing ≤ others Thread.closing c.pool i := le_others Thread.closing hji hj
    refine hu.mono (fun q => blocked_step h (hE.sees i t hi)) hquiet (fun hone => ?_)
    rcases hblocked with heq | hone'
    · exact heq
    · omega
  · rcases hstop with heq | hpc
    · exact hquiet q (hstopped (by rw [← heq]; exact hs) q hq)
    · exact hall hpc q hq

theorem closing_of_reach {size : Nat → Nat} {c : Config Shared Thread}
    (h : (machine n).Reach (fun c e => putsBackOpen c e = true) (initial size) c) :
    Closing n c := by
  refine Machine.Reach.invariant (Closing n) ?_ ?_ ?_ h
  · exact ⟨Nat.le_refl 0, fun _ => rfl, each_nil _, by simp [initial]⟩
  · intro c call s t _ hI _ hs
    exact closing_enter hs hI
  · intro c i a t s t' hc hI _ hi hs
    exact closing_step hi hs (emptied_of_reach hc) (fun q => locks_of_reach q hc) hI

/-- **A closed device is silent.**  In every run in which no refused packet is put back on
    a blocked queue: from the call of `dev->stop` on, every queue of the device is empty
    and no thread is in `hard_start_xmit`. -/
theorem closed_device_silent {size : Nat → Nat} {c : Config Shared Thread}
    (h : (machine n).Reach (fun c e => putsBackOpen c e = true) (initial size) c)
    (hstopped : c.shared.stopped = true) :
    (∀ q < n, (c.shared.queue q).outputList = []) ∧ ∀ t ∈ c.pool, t.pc ≠ .xmit := by
  have hquiet := (closing_of_reach h).stopped hstopped
  refine ⟨fun q hq => (emptied_of_reach h).empty q (hquiet q hq).1, fun t ht hpc => ?_⟩
  obtain ⟨i, hi⟩ := List.mem_iff_getElem?.mp ht
  have hqueue : t.queue < n := ((valid_of_reach h).threads i t hi).1 (by rw [hpc]; rfl)
  have hzero := (hquiet t.queue hqueue).2
  rw [total_eq_others _ hi] at hzero
  simp [onQueue, hpc, Pc.driving] at hzero

/-- A device that is closed while a packet is with the driver, which accepts it. -/
theorem closed_device_silent_accepted :
    ∃ c, (machine 1).Reach (fun c e => putsBackOpen c e = true) (initial fun _ => 10) c ∧
      c.shared.stopped = true ∧ c.shared.accepted = [7] ∧ (c.shared.queue 0).outputList = [] ∧
      ∀ t ∈ c.pool, t.pc ≠ .xmit := by
  obtain ⟨c, hc, ho⟩ := (machine 1).exists_reach_of_runIf putsBackOpen
    (List.flatten [[.start (.netdevTx 0 [7])], acts 0 11, [.start .devClose], acts 1 8,
      acts 0 3, acts 1 3])
    (initial fun _ => 10) (fun c => (c.shared.stopped, c.shared.accepted)) (true, [7])
    (by decide)
  simp only [Prod.mk.injEq] at ho
  obtain ⟨hstopped, haccepted⟩ := ho
  obtain ⟨hempty, hidle⟩ := closed_device_silent hc hstopped
  exact ⟨c, hc, hstopped, haccepted, hempty 0 (by decide), hidle⟩

/-- The driver refuses a packet that was with it when the queue was emptied: after
    `dev->stop` the packet is back on the list, and a `net_tx_action` that had cleared
    `__QUEUE_STATE_SCHED` before hands it to the driver again. -/
theorem closed_device_transmits :
    (∃ c, (machine 1).Reachable (initial fun _ => 10) c ∧ c.shared.stopped = true ∧
      (c.shared.queue 0).outputList = [7]) ∧
    ∃ c, (machine 1).Reachable (initial fun _ => 10) c ∧ c.shared.stopped = true ∧
      ∃ t ∈ c.pool, t.pc = .xmit := by
  constructor
  · obtain ⟨c, hc, ho⟩ := (machine 1).exists_reachable_of_run
      (List.flatten [[.start (.netdevTx 0 [7])], acts 0 11, [.start .devClose], acts 1 8,
        [.act 0 { refused := true }], acts 0 2, acts 1 3, acts 0 3])
      (initial fun _ => 10) (fun c => (c.shared.stopped, (c.shared.queue 0).outputList))
      (true, [7]) (by decide)
    simp only [Prod.mk.injEq] at ho
    exact ⟨c, hc, ho⟩
  · obtain ⟨c, hc, ho⟩ := (machine 1).exists_reachable_of_run
      (List.flatten [[.start (.netdevTx 0 [7])], acts 0 11, [.start (.stopQueue 0)], acts 1 1,
        [.start (.wakeQueue 0)], acts 2 3, [.start .netTxAction], acts 3 2, [.start .devClose],
        acts 4 8, [.act 0 { refused := true }], acts 0 2, acts 4 3, acts 0 6, acts 3 8])
      (initial fun _ => 10)
      (fun c => (c.shared.stopped, c.pool.any fun t => decide (t.pc = .xmit)))
      (true, true) (by decide)
    simp only [Prod.mk.injEq, List.any_eq_true, decide_eq_true_eq] at ho
    exact ⟨c, hc, ho⟩

end VmkLinux.Net.Tx
