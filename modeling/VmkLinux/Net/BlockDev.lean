/-
  VmkLinux/Net/BlockDev.lean
  ==========================
  **The waits of `BlockNetDev`** (`vmklinux26/vmware/linux_net.c`): for the transmit softirq of
  every queue, and for the packets that are being received.

  What `test_and_set_bit` finds in the state of queue `i` for the `k`-th time is `sched i k`,
  and whether the `k`-th `atomic_read` of `rxInFlight` is not zero is `rxInFlight k`; both may
  show anything.  The loops run on fuel, and the function returns when some fuel is enough.
  What `block_tx_soft_queue` does to a queue is in `VmkLinux.Net.TxModel`.
-/
import Mathlib.Algebra.Group.Int.Defs
import Mathlib.Algebra.Group.Nat.Defs
import Mathlib.Algebra.GroupWithZero.Nat
import Mathlib.Data.List.Basic

namespace VmkLinux.Net.BlockDev

/-! ### The loops -/

/-- `totalSleepMsec`, and what happened since the wait began: calls of `msleep`, and
    warnings of a timeout. -/
structure Wait where
  totalSleepMsec : BitVec 32
  sleeps : Nat := 0
  timeouts : Nat := 0
deriving DecidableEq, Repr

def singleSleepMsec : BitVec 32 := 50

def Wait.sleep (w : Wait) : Wait :=
  { w with totalSleepMsec := w.totalSleepMsec - singleSleepMsec, sleeps := w.sleeps + 1 }

def Wait.timeout (w : Wait) : Wait := { w with timeouts := w.timeouts + 1 }

/-- The loop on `__QUEUE_STATE_SCHED` of one queue, from its `k`-th test on. -/
def waitSched (sched : Nat → Bool) : Nat → Nat → Wait → Option Wait
  | 0, _, _ => none
  | fuel + 1, k, w =>
      if sched k then
        if w.totalSleepMsec < 0 then some w.timeout
        else waitSched sched fuel (k + 1) w.sleep
      else some w

/-- The loop over the queues. -/
def waitQueues (fuel : Nat) (sched : Nat → Nat → Bool) : List Nat → Wait → Option Wait
  | [], w => some w
  | i :: rest, w =>
      match waitSched (sched i) fuel 0 w with
      | some w' => waitQueues fuel sched rest w'
      | none => none

/-- The loop on `rxInFlight`, from its `k`-th read on. -/
def waitRx (rxInFlight : Nat → Bool) : Nat → Nat → Wait → Option Wait
  | 0, _, _ => none
  | fuel + 1, k, w =>
      if w.totalSleepMsec < 0 then some w.timeout
      else if rxInFlight k then waitRx rxInFlight fuel (k + 1) w.sleep
      else some w.sleep

/-- What a call of `BlockNetDev` did: nothing when the device was blocked, and otherwise the
    two waits and the last sleep of a debug build. -/
structure Blocked where
  queueWait : Wait
  rxWait : Wait
  sluggish : Option (BitVec 32) := none
deriving DecidableEq, Repr

/-- The last sleep, which a debug build makes where `stressNetBlockDevIsSluggish` says so. -/
def sluggishSleep (blockTotalSleepMsec : BitVec 32) (stress : Bool) (rxWait : Wait) :
    Option (BitVec 32) :=
  if stress ∧ rxWait.totalSleepMsec < blockTotalSleepMsec then
    some (blockTotalSleepMsec - rxWait.totalSleepMsec)
  else none

/-- `BlockNetDev`; `blocked` is the bit `__LINK_STATE_BLOCKED` before, which is set after. -/
def blockNetDev (blockTotalSleepMsec : BitVec 32) (numTxQueues : Nat) (blocked stress : Bool)
    (sched : Nat → Nat → Bool) (rxInFlight : Nat → Bool) (fuel : Nat) : Option Blocked :=
  if blocked then some { queueWait := ⟨blockTotalSleepMsec, 0, 0⟩, rxWait := ⟨0, 0, 0⟩ }
  else
    match waitQueues fuel sched (List.range numTxQueues) { totalSleepMsec := blockTotalSleepMsec },
        waitRx rxInFlight fuel 0 { totalSleepMsec := blockTotalSleepMsec } with
    | some queueWait, some rxWait =>
        some
          { queueWait := queueWait
            rxWait := rxWait
            sluggish := sluggishSleep blockTotalSleepMsec stress rxWait }
    | _, _ => none

/-! ### What a call is for -/

/-- The sleeps that a wait may make. -/
def maxSleeps (blockTotalSleepMsec : BitVec 32) : Nat := blockTotalSleepMsec.toNat / 50 + 2

/-- The call returns, and neither wait made more sleeps than its time allows. -/
def InTime (blockTotalSleepMsec : BitVec 32) (numTxQueues : Nat) (blocked stress : Bool)
    (sched : Nat → Nat → Bool) (rxInFlight : Nat → Bool) : Prop :=
  ∃ fuel result,
    blockNetDev blockTotalSleepMsec numTxQueues blocked stress sched rxInFlight fuel =
      some result ∧
    result.queueWait.sleeps ≤ maxSleeps blockTotalSleepMsec ∧
    result.rxWait.sleeps ≤ maxSleeps blockTotalSleepMsec

/-- On every queue the bit is seen clear, on queue `i` after `w i` times, within the time that
    there is for all of them. -/
def SchedClears (blockTotalSleepMsec : BitVec 32) (numTxQueues : Nat)
    (sched : Nat → Nat → Bool) : Prop :=
  ∃ w : Nat → Nat, (∀ i < numTxQueues, sched i (w i) = false) ∧
    ((List.range numTxQueues).map w).sum ≤ maxSleeps blockTotalSleepMsec

/-- Nothing is being received, after a sleep at least and within the time. -/
def RxClears (blockTotalSleepMsec : BitVec 32) (rxInFlight : Nat → Bool) : Prop :=
  ∃ k, k < maxSleeps blockTotalSleepMsec ∧ rxInFlight k = false

/-! ### One loop -/

/-- An unsigned number is never below zero, so that no loop times out. -/
theorem not_lt_zero (n : BitVec 32) : ¬ n < 0 := by
  rw [BitVec.lt_def]
  exact Nat.not_lt_zero _

section Loops

variable {sched : Nat → Bool} {rxInFlight : Nat → Bool}

/-- The loop on a queue ends when the bit is clear, and in no other way. -/
theorem waitSched_eq_some (fuel : Nat) : ∀ (k : Nat) (w w' : Wait),
    waitSched sched fuel k w = some w' →
      ∃ d, sched (k + d) = false ∧ w'.sleeps = w.sleeps + d := by
  induction fuel with
  | zero =>
    intro k w w' h
    cases h
  | succ fuel ih =>
    intro k w w' h
    rw [waitSched] at h
    split at h
    · rw [if_neg (not_lt_zero _)] at h
      obtain ⟨d, hclear, hsleeps⟩ := ih (k + 1) w.sleep w' h
      refine ⟨d + 1, ?_, ?_⟩
      · rwa [Nat.add_assoc, Nat.add_comm 1 d] at hclear
      · rw [hsleeps]
        simp only [Wait.sleep]
        omega
    · rename_i hclear
      cases h
      exact ⟨0, by simpa using hclear, rfl⟩

/-- It sleeps no more often than the bit is set. -/
theorem waitSched_of_clear (d : Nat) : ∀ (fuel k : Nat) (w : Wait),
    sched (k + d) = false → d < fuel →
      ∃ w', waitSched sched fuel k w = some w' ∧ w'.sleeps ≤ w.sleeps + d := by
  induction d with
  | zero =>
    intro fuel k w hclear hfuel
    cases fuel with
    | zero => exact absurd hfuel (Nat.lt_irrefl 0)
    | succ fuel =>
      refine ⟨w, ?_, Nat.le_refl _⟩
      rw [waitSched, if_neg (by simpa using hclear)]
  | succ d ih =>
    intro fuel k w hclear hfuel
    cases fuel with
    | zero => exact absurd hfuel (Nat.not_lt_zero _)
    | succ fuel =>
      rw [waitSched]
      split
      · rw [if_neg (not_lt_zero _)]
        obtain ⟨w', hw', hsleeps⟩ := ih fuel (k + 1) w.sleep
          (by rwa [Nat.add_assoc, Nat.add_comm 1 d]) (by omega)
        refine ⟨w', hw', ?_⟩
        simp only [Wait.sleep] at hsleeps
        omega
      · exact ⟨w, rfl, Nat.le_add_right _ _⟩

/-- The loop on `rxInFlight` sleeps once before every read, and ends when it reads zero. -/
theorem waitRx_eq_some (fuel : Nat) : ∀ (k : Nat) (w w' : Wait),
    waitRx rxInFlight fuel k w = some w' →
      ∃ d, rxInFlight (k + d) = false ∧ w'.sleeps = w.sleeps + d + 1 := by
  induction fuel with
  | zero =>
    intro k w w' h
    cases h
  | succ fuel ih =>
    intro k w w' h
    rw [waitRx, if_neg (not_lt_zero _)] at h
    split at h
    · obtain ⟨d, hclear, hsleeps⟩ := ih (k + 1) w.sleep w' h
      refine ⟨d + 1, ?_, ?_⟩
      · rwa [Nat.add_assoc, Nat.add_comm 1 d] at hclear
      · rw [hsleeps]
        simp only [Wait.sleep]
        omega
    · rename_i hclear
      cases h
      exact ⟨0, by simpa using hclear, rfl⟩

theorem waitRx_of_clear (d : Nat) : ∀ (fuel k : Nat) (w : Wait),
    rxInFlight (k + d) = false → d < fuel →
      ∃ w', waitRx rxInFlight fuel k w = some w' ∧ w'.sleeps ≤ w.sleeps + d + 1 := by
  induction d with
  | zero =>
    intro fuel k w hclear hfuel
    cases fuel with
    | zero => exact absurd hfuel (Nat.lt_irrefl 0)
    | succ fuel =>
      refine ⟨w.sleep, ?_, Nat.le_refl _⟩
      rw [waitRx, if_neg (not_lt_zero _), if_neg (by simpa using hclear)]
  | succ d ih =>
    intro fuel k w hclear hfuel
    cases fuel with
    | zero => exact absurd hfuel (Nat.not_lt_zero _)
    | succ fuel =>
      rw [waitRx, if_neg (not_lt_zero _)]
      split
      · obtain ⟨w', hw', hsleeps⟩ := ih fuel (k + 1) w.sleep
          (by rwa [Nat.add_assoc, Nat.add_comm 1 d]) (by omega)
        refine ⟨w', hw', ?_⟩
        simp only [Wait.sleep] at hsleeps
        omega
      · refine ⟨w.sleep, rfl, ?_⟩
        simp only [Wait.sleep]
        omega

/-- While packets are being received the loop does not end. -/
theorem waitRx_always (h : ∀ k, rxInFlight k = true) (fuel k : Nat) (w : Wait) :
    waitRx rxInFlight fuel k w = none := by
  cases hw : waitRx rxInFlight fuel k w with
  | none => rfl
  | some w' =>
    obtain ⟨d, hclear, -⟩ := waitRx_eq_some fuel k w w' hw
    rw [h] at hclear
    cases hclear

end Loops

/-! ### All queues -/

section Queues

variable {sched : Nat → Nat → Bool}

theorem waitQueues_eq_some {fuel : Nat} : ∀ (queues : List Nat) (w w' : Wait),
    queues.Nodup → waitQueues fuel sched queues w = some w' →
      ∃ d : Nat → Nat, (∀ i ∈ queues, sched i (d i) = false) ∧
        w'.sleeps = w.sleeps + (queues.map d).sum := by
  intro queues
  induction queues with
  | nil =>
    intro w w' _ h
    cases h
    exact ⟨fun _ => 0, by simp, rfl⟩
  | cons i queues ih =>
    intro w w' hnodup h
    obtain ⟨hi, hrest⟩ := List.nodup_cons.mp hnodup
    rw [waitQueues] at h
    split at h
    · rename_i w₁ hw₁
      obtain ⟨c, hclear, hsleeps⟩ := waitSched_eq_some fuel 0 w w₁ hw₁
      obtain ⟨d, hclears, hsum⟩ := ih w₁ w' hrest h
      have hmap : queues.map (fun k => if k = i then c else d k) = queues.map d := by
        apply List.map_congr_left
        intro k hk
        apply if_neg
        intro hki
        subst hki
        exact hi hk
      refine ⟨fun k => if k = i then c else d k, ?_, ?_⟩
      · intro k hk
        dsimp only
        split
        · rename_i hki
          subst hki
          rwa [Nat.zero_add] at hclear
        · rename_i hki
          exact hclears k ((List.mem_cons.mp hk).resolve_left hki)
      · rw [hsum, hsleeps, List.map_cons, List.sum_cons, hmap, if_pos rfl, Nat.add_assoc]
    · cases h

theorem waitQueues_of_clear {fuel : Nat} {d : Nat → Nat} : ∀ (queues : List Nat) (w : Wait),
    (∀ i ∈ queues, sched i (d i) = false) → (queues.map d).sum < fuel →
      ∃ w', waitQueues fuel sched queues w = some w' ∧
        w'.sleeps ≤ w.sleeps + (queues.map d).sum := by
  intro queues
  induction queues with
  | nil => exact fun w _ _ => ⟨w, rfl, Nat.le_refl _⟩
  | cons i queues ih =>
    intro w hclear hfuel
    rw [List.map_cons, List.sum_cons] at hfuel ⊢
    obtain ⟨w₁, hw₁, hsleeps⟩ := waitSched_of_clear (d i) fuel 0 w
      (by simpa using hclear i List.mem_cons_self) (by omega)
    obtain ⟨w', hw', hrest⟩ := ih w₁ (fun k hk => hclear k (List.mem_cons_of_mem _ hk))
      (by omega)
    refine ⟨w', ?_, by omega⟩
    rw [waitQueues, hw₁]
    exact hw'

end Queues

/-! ### The call -/

/-- **The waits of `BlockNetDev`.**  A call returns in time exactly when the device was blocked
    before or what it waits for happens in time: the timeouts never come. -/
theorem block_in_time (blockTotalSleepMsec : BitVec 32) (numTxQueues : Nat)
    (blocked stress : Bool) (sched : Nat → Nat → Bool) (rxInFlight : Nat → Bool) :
    InTime blockTotalSleepMsec numTxQueues blocked stress sched rxInFlight ↔
      blocked = true ∨
        SchedClears blockTotalSleepMsec numTxQueues sched ∧
          RxClears blockTotalSleepMsec rxInFlight := by
  constructor
  · rintro ⟨fuel, result, hrun, hqueues, hrx⟩
    cases blocked with
    | true => exact .inl rfl
    | false =>
      simp only [blockNetDev, Bool.false_eq_true, if_false] at hrun
      split at hrun
      · rename_i queueWait rxWait hqueueWait hrxWait
        cases hrun
        obtain ⟨d, hclear, hsum⟩ :=
          waitQueues_eq_some _ _ _ List.nodup_range hqueueWait
        obtain ⟨k, hzero, hsleeps⟩ := waitRx_eq_some _ _ _ _ hrxWait
        dsimp only at hqueues hrx hsum hsleeps
        refine .inr ⟨⟨d, fun i hi => hclear i (List.mem_range.mpr hi), by omega⟩, k, by omega, ?_⟩
        rwa [Nat.zero_add] at hzero
      · cases hrun
  · rintro (hblocked | ⟨⟨d, hclear, hsum⟩, k, hk, hzero⟩)
    · subst hblocked
      exact ⟨0, _, rfl, Nat.zero_le _, Nat.zero_le _⟩
    · cases blocked with
      | true => exact ⟨0, _, rfl, Nat.zero_le _, Nat.zero_le _⟩
      | false =>
        obtain ⟨queueWait, hqueueWait, hqueues⟩ := waitQueues_of_clear
          (List.range numTxQueues) { totalSleepMsec := blockTotalSleepMsec }
          (fun i hi => hclear i (List.mem_range.mp hi)) (Nat.lt_succ_of_le hsum)
        rw [← Nat.zero_add k] at hzero
        obtain ⟨rxWait, hrxWait, hrx⟩ := waitRx_of_clear k (maxSleeps blockTotalSleepMsec + 1) 0
          { totalSleepMsec := blockTotalSleepMsec } hzero (by omega)
        dsimp only at hqueues hrx
        refine ⟨maxSleeps blockTotalSleepMsec + 1,
          ⟨queueWait, rxWait, sluggishSleep blockTotalSleepMsec stress rxWait⟩, ?_, ?_, ?_⟩
        · rw [blockNetDev, if_neg Bool.false_ne_true, hqueueWait, hrxWait]
        · dsimp only
          omega
        · dsimp only
          omega

/-- With five seconds to wait and a packet that stays in flight the call never returns. -/
theorem rx_never_clears :
    ¬ ∀ (blockTotalSleepMsec : BitVec 32) (numTxQueues : Nat) (blocked stress : Bool)
      (sched : Nat → Nat → Bool) (rxInFlight : Nat → Bool),
      InTime blockTotalSleepMsec numTxQueues blocked stress sched rxInFlight := by
  intro h
  obtain ⟨fuel, result, hrun, -⟩ := h 5000 0 false false (fun _ _ => false) (fun _ => true)
  simp only [blockNetDev, Bool.false_eq_true, if_false] at hrun
  rw [waitRx_always fun _ => rfl] at hrun
  cases hrun

end VmkLinux.Net.BlockDev
