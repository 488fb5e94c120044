/-
  VmkLinux/Net/TxLocks.lean
  =========================
  **The two locks of a transmit queue.**  In every run at most one thread is between a
  lock and its unlock, and `processing_tx` is set exactly while a thread of
  `process_tx_queue` is between its two stores of it.  The queues that threads have in
  hand and that wait on an `output_queue` are queues of the device.
-/
import VmkLinux.Net.TxModel

namespace VmkLinux.Net.Tx

open VmkLinux.Interleave

variable {n : Nat}

/-! ### Where the locks are held -/

/-- `softq.queue_lock`. -/
def Pc.queueLocked : Pc → Nat
  | .testState | .queuePkts | .loop | .tryXmit | .xmitBusy | .setProcessing | .testStopped
  | .stoppedClear | .stoppedUnlock | .popHead | .unlockQueue | .xmitStatus | .putBack
  | .retestStopped | .drained | .schedule | .insert | .unlock | .startSoft | .stopSoft
  | .softUnlock | .blockQueue | .unblockQueue | .blockSoft | .blockUnlock => 1
  | _ => 0

/-- `_xmit_lock`, in `process_tx_queue` and in the watchdog. -/
def Pc.driving : Pc → Nat
  | .setProcessing | .testStopped | .stoppedClear | .stoppedUnlock | .popHead | .unlockQueue
  | .mapPkt | .xmit | .clearProcessing | .unlockXmit => 1
  | _ => 0

def Pc.xmitLocked : Pc → Nat
  | .watchdogUnlock => 1
  | pc => pc.driving

/-- `processing_tx` is set. -/
def Pc.processing : Pc → Nat
  | .testStopped | .stoppedClear | .popHead | .unlockQueue | .mapPkt | .xmit
  | .clearProcessing => 1
  | _ => 0

/-- A weight of program points as a weight of the threads at queue `q`. -/
def onQueue (w : Pc → Nat) (q : Nat) (t : Thread) : Nat := if t.queue = q then w t.pc else 0

structure Locks (q : Nat) (c : Config Shared Thread) : Prop where
  queueLock : total (onQueue Pc.queueLocked q) c.pool = (c.shared.queue q).queueLock.toNat
  xmitLock : total (onQueue Pc.xmitLocked q) c.pool = (c.shared.queue q).xmitLock.toNat
  processing : total (onQueue Pc.processing q) c.pool = (c.shared.queue q).processingTx.toNat

theorem processing_le_xmitLocked (q : Nat) (t : Thread) :
    onQueue Pc.processing q t ≤ onQueue Pc.xmitLocked q t := by
  unfold onQueue
  split
  · cases t.pc <;> simp [Pc.processing, Pc.xmitLocked, Pc.driving]
  · exact Nat.le_refl _

/-- A step takes and gives back the locks with the program point. -/
theorem step_locks {a : Choice} {s s' : Shared} {t t' : Thread} {q : Nat}
    (h : step n a s t = some (s', t'))
    (hq : onQueue Pc.queueLocked q t ≤ (s.queue q).queueLock.toNat)
    (hx : onQueue Pc.xmitLocked q t ≤ (s.queue q).xmitLock.toNat)
    (hp : onQueue Pc.processing q t ≤ (s.queue q).processingTx.toNat)
    (hset : t.pc = .setProcessing → t.queue = q → (s.queue q).processingTx = false) :
    onQueue Pc.queueLocked q t' + (s.queue q).queueLock.toNat =
        onQueue Pc.queueLocked q t + (s'.queue q).queueLock.toNat ∧
      onQueue Pc.xmitLocked q t' + (s.queue q).xmitLock.toNat =
        onQueue Pc.xmitLocked q t + (s'.queue q).xmitLock.toNat ∧
      onQueue Pc.processing q t' + (s.queue q).processingTx.toNat =
        onQueue Pc.processing q t + (s'.queue q).processingTx.toNat := by
  unfold step at h
  cases hpc : t.pc
  all_goals simp only [stepOn, hpc] at h
  all_goals repeat' split at h
  all_goals simp only [Option.some.injEq, Prod.mk.injEq, reduceCtorEq] at h
  all_goals obtain ⟨rfl, rfl⟩ := h
  all_goals simp only [onQueue, Shared.setQueue, Shared.insertQueue, hpc, Pc.queueLocked,
    Pc.xmitLocked, Pc.driving, Pc.processing] at hq hx hp ⊢
  all_goals grind -linarith [Bool.toNat_le]

/-- A call starts outside the locks, and leaves the queues alone. -/
theorem enter_queue {me : Nat} {call : Call} {s s' : Shared} {t : Thread}
    (h : enter n me call s = some (s', t)) :
    s'.queue = s.queue ∧ s'.outputQueue = s.outputQueue ∧ t.pc.queueLocked = 0 ∧
      t.pc.xmitLocked = 0 ∧ t.pc.processing = 0 := by
  cases call <;> simp only [enter] at h
  all_goals try split at h
  all_goals simp only [Option.some.injEq, Prod.mk.injEq, reduceCtorEq] at h
  all_goals obtain ⟨rfl, rfl⟩ := h
  all_goals exact ⟨rfl, rfl, rfl, rfl, rfl⟩

theorem onQueue_of_zero {w : Pc → Nat} {t : Thread} (q : Nat) (h : w t.pc = 0) :
    onQueue w q t = 0 := by
  unfold onQueue
  split
  · exact h
  · rfl

/-- **Mutual exclusion.**  The locks of every queue, in every run. -/
theorem locks_of_reach {ok : Config Shared Thread → Event Call Choice → Prop}
    {size : Nat → Nat} {c : Config Shared Thread} (q : Nat)
    (h : (machine n).Reach ok (initial size) c) : Locks q c := by
  refine Machine.Reach.invariant (Locks q) ⟨rfl, rfl, rfl⟩ ?_ ?_ h
  · intro c call s t _ hI _ hs
    change enter n c.pool.length call c.shared = some (s, t) at hs
    obtain ⟨hqueue, -, hq, hx, hp⟩ := enter_queue hs
    obtain ⟨hIq, hIx, hIp⟩ := hI
    constructor
    · simpa [onQueue_of_zero q hq, hqueue] using hIq
    · simpa [onQueue_of_zero q hx, hqueue] using hIx
    · simpa [onQueue_of_zero q hp, hqueue] using hIp
  · intro c i a t s t' _ hI _ hi hs
    obtain ⟨hIq, hIx, hIp⟩ := hI
    rw [total_eq_others _ hi] at hIq hIx hIp
    have hthem : others (onQueue Pc.processing q) c.pool i ≤
        others (onQueue Pc.xmitLocked q) c.pool i :=
      others_le_others fun _ u _ _ => processing_le_xmitLocked q u
    have hset : t.pc = .setProcessing → t.queue = q →
        (c.shared.queue q).processingTx = false := by
      intro hpc hq
      have hmine : onQueue Pc.xmitLocked q t = 1 ∧ onQueue Pc.processing q t = 0 := by
        simp [onQueue, hpc, hq, Pc.xmitLocked, Pc.driving, Pc.processing]
      have hle := Bool.toNat_le (c.shared.queue q).xmitLock
      cases hb : (c.shared.queue q).processingTx with
      | false => rfl
      | true =>
        rw [hb, Bool.toNat_true] at hIp
        omega
    obtain ⟨hq, hx, hp⟩ := step_locks (q := q) hs (by omega) (by omega) (by omega) hset
    constructor
    · rw [total_set _ _ hi]
      show _ = (s.queue q).queueLock.toNat
      omega
    · rw [total_set _ _ hi]
      show _ = (s.queue q).xmitLock.toNat
      omega
    · rw [total_set _ _ hi]
      show _ = (s.queue q).processingTx.toNat
      omega

/-- A thread that holds `queue_lock` holds it alone. -/
theorem Locks.alone {q i j : Nat} {c : Config Shared Thread} {t u : Thread} (hI : Locks q c)
    (hi : c.pool[i]? = some t) (hj : c.pool[j]? = some u) (hji : j ≠ i)
    (ht : onQueue Pc.queueLocked q t = 1) : onQueue Pc.queueLocked q u = 0 := by
  have hsum := hI.queueLock
  rw [total_eq_others _ hi] at hsum
  have hle := Bool.toNat_le (c.shared.queue q).queueLock
  have hu := le_others (onQueue Pc.queueLocked q) hji hj
  omega

/-! ### Threads keep to the queues of the device -/

/-- Points at which the thread has no queue in hand. -/
def Pc.roams : Pc → Bool
  | .takeQueues | .nextQueue | .blockNetDev | .blockLock | .rxWait | .xmitWait | .devStop
  | .done => true
  | _ => false

def Thread.Valid (n : Nat) (t : Thread) : Prop :=
  (t.pc.roams = false → t.queue < n) ∧ ∀ q ∈ t.head, q < n

/-- Every queue that a thread has in hand or that waits for a softirq is one of the
    device. -/
structure Valid (n : Nat) (c : Config Shared Thread) : Prop where
  output : ∀ cpu, ∀ q ∈ c.shared.outputQueue cpu, q < n
  threads : Each (fun _ t => t.Valid n) c.pool

/-- Only `__netif_schedule` puts a queue on an `output_queue`, and only its own. -/
theorem step_output {a : Choice} {s s' : Shared} {t t' : Thread}
    (h : step n a s t = some (s', t')) {cpu q : Nat} (hq : q ∈ s'.outputQueue cpu) :
    q ∈ s.outputQueue cpu ∨ (q = t.queue ∧ (t.pc = .insert ∨ t.pc = .wakeInsert)) := by
  unfold step at h
  cases hpc : t.pc
  all_goals simp only [stepOn, hpc] at h
  all_goals repeat' split at h
  all_goals simp only [Option.some.injEq, Prod.mk.injEq, reduceCtorEq] at h
  all_goals obtain ⟨rfl, rfl⟩ := h
  case insert =>
    rcases mem_insertQueue _ _ hq with heq | hmem
    · exact .inr ⟨heq, .inl rfl⟩
    · exact .inl hmem
  case wakeInsert =>
    rcases mem_insertQueue _ _ hq with heq | hmem
    · exact .inr ⟨heq, .inr rfl⟩
    · exact .inl hmem
  case takeQueues =>
    simp only at hq
    split at hq
    · cases hq
    · exact .inl hq
  all_goals exact .inl hq

theorem step_valid {a : Choice} {s s' : Shared} {t t' : Thread}
    (h : step n a s t = some (s', t')) (houtput : ∀ cpu, ∀ q ∈ s.outputQueue cpu, q < n)
    (hI : t.Valid n) : t'.Valid n := by
  obtain ⟨hqueue, hhead⟩ := hI
  unfold step at h
  cases hpc : t.pc
  case takeQueues =>
    simp only [stepOn, hpc, Option.some.injEq, Prod.mk.injEq] at h
    obtain ⟨rfl, rfl⟩ := h
    exact ⟨by simp [Pc.roams], houtput a.cpu⟩
  case nextQueue =>
    simp only [stepOn, hpc] at h
    split at h
    all_goals simp only [Option.some.injEq, Prod.mk.injEq] at h
    all_goals obtain ⟨rfl, rfl⟩ := h
    · exact ⟨by simp [Pc.roams], hhead⟩
    · rename_i q rest hcons
      rw [hcons] at hhead
      refine ⟨fun _ => hhead q List.mem_cons_self, fun k hk => ?_⟩
      exact hhead k (List.mem_cons_of_mem q hk)
  all_goals simp only [stepOn, hpc] at h
  all_goals repeat' split at h
  all_goals simp only [Option.some.injEq, Prod.mk.injEq, reduceCtorEq] at h
  all_goals obtain ⟨rfl, rfl⟩ := h
  all_goals refine ⟨?_, hhead⟩
  all_goals simp_all [Pc.roams]

theorem valid_of_reach {ok : Config Shared Thread → Event Call Choice → Prop}
    {size : Nat → Nat} {c : Config Shared Thread}
    (h : (machine n).Reach ok (initial size) c) : Valid n c := by
  refine Machine.Reach.invariant (Valid n) ⟨by simp [initial], each_nil _⟩ ?_ ?_ h
  · intro c call s t _ hI _ hs
    change enter n c.pool.length call c.shared = some (s, t) at hs
    obtain ⟨-, houtput, -⟩ := enter_queue hs
    refine ⟨fun cpu => ?_, hI.threads.append (fun _ _ _ hu => hu) ?_⟩
    · show ∀ q ∈ s.outputQueue cpu, q < n
      rw [houtput]
      exact hI.output cpu
    · cases call <;> simp only [enter] at hs
      all_goals try split at hs
      all_goals simp only [Option.some.injEq, Prod.mk.injEq, reduceCtorEq] at hs
      all_goals obtain ⟨rfl, rfl⟩ := hs
      all_goals simp_all [Thread.Valid, Pc.roams]
  · intro c i a t s t' _ hI _ hi hs
    change step n a c.shared t = some (s, t') at hs
    have hmine := hI.threads i t hi
    refine ⟨fun cpu q hq => ?_, hI.threads.set (fun _ _ _ _ hu => hu) ?_⟩
    · rcases step_output hs hq with hold | ⟨rfl, hpc | hpc⟩
      · exact hI.output cpu q hold
      · exact hmine.1 (by rw [hpc]; rfl)
      · exact hmine.1 (by rw [hpc]; rfl)
    · exact step_valid hs hI.output hmine

end VmkLinux.Net.Tx
