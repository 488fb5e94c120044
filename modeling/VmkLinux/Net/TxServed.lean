/-
  VmkLinux/Net/TxServed.lean
  ==========================
  **Packets on `outputList` are served.**  The queue unblocked and started, a packet that
  is left on `softq.outputList` should have `__QUEUE_STATE_XOFF` to wait for, or the
  queue on some CPU's `output_queue`, unless a thread is still at it.

  The comment above `process_tx_queue` gives the argument: who stops at a stopped queue
  leaves it to `netif_wake_queue`, who finds `processing_tx` set leaves it to the thread
  that set it, and everyone else reschedules.  `net_tx_action`, however, clears
  `__QUEUE_STATE_SCHED` and then only tries `queue_lock`, leaving the queue to whoever
  holds it.  That is right as long as the holder has its look at the list ahead of it
  (`Pc.answers`), and `packets_served` proves that nothing else goes wrong.  A holder that
  has made up its mind, such as one that saw the queue stopped before it was woken, and
  `start_tx_soft_queue`, which never looks, leave the packets behind
  (`packets_stranded`).
-/
import VmkLinux.Net.TxLocks

namespace VmkLinux.Net.Tx

open VmkLinux.Interleave

variable {n : Nat}

/-! ### Who answers for the list -/

/-- Points at which the thread is still going to look at `outputList`, or to schedule the
    queue, before it leaves it. -/
def Pc.answers : Pc → Nat
  | .testState | .queuePkts | .loop | .tryXmit | .xmitBusy | .setProcessing | .testStopped
  | .popHead | .unlockQueue | .mapPkt | .xmit | .clearProcessing | .unlockXmit | .relockQueue
  | .xmitStatus | .putBack | .retestStopped | .drained | .schedule | .tryQueue
  | .wakeSchedule => 1
  | _ => 0

/-- Between setting `__QUEUE_STATE_SCHED` and the list operation of `__netif_schedule`. -/
def Pc.inserts : Pc → Nat
  | .insert | .wakeInsert => 1
  | _ => 0

/-- The points of `stop_tx_soft_queue`, `block_tx_soft_queue` and `dev_close`. -/
def Pc.closes : Pc → Bool
  | .stopLock | .stopSoft | .blockQueueLock | .blockQueue | .blockNetDev | .blockLock
  | .blockSoft | .blockUnlock | .blockRelease | .blockSched | .rxWait | .xmitWait | .devStop => true
  | _ => false

/-- Queues that `net_tx_action` took off `output_queue` and has not come to yet. -/
def Thread.took (q : Nat) (t : Thread) : Nat := t.head.count q

/-- No call stops or closes the queues, and where `net_tx_action` finds `queue_lock` taken,
    nothing is to be done or the holder has its look at the list ahead of it. -/
def holderAnswers (c : Config Shared Thread) : Event Call Choice → Bool
  | .start (.stopSoft _) | .start (.blockQueue _) | .start .devClose => false
  | .start _ => true
  | .act i _ =>
      match c.pool[i]? with
      | some t =>
          decide (t.pc = .tryQueue → (c.shared.queue t.queue).queueLock = true →
            (c.shared.queue t.queue).outputList = [] ∨ (c.shared.queue t.queue).xoff = true ∨
            (c.shared.queue t.queue).sched = true ∨
            ∃ u ∈ c.pool, u.queue = t.queue ∧ u.pc.queueLocked = 1 ∧ u.pc.answers = 1)
      | none => true

structure Served (q : Nat) (c : Config Shared Thread) : Prop where
  open_ : (c.shared.queue q).unblocked = true ∧ (c.shared.queue q).started = true
  points : Each (fun _ t => t.pc.closes = false ∧ (t.pc = .takeQueues → t.head = [])) c.pool
  sched : (c.shared.queue q).sched = true → (∃ cpu, q ∈ c.shared.outputQueue cpu) ∨
    0 < total (onQueue Pc.inserts q) c.pool + total (Thread.took q) c.pool
  served : (c.shared.queue q).outputList ≠ [] → (c.shared.queue q).xoff = true ∨
    (c.shared.queue q).sched = true ∨ 0 < total (onQueue Pc.answers q) c.pool

/-- Inside `process_tx_queue`. -/
def Pc.processes : Pc → Bool
  | .loop | .tryXmit | .xmitBusy | .setProcessing | .testStopped | .stoppedClear
  | .stoppedUnlock | .popHead | .unlockQueue | .mapPkt | .xmit | .clearProcessing | .unlockXmit
  | .relockQueue | .xmitStatus | .putBack | .retestStopped | .drained | .schedule
  | .insert => true
  | _ => false

/-- The thread is inside `process_tx_queue` or `net_tx_action` for the queue, holds its
    `queue_lock`, or is a `netif_tx_wake_queue` that has cleared `__QUEUE_STATE_XOFF` and
    not yet scheduled the queue. -/
def Thread.busyWith (q : Nat) (t : Thread) : Prop :=
  (t.queue = q ∧ (t.pc.processes = true ∨ t.pc = .tryQueue ∨ t.pc.queueLocked = 1 ∨
    t.pc = .wakeSchedule ∨ t.pc = .wakeInsert)) ∨ q ∈ t.head

instance (q : Nat) (t : Thread) : Decidable (t.busyWith q) :=
  inferInstanceAs (Decidable (_ ∨ _))

/-! ### One step -/

section Step

variable {a : Choice} {s s' : Shared} {t t' : Thread} {q : Nat}

theorem step_points (h : step n a s t = some (s', t')) (hI : t.pc.closes = false) :
    t'.pc.closes = false ∧ t'.pc ≠ .takeQueues := by
  unfold step at h
  cases hpc : t.pc
  all_goals simp only [stepOn, hpc] at h
  all_goals repeat' split at h
  all_goals simp only [Option.some.injEq, Prod.mk.injEq, reduceCtorEq] at h
  all_goals obtain ⟨rfl, rfl⟩ := h
  all_goals simp [Pc.closes, hpc] at hI ⊢

theorem step_open (h : step n a s t = some (s', t')) (hI : t.pc.closes = false)
    (hopen : (s.queue q).unblocked = true ∧ (s.queue q).started = true) :
    (s'.queue q).unblocked = true ∧ (s'.queue q).started = true := by
  unfold step at h
  cases hpc : t.pc
  all_goals simp only [stepOn, hpc] at h
  all_goals repeat' split at h
  all_goals simp only [Option.some.injEq, Prod.mk.injEq, reduceCtorEq] at h
  all_goals obtain ⟨rfl, rfl⟩ := h
  all_goals simp only [Shared.setQueue, Shared.insertQueue, hpc, Pc.closes] at hI hopen ⊢
  all_goals grind -linarith

theorem exists_mem_insertQueue {cpu q' : Nat} :
    (∃ k, q ∈ (s.insertQueue cpu q').outputQueue k) ↔ q = q' ∨ ∃ k, q ∈ s.outputQueue k := by
  constructor
  · rintro ⟨k, hk⟩
    simp only [Shared.insertQueue] at hk
    split at hk
    · rcases List.mem_cons.mp hk with heq | hmem
      · exact .inl heq
      · exact .inr ⟨k, hmem⟩
    · exact .inr ⟨k, hk⟩
  · rintro (rfl | ⟨k, hk⟩)
    · exact ⟨cpu, by simp [Shared.insertQueue]⟩
    · refine ⟨k, ?_⟩
      simp only [Shared.insertQueue]
      split
      · exact List.mem_cons_of_mem _ hk
      · exact hk

/-- A scheduled queue stays where a CPU will find it, or with the thread that is putting
    it there or has taken it. -/
theorem step_sched {x y : Nat} (h : step n a s t = some (s', t')) (hI : t.pc.closes = false)
    (hhead : t.pc = .takeQueues → t.head = [])
    (hsched : (s.queue q).sched = true → (∃ cpu, q ∈ s.outputQueue cpu) ∨
      0 < x + onQueue Pc.inserts q t + (y + t.took q))
    (hon : (s'.queue q).sched = true) : (∃ cpu, q ∈ s'.outputQueue cpu) ∨
      0 < x + onQueue Pc.inserts q t' + (y + t'.took q) := by
  unfold step at h
  cases hpc : t.pc
  case takeQueues =>
    have hnil := hhead hpc
    simp only [stepOn, hpc, Option.some.injEq, Prod.mk.injEq] at h
    obtain ⟨rfl, rfl⟩ := h
    rcases hsched hon with ⟨cpu, hmem⟩ | hpos
    · by_cases hcpu : cpu = a.cpu
      · subst hcpu
        have hcount := List.count_pos_iff.mpr hmem
        right
        simp only [Thread.took]
        omega
      · exact .inl ⟨cpu, by simpa [hcpu] using hmem⟩
    · right
      simp only [onQueue, hpc, Pc.inserts, Thread.took, hnil, List.count_nil] at hpos ⊢
      omega
  case nextQueue =>
    simp only [stepOn, hpc] at h
    split at h
    all_goals simp only [Option.some.injEq, Prod.mk.injEq] at h
    all_goals obtain ⟨rfl, rfl⟩ := h
    · rename_i hnil
      simpa [onQueue, hpc, Pc.inserts, Thread.took, hnil] using hsched hon
    · rename_i q' rest hcons
      simp only [Shared.setQueue] at hon
      split at hon
      · cases hon
      · rename_i hne
        have hrest : (q' :: rest).count q = rest.count q := List.count_cons_of_ne (Ne.symm hne)
        simpa [onQueue, hpc, Pc.inserts, Thread.took, hcons, hrest, Shared.setQueue]
          using hsched hon
  all_goals simp only [stepOn, hpc] at h
  all_goals repeat' split at h
  all_goals simp only [Option.some.injEq, Prod.mk.injEq, reduceCtorEq] at h
  all_goals obtain ⟨rfl, rfl⟩ := h
  all_goals try rw [exists_mem_insertQueue]
  all_goals simp only [Shared.setQueue, onQueue, Thread.took, hpc, Pc.closes, Pc.inserts]
    at hI hsched hon ⊢
  all_goals grind -linarith [Shared.insertQueue]

theorem step_served {x : Nat} (h : step n a s t = some (s', t')) (hI : t.pc.closes = false)
    (hopen : (s.queue q).unblocked = true ∧ (s.queue q).started = true)
    (hbusy : t.pc = .xmitBusy → t.queue = q → (s.queue q).processingTx = true → 0 < x)
    (htry : t.pc = .tryQueue → t.queue = q → (s.queue q).queueLock = true →
      (s.queue q).outputList = [] ∨ (s.queue q).xoff = true ∨ (s.queue q).sched = true ∨ 0 < x)
    (hserved : (s.queue q).outputList ≠ [] → (s.queue q).xoff = true ∨
      (s.queue q).sched = true ∨ 0 < x + onQueue Pc.answers q t)
    (hne : (s'.queue q).outputList ≠ []) : (s'.queue q).xoff = true ∨
      (s'.queue q).sched = true ∨ 0 < x + onQueue Pc.answers q t' := by
  unfold step at h
  cases hpc : t.pc
  all_goals simp only [stepOn, hpc] at h
  all_goals repeat' split at h
  all_goals simp only [Option.some.injEq, Prod.mk.injEq, reduceCtorEq] at h
  all_goals obtain ⟨rfl, rfl⟩ := h
  all_goals simp only [Shared.setQueue, Shared.insertQueue, onQueue, hpc, Pc.closes,
    Pc.answers] at hI hopen hbusy htry hserved hne ⊢
  all_goals grind -linarith

end Step

/-! ### Runs -/

theorem served_initial (size : Nat → Nat) (q : Nat) : Served q (initial size) where
  open_ := ⟨rfl, rfl⟩
  points := each_nil _
  sched := by simp [initial]
  served := by simp [initial]

theorem served_enter {q : Nat} {c : Config Shared Thread} {call : Call} {s : Shared} {t : Thread}
    (h : enter n c.pool.length call c.shared = some (s, t))
    (hok : holderAnswers c (.start call) = true) (hI : Served q c) :
    Served q ⟨s, c.pool ++ [t]⟩ := by
  obtain ⟨hopen, hpoints, hsched, hserved⟩ := hI
  obtain ⟨hqueue, houtput, -⟩ := enter_queue h
  have hnew : t.pc.closes = false ∧ t.head = [] ∧ t.pc.inserts = 0 ∧ t.pc.answers = 0 := by
    cases call <;> simp only [enter] at h
    case stopSoft => cases hok
    case blockQueue => cases hok
    case devClose => cases hok
    all_goals try split at h
    all_goals simp only [Option.some.injEq, Prod.mk.injEq, reduceCtorEq] at h
    all_goals obtain ⟨rfl, rfl⟩ := h
    all_goals exact ⟨rfl, rfl, rfl, rfl⟩
  obtain ⟨hcloses, hhead, hinserts, hanswers⟩ := hnew
  refine ⟨?_, hpoints.append (fun _ _ _ hu => hu) ⟨hcloses, fun _ => hhead⟩, ?_, ?_⟩
  · rw [hqueue]
    exact hopen
  · simpa [hqueue, houtput, onQueue_of_zero q hinserts, Thread.took, hhead] using hsched
  · simpa [hqueue, onQueue_of_zero q hanswers] using hserved

/-- `processing_tx` belongs to a thread that answers, or that holds `queue_lock`. -/
theorem processing_le (q : Nat) (t : Thread) :
    onQueue Pc.processing q t ≤ onQueue Pc.answers q t + onQueue Pc.queueLocked q t := by
  unfold onQueue
  split
  · cases t.pc <;> simp [Pc.processing, Pc.answers, Pc.queueLocked]
  · exact Nat.zero_le _

theorem served_step {q i : Nat} {a : Choice} {c : Config Shared Thread} {s : Shared}
    {t t' : Thread} (hi : c.pool[i]? = some t) (h : step n a c.shared t = some (s, t'))
    (hok : holderAnswers c (.act i a) = true) (hlocks : Locks q c) (hI : Served q c) :
    Served q ⟨s, c.pool.set i t'⟩ := by
  obtain ⟨hopen, hpoints, hsched, hserved⟩ := hI
  obtain ⟨hcloses, hhead⟩ := hpoints i t hi
  have hbusy : t.pc = .xmitBusy → t.queue = q → (c.shared.queue q).processingTx = true →
      0 < others (onQueue Pc.answers q) c.pool i := by
    intro hpc hq hon
    obtain ⟨hlock, -, hproc⟩ := hlocks
    have hle := Bool.toNat_le (c.shared.queue q).queueLock
    have hthem : others (onQueue Pc.processing q) c.pool i ≤
        others (fun u => onQueue Pc.answers q u + onQueue Pc.queueLocked q u) c.pool i :=
      others_le_others fun _ u _ _ => processing_le q u
    have hmine : onQueue Pc.queueLocked q t = 1 ∧ onQueue Pc.processing q t = 0 := by
      simp [onQueue, hpc, hq, Pc.queueLocked, Pc.processing]
    rw [total_eq_others _ hi] at hlock hproc
    rw [others_add] at hthem
    rw [hon, Bool.toNat_true] at hproc
    omega
  have htry : t.pc = .tryQueue → t.queue = q → (c.shared.queue q).queueLock = true →
      (c.shared.queue q).outputList = [] ∨ (c.shared.queue q).xoff = true ∨
        (c.shared.queue q).sched = true ∨ 0 < others (onQueue Pc.answers q) c.pool i := by
    intro hpc hq hlock
    subst hq
    simp only [holderAnswers, hi, decide_eq_true_eq] at hok
    rcases hok hpc hlock with hnil | hxoff | hsched | ⟨u, hu, hqueue, hheld, hanswers⟩
    · exact .inl hnil
    · exact .inr (.inl hxoff)
    · exact .inr (.inr (.inl hsched))
    · obtain ⟨j, hj⟩ := List.mem_iff_getElem?.mp hu
      have hji : j ≠ i := by
        rintro rfl
        rw [hi, Option.some.injEq] at hj
        rw [← hj, hpc] at hheld
        cases hheld
      have hle := le_others (onQueue Pc.answers t.queue) hji hj
      simp only [onQueue, hqueue, if_true, hanswers] at hle
      exact .inr (.inr (.inr hle))
  refine ⟨step_open h hcloses hopen, ?_, ?_, ?_⟩
  · refine hpoints.set (fun _ _ _ _ hu => hu) ?_
    obtain ⟨hcloses', hpc'⟩ := step_points h hcloses
    exact ⟨hcloses', fun hpc => absurd hpc hpc'⟩
  · rw [total_eq_others _ hi, total_eq_others _ hi] at hsched
    rw [total_set _ _ hi, total_set _ _ hi]
    exact step_sched h hcloses hhead hsched
  · rw [total_eq_others _ hi] at hserved
    rw [total_set _ _ hi]
    exact step_served h hcloses hopen hbusy htry hserved

theorem served_of_reach {size : Nat → Nat} {c : Config Shared Thread} (q : Nat)
    (h : (machine n).Reach (fun c e => holderAnswers c e = true) (initial size) c) :
    Served q c := by
  refine Machine.Reach.invariant (Served q) (served_initial size q) ?_ ?_ h
  · intro c call s t _ hI hok hs
    exact served_enter hs hok hI
  · intro c i a t s t' hc hI hok hi hs
    exact served_step hi hs hok (locks_of_reach q hc) hI

theorem idle_of_not_busyWith {q : Nat} {t : Thread} (h : ¬ t.busyWith q) :
    onQueue Pc.answers q t = 0 ∧ onQueue Pc.inserts q t = 0 ∧ t.took q = 0 := by
  unfold Thread.busyWith at h
  rw [not_or] at h
  refine ⟨?_, ?_, List.count_eq_zero.mpr h.2⟩
  · unfold onQueue
    split
    · rename_i hq
      cases hpc : t.pc <;> simp [Pc.answers, Pc.processes, Pc.queueLocked, hpc, hq] at h ⊢
    · rfl
  · unfold onQueue
    split
    · rename_i hq
      cases hpc : t.pc <;> simp [Pc.inserts, Pc.processes, Pc.queueLocked, hpc, hq] at h ⊢
    · rfl

/-- **No packet is stranded.**  In every run in which a failed try for `queue_lock` leaves
    the queue to a holder that still looks at it: where no thread is busy with the queue
    and packets are on its `outputList`, it is stopped, or it is scheduled and on some
    CPU's `output_queue`. -/
theorem packets_served {size : Nat → Nat} {c : Config Shared Thread} {q : Nat}
    (h : (machine n).Reach (fun c e => holderAnswers c e = true) (initial size) c)
    (hquiet : ∀ t ∈ c.pool, ¬ t.busyWith q) (hlist : (c.shared.queue q).outputList ≠ []) :
    (c.shared.queue q).xoff = true ∨
      ((c.shared.queue q).sched = true ∧ ∃ cpu, q ∈ c.shared.outputQueue cpu) := by
  obtain ⟨-, -, hsched, hserved⟩ := served_of_reach q h
  have hanswers : total (onQueue Pc.answers q) c.pool = 0 :=
    total_eq_zero fun t ht => (idle_of_not_busyWith (hquiet t ht)).1
  have hinserts : total (onQueue Pc.inserts q) c.pool = 0 :=
    total_eq_zero fun t ht => (idle_of_not_busyWith (hquiet t ht)).2.1
  have htook : total (Thread.took q) c.pool = 0 :=
    total_eq_zero fun t ht => (idle_of_not_busyWith (hquiet t ht)).2.2
  rcases hserved hlist with hxoff | hon | hpos
  · exact .inl hxoff
  · rcases hsched hon with hcpu | hpos
    · exact .inr ⟨hon, hcpu⟩
    · omega
  · omega

/-- A packet that met a stopped queue, and the wake-up after it. -/
theorem packets_served_after_wake :
    ∃ c, (machine 1).Reach (fun c e => holderAnswers c e = true) (initial fun _ => 10) c ∧
      (∀ t ∈ c.pool, ¬ t.busyWith 0) ∧ (c.shared.queue 0).outputList = [7] ∧
      ((c.shared.queue 0).xoff = true ∨
        ((c.shared.queue 0).sched = true ∧ ∃ cpu, 0 ∈ c.shared.outputQueue cpu)) := by
  obtain ⟨c, hc, ho⟩ := (machine 1).exists_reach_of_runIf holderAnswers
    (List.flatten [[.start (.stopQueue 0)], acts 0 1, [.start (.netdevTx 0 [7])], acts 1 13,
      [.start (.wakeQueue 0)], acts 2 3])
    (initial fun _ => 10)
    (fun c => (c.pool.all fun t => decide (¬ t.busyWith 0), (c.shared.queue 0).outputList))
    (true, [7]) (by decide)
  simp only [Prod.mk.injEq, List.all_eq_true, decide_eq_true_eq] at ho
  obtain ⟨hquiet, hlist⟩ := ho
  exact ⟨c, hc, hquiet, hlist, packets_served hc hquiet (by simp [hlist])⟩

/-- Two runs after which all calls have returned and the packet is on its own.  In the
    first, `netdev_tx` has seen the queue stopped when it is woken, and `net_tx_action`
    comes before the unlock; in the second it comes while `start_tx_soft_queue` has the
    lock. -/
theorem packets_stranded :
    (∃ c, (machine 1).Reachable (initial fun _ => 10) c ∧ (∀ t ∈ c.pool, t.pc = .done) ∧
      (c.shared.queue 0).outputList = [7] ∧ (c.shared.queue 0).xoff = false ∧
      (c.shared.queue 0).sched = false) ∧
    ∃ c, (machine 1).Reachable (initial fun _ => 10) c ∧ (∀ t ∈ c.pool, t.pc = .done) ∧
      (c.shared.queue 0).outputList = [7] ∧ (c.shared.queue 0).xoff = false ∧
      (c.shared.queue 0).sched = false := by
  constructor
  · obtain ⟨c, hc, ho⟩ := (machine 1).exists_reachable_of_run
      (List.flatten [[.start (.stopQueue 0)], acts 0 1, [.start (.netdevTx 0 [7])], acts 1 10,
        [.start (.wakeQueue 0)], acts 2 3, [.start .netTxAction], acts 3 4, acts 1 3])
      (initial fun _ => 10)
      (fun c => (c.pool.all fun t => decide (t.pc = .done), (c.shared.queue 0).outputList,
        (c.shared.queue 0).xoff, (c.shared.queue 0).sched))
      (true, [7], false, false) (by decide)
    simp only [Prod.mk.injEq, List.all_eq_true, decide_eq_true_eq] at ho
    exact ⟨c, hc, ho⟩
  · obtain ⟨c, hc, ho⟩ := (machine 1).exists_reachable_of_run
      (List.flatten [[.start (.stopQueue 0)], acts 0 1, [.start (.netdevTx 0 [7])], acts 1 13,
        [.start (.startSoft 0)], acts 2 1, [.start (.wakeQueue 0)], acts 3 3,
        [.start .netTxAction], acts 4 4, acts 2 3])
      (initial fun _ => 10)
      (fun c => (c.pool.all fun t => decide (t.pc = .done), (c.shared.queue 0).outputList,
        (c.shared.queue 0).xoff, (c.shared.queue 0).sched))
      (true, [7], false, false) (by decide)
    simp only [Prod.mk.injEq, List.all_eq_true, decide_eq_true_eq] at ho
    exact ⟨c, hc, ho⟩

end VmkLinux.Net.Tx
