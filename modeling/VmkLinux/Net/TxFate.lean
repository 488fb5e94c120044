/-
  VmkLinux/Net/TxFate.lean
  ========================
  **Every packet has one fate.**  A packet that was handed to `netdev_tx` is counted once
  over the callers' lists, the queues, the local free lists, the hands of
  `process_tx_queue`, the driver and the released packets.

  A step moves packets from one of these places to another (`step_fates`).  Two of the
  moves need more than the lists: `popHead` must not drop a packet that is still in hand,
  and the socket buffer that is freed for a refused packet must not take the packet with
  it, which the additional `fragsref` sees to.  Both are in `Thread.Tidy`.
-/
import Mathlib.Data.List.Nodup
import VmkLinux.Net.TxServed

namespace VmkLinux.Net.Tx

open VmkLinux.Interleave

variable {n : Nat}

/-! ### The places a packet may be in -/

/-- On the `outputList` of a queue of the device. -/
def queued (n : Nat) (queue : Nat → NetdevQueue) (p : Nat) : Nat :=
  total (fun q => (queue q).outputList.count p) (List.range n)

def Thread.listed (p : Nat) (t : Thread) : Nat := t.pktList.count p

def Thread.freed (p : Nat) (t : Thread) : Nat := t.freeList.count p

def Thread.inHand (p : Nat) (t : Thread) : Nat := t.pkt.toList.count p

/-- How often packet `p` is found, over all places. -/
def fates (n : Nat) (c : Config Shared Thread) (p : Nat) : Nat :=
  total (Thread.listed p) c.pool + queued n c.shared.queue p + total (Thread.freed p) c.pool +
    total (Thread.inHand p) c.pool + c.shared.accepted.count p + c.shared.released.count p

theorem queued_succ (queue : Nat → NetdevQueue) (p : Nat) :
    queued (n + 1) queue p = queued n queue p + (queue n).outputList.count p := by
  simp [queued, List.range_succ]

theorem queued_setQueue_of_le {s : Shared} {q p : Nat} {Q : NetdevQueue} (h : n ≤ q) :
    queued n (s.setQueue q Q).queue p = queued n s.queue p := by
  induction n with
  | zero => rfl
  | succ n ih =>
    rw [queued_succ, queued_succ, ih (by omega), setQueue_of_ne _ _ _ (by omega)]

theorem queued_setQueue {s : Shared} {q p : Nat} {Q : NetdevQueue} (h : q < n) :
    queued n (s.setQueue q Q).queue p + (s.queue q).outputList.count p =
      queued n s.queue p + Q.outputList.count p := by
  induction n with
  | zero => omega
  | succ n ih =>
    rw [queued_succ, queued_succ]
    rcases Nat.lt_succ_iff_lt_or_eq.mp h with hlt | rfl
    · have hrest := ih hlt
      rw [setQueue_of_ne _ _ _ (by omega)]
      omega
    · rw [queued_setQueue_of_le (Nat.le_refl _), setQueue_self]
      omega

theorem exists_of_queued_pos {queue : Nat → NetdevQueue} {p : Nat} (h : 0 < queued n queue p) :
    ∃ q < n, p ∈ (queue q).outputList := by
  obtain ⟨i, q, hq, hpos⟩ := exists_of_total_pos h
  exact ⟨q, List.mem_range.mp (List.mem_of_getElem? hq), List.count_pos_iff.mp hpos⟩

/-- `netdev_queue_tx_pkts_locked` keeps what does not fit. -/
theorem count_queueTxPkts (Q : NetdevQueue) (pktList : List Nat) (p : Nat) :
    (queueTxPkts Q pktList).1.count p + (queueTxPkts Q pktList).2.count p =
      Q.outputList.count p + pktList.count p := by
  unfold queueTxPkts
  split
  · simp
  · have hsplit := congrArg (List.count p)
      (List.take_append_drop (listSpaceLeft Q).toNat pktList)
    rw [List.count_append] at hsplit
    simp only [List.count_append]
    omega

@[simp] theorem queueTxPkts_nil (Q : NetdevQueue) : (queueTxPkts Q []).2 = [] := by
  unfold queueTxPkts
  split <;> simp

theorem count_head_tail (l : List Nat) (p : Nat) :
    l.tail.count p + l.head?.toList.count p = l.count p := by
  cases l with
  | nil => rfl
  | cons x l => simp [List.count_cons]

/-! ### What a thread has left -/

/-- Points of `netdev_tx` up to the release of what was not queued. -/
def Pc.lists : Pc → Bool
  | .testBlocked | .lockQueue | .testState | .queuePkts | .unlock | .releasePkts => true
  | pc => pc.processes

/-- Points with packets to be freed. -/
def Pc.frees : Pc → Bool
  | .unlock | .releasePkts | .releaseFree | .softUnlock | .blockUnlock | .blockRelease => true
  | pc => pc.processes

/-- Points at which a popped packet is in hand: on the way to the driver, and back from it
    when it was refused. -/
def Pc.pops : Pc → Bool
  | .unlockQueue | .mapPkt | .xmit => true
  | _ => false

def Pc.returns : Pc → Bool
  | .clearProcessing | .unlockXmit | .relockQueue | .xmitStatus | .putBack => true
  | _ => false

structure Thread.Tidy (t : Thread) : Prop where
  pktList : t.pc.lists = false ∨ t.action = true → t.pktList = []
  freeList : t.pc.frees = false → t.freeList = []
  pkt : t.pc.pops = false → (t.pc.returns = true → t.outcome ≠ .refused) → t.pkt = none
  skb : t.skb = doAllocSkb

theorem Thread.Tidy.processes {t : Thread} {p : Nat} (hI : t.Tidy) (hp : t.pkt = some p) :
    t.pc.processes = true := by
  cases hpc : t.pc
  all_goals first
    | rfl
    | simp [hI.pkt, hpc, Pc.pops, Pc.returns] at hp

theorem Thread.Tidy.nothing_left {t : Thread} (hI : t.Tidy) (hpc : t.pc = .done) (p : Nat) :
    t.listed p = 0 ∧ t.freed p = 0 ∧ t.inHand p = 0 := by
  have hlist := hI.pktList (.inl (by simp [hpc, Pc.lists, Pc.processes]))
  have hfree := hI.freeList (by simp [hpc, Pc.frees, Pc.processes])
  have hpkt := hI.pkt (by simp [hpc, Pc.pops]) (by simp [hpc, Pc.returns])
  simp [Thread.listed, Thread.freed, Thread.inHand, hlist, hfree, hpkt]

/-- The additional `fragsref` keeps the packet from going with its socket buffer. -/
theorem kfreeReleases_fragsref :
    { doAllocSkb with fragsref := doAllocSkb.fragsref + 1 }.kfreeReleases = false := by
  decide

section Step

variable {a : Choice} {s s' : Shared} {t t' : Thread} {p : Nat}

theorem step_tidy (h : step n a s t = some (s', t')) (hI : t.Tidy) : t'.Tidy := by
  obtain ⟨hlist, hfree, hpkt, hskb⟩ := hI
  unfold step at h
  cases hpc : t.pc
  all_goals simp only [stepOn, hpc] at h
  all_goals repeat' split at h
  all_goals simp only [Option.some.injEq, Prod.mk.injEq, reduceCtorEq] at h
  all_goals obtain ⟨rfl, rfl⟩ := h
  all_goals simp only [hpc, Pc.lists, Pc.frees, Pc.pops, Pc.returns, Pc.processes]
    at hlist hfree hpkt
  all_goals first
    | refine ⟨?_, ?_, ?_, hskb⟩
    | refine ⟨?_, ?_, ?_, rfl⟩
  all_goals simp only [Pc.lists, Pc.frees, Pc.pops, Pc.returns, Pc.processes]
  all_goals first
    | assumption
    | simp_all

theorem step_handed (h : step n a s t = some (s', t')) : s'.handed = s.handed := by
  unfold step at h
  cases hpc : t.pc
  all_goals simp only [stepOn, hpc] at h
  all_goals repeat' split at h
  all_goals simp only [Option.some.injEq, Prod.mk.injEq, reduceCtorEq] at h
  all_goals obtain ⟨rfl, rfl⟩ := h
  all_goals rfl

/-- A step moves packets about. -/
theorem step_fates (h : step n a s t = some (s', t')) (hI : t.Tidy) (hvalid : t.Valid n) :
    t'.listed p + t'.freed p + t'.inHand p + queued n s'.queue p + s'.accepted.count p +
        s'.released.count p =
      t.listed p + t.freed p + t.inHand p + queued n s.queue p + s.accepted.count p +
        s.released.count p := by
  obtain ⟨hlist, hfree, hpkt, hskb⟩ := hI
  obtain ⟨hqueue, hhead⟩ := hvalid
  unfold step at h
  cases hpc : t.pc
  case putBack =>
    simp only [stepOn, hpc, hskb, kfreeReleases_fragsref, Bool.false_eq_true, if_false,
      Option.some.injEq, Prod.mk.injEq] at h
    obtain ⟨rfl, rfl⟩ := h
    have hmove := queued_setQueue (p := p) (s := s)
      (Q := { s.queue t.queue with outputList := t.pkt.toList ++ (s.queue t.queue).outputList })
      (hqueue (by simp [hpc, Pc.roams]))
    simp only [List.count_append] at hmove
    simp only [Thread.listed, Thread.freed, Thread.inHand, setQueue_accepted, setQueue_released,
      Option.toList_none, List.count_nil]
    omega
  all_goals simp only [stepOn, hpc] at h
  all_goals repeat' split at h
  all_goals simp only [Option.some.injEq, Prod.mk.injEq, reduceCtorEq] at h
  all_goals obtain ⟨rfl, rfl⟩ := h
  all_goals simp only [hpc, Pc.lists, Pc.frees, Pc.pops, Pc.returns, Pc.processes, Pc.roams]
    at hlist hfree hpkt hqueue
  all_goals simp only [Thread.listed, Thread.freed, Thread.inHand, setQueue_accepted,
    setQueue_released, Shared.insertQueue, List.count_append, List.count_cons, List.count_nil]
  all_goals grind -linarith [queued_setQueue, count_queueTxPkts, count_head_tail]

end Step

/-! ### Runs -/

structure Fated (n : Nat) (c : Config Shared Thread) : Prop where
  nodup : c.shared.handed.Nodup
  tidy : Each (fun _ t => t.Tidy) c.pool
  fates : ∀ p, fates n c p = c.shared.handed.count p

theorem fated_enter {c : Config Shared Thread} {call : Call} {s : Shared} {t : Thread}
    (h : enter n c.pool.length call c.shared = some (s, t)) (hI : Fated n c) :
    Fated n ⟨s, c.pool ++ [t]⟩ := by
  obtain ⟨hnodup, htidy, hfates⟩ := hI
  obtain ⟨hqueue, -⟩ := enter_queue h
  have hnew : t.Tidy ∧ t.freeList = [] ∧ t.pkt = none ∧ s.accepted = c.shared.accepted ∧
      s.released = c.shared.released ∧ s.handed = c.shared.handed ++ t.pktList ∧
      t.pktList.Nodup ∧ ∀ p ∈ t.pktList, p ∉ c.shared.handed := by
    cases call <;> simp only [enter] at h
    all_goals try split at h
    all_goals simp only [Option.some.injEq, Prod.mk.injEq, reduceCtorEq] at h
    all_goals obtain ⟨rfl, rfl⟩ := h
    all_goals refine ⟨⟨?_, ?_, ?_, rfl⟩, rfl, rfl, rfl, rfl, ?_, ?_, ?_⟩
    all_goals simp_all [Pc.lists, Pc.processes]
  obtain ⟨htidy', hfree, hpkt, haccepted, hreleased, hhanded, hnodup', hfresh⟩ := hnew
  refine ⟨?_, htidy.append (fun _ _ _ hu => hu) htidy', fun p => ?_⟩
  · show s.handed.Nodup
    rw [hhanded]
    exact List.nodup_append.mpr
      ⟨hnodup, hnodup', fun p hp p' hp' heq => hfresh p' hp' (heq ▸ hp)⟩
  · have hp := hfates p
    simp only [Tx.fates, total_append, hqueue, haccepted, hreleased, hhanded, List.count_append,
      Thread.listed, Thread.freed, Thread.inHand, hfree, hpkt, Option.toList_none,
      List.count_nil] at hp ⊢
    omega

theorem fated_step {a : Choice} {i : Nat} {c : Config Shared Thread} {s : Shared}
    {t t' : Thread} (hi : c.pool[i]? = some t) (h : step n a c.shared t = some (s, t'))
    (hvalid : Valid n c) (hI : Fated n c) : Fated n ⟨s, c.pool.set i t'⟩ := by
  obtain ⟨hnodup, htidy, hfates⟩ := hI
  have hmine := htidy i t hi
  have hhanded : s.handed = c.shared.handed := step_handed h
  refine ⟨?_, htidy.set (fun _ _ _ _ hu => hu) (step_tidy h hmine), fun p => ?_⟩
  · show s.handed.Nodup
    rw [hhanded]
    exact hnodup
  · have hp := hfates p
    have hmove := step_fates (p := p) h hmine (hvalid.threads i t hi)
    simp only [Tx.fates] at hp ⊢
    rw [total_eq_others _ hi, total_eq_others _ hi, total_eq_others _ hi] at hp
    rw [total_set _ _ hi, total_set _ _ hi, total_set _ _ hi, hhanded]
    omega

theorem fated_of_reachable {size : Nat → Nat} {c : Config Shared Thread}
    (h : (machine n).Reachable (initial size) c) : Fated n c := by
  refine Machine.Reach.invariant (Fated n) ?_ ?_ ?_ h
  · refine ⟨List.nodup_nil, each_nil _, fun p => ?_⟩
    have hempty : queued n (initial size).shared.queue p = 0 := total_eq_zero fun _ _ => rfl
    simpa [fates, initial] using hempty
  · intro c call s t _ hI _ hs
    exact fated_enter hs hI
  · intro c i a t s t' hc hI _ hi hs
    exact fated_step hi hs (valid_of_reach hc) hI

/-- **One fate.**  In every run, a packet handed to `netdev_tx` is in exactly one place:
    the `pktList` of a caller, the `outputList` of a queue, a local free list, the hands
    of one thread inside `process_tx_queue`, accepted by the driver, or released.  It is
    released once at most, and not when the driver has accepted it; and when all calls
    have returned, it is queued, accepted or released. -/
theorem packet_fate {size : Nat → Nat} {c : Config Shared Thread} {p : Nat}
    (h : (machine n).Reachable (initial size) c) (hp : p ∈ c.shared.handed) :
    total (Thread.listed p) c.pool + queued n c.shared.queue p + total (Thread.freed p) c.pool +
        total (Thread.inHand p) c.pool + c.shared.accepted.count p +
        c.shared.released.count p = 1 ∧
      (∀ t ∈ c.pool, t.pkt = some p → t.pc.processes = true) ∧
      c.shared.released.count p ≤ 1 ∧
      (p ∈ c.shared.accepted → p ∉ c.shared.released) ∧
      ((∀ t ∈ c.pool, t.pc = .done) → (∃ q < n, p ∈ (c.shared.queue q).outputList) ∨
        p ∈ c.shared.accepted ∨ p ∈ c.shared.released) := by
  obtain ⟨hnodup, htidy, hfates⟩ := fated_of_reachable h
  have hone := hfates p
  rw [List.count_eq_one_of_mem hnodup hp, fates] at hone
  refine ⟨hone, fun t ht hpkt => ?_, by omega, fun haccepted hreleased => ?_, fun hdone => ?_⟩
  · obtain ⟨i, hi⟩ := List.mem_iff_getElem?.mp ht
    exact (htidy i t hi).processes hpkt
  · have hacc := List.count_pos_iff.mpr haccepted
    have hrel := List.count_pos_iff.mpr hreleased
    omega
  · have hnothing : ∀ t ∈ c.pool, t.listed p = 0 ∧ t.freed p = 0 ∧ t.inHand p = 0 := by
      intro t ht
      obtain ⟨i, hi⟩ := List.mem_iff_getElem?.mp ht
      exact (htidy i t hi).nothing_left (hdone t ht) p
    have hlisted : total (Thread.listed p) c.pool = 0 :=
      total_eq_zero fun t ht => (hnothing t ht).1
    have hfreed : total (Thread.freed p) c.pool = 0 :=
      total_eq_zero fun t ht => (hnothing t ht).2.1
    have hhand : total (Thread.inHand p) c.pool = 0 :=
      total_eq_zero fun t ht => (hnothing t ht).2.2
    by_cases hq : 0 < queued n c.shared.queue p
    · exact .inl (exists_of_queued_pos hq)
    · by_cases hacc : 0 < c.shared.accepted.count p
      · exact .inr (.inl (List.count_pos_iff.mp hacc))
      · exact .inr (.inr (List.count_pos_iff.mp (by omega)))

/-- Packet 7 is refused and back on its list, 8 found no room and is released. -/
theorem packet_fate_put_back :
    ∃ c, (machine 1).Reachable (initial fun _ => 1) c ∧ 7 ∈ c.shared.handed ∧
      (c.shared.queue 0).outputList = [7] ∧ c.shared.released = [8] ∧
      (7 ∈ c.shared.accepted → 7 ∉ c.shared.released) ∧
      ((∀ t ∈ c.pool, t.pc = .done) → (∃ q < 1, 7 ∈ (c.shared.queue q).outputList) ∨
        7 ∈ c.shared.accepted ∨ 7 ∈ c.shared.released) := by
  obtain ⟨c, hc, ho⟩ := (machine 1).exists_reachable_of_run
    (List.flatten [[.start (.netdevTx 0 [7, 8])], acts 0 11, [.act 0 { refused := true }],
      acts 0 11])
    (initial fun _ => 1)
    (fun c => (c.shared.handed, (c.shared.queue 0).outputList, c.shared.released))
    ([7, 8], [7], [8]) (by decide)
  simp only [Prod.mk.injEq] at ho
  obtain ⟨hhanded, hlist, hreleased⟩ := ho
  have hmem : 7 ∈ c.shared.handed := by simp [hhanded]
  obtain ⟨-, -, -, honce, hdone⟩ := packet_fate hc hmem
  exact ⟨c, hc, hmem, hlist, hreleased, honce, hdone⟩

end VmkLinux.Net.Tx
