/-
  VmkLinux/Net/TxBound.lean
  =========================
  **The length of a soft transmit queue**: with `netdev_queue_tx_pkts_locked` filling the list up
  to its limit, and `process_tx_queue` putting a refused packet back.

  A packet that was popped is in the hands of its thread while both locks are released in turn.
  The list and the hands together stay within the limit and one; how long the list gets depends
  on how many hands there are.
-/
import VmkLinux.Net.TxFate

namespace VmkLinux.Net.Tx

open VmkLinux.Interleave

/-! ### What is in hand -/

/-- A thread with a popped packet of queue `q`. -/
def Thread.holds (q : Nat) (t : Thread) : Nat := if t.pkt.isSome ∧ t.queue = q then 1 else 0

/-- The threads with one. -/
def hands (q : Nat) (c : Config Shared Thread) : Nat := total (Thread.holds q) c.pool

theorem holds_of_none {q : Nat} {t : Thread} (h : t.pkt = none) : t.holds q = 0 := by
  simp [Thread.holds, h]

/-- The list is only taken as a whole when the sum of the counts is right. -/
def countsRight (Q : NetdevQueue) (pktList : List Nat) : Prop :=
  joins Q pktList = true → pktList.length + Q.outputList.length < 2 ^ 32

instance (Q : NetdevQueue) (pktList : List Nat) : Decidable (countsRight Q pktList) :=
  inferInstanceAs (Decidable (_ → _))

/-- Then it grows up to the limit at most. -/
theorem length_queueTxPkts {Q : NetdevQueue} {pktList : List Nat} (hright : countsRight Q pktList)
    (hlen : Q.outputList.length ≤ Q.outputListMaxSize + 1) :
    (queueTxPkts Q pktList).1.length ≤ max Q.outputListMaxSize Q.outputList.length ∧
      (queueTxPkts Q pktList).1.length ≤ pktList.length + Q.outputList.length := by
  unfold queueTxPkts
  split
  · rename_i hjoins
    have hsum := hright hjoins
    simp only [joins, Nat.mod_eq_of_lt hsum, decide_eq_true_eq] at hjoins
    rw [List.length_append]
    omega
  · rw [List.length_append, List.length_take]
    have hspace : listSpaceLeft Q ≤ max 0 ((Q.outputListMaxSize : Int) - Q.outputList.length) := by
      unfold listSpaceLeft
      rw [Int.bmod_def]
      split <;> omega
    omega

section Step

variable {n : Nat} {a : Choice} {s s' : Shared} {t t' : Thread}

theorem step_maxSize (h : step n a s t = some (s', t')) (q : Nat) :
    (s'.queue q).outputListMaxSize = (s.queue q).outputListMaxSize := by
  unfold step at h
  cases hpc : t.pc
  all_goals simp only [stepOn, hpc] at h
  all_goals repeat' split at h
  all_goals simp only [Option.some.injEq, Prod.mk.injEq, reduceCtorEq] at h
  all_goals obtain ⟨rfl, rfl⟩ := h
  all_goals try rfl
  all_goals simp only [Shared.setQueue]
  all_goals split <;> simp_all

/-- Every step but the filling of the list keeps what is queued and what is in hand together. -/
theorem step_room (h : step n a s t = some (s', t')) (hI : t.Tidy) (hfill : t.pc ≠ .queuePkts)
    (q : Nat) :
    (s'.queue q).outputList.length + t'.holds q ≤
      (s.queue q).outputList.length + t.holds q := by
  obtain ⟨-, -, hpkt, -⟩ := hI
  unfold step at h
  cases hpc : t.pc
  case popHead =>
    -- what leaves the list comes into the hand
    simp only [stepOn, hpc, Option.some.injEq, Prod.mk.injEq] at h
    obtain ⟨rfl, rfl⟩ := h
    by_cases hq : t.queue = q
    · subst hq
      rw [setQueue_self]
      cases hlist : (s.queue t.queue).outputList with
      | nil => simp [Thread.holds]
      | cons p rest => simp [Thread.holds]
    · rw [setQueue_of_ne _ _ _ fun heq => hq heq.symm]
      simp [Thread.holds, hq]
  all_goals simp only [stepOn, hpc] at h
  all_goals repeat' split at h
  all_goals simp only [Option.some.injEq, Prod.mk.injEq, reduceCtorEq] at h
  all_goals obtain ⟨rfl, rfl⟩ := h
  all_goals simp only [hpc, Pc.pops, Pc.returns] at hpkt
  all_goals simp only [Thread.holds, Shared.setQueue, Shared.insertQueue]
  all_goals grind [List.length_tail, Option.toList_some, Option.toList_none]

/-- The filling of the list. -/
theorem step_fill (h : step n a s t = some (s', t')) (hfill : t.pc = .queuePkts) :
    s' = s.setQueue t.queue
        { s.queue t.queue with
          outputList := (queueTxPkts (s.queue t.queue) t.pktList).1 } ∧
      ∀ q, t'.holds q = t.holds q := by
  simp only [step, stepOn, hfill, Option.some.injEq, Prod.mk.injEq] at h
  obtain ⟨rfl, rfl⟩ := h
  exact ⟨rfl, fun _ => rfl⟩

end Step

/-! ### Runs -/

/-- Packets are put on a list only while one of its queue is in hand at most, or when there is
    room for those in hand too. -/
def orderly (c : Config Shared Thread) : Event Call Choice → Bool
  | .start _ => true
  | .act i _ =>
      match c.pool[i]? with
      | none => true
      | some t =>
          let Q := c.shared.queue t.queue
          t.pc ≠ .queuePkts ∨ countsRight Q t.pktList ∧
            (hands t.queue c ≤ 1 ∨
              t.pktList.length + Q.outputList.length + hands t.queue c ≤ Q.outputListMaxSize + 1)

/-- What is queued and what is in hand. -/
def Bounded (q : Nat) (c : Config Shared Thread) : Prop :=
  (c.shared.queue q).outputList.length + hands q c ≤ (c.shared.queue q).outputListMaxSize + 1

section Runs

variable {n q : Nat} {c : Config Shared Thread} {s : Shared} {t t' : Thread}

theorem bounded_enter {call : Call} (h : enter n c.pool.length call c.shared = some (s, t))
    (hI : Bounded q c) : Bounded q ⟨s, c.pool ++ [t]⟩ := by
  have hnew : t.pkt = none ∧ s.queue = c.shared.queue := by
    refine ⟨?_, (enter_queue h).1⟩
    cases call <;> simp only [enter] at h
    all_goals try split at h
    all_goals simp only [Option.some.injEq, Prod.mk.injEq, reduceCtorEq] at h
    all_goals obtain ⟨rfl, rfl⟩ := h
    all_goals rfl
  have hhands : hands q ⟨s, c.pool ++ [t]⟩ = hands q c := by
    simp only [hands, total_append, holds_of_none hnew.1, Nat.add_zero]
  unfold Bounded
  rw [hhands]
  dsimp only
  rw [hnew.2]
  exact hI

theorem bounded_step {a : Choice} {i : Nat} (hi : c.pool[i]? = some t)
    (h : step n a c.shared t = some (s, t')) (htidy : t.Tidy)
    (hok : orderly c (.act i a) = true) (hI : Bounded q c) : Bounded q ⟨s, c.pool.set i t'⟩ := by
  unfold Bounded at hI ⊢
  simp only [orderly, hi, decide_eq_true_eq] at hok
  have hbefore : hands q c = others (Thread.holds q) c.pool i + t.holds q := total_eq_others _ hi
  have hafter : hands q ⟨s, c.pool.set i t'⟩ = others (Thread.holds q) c.pool i + t'.holds q :=
    total_set _ _ hi
  have hmax := step_maxSize h q
  rw [hafter, hmax]
  dsimp only
  by_cases hfill : t.pc = .queuePkts
  · obtain ⟨hs, hsame⟩ := step_fill h hfill
    obtain ⟨hright, hroom⟩ := hok.resolve_left fun hne => hne hfill
    rw [hsame, ← hbefore]
    subst hs
    by_cases hq : q = t.queue
    · subst hq
      rw [setQueue_self]
      obtain ⟨hlimit, hgrow⟩ := length_queueTxPkts hright (by omega)
      dsimp only
      omega
    · rw [setQueue_of_ne _ _ _ hq]
      exact hI
  · have hroom := step_room h htidy hfill q
    omega

theorem maxSize_of_reachable {size : Nat → Nat} (h : (machine n).Reachable (initial size) c) :
    (c.shared.queue q).outputListMaxSize = size q := by
  refine Machine.Reach.invariant (fun c => (c.shared.queue q).outputListMaxSize = size q) rfl
    ?_ ?_ h
  · intro c call s t _ hI _ hs
    have henter : enter n c.pool.length call c.shared = some (s, t) := hs
    dsimp only
    rw [(enter_queue henter).1]
    exact hI
  · intro c i a t s t' _ hI _ _ hs
    exact (step_maxSize hs q).trans hI

end Runs

/-- **The limit of a soft queue.**  In every run in which packets are put on a list only while
    one of its queue is in hand at most, or with room for those in hand, the list stays within
    its limit and one. -/
theorem soft_queue_bounded {n : Nat} {size : Nat → Nat} {c : Config Shared Thread}
    (h : (machine n).Reach (fun c e => orderly c e = true) (initial size) c) (q : Nat) :
    (c.shared.queue q).outputList.length ≤ size q + 1 := by
  have hbounded : Bounded q c := by
    refine Machine.Reach.invariant (Bounded q) (Nat.zero_le _) ?_ ?_ h
    · intro c call s t _ hI _ hs
      exact bounded_enter hs hI
    · intro c i a t s t' hc hI hok hi hs
      exact bounded_step hi hs ((fated_of_reachable hc.reachable).tidy i t hi) hok hI
  unfold Bounded at hbounded
  rw [maxSize_of_reachable h.reachable] at hbounded
  omega

/-- The limit is reached, and one packet more is put back. -/
theorem soft_queue_bounded_put_back :
    ∃ c, (machine 1).Reachable (initial fun _ => 1) c ∧
      (c.shared.queue 0).outputList = [1, 2] ∧ (c.shared.queue 0).outputList.length ≤ 1 + 1 := by
  obtain ⟨c, hc, hlist⟩ := (machine 1).exists_reach_of_runIf orderly
    (List.flatten [[.start (.netdevTx 0 [1])], acts 0 11, [.start (.netdevTx 0 [2])], acts 1 10,
      [.act 0 { refused := true }], acts 0 5])
    (initial fun _ => 1) (fun c => (c.shared.queue 0).outputList) [1, 2] (by decide)
  exact ⟨c, hc.reachable, hlist, soft_queue_bounded hc 0⟩

/-- Two threads hold a refused packet each while a third fills the list. -/
theorem two_put_back :
    ¬ ∀ (n : Nat) (size : Nat → Nat) (c : Config Shared Thread),
      (machine n).Reachable (initial size) c →
        ∀ q, (c.shared.queue q).outputList.length ≤ size q + 1 := by
  intro h
  obtain ⟨c, hc, hlist⟩ := (machine 1).exists_reachable_of_run
    (List.flatten [[.start (.netdevTx 0 [1])], acts 0 11, [.act 0 { refused := true }], acts 0 2,
      [.start (.netdevTx 0 [2])], acts 1 11, [.start (.netdevTx 0 [3])], acts 2 10, acts 0 7,
      [.act 1 { refused := true }], acts 1 5])
    (initial fun _ => 1) (fun c => (c.shared.queue 0).outputList) [2, 1, 3] (by decide)
  have hbound := h 1 _ c hc 0
  rw [hlist] at hbound
  exact absurd hbound (by decide)

end VmkLinux.Net.Tx
