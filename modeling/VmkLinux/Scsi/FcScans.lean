/-
  VmkLinux/Scsi/FcScans.lean
  ==========================
  **The counter of pending scans.**  `pendingScanWorkQueueEntries` is incremented wherever a scan
  is queued, whether or not `scsi_queue_work` then queues it, and decremented once for each scan
  that executes.  A port that comes back while its scan is still on the queue is counted twice
  and scanned once (`scan_counted_twice`); the counter is not zero again.

  Where no scan is queued that is pending already, the counter is the number of scans that are
  queued or executing.  `fc_rport_create` increments it without the lock, before it queues the
  scan: a call between the two is counted as well.
-/
import VmkLinux.Scsi.FcQueues

namespace VmkLinux.Scsi.Fc

open VmkLinux.Interleave

/-- The scans that are queued or executing. -/
def Shared.scans (s : Shared) : Nat :=
  s.scsiQ.entries.countP fun e => decide (e.kind = .scan)

/-- `fc_rport_create` has incremented the counter and has not queued the scan yet. -/
def Thread.counts (t : Thread) : Nat := if t.pc = .addScanQueue then 1 else 0

/-- No scan is queued that is pending. -/
def scansOnce (c : Config Shared Thread) : Event Call Choice → Bool
  | .start _ => true
  | .act i _ =>
      match c.pool[i]? with
      | some t =>
          match t.pc with
          | .addRestart | .addScanQueue | .roleScan => !c.shared.scsiQ.pending .scan t.rport
          | .addSearch =>
              !t.target || (c.shared.findBlocked t.key).isSome ||
                (c.shared.findBinding t.key).all fun r => !c.shared.scsiQ.pending .scan r
          | _ => true
      | none => true

/-! ### Steps -/

theorem Queue.length_push {q : Queue} {k : Kind} {r : Nat} (h : q.pending k r = false) :
    (q.push k r).entries.length = q.entries.length + 1 := by
  simp [Queue.push, h, Queue.entries, Nat.add_assoc]

theorem foldl_delete_scanEntries (l : List Nat) (s : Shared) :
    (l.foldl Shared.delete s).scanEntries = s.scanEntries := by
  induction l generalizing s with
  | nil => rfl
  | cons r l ih => exact ih (s.delete r)

theorem Queue.length_finish {q : Queue} {e : Entry} (h : q.running = some e) :
    q.finish.entries.length + 1 = q.entries.length := by
  simp [Queue.finish, h, Queue.entries]

section Step

variable {a : Choice} {s s' : Shared} {t t' : Thread}

/-- The counter, with what the step does to the queue of the SCSI host. -/
theorem step_scanEntries (h : step a s t = some (s', t')) :
    (s'.scsiQ = s.scsiQ ∧ s'.scanEntries + t.counts = s.scanEntries + t'.counts) ∨
    (∃ r, s'.scsiQ = s.scsiQ.push .scan r ∧
        s'.scanEntries + t.counts = s.scanEntries + 1 + t'.counts ∧
        (r = t.rport ∧ (t.pc = .addRestart ∨ t.pc = .addScanQueue ∨ t.pc = .roleScan) ∨
          t.pc = .addSearch ∧ t.target = true ∧ s.findBlocked t.key = none ∧
            s.findBinding t.key = some r)) ∨
    (t.pc = .scanSection ∧ s'.scsiQ = s.scsiQ.finish ∧ s'.scanEntries + 1 = s.scanEntries ∧
      t.counts = 0 ∧ t'.counts = 0) := by
  have hnext : t.caller.next ≠ .addScanQueue := by
    cases t.caller <;> simp [Caller.next]
  obtain ⟨_, hpc, hs⟩ := stepped h
  clear h
  cases hs
  case addRestart | addSearch_target | addScanInc | addScanQueue | roleScan | scanSection |
      cancelLoss_armed | cancelLossWait | rmSection =>
    simp only [Thread.counts, hpc, hnext, Shared.upd, Shared.startScan, Shared.endRolechg,
      foldl_delete_queues, foldl_delete_scanEntries]
    grind -linarith
  all_goals exact .inl ⟨rfl, by simp [Thread.counts, hpc, Shared.upd, Shared.delete,
    Shared.endAdd, Shared.endRolechg]⟩

end Step

/-! ### The counter -/

/-- The counter is the number of entries of the queue, with the calls about to add one. -/
def Counted (c : Config Shared Thread) : Prop :=
  c.shared.scanEntries = c.shared.scsiQ.entries.length + total Thread.counts c.pool

theorem counted_step {c : Config Shared Thread} {i : Nat} {a : Choice} {s : Shared}
    {t t' : Thread} (hW : Workers c) (hok : scansOnce c (.act i a) = true)
    (hi : c.pool[i]? = some t) (h : step a c.shared t = some (s, t')) (hI : Counted c) :
    Counted ⟨s, c.pool.set i t'⟩ := by
  unfold Counted at hI ⊢
  rw [total_eq_others _ hi] at hI
  rw [total_set _ _ hi]
  rcases step_scanEntries h with ⟨hq, hcount⟩ | ⟨r, hq, hcount, hsite⟩ |
    ⟨hpc, hq, hcount, hold, hnew⟩
  · simp only [hq]
    push_cast at hI ⊢
    omega
  · have hfree : c.shared.scsiQ.pending .scan r = false := by
      simp only [scansOnce, hi] at hok
      rcases hsite with ⟨rfl, hpc | hpc | hpc⟩ | ⟨hpc, htarget, hblocked, hbinding⟩
      · simpa [hpc] using hok
      · simpa [hpc] using hok
      · simpa [hpc] using hok
      · simpa [hpc, htarget, hblocked, hbinding] using hok
    simp only [hq, Queue.length_push hfree]
    push_cast at hI ⊢
    omega
  · obtain ⟨n, hrunning⟩ := hW.item i t hi .scan (by simp only [Thread.work, hpc])
    have hlen := Queue.length_finish (q := c.shared.scsiQ) hrunning
    simp only [hq, hnew]
    simp only [hold] at hI
    push_cast at hI ⊢
    omega

theorem counted_enter {c : Config Shared Thread} {call : Call} {s : Shared} {t : Thread}
    (h : enter call c.shared = some (s, t)) (hI : Counted c) : Counted ⟨s, c.pool ++ [t]⟩ := by
  have hsame : s.scanEntries = c.shared.scanEntries := by
    cases call
    all_goals simp only [enter] at h
    all_goals split at h
    all_goals simp only [Option.some.injEq, Prod.mk.injEq, reduceCtorEq] at h
    all_goals obtain ⟨rfl, -⟩ := h
    all_goals rfl
  have hlen : s.scsiQ.entries.length = c.shared.scsiQ.entries.length := by
    rcases enter_scsiQ h with hq | ⟨-, hq⟩
    · rw [hq]
    · rw [Queue.entries_run hq]
  have hcounts : t.counts = 0 := by
    rcases enter_item h with ⟨e, -, rfl⟩ | hpc | hpc | hpc | hpc | ⟨-, hpc⟩
    · cases hkind : e.kind
      all_goals simp [Thread.counts, Kind.entry]
    all_goals simp [Thread.counts, hpc]
  unfold Counted at hI ⊢
  simp only [total_append, hsame, hlen, hcounts]
  exact hI

theorem reach_counted {c : Config Shared Thread}
    (h : machine.Reach (fun c e => scansOnce c e = true) initial c) : Counted c := by
  refine Machine.Reach.invariant Counted ?_ ?_ ?_ h
  · rfl
  · intro c call s t _ hI _ hs
    exact counted_enter hs hI
  · intro c i a t s t' hc hI hok hi hs
    exact counted_step (reachable_workers hc.reachable) hok hi hs hI

theorem scans_eq_length {c : Config Shared Thread} (h : machine.Reachable initial c) :
    c.shared.scans = c.shared.scsiQ.entries.length := by
  refine List.countP_eq_length.mpr (fun e he => ?_)
  have hqueue : e.kind.queue = .scsi := reachable_kinds h .scsi e he
  cases hkind : e.kind
  all_goals simp [Kind.queue, hkind] at hqueue ⊢

/-- **Pending scans.**  In every run in which no scan is queued that is pending already: the
    counter is the number of scans that are queued or executing, with the calls of
    `fc_rport_create` that are between the increment and the queueing; so it is never negative,
    and where there is no such call it is that number, zero when no scan is queued or
    executing. -/
theorem scan_counter {c : Config Shared Thread}
    (h : machine.Reach (fun c e => scansOnce c e = true) initial c) :
    c.shared.scanEntries = c.shared.scans + total Thread.counts c.pool ∧
    0 ≤ c.shared.scanEntries ∧
    ((∀ t ∈ c.pool, t.pc ≠ .addScanQueue) →
      c.shared.scanEntries = c.shared.scans ∧
        (c.shared.scans = 0 → c.shared.scanEntries = 0)) := by
  have hcounted : c.shared.scanEntries = c.shared.scans + total Thread.counts c.pool := by
    rw [scans_eq_length h.reachable]
    exact reach_counted h
  refine ⟨hcounted, by omega, fun hnone => ?_⟩
  have hzero : total Thread.counts c.pool = 0 := by
    refine total_eq_zero (fun t ht => ?_)
    simp only [Thread.counts, hnone t ht, if_false]
  omega

/-- A port is added and scanned, goes away and comes back, and is scanned again. -/
theorem scan_counter_two_scans :
    ∃ c, machine.Reach (fun c e => scansOnce c e = true) initial c ∧ c.shared.scans = 1 ∧
      c.shared.scanEntries = 1 := by
  obtain ⟨c, hc, ho⟩ := machine.exists_reach_of_runIf scansOnce
    (List.flatten [[.start (.add ⟨0, 7⟩ true)], acts 0 10, [.start .runScsi], acts 1 2,
      [.start (.delete 0)], acts 2 5, [.start (.add ⟨0, 7⟩ true)], acts 3 10])
    initial (fun c => (c.shared.scans, c.pool.all fun t => decide (t.pc ≠ .addScanQueue)))
    (1, true) (by decide)
  simp only [Prod.mk.injEq, List.all_eq_true, decide_eq_true_eq] at ho
  have hcounter := ((scan_counter hc).2.2 ho.2).1
  rw [ho.1] at hcounter
  exact ⟨c, hc, ho.1, hcounter⟩

/-- The port comes back before its first scan ran: the counter stays at one when all calls have
    returned and no scan is queued or executing. -/
theorem scan_counted_twice :
    ∃ c, machine.Reachable initial c ∧ c.shared.scanEntries = 1 ∧ c.shared.scans = 0 ∧
      ∀ t ∈ c.pool, t.pc = .done := by
  obtain ⟨c, hc, ho⟩ := machine.exists_reachable_of_run
    (List.flatten [[.start (.add ⟨0, 7⟩ true)], acts 0 10, [.start (.delete 0)], acts 1 5,
      [.start (.add ⟨0, 7⟩ true)], acts 2 10, [.start .runScsi], acts 3 2])
    initial (fun c => (c.shared.scanEntries, c.shared.scans,
      c.pool.all fun t => decide (t.pc = .done)))
    (1, 0, true) (by decide)
  simp only [Prod.mk.injEq, List.all_eq_true, decide_eq_true_eq] at ho
  exact ⟨c, hc, ho⟩

end VmkLinux.Scsi.Fc
