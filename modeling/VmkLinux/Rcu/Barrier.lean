/-
  VmkLinux/Rcu/Barrier.lean
  =========================
  **What `rcu_barrier` waits for.**

  `rcu_barrier` queues a head of its own and waits for its callback.  Heads are
  unlinked in the order they were queued, but each callback runs with the lock
  dropped, and the tasklet and the handler of the timer both run
  `vmklnx_rcu_callback`: one of them may run the callback of the barrier while the
  other is still in the callback of an earlier head (`barrier_overtakes_callback`).
  The barrier keeps its promise in the runs in which a runner takes up the head of
  a barrier only when no other runner is in a callback (`aloneAtBarrier`).
-/
import VmkLinux.Rcu.GracePeriod

namespace VmkLinux.Rcu

open VmkLinux.Interleave

variable {ok : Config Rdp Pc → Event Call Unit → Prop} {c : Config Rdp Pc}

/-! ### Callbacks in flight -/

/-- Whether a call runs the callback of `head`, or is about to. -/
def Pc.inFlight (head : Nat) (pc : Pc) : Nat := if pc.runs = some head then 1 else 0

/-- Whether a call runs a callback, or is about to. -/
def Pc.busy (pc : Pc) : Nat := if pc.runs = none then 0 else 1

theorem Pc.inFlight_le_busy (head : Nat) (pc : Pc) : pc.inFlight head ≤ pc.busy := by
  unfold Pc.inFlight Pc.busy
  split
  · rename_i hrun
    rw [hrun]
    simp
  · exact Nat.zero_le _

theorem Pc.inFlight_of_runs_none {pc : Pc} (h : pc.runs = none) (head : Nat) :
    pc.inFlight head = 0 := by
  simp [Pc.inFlight, h]

/-- What is unlinked is in flight until it is finished. -/
def Finished (s : Rdp) (inFlight : Nat → Nat) : Prop :=
  ∀ head, s.finished.count head + inFlight head = s.removed.count head

theorem Finished.callbackLoop {s s' : Rdp} {r : Runner} {pc : Pc} {n : Nat → Nat}
    (hI : Finished s n) (h : callbackLoop s r = (s', pc)) :
    Finished s' fun head => n head + pc.inFlight head := by
  obtain ⟨ok, rfl, rfl, -⟩ | ⟨first, -, -, rfl, rfl⟩ := callbackLoop_cases h
  · exact hI
  · intro head
    have hhead := hI head
    change s.finished.count head + (n head + if some first = some head then 1 else 0) =
      (s.removed ++ [first]).count head
    rw [List.count_append, List.count_singleton, ← hhead]
    simp only [beq_iff_eq, Option.some.injEq]
    omega

theorem step_finished {s s' : Rdp} {pc pc' : Pc} {n : Nat → Nat} (h : step s pc = some (s', pc'))
    (hI : Finished s fun head => n head + pc.inFlight head) :
    Finished s' fun head => n head + pc'.inFlight head := by
  cases pc with
  | runLock r =>
    simp only [step] at h
    split at h
    · cases h
    · simp only [Option.some.injEq] at h
      exact Finished.callbackLoop hI h
  | executing r first =>
    simp only [step, Option.some.injEq, Prod.mk.injEq] at h
    obtain ⟨rfl, rfl⟩ := h
    intro head
    have hhead : s.finished.count head + (n head + if some first = some head then 1 else 0) =
      s.removed.count head := hI head
    change (s.finished ++ [first]).count head + (n head + 0) = s.removed.count head
    rw [List.count_append, List.count_singleton, ← hhead]
    simp only [beq_iff_eq, Option.some.injEq]
    omega
  | callSchedule me wakes | callModTimer me wakes =>
    simp only [step, Option.some.injEq, Prod.mk.injEq] at h
    obtain ⟨rfl, rfl⟩ := h
    simp only [Pc.inFlight_of_runs_none (runs_callReturn me wakes)]
    exact hI
  | _ =>
    simp only [step] at h
    repeat' split at h
    all_goals simp only [Option.some.injEq, Prod.mk.injEq, reduceCtorEq] at h
    all_goals obtain ⟨rfl, rfl⟩ := h
    all_goals exact hI

theorem enter_finished {me : Nat} {s s' : Rdp} {call : Call} {pc : Pc}
    (h : enter me s call = some (s', pc)) :
    s'.finished = s.finished ∧ s'.removed = s.removed := by
  cases call <;>
  · simp only [enter] at h
    repeat' split at h
    all_goals simp only [Option.some.injEq, Prod.mk.injEq, reduceCtorEq] at h
    all_goals obtain ⟨rfl, rfl⟩ := h
    all_goals exact ⟨rfl, rfl⟩

theorem finished_of_reach (h : machine.Reach ok initial c) :
    Finished c.shared fun head => total (Pc.inFlight head) c.pool := by
  refine Machine.Reach.invariant
    (fun c => Finished c.shared fun head => total (Pc.inFlight head) c.pool) ?_ ?_ ?_ h
  · intro head
    rfl
  · intro c call s' pc _ hI _ hs
    obtain ⟨hfin, hrem⟩ := enter_finished hs
    intro head
    rw [hfin, hrem]
    simp only [total_append, Pc.inFlight_of_runs_none (enter_runs hs)]
    exact hI head
  · intro c i a pc s' pc' _ hI _ hi hs
    simp only [total_eq_others _ hi] at hI
    simp only [total_set _ pc' hi]
    exact step_finished hs hI

/-! ### The condition -/

/-- A runner unlinks the head of a barrier only when no callback is in flight. -/
def aloneAtBarrier (c : Config Rdp Pc) : Event Call Unit → Bool
  | .start _ => true
  | .act i _ =>
      match c.pool[i]?, c.shared.nxt.first with
      | some (.runLock _), some head =>
          !(c.shared.wakes head &&
            rcuBatchBefore (c.shared.headGeneration head) c.shared.generation) ||
          decide (total Pc.busy c.pool = 0)
      | _, _ => true

/-- The runs in which the condition holds at every event. -/
abbrev AloneReach : Config Rdp Pc → Prop :=
  machine.Reach (fun c e => aloneAtBarrier c e = true) initial

/-- Every head that was queued before `me` has had its callback return. -/
def Rdp.Passed (s : Rdp) (me : Nat) : Prop :=
  ∃ before after, s.enqueued = before ++ me :: after ∧ ∀ head ∈ before, head ∈ s.finished

theorem Rdp.Passed.mono {s s' : Rdp} {me : Nat} (h : s.Passed me)
    (henq : s.enqueued <+: s'.enqueued) (hfin : s.finished ⊆ s'.finished) : s'.Passed me := by
  obtain ⟨before, after, hsplit, hall⟩ := h
  obtain ⟨rest, hrest⟩ := henq
  refine ⟨before, after ++ rest, ?_, ?_⟩
  · rw [← hrest, hsplit, List.append_assoc, List.cons_append]
  · intro head hmem
    exact hfin (hall head hmem)

/-- A runner that takes up the head of a barrier in such a run finds everything before
    it finished. -/
theorem passed_of_first (h : machine.Reach ok initial c) {head : Nat}
    (hfirst : c.shared.nxt.first = some head) (halone : total Pc.busy c.pool = 0) :
    c.shared.Passed head := by
  obtain ⟨l, hQ⟩ := queue_of_reach h
  have hhead := hQ.represents.first
  rw [hfirst] at hhead
  cases l with
  | nil => cases hhead
  | cons first rest =>
    simp only [List.head?_cons, Option.some.injEq] at hhead
    subst hhead
    refine ⟨c.shared.removed, rest, hQ.history, ?_⟩
    intro earlier hmem
    have hcount := finished_of_reach h earlier
    have hnone : total (Pc.inFlight earlier) c.pool = 0 := by
      have hle := total_le_total fun pc (_ : pc ∈ c.pool) => pc.inFlight_le_busy earlier
      omega
    have hpos := List.count_pos_iff.mpr hmem
    simp only [hnone] at hcount
    exact List.count_pos_iff.mp (by omega)

/-- Histories only grow. -/
theorem step_grows {s s' : Rdp} {pc pc' : Pc} (h : step s pc = some (s', pc')) :
    s.enqueued <+: s'.enqueued ∧ s.finished ⊆ s'.finished := by
  cases pc with
  | runLock r =>
    simp only [step] at h
    split at h
    · cases h
    · simp only [Option.some.injEq] at h
      obtain ⟨ok, rfl, -, -⟩ | ⟨first, -, -, -, rfl⟩ := callbackLoop_cases h <;>
        exact ⟨List.prefix_rfl, List.Subset.refl _⟩
  | callLock me wakes =>
    simp only [step] at h
    split at h
    · cases h
    · simp only [Option.some.injEq, Prod.mk.injEq] at h
      obtain ⟨rfl, rfl⟩ := h
      exact ⟨List.prefix_append _ _, List.Subset.refl _⟩
  | executing r head =>
    simp only [step, Option.some.injEq, Prod.mk.injEq] at h
    obtain ⟨rfl, rfl⟩ := h
    exact ⟨List.prefix_rfl, List.subset_append_left _ _⟩
  | _ =>
    simp only [step] at h
    repeat' split at h
    all_goals simp only [Option.some.injEq, Prod.mk.injEq, reduceCtorEq] at h
    all_goals obtain ⟨rfl, rfl⟩ := h
    all_goals exact ⟨List.prefix_rfl, List.Subset.refl _⟩

/-- Only the callback of a barrier completes it. -/
theorem step_completion {s s' : Rdp} {pc pc' : Pc} {me : Nat} (h : step s pc = some (s', pc'))
    (hme : s'.completion me = true) :
    s.completion me = true ∨ (pc.runs = some me ∧ s.wakes me = true) := by
  cases pc with
  | runLock r =>
    simp only [step] at h
    split at h
    · cases h
    · simp only [Option.some.injEq] at h
      obtain ⟨ok, rfl, -, -⟩ | ⟨first, -, -, -, rfl⟩ := callbackLoop_cases h <;> exact Or.inl hme
  | executing r head =>
    simp only [step, Option.some.injEq, Prod.mk.injEq] at h
    obtain ⟨rfl, rfl⟩ := h
    change (if s.wakes head = true then Function.update s.completion head true
      else s.completion) me = true at hme
    by_cases hwakes : s.wakes head = true
    · rw [if_pos hwakes] at hme
      by_cases heq : me = head
      · subst heq
        exact Or.inr ⟨rfl, hwakes⟩
      · rw [Function.update_of_ne heq] at hme
        exact Or.inl hme
    · rw [if_neg hwakes] at hme
      exact Or.inl hme
  | _ =>
    simp only [step] at h
    repeat' split at h
    all_goals simp only [Option.some.injEq, Prod.mk.injEq, reduceCtorEq] at h
    all_goals obtain ⟨rfl, rfl⟩ := h
    all_goals exact Or.inl hme

theorem step_synced {s s' : Rdp} {pc : Pc} {me : Nat} (h : step s pc = some (s', .synced me)) :
    s.completion me = true := by
  cases pc with
  | runLock r =>
    simp only [step] at h
    split at h
    · cases h
    · simp only [Option.some.injEq] at h
      obtain ⟨ok, -, hpc, -⟩ | ⟨first, -, -, hpc, -⟩ := callbackLoop_cases h <;> cases hpc
  | syncWait m =>
    simp only [step] at h
    split at h
    · rename_i hdone
      simp only [Option.some.injEq, Prod.mk.injEq, Pc.synced.injEq] at h
      rw [← h.2]
      exact hdone
    · cases h
  | callSchedule m wakes | callModTimer m wakes =>
    simp only [step, Option.some.injEq, Prod.mk.injEq] at h
    cases wakes <;> cases h.2
  | _ =>
    simp only [step] at h
    repeat' split at h
    all_goals simp only [Option.some.injEq, Prod.mk.injEq, reduceCtorEq, and_false] at h

/-- What the calls of a run know about the barriers. -/
structure Barriers (c : Config Rdp Pc) : Prop where
  completed : ∀ me, c.shared.completion me = true → c.shared.Passed me
  runs : Each (fun _ pc => ∀ head, pc.runs = some head → c.shared.wakes head = true →
    c.shared.Passed head) c.pool
  synced : Each (fun _ pc => ∀ me, pc = .synced me → c.shared.Passed me) c.pool

theorem enter_synced {me : Nat} {s s' : Rdp} {call : Call} {pc : Pc}
    (h : enter me s call = some (s', pc)) :
    (∀ m, pc ≠ .synced m) ∧ ∀ m, s'.completion m = true → s.completion m = true := by
  cases call <;>
  · simp only [enter] at h
    repeat' split at h
    all_goals simp only [Option.some.injEq, Prod.mk.injEq, reduceCtorEq] at h
    all_goals obtain ⟨rfl, rfl⟩ := h
    all_goals refine ⟨fun m => by simp, ?_⟩
    all_goals intro m hm
    all_goals first
      | exact hm
      | (change Function.update s.completion me false m = true at hm
         by_cases hne : m = me
         · subst hne
           rw [Function.update_self] at hm
           cases hm
         · rw [Function.update_of_ne hne] at hm
           exact hm)

theorem barriers_of_reach (h : AloneReach c) : Barriers c := by
  refine Machine.Reach.invariant Barriers ?_ ?_ ?_ h
  · refine ⟨?_, each_nil _, each_nil _⟩
    intro me hme
    cases hme
  · intro c call s' pc _ hI _ hs
    obtain ⟨henq, -, -, hwakes, -, -⟩ := enter_enqueued hs
    obtain ⟨hnot, hcompletion⟩ := enter_synced hs
    have hkeep : ∀ me, c.shared.Passed me → s'.Passed me := by
      intro me hP
      apply hP.mono
      · exact henq ▸ List.prefix_rfl
      · rw [(enter_finished hs).1]
        exact List.Subset.refl _
    refine ⟨?_, ?_, ?_⟩
    · intro me hme
      exact hkeep me (hI.completed me (hcompletion me hme))
    · refine hI.runs.append ?_ ?_
      · intro j u _ hu head hr hw
        rw [hwakes] at hw
        exact hkeep head (hu head hr hw)
      · intro head hr
        rw [enter_runs hs] at hr
        cases hr
    · refine hI.synced.append ?_ ?_
      · intro j u _ hu me hme
        exact hkeep me (hu me hme)
      · intro me hme
        exact absurd hme (hnot me)
  · intro c i a pc s' pc' hc hI hok hi hs
    have hstep : step c.shared pc = some (s', pc') := hs
    obtain ⟨henq, hfin⟩ := step_grows hstep
    have hkeep : ∀ me, c.shared.Passed me → s'.Passed me := fun me hP => hP.mono henq hfin
    -- a head in flight keeps its function: nobody queues it again
    have hwakes : ∀ head, head ∈ c.shared.enqueued → s'.wakes head = c.shared.wakes head := by
      intro head hmem
      rcases step_enqueued hstep with ⟨-, -, -, hsame, -⟩ | ⟨me, wakes, rfl, -, rfl, -⟩
      · rw [hsame]
      · have hne : head ≠ me := by
          rintro rfl
          exact ((unqueued_of_reach hc).own i _ hi head rfl).2 hmem
        exact Function.update_of_ne hne ..
    have hqueued := waited_of_runs hc
    refine ⟨?_, ?_, ?_⟩
    · intro me hme
      rcases step_completion hstep hme with hold | ⟨hr, hw⟩
      · exact hkeep me (hI.completed me hold)
      · exact hkeep me (hI.runs i pc hi me hr hw)
    · refine hI.runs.set ?_ ?_
      · intro j u _ hj hu head hr hw
        rw [hwakes head (hqueued j u hj head hr).1] at hw
        exact hkeep head (hu head hr hw)
      · intro head hr hw
        rcases step_runs hstep hr with hold | ⟨r, rfl, hfirst, hlt⟩
        · rw [hwakes head (hqueued i pc hi head hold).1] at hw
          exact hkeep head (hI.runs i pc hi head hold hw)
        · obtain ⟨l, hQ⟩ := queue_of_reach hc
          rw [hwakes head (hQ.first_mem hfirst)] at hw
          have hbefore : rcuBatchBefore (c.shared.headGeneration head) c.shared.generation := by
            simp only [rcuBatchBefore, decide_eq_true_eq]
            omega
          simp only [aloneAtBarrier, hi, hfirst, hw, hbefore, Bool.and_self, Bool.not_true,
            Bool.false_or, decide_eq_true_eq] at hok
          exact hkeep head (passed_of_first hc hfirst hok)
    · refine hI.synced.set ?_ ?_
      · intro j u _ _ hu me hme
        exact hkeep me (hu me hme)
      · rintro me rfl
        exact hkeep me (hI.completed me (step_synced hstep))

/-- **Barrier.**  In every run in which a runner takes up the head of a barrier only
    when no callback is in flight: when a barrier has returned, the callback of every
    head that was queued before its own has returned. -/
theorem barrier_waits_for_earlier (h : AloneReach c) {i me : Nat}
    (hi : c.pool[i]? = some (.synced me)) :
    c.shared.enqueued.Nodup ∧ ∃ before after, c.shared.enqueued = before ++ me :: after ∧
      ∀ head ∈ before, head ∈ c.shared.finished :=
  ⟨enqueued_nodup_of_reach h, (barriers_of_reach h).synced i _ hi me rfl⟩

/-- Call 0 queues a head and call 1 is a barrier; the tasklet, call 2, runs both
    callbacks. -/
def barrierRun : List (Event Call Unit) :=
  [.start .callRcu, .act 0 (), .act 0 (), .act 0 (), .act 0 (),
    .start .synchronizeRcu, .act 1 (), .act 1 (), .act 1 (), .act 1 (),
    .start .tasklet, .act 2 (), .act 2 (), .act 2 (), .act 2 (), .act 2 (), .act 2 (),
    .act 1 ()]

theorem barrier_waits_for_callback : ∃ c, AloneReach c ∧ c.pool[1]? = some (.synced 1) ∧
    c.shared.enqueued = [0, 1] ∧ c.shared.enqueued.Nodup := by
  obtain ⟨c, hc, hobs⟩ := machine.exists_reach_of_runIf aloneAtBarrier barrierRun initial
    (fun c => (c.pool[1]?, c.shared.enqueued)) (some (.synced 1), [0, 1]) (by decide)
  simp only [Prod.mk.injEq] at hobs
  exact ⟨c, hc, hobs.1, hobs.2, (barrier_waits_for_earlier hc hobs.1).1⟩

/-- Call 0 reads while call 1 queues a head and arms the timer; then call 2 is a barrier
    and schedules the tasklet.  The tasklet, call 3, is in the callback of the first
    head when the timer expires, and the handler, call 4, runs that of the barrier. -/
def overtakingRun : List (Event Call Unit) :=
  [.start .read, .start .callRcu, .act 1 (), .act 1 (), .act 1 (), .act 1 (),
    .act 0 (), .act 0 (), .act 0 (), .act 0 (), .act 0 (),
    .start .synchronizeRcu, .act 2 (), .act 2 (), .act 2 (), .act 2 (),
    .start .tasklet, .act 3 (), .act 3 (),
    .start .timer, .act 4 (), .act 4 (), .act 4 (), .act 4 (), .act 4 (), .act 4 (),
    .act 2 ()]

/-- Without the condition a barrier may return while the callback of an earlier head is
    running. -/
theorem barrier_overtakes_callback : ∃ c, machine.Reachable initial c ∧
    c.pool[2]? = some (.synced 2) ∧ c.shared.enqueued = [1, 2] ∧
    c.pool[3]? = some (.executing .tasklet 1) ∧ 1 ∉ c.shared.finished := by
  obtain ⟨c, hc, hobs⟩ := machine.exists_reachable_of_run overtakingRun initial
    (fun c => (c.pool[2]?, c.shared.enqueued, c.pool[3]?, c.shared.finished))
    (some (.synced 2), [1, 2], some (.executing .tasklet 1), [2]) (by decide)
  simp only [Prod.mk.injEq] at hobs
  obtain ⟨hsynced, henq, hrun, hfin⟩ := hobs
  refine ⟨c, hc, hsynced, henq, hrun, ?_⟩
  rw [hfin]
  decide

end VmkLinux.Rcu
