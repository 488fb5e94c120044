/-
  VmkLinux/Workqueue/Destroy.lean
  ===============================
  **Destroying a queue**, and what the assertions of `destroy_workqueue` rest on.

  `destroy_workqueue` raises `setExitFlag`, flushes, waits for the posted requests
  and then asserts that nothing is left.  That is right as long as its plunger is
  the last entry ever put on `head`, and no cancel is asleep on the queue.
  `vmklnx_queue_work` tests the exit flag, but `delayed_work_timer_fn` does not:
  an armed delay timer may put its item on `head` after the flush, and then the
  assertion on `qLen` fails (`late_timer_fails_assert`).  `quietDestroy` is the
  condition on the steps of a run under which the assertions hold.
-/
import VmkLinux.Workqueue.Dispatch
import VmkLinux.Workqueue.Flush

namespace VmkLinux.Workqueue

open VmkLinux.Interleave

/-! ### Roles -/

def Flush.closing (f : Flush) : Nat := if f.destroying then 1 else 0

def Flush.waiting (f : Flush) : Nat := if f.destroying then 0 else 1

def Ret.destroyer : Ret → Nat
  | .done _ => 0
  | .flush f _ => f.closing

def Ret.flushing : Ret → Nat
  | .done _ => 0
  | .flush f _ => f.waiting

def Ret.holdsMutex : Ret → Nat
  | .done _ => 0
  | .flush _ _ => 1

/-- The call of `destroy_workqueue` that raised the exit flag. -/
def Pc.destroyer : Pc → Nat
  | .submit k | .submitFailed k | .armDelay k | .relock k => k.destroyer
  | .flushMutexLock f | .flushInit f | .flushQueue f | .flushWait f _ | .flushLock f _
  | .flushSleep f _ | .flushMutexUnlock f _ => f.closing
  | .destroyLock _ | .destroyCheck _ | .destroyDelTimer _ | .destroyFree _ | .destroyed _ => 1
  | _ => 0

/-- That call, once its plunger is queued. -/
def Pc.closing : Pc → Nat
  | .submit k | .submitFailed k | .armDelay k | .relock k => k.destroyer
  | .flushWait f _ | .flushLock f _ | .flushSleep f _ | .flushMutexUnlock f _ => f.closing
  | .destroyLock _ | .destroyCheck _ | .destroyDelTimer _ | .destroyFree _ | .destroyed _ => 1
  | _ => 0

/-- Flushes by others whose plunger is queued. -/
def Pc.flushing : Pc → Nat
  | .submit k | .submitFailed k | .armDelay k | .relock k => k.flushing
  | .flushWait f _ | .flushLock f _ | .flushSleep f _ | .flushMutexUnlock f _ => f.waiting
  | _ => 0

/-- Calls that hold `flushMutex`. -/
def Pc.holdsMutex : Pc → Nat
  | .submit k | .submitFailed k | .armDelay k | .relock k => k.holdsMutex
  | .flushInit _ | .flushQueue _ | .flushWait _ _ | .flushLock _ _ | .flushSleep _ _
  | .flushMutexUnlock _ _ => 1
  | _ => 0

/-- Calls of `vmklnx_cancel_work_sync` in progress. -/
def Pc.cancelling : Pc → Nat
  | .cancelGrab _ | .cancelTimer _ | .cancelData _ | .cancelLock _ | .cancelSleep _
  | .cancelClear _ _ => 1
  | _ => 0

/-- How many calls play each role. -/
structure Roles where
  destroyer : Nat
  closing : Nat
  flushing : Nat
  holdsMutex : Nat
  cancelling : Nat

def Roles.of (pool : List Pc) : Roles :=
  ⟨total Pc.destroyer pool, total Pc.closing pool, total Pc.flushing pool,
    total Pc.holdsMutex pool, total Pc.cancelling pool⟩

def Roles.add (r : Roles) (pc : Pc) : Roles :=
  ⟨r.destroyer + pc.destroyer, r.closing + pc.closing, r.flushing + pc.flushing,
    r.holdsMutex + pc.holdsMutex, r.cancelling + pc.cancelling⟩

def Roles.others (pool : List Pc) (i : Nat) : Roles :=
  ⟨Interleave.others Pc.destroyer pool i, Interleave.others Pc.closing pool i,
    Interleave.others Pc.flushing pool i, Interleave.others Pc.holdsMutex pool i,
    Interleave.others Pc.cancelling pool i⟩

theorem Roles.of_eq_others {pool : List Pc} {i : Nat} {pc : Pc} (h : pool[i]? = some pc) :
    Roles.of pool = (Roles.others pool i).add pc := by
  simp only [Roles.of, Roles.others, Roles.add, total_eq_others _ h]

theorem Roles.of_set {pool : List Pc} {i : Nat} {pc : Pc} (pc' : Pc) (h : pool[i]? = some pc) :
    Roles.of (pool.set i pc') = (Roles.others pool i).add pc' := by
  simp only [Roles.of, Roles.others, Roles.add, total_set _ pc' h]

theorem Roles.of_append (pool : List Pc) (pc : Pc) :
    Roles.of (pool ++ [pc]) = (Roles.of pool).add pc := by
  simp only [Roles.of, Roles.add, total_append]

theorem Roles.add_pc (r : Roles) (k : Ret) : r.add k.pc = r.add (.relock k) := by
  cases k <;> rfl

theorem Roles.add_next (r : Roles) (c : Cancel) : r.add c.next = r.add (.cancelGrab c) := by
  unfold Cancel.next
  split <;> rfl

/-- One call raises the exit flag, one holds the mutex, and while the plunger of a
    `destroy_workqueue` is queued nobody else waits in a flush or cancels. -/
def Quiet (s : Wq) (r : Roles) : Prop :=
  (r.destroyer = if s.setExitFlag then 1 else 0) ∧
  (r.holdsMutex = if s.flushMutex then 1 else 0) ∧
  (0 < r.closing → r.flushing = 0) ∧
  (s.setExitFlag = true → r.cancelling = 0)

/-! ### The condition -/

/-- What the caller of `destroy_workqueue` has to see to: nothing is put on `head`
    behind the plunger of the destroyer, and no cancel overlaps it. -/
def quietDestroy (c : Config Wq Pc) : Event Call Bool → Bool
  | .start (.cancel _ _) => !c.shared.setExitFlag
  | .start _ => true
  | .act i _ =>
      match c.pool[i]? with
      | some (.queueLock _ _) => total Pc.closing c.pool = 0
      | some (.flushQueue f) => f.destroying || total Pc.closing c.pool = 0
      | some (.destroyExitFlag _) => c.shared.setExitFlag || total Pc.cancelling c.pool = 0
      | _ => true

theorem Quiet.dispatchLoop {s s' : Wq} {k : Ret} {pc : Pc} {r : Roles}
    (hI : Quiet s (r.add (.relock k))) (h : dispatchLoop s k = (s', pc)) :
    Quiet s' (r.add pc) := by
  obtain ⟨rfl, rfl, -⟩ | ⟨rfl, rfl, -⟩ := dispatchLoop_cases h
  · exact hI
  · rw [Roles.add_pc]
    exact hI

theorem Quiet.vmklnxWorkqueueDispatch {s s' : Wq} {k : Ret} {pc : Pc} {r : Roles}
    (hI : Quiet s (r.add (.relock k))) (h : vmklnxWorkqueueDispatch s k = (s', pc)) :
    Quiet s' (r.add pc) := by
  unfold Workqueue.vmklnxWorkqueueDispatch at h
  refine Quiet.dispatchLoop ?_ h
  exact hI

theorem Quiet.cancelScan {s s' : Wq} {cl : Cancel} {pc : Pc} {r : Roles}
    (hI : Quiet s (r.add (.cancelGrab cl))) (h : cancelScan s cl = (s', pc)) :
    Quiet s' (r.add pc) := by
  obtain ⟨rfl, rfl, -⟩ | ⟨rfl, rfl, -⟩ := cancelScan_cases h
  · exact hI
  · rw [Roles.add_next]
    exact hI

theorem Pc.closing_le_destroyer (pc : Pc) : pc.closing ≤ pc.destroyer := by
  cases pc <;> simp [Pc.closing, Pc.destroyer]

theorem Pc.flushing_le_holdsMutex (pc : Pc) : pc.flushing ≤ pc.holdsMutex := by
  have hwait : ∀ f : Flush, f.waiting ≤ 1 := by
    intro f
    unfold Flush.waiting
    split <;> omega
  have hret : ∀ k : Ret, k.flushing ≤ k.holdsMutex := by
    intro k
    cases k with
    | done => exact Nat.le_refl _
    | flush f p => exact hwait f
  cases pc <;> simp [Pc.flushing, Pc.holdsMutex, hwait, hret]

section Roles

variable {s : Wq} {r : Roles} {f : Flush} {p : Nat}

/-- A call that holds `flushMutex` is the only one. -/
theorem Quiet.alone {pc : Pc} (hI : Quiet s (r.add pc)) (hpc : pc.holdsMutex = 1) :
    r.holdsMutex = 0 := by
  have hmutex : r.holdsMutex + pc.holdsMutex = if s.flushMutex then 1 else 0 := hI.2.1
  split at hmutex <;> omega

/-- Behind its plunger a destroyer finds nobody who waits in a flush, since it has the mutex;
    another flush finds no destroyer that has queued its plunger. -/
theorem Quiet.queuePlunger (hI : Quiet s (r.add (.flushQueue f)))
    (hflush : r.flushing ≤ r.holdsMutex) (hqueue : f.destroying = false → r.closing = 0) :
    Quiet (queueWork s (.plunger f.me)) (r.add (.relock (.flush f p))) := by
  have halone := hI.alone rfl
  obtain ⟨hdest, hmutex, -, hcancel⟩ := hI
  refine ⟨hdest, hmutex, ?_, hcancel⟩
  change 0 < r.closing + f.closing → r.flushing + f.waiting = 0
  unfold Flush.closing Flush.waiting
  cases hf : f.destroying with
  | true =>
    simp only [if_true]
    omega
  | false =>
    rw [hqueue hf]
    simp

theorem Quiet.lockMutex (hI : Quiet s (r.add (.flushMutexLock f))) (hfree : s.flushMutex = false) :
    Quiet { s with flushMutex := true } (r.add (.flushInit f)) := by
  obtain ⟨hdest, hmutex, hclose, hcancel⟩ := hI
  refine ⟨hdest, ?_, hclose, hcancel⟩
  rw [hfree] at hmutex
  change r.holdsMutex + 0 = 0 at hmutex
  change r.holdsMutex + 1 = 1
  omega

/-- A destroyer goes on to wait for `curPosted`, a flush returns. -/
theorem Quiet.unlockMutex (hI : Quiet s (r.add (.flushMutexUnlock f p))) :
    Quiet { s with flushMutex := false }
      (r.add (if f.destroying then .destroyLock p else .flushed p)) := by
  have halone := hI.alone rfl
  obtain ⟨hdest, -, hclose, hcancel⟩ := hI
  change r.destroyer + f.closing = _ at hdest
  change 0 < r.closing + f.closing → r.flushing + f.waiting = 0 at hclose
  unfold Flush.closing at hdest hclose
  unfold Flush.waiting at hclose
  cases hf : f.destroying with
  | true =>
    simp only [hf, if_true] at hdest hclose
    exact ⟨hdest, halone, hclose, hcancel⟩
  | false =>
    simp only [hf, if_false, Bool.false_eq_true] at hdest hclose
    refine ⟨hdest, halone, ?_, hcancel⟩
    change 0 < r.closing + 0 → r.flushing + 0 = 0
    omega

theorem Quiet.raiseExitFlag {me : Nat} (hI : Quiet s (r.add (.destroyExitFlag me)))
    (hflag : s.setExitFlag = false) (hexit : r.cancelling = 0) :
    Quiet { s with setExitFlag := true } (r.add (.flushMutexLock ⟨me, true⟩)) := by
  obtain ⟨hdest, hmutex, hclose, -⟩ := hI
  refine ⟨?_, hmutex, hclose, fun _ => hexit⟩
  rw [hflag] at hdest
  change r.destroyer + 0 = 0 at hdest
  change r.destroyer + 1 = 1
  omega

theorem Quiet.endCancel {i ret : Nat} {pending : Work → Bool}
    (hI : Quiet s (r.add (.cancelClear i ret))) :
    Quiet { s with pending := pending } (r.add (.done ret)) := by
  obtain ⟨hdest, hmutex, hclose, hcancel⟩ := hI
  refine ⟨hdest, hmutex, hclose, fun hflag => ?_⟩
  have hnone := hcancel hflag
  change r.cancelling + 1 = 0 at hnone
  omega

end Roles

/-- One step keeps the roles apart; `r` counts the other calls.  The last two
    hypotheses are the condition on the steps that queue a plunger and that raise
    the exit flag. -/
theorem step_quiet {b : Bool} {s s' : Wq} {pc pc' : Pc} {r : Roles}
    (h : step b s pc = some (s', pc')) (hflush : r.flushing ≤ r.holdsMutex)
    (hqueue : ∀ f, pc = .flushQueue f → f.destroying = false → r.closing = 0)
    (hexit : ∀ me, pc = .destroyExitFlag me → s.setExitFlag = false → r.cancelling = 0)
    (hI : Quiet s (r.add pc)) : Quiet s' (r.add pc') := by
  cases pc with
  | queueLock i ret =>
    simp only [step, Option.some.injEq] at h
    exact Quiet.vmklnxWorkqueueDispatch (s := queueWork s (.item i)) (k := .done ret) hI h
  | flushQueue f =>
    simp only [step, Option.some.injEq] at h
    exact (hI.queuePlunger hflush (hqueue f rfl)).vmklnxWorkqueueDispatch h
  | relock k =>
    simp only [step, Option.some.injEq] at h
    exact Quiet.dispatchLoop hI h
  | calloutLock slot ticket =>
    simp only [step, Option.some.injEq] at h
    exact Quiet.vmklnxWorkqueueDispatch (s := calloutDone s slot) (k := .done 0) hI h
  | callback w slot ticket =>
    cases w <;>
    · simp only [step, Option.some.injEq, Prod.mk.injEq] at h
      obtain ⟨rfl, rfl⟩ := h
      exact hI
  | flushMutexLock f =>
    simp only [step] at h
    split at h
    · cases h
    · rename_i hfree
      simp only [Option.some.injEq, Prod.mk.injEq] at h
      obtain ⟨rfl, rfl⟩ := h
      exact hI.lockMutex (Bool.eq_false_iff.mpr hfree)
  | flushMutexUnlock f p =>
    have hI' := hI.unlockMutex
    simp only [step] at h
    split at h <;> rename_i hf
    all_goals
      simp only [Option.some.injEq, Prod.mk.injEq] at h
      obtain ⟨rfl, rfl⟩ := h
      simpa only [hf, if_true, if_false, Bool.false_eq_true] using hI'
  | destroyExitFlag me =>
    simp only [step] at h
    split at h
    · simp only [Option.some.injEq, Prod.mk.injEq] at h
      obtain ⟨rfl, rfl⟩ := h
      exact hI
    · rename_i hflag
      have hflag : s.setExitFlag = false := Bool.eq_false_iff.mpr hflag
      simp only [Option.some.injEq, Prod.mk.injEq] at h
      obtain ⟨rfl, rfl⟩ := h
      exact hI.raiseExitFlag hflag (hexit me rfl hflag)
  | cancelLock cl =>
    have hremove : Quiet (cancelRemove s cl).1 (r.add (.cancelLock cl)) := by
      rcases cancelRemove_cases s cl with hr | ⟨-, -, ok, hr⟩ <;> rw [hr] <;> exact hI
    simp only [step] at h
    split at h
    · simp only [Option.some.injEq] at h
      exact Quiet.cancelScan hremove h
    · simp only [Option.some.injEq, Prod.mk.injEq] at h
      obtain ⟨rfl, rfl⟩ := h
      rw [Roles.add_next]
      exact hI
  | cancelSleep cl =>
    simp only [step, Option.some.injEq] at h
    exact Quiet.cancelScan (s := { s with waiting := s.waiting - 1 }) hI h
  | cancelClear i ret =>
    simp only [step, Option.some.injEq, Prod.mk.injEq] at h
    obtain ⟨rfl, rfl⟩ := h
    exact hI.endCancel
  | _ =>
    simp only [step, flushTest] at h
    repeat' split at h
    all_goals simp only [Option.some.injEq, Prod.mk.injEq, reduceCtorEq] at h
    all_goals obtain ⟨rfl, rfl⟩ := h
    all_goals first
      | exact hI
      | (rw [Roles.add_pc]; exact hI)
      | (rw [Roles.add_next]; exact hI)

theorem enter_quiet {me : Nat} {s s' : Wq} {call : Call} {pc : Pc} {r : Roles}
    (h : enter me s call = some (s', pc))
    (hcancel : ∀ i timer, call = .cancel i timer → s.setExitFlag = false)
    (hI : Quiet s r) : Quiet s' (r.add pc) := by
  cases call with
  | callout =>
    simp only [enter] at h
    split at h
    · cases h
    · simp only [Option.some.injEq] at h
      obtain ⟨ok, rfl, rfl, -⟩ | ⟨e, head, wt, free, ok, -, -, -, rfl, rfl⟩ :=
        vmklnxWorkqueueCallout_cases h <;> exact hI
  | timeout =>
    simp only [enter] at h
    split at h
    · simp only [Option.some.injEq] at h
      exact Quiet.vmklnxWorkqueueDispatch (s := { s with delayTimer := false }) (k := .done 0) hI h
    · cases h
  | cancel i timer =>
    simp only [enter, Option.some.injEq, Prod.mk.injEq] at h
    obtain ⟨rfl, rfl⟩ := h
    obtain ⟨hdest, hmutex, hclose, -⟩ := hI
    refine ⟨hdest, hmutex, hclose, fun hflag => ?_⟩
    rw [hcancel i timer rfl] at hflag
    cases hflag
  | _ =>
    simp only [enter] at h
    repeat' split at h
    all_goals simp only [Option.some.injEq, Prod.mk.injEq, reduceCtorEq] at h
    all_goals obtain ⟨rfl, rfl⟩ := h
    all_goals exact hI

/-- The runs in which the condition holds at every event. -/
abbrev QuietReach (maxDispatch : Nat) : Config Wq Pc → Prop :=
  machine.Reach (fun c e => quietDestroy c e = true) (initial maxDispatch)

variable {maxDispatch : Nat} {c : Config Wq Pc}

/-- What the condition says of a step that queues an entry. -/
theorem quietDestroy_queues {i : Nat} {b : Bool} {pc pc' : Pc} {s' : Wq}
    (hok : quietDestroy c (.act i b) = true) (hi : c.pool[i]? = some pc)
    (hs : step b c.shared pc = some (s', pc')) :
    s'.queued = c.shared.queued ∨ (∃ f, pc = .flushQueue f ∧ f.destroying = true) ∨
      total Pc.closing c.pool = 0 := by
  simp only [quietDestroy, hi] at hok
  rcases step_queued hs with ⟨hsame, -⟩ | ⟨-, w, hqueued, hw⟩
  · exact Or.inl hsame
  · cases pc with
    | queueLock j ret =>
      simp only [decide_eq_true_eq] at hok
      exact Or.inr (Or.inr hok)
    | flushQueue f =>
      simp only [Bool.or_eq_true, decide_eq_true_eq] at hok
      rcases hok with hf | hnone
      · exact Or.inr (Or.inl ⟨f, rfl, hf⟩)
      · exact Or.inr (Or.inr hnone)
    | _ => cases hw

theorem quiet_of_reach (h : QuietReach maxDispatch c) : Quiet c.shared (Roles.of c.pool) := by
  refine Machine.Reach.invariant (fun c => Quiet c.shared (Roles.of c.pool)) ?_ ?_ ?_ h
  · refine ⟨rfl, rfl, fun _ => rfl, fun _ => rfl⟩
  · intro c call s' pc _ hI hok hs
    rw [Roles.of_append]
    refine enter_quiet (machine_start hs).2 ?_ hI
    rintro i timer rfl
    simpa [quietDestroy] using hok
  · intro c i b pc s' pc' _ hI hok hi hs
    rw [Roles.of_eq_others hi] at hI
    rw [Roles.of_set pc' hi]
    simp only [quietDestroy, hi] at hok
    refine step_quiet (machine_act hs).2 ?_ ?_ ?_ hI
    · exact total_le_total fun pc _ => pc.flushing_le_holdsMutex
    · rintro f rfl hf
      simp only [hf, Bool.false_or, decide_eq_true_eq] at hok
      rw [total_eq_others _ hi] at hok
      change Interleave.others Pc.closing c.pool i = 0
      omega
    · rintro me rfl hflag
      simp only [hflag, Bool.false_or, decide_eq_true_eq] at hok
      rw [total_eq_others _ hi] at hok
      change Interleave.others Pc.cancelling c.pool i = 0
      omega

/-- There is one destroyer. -/
theorem one_destroyer (h : QuietReach maxDispatch c) {i j : Nat} {pc u : Pc}
    (hi : c.pool[i]? = some pc) (hpc : pc.destroyer = 1) (hji : j ≠ i)
    (hj : c.pool[j]? = some u) : u.destroyer = 0 := by
  have hone := (quiet_of_reach h).1
  change total Pc.destroyer c.pool = _ at hone
  rw [total_eq_others Pc.destroyer hi, hpc] at hone
  have hle := le_others Pc.destroyer hji hj
  split at hone <;> omega

/-! ### The last plunger -/

def Flush.closingTicket (f : Flush) (p : Nat) : Option Nat := if f.destroying then some p else none

def Ret.closingTicket : Ret → Option Nat
  | .done _ => none
  | .flush f p => f.closingTicket p

/-- The ticket of the plunger of a `destroy_workqueue`. -/
def Pc.closingTicket : Pc → Option Nat
  | .submit k | .submitFailed k | .armDelay k | .relock k => k.closingTicket
  | .flushWait f p | .flushLock f p | .flushSleep f p | .flushMutexUnlock f p => f.closingTicket p
  | .destroyLock p | .destroyCheck p | .destroyDelTimer p | .destroyFree p | .destroyed p => some p
  | _ => none

@[simp] theorem Ret.closingTicket_pc (k : Ret) : k.pc.closingTicket = k.closingTicket := by
  cases k <;> rfl

@[simp] theorem Cancel.closingTicket_next (c : Cancel) : c.next.closingTicket = none := by
  unfold Cancel.next
  split <;> rfl

theorem Flush.closing_of_ticket {f : Flush} {p q : Nat} (h : f.closingTicket p = some q) :
    f.closing = 1 ∧ q = p := by
  unfold Flush.closingTicket at h
  split at h
  · rename_i hf
    simp only [Option.some.injEq] at h
    exact ⟨by simp [Flush.closing, hf], h.symm⟩
  · cases h

theorem Pc.closing_of_ticket {pc : Pc} {p : Nat} (h : pc.closingTicket = some p) :
    pc.closing = 1 := by
  cases pc with
  | submit k | submitFailed k | armDelay k | relock k =>
    cases k with
    | done ret => cases h
    | flush f q => exact (Flush.closing_of_ticket h).1
  | flushWait f q | flushLock f q | flushSleep f q | flushMutexUnlock f q =>
    exact (Flush.closing_of_ticket h).1
  | destroyLock | destroyCheck | destroyDelTimer | destroyFree | destroyed => rfl
  | _ => cases h

theorem dispatchLoop_closingTicket {s s' : Wq} {k : Ret} {pc : Pc}
    (h : dispatchLoop s k = (s', pc)) : pc.closingTicket = k.closingTicket := by
  obtain ⟨-, rfl, -⟩ | ⟨-, rfl, -⟩ := dispatchLoop_cases h
  · rfl
  · exact Ret.closingTicket_pc k

/-- A destroyer gets its ticket when it queues its plunger and keeps it. -/
theorem step_closingTicket {b : Bool} {s s' : Wq} {pc pc' : Pc} {p : Nat}
    (h : step b s pc = some (s', pc')) (hp : pc'.closingTicket = some p) :
    (pc.closingTicket = some p ∧ s'.queued = s.queued) ∨
    (p = s.queued.length ∧ s'.queued.length = s.queued.length + 1) := by
  cases pc with
  | queueLock i ret =>
    simp only [step, Option.some.injEq] at h
    rw [dispatchLoop_closingTicket h] at hp
    cases hp
  | calloutLock slot ticket =>
    simp only [step, Option.some.injEq] at h
    rw [dispatchLoop_closingTicket h] at hp
    cases hp
  | flushQueue f =>
    simp only [step, Option.some.injEq] at h
    rw [dispatchLoop_closingTicket h] at hp
    right
    refine ⟨(Flush.closing_of_ticket hp).2, ?_⟩
    have hqueued : s'.queued = s.queued ++ [.plunger f.me] := (dispatchLoop_unqueuedPlunger h).2
    rw [hqueued, List.length_append, List.length_singleton]
  | relock k =>
    simp only [step, Option.some.injEq] at h
    rw [dispatchLoop_closingTicket h] at hp
    exact Or.inl ⟨hp, (dispatchLoop_unqueuedPlunger h).2⟩
  | callback w slot ticket =>
    cases w <;>
    · simp only [step, Option.some.injEq, Prod.mk.injEq] at h
      obtain ⟨rfl, rfl⟩ := h
      cases hp
  | cancelLock cl =>
    simp only [step] at h
    split at h
    · simp only [Option.some.injEq] at h
      obtain ⟨-, rfl, -⟩ | ⟨-, rfl, -⟩ := cancelScan_cases h
      · cases hp
      · rw [Cancel.closingTicket_next] at hp
        cases hp
    · simp only [Option.some.injEq, Prod.mk.injEq] at h
      obtain ⟨rfl, rfl⟩ := h
      rw [Cancel.closingTicket_next] at hp
      cases hp
  | flushMutexUnlock f q =>
    simp only [step] at h
    split at h
    · rename_i hf
      simp only [Option.some.injEq, Prod.mk.injEq] at h
      obtain ⟨rfl, rfl⟩ := h
      refine Or.inl ⟨?_, rfl⟩
      simp only [Pc.closingTicket, Flush.closingTicket, hf, if_true]
      exact hp
    · simp only [Option.some.injEq, Prod.mk.injEq] at h
      obtain ⟨rfl, rfl⟩ := h
      cases hp
  | _ =>
    simp only [step, flushTest, cancelScan] at h
    repeat' split at h
    all_goals simp only [Option.some.injEq, Prod.mk.injEq, reduceCtorEq] at h
    all_goals obtain ⟨rfl, rfl⟩ := h
    all_goals try rw [Cancel.closingTicket_next] at hp
    all_goals try rw [Ret.closingTicket_pc] at hp
    all_goals exact Or.inl ⟨hp, rfl⟩

theorem enter_closingTicket {me : Nat} {s s' : Wq} {call : Call} {pc : Pc}
    (h : enter me s call = some (s', pc)) : pc.closingTicket = none := by
  cases call with
  | callout =>
    simp only [enter] at h
    split at h
    · cases h
    · simp only [Option.some.injEq] at h
      obtain ⟨ok, -, rfl, -⟩ | ⟨e, head, wt, free, ok, -, -, -, -, rfl⟩ :=
        vmklnxWorkqueueCallout_cases h <;> rfl
  | timeout =>
    simp only [enter] at h
    split at h
    · simp only [Option.some.injEq] at h
      exact dispatchLoop_closingTicket h
    · cases h
  | _ =>
    simp only [enter] at h
    repeat' split at h
    all_goals simp only [Option.some.injEq, Prod.mk.injEq, reduceCtorEq] at h
    all_goals obtain ⟨rfl, rfl⟩ := h
    all_goals rfl

/-- In a quiet run the plunger of the destroyer is the last entry ever queued. -/
theorem lastPlunger_of_reach (h : QuietReach maxDispatch c) :
    Each (fun _ pc => ∀ p, pc.closingTicket = some p → c.shared.queued.length = p + 1) c.pool := by
  refine Machine.Reach.invariant (fun c => Each (fun _ pc =>
    ∀ p, Pc.closingTicket pc = some p → c.shared.queued.length = p + 1) c.pool) (each_nil _) ?_ ?_ h
  · intro c call s' pc _ hI _ hs
    have hs := (machine_start hs).2
    refine hI.append (fun j u _ hu p hp => ?_) (fun p hp => ?_)
    · rw [(enter_queued hs).1]
      exact hu p hp
    · rw [enter_closingTicket hs] at hp
      cases hp
  · intro c i b pc s' pc' hc hI hok hi hs
    have hs := (machine_act hs).2
    refine hI.set (fun j u hji hj hu p hp => ?_) (fun p hp => ?_)
    · have hclosing := Pc.closing_of_ticket hp
      rcases quietDestroy_queues hok hi hs with hsame | ⟨f, rfl, hf⟩ | hnone
      · rw [hsame]
        exact hu p hp
      · -- there is one destroyer, and it has not queued its plunger yet
        exfalso
        have hmine : Pc.destroyer (.flushQueue f) = 1 := by
          simp [Pc.destroyer, Flush.closing, hf]
        have hnone := one_destroyer hc hi hmine hji hj
        have hle := Pc.closing_le_destroyer u
        omega
      · have hle := le_total Pc.closing hj
        omega
    · rcases step_closingTicket hs hp with ⟨hold, hsame⟩ | ⟨rfl, hlen⟩
      · rw [hsame]
        exact hI i pc hi p hold
      · exact hlen

/-- Behind a returned flush whose plunger was the last entry, the queue is empty. -/
theorem empty_of_lastPlunger (h : QuietReach maxDispatch c) {i p : Nat} {pc : Pc}
    (hi : c.pool[i]? = some pc) (hp : pc.flushReturned = some p)
    (hlast : c.shared.queued.length = p + 1) : c.shared.head = [] ∧ c.shared.busy = [] := by
  obtain ⟨-, hhead, hbusy⟩ := clear_of_flushReturned h hi hp
  have hT := (flushing_of_reach h).tickets
  refine ⟨List.eq_nil_iff_forall_not_mem.mpr fun e he => ?_,
    List.eq_nil_iff_forall_not_mem.mpr fun t ht => ?_⟩
  · have hlt := queued_lt (hT.work e he)
    have hgt := hhead e he
    omega
  · obtain ⟨⟨w, -, hw⟩, -⟩ := hT.started t ht
    have hlt := queued_lt hw
    have hgt := hbusy t ht
    omega

/-! ### Drained -/

/-- The points of a `destroy_workqueue` that has seen the last request drain out. -/
def Pc.drained : Pc → Bool
  | .destroyCheck _ | .destroyDelTimer _ | .destroyFree _ => true
  | _ => false

theorem Pc.flushReturned_of_drained {pc : Pc} (h : pc.drained = true) :
    ∃ p, pc.flushReturned = some p ∧ pc.closingTicket = some p := by
  cases pc with
  | destroyCheck p | destroyDelTimer p | destroyFree p => exact ⟨p, rfl, rfl⟩
  | _ => cases h

theorem vmklnxWorkqueueDispatch_curPosted {s s' : Wq} {k : Ret} {pc : Pc}
    (h : vmklnxWorkqueueDispatch s k = (s', pc)) (hq : s.qLen = 0) (h0 : s.curPosted = 0) :
    s'.curPosted = 0 := by
  obtain ⟨ok, ⟨rfl, -, hmin⟩ | ⟨rfl, -, -⟩⟩ := vmklnxWorkqueueDispatch_cases h
  · omega
  · exact h0

/-- On an empty queue with nothing posted, nothing is posted. -/
theorem step_curPosted {n : Nat} {b : Bool} {s s' : Wq} {pc pc' : Pc} {r : Share}
    (h : step b s pc = some (s', pc')) (hA : Accounts n s (r.add pc)) (hq : s.qLen = 0)
    (h0 : s.curPosted = 0) (hsame : s'.queued = s.queued) : s'.curPosted = 0 := by
  have hposted := hA.curPosted
  change s.curPosted = s.requests + ((r.posting + pc.posting : Nat) : Int) at hposted
  have hgrow : ∀ w, s.queued ≠ s.queued ++ [w] := by
    intro w heq
    have hlen := congrArg List.length heq
    rw [List.length_append, List.length_singleton] at hlen
    omega
  cases pc with
  | queueLock i ret =>
    simp only [step, Option.some.injEq] at h
    rw [(dispatchLoop_unqueuedPlunger h).2] at hsame
    exact absurd hsame.symm (hgrow _)
  | flushQueue f =>
    simp only [step, Option.some.injEq] at h
    rw [(dispatchLoop_unqueuedPlunger h).2] at hsame
    exact absurd hsame.symm (hgrow _)
  | relock k =>
    simp only [step, Option.some.injEq] at h
    obtain ⟨rfl, -, hmin⟩ | ⟨rfl, -, -⟩ := dispatchLoop_cases h
    · omega
    · exact h0
  | calloutLock slot ticket =>
    simp only [step, Option.some.injEq] at h
    exact vmklnxWorkqueueDispatch_curPosted h hq h0
  | submit k | submitFailed k =>
    have hone : Pc.posting (.submit k) = 1 := rfl
    simp only [Pc.posting] at hposted hone
    omega
  | callback w slot ticket =>
    cases w <;>
    · simp only [step, Option.some.injEq, Prod.mk.injEq] at h
      obtain ⟨rfl, rfl⟩ := h
      exact h0
  | cancelLock cl =>
    simp only [step] at h
    split at h
    · simp only [Option.some.injEq] at h
      rcases cancelRemove_cases s cl with hr | ⟨-, -, ok, hr⟩ <;>
        rw [hr] at h <;>
        obtain ⟨rfl, -, -⟩ | ⟨rfl, -, -⟩ := cancelScan_cases h <;>
        exact h0
    · simp only [Option.some.injEq, Prod.mk.injEq] at h
      obtain ⟨rfl, rfl⟩ := h
      exact h0
  | _ =>
    simp only [step, flushTest, cancelScan] at h
    repeat' split at h
    all_goals simp only [Option.some.injEq, Prod.mk.injEq, reduceCtorEq] at h
    all_goals obtain ⟨rfl, rfl⟩ := h
    all_goals exact h0

theorem enter_curPosted {n me : Nat} {s s' : Wq} {call : Call} {pc : Pc} {r : Share}
    (h : enter me s call = some (s', pc)) (hA : Accounts n s r) (hq : s.qLen = 0)
    (h0 : s.curPosted = 0) : s'.curPosted = 0 := by
  have hposted := hA.curPosted
  cases call with
  | callout =>
    simp only [enter] at h
    split at h
    · cases h
    · omega
  | timeout =>
    simp only [enter] at h
    split at h
    · simp only [Option.some.injEq] at h
      exact vmklnxWorkqueueDispatch_curPosted h hq h0
    · cases h
  | _ =>
    simp only [enter] at h
    repeat' split at h
    all_goals simp only [Option.some.injEq, Prod.mk.injEq, reduceCtorEq] at h
    all_goals obtain ⟨rfl, rfl⟩ := h
    all_goals exact h0

theorem dispatchLoop_drained {s s' : Wq} {k : Ret} {pc : Pc} (h : dispatchLoop s k = (s', pc)) :
    pc.drained = false := by
  obtain ⟨-, rfl, -⟩ | ⟨-, rfl, -⟩ := dispatchLoop_cases h
  · rfl
  · cases k <;> rfl

theorem Cancel.drained_next (c : Cancel) : c.next.drained = false := by
  unfold Cancel.next
  split <;> rfl

/-- A destroyer is drained when it has found `curPosted` at zero. -/
theorem step_drained {n : Nat} {b : Bool} {s s' : Wq} {pc pc' : Pc} {r : Share}
    (h : step b s pc = some (s', pc')) (hA : Accounts n s r) (hd : pc'.drained = true)
    (hI : pc.drained = true → s.curPosted = 0) : s'.curPosted = 0 := by
  cases pc with
  | queueLock | flushQueue | relock | calloutLock =>
    simp only [step, Option.some.injEq] at h
    rw [dispatchLoop_drained h] at hd
    cases hd
  | callback w slot ticket =>
    cases w <;>
    · simp only [step, Option.some.injEq, Prod.mk.injEq] at h
      obtain ⟨rfl, rfl⟩ := h
      cases hd
  | destroyLock p =>
    have hposted := hA.curPosted
    simp only [step] at h
    split at h
    all_goals simp only [Option.some.injEq, Prod.mk.injEq] at h
    all_goals obtain ⟨rfl, rfl⟩ := h
    · cases hd
    · omega
  | destroyCheck p | destroyDelTimer p =>
    simp only [step, Option.some.injEq, Prod.mk.injEq] at h
    obtain ⟨rfl, rfl⟩ := h
    exact hI rfl
  | submit k | armDelay k =>
    simp only [step] at h
    repeat' split at h
    all_goals simp only [Option.some.injEq, Prod.mk.injEq] at h
    all_goals obtain ⟨rfl, rfl⟩ := h
    all_goals cases k <;> cases hd
  | _ =>
    simp only [step, flushTest, cancelScan] at h
    repeat' split at h
    all_goals simp only [Option.some.injEq, Prod.mk.injEq, reduceCtorEq] at h
    all_goals obtain ⟨rfl, rfl⟩ := h
    all_goals first
      | cases hd
      | (rw [Cancel.drained_next] at hd; cases hd)

theorem drained_of_reach (h : QuietReach maxDispatch c) :
    Each (fun _ pc => pc.drained = true → c.shared.curPosted = 0) c.pool := by
  refine Machine.Reach.invariant
    (fun c => Each (fun _ pc => Pc.drained pc = true → c.shared.curPosted = 0) c.pool)
    (each_nil _) ?_ ?_ h
  · intro c call s' pc hc hI _ hs
    have hs := (machine_start hs).2
    refine hI.append (fun j u hj hu hd => ?_) (fun hd => ?_)
    · obtain ⟨p, hret, hticket⟩ := Pc.flushReturned_of_drained hd
      have hempty := empty_of_lastPlunger hc hj hret (lastPlunger_of_reach hc j u hj p hticket)
      have hA := accounts_of_reach hc
      exact enter_curPosted hs hA (by rw [hA.qLen, hempty.1]; rfl) (hu hd)
    · obtain ⟨p, -, hticket⟩ := Pc.flushReturned_of_drained hd
      rw [enter_closingTicket hs] at hticket
      cases hticket
  · intro c i b pc s' pc' hc hI hok hi hs
    have hs := (machine_act hs).2
    have hA := accounts_of_reach hc
    refine hI.set (fun j u hji hj hu hd => ?_) (fun hd => step_drained hs hA hd (hI i pc hi))
    obtain ⟨p, hret, hticket⟩ := Pc.flushReturned_of_drained hd
    have hlast := lastPlunger_of_reach hc j u hj p hticket
    have hempty := empty_of_lastPlunger hc hj hret hlast
    have hq : c.shared.qLen = 0 := by
      rw [hA.qLen, hempty.1]
      rfl
    -- the plunger of `u` stays the last entry, so this step queues nothing
    have hsame : s'.queued = c.shared.queued := by
      rcases quietDestroy_queues hok hi hs with hsame | ⟨f, rfl, hf⟩ | hnone
      · exact hsame
      · exfalso
        have hmine : Pc.destroyer (.flushQueue f) = 1 := by
          simp [Pc.destroyer, Flush.closing, hf]
        have hnone := one_destroyer hc hi hmine hji hj
        have hle := Pc.closing_le_destroyer u
        have hone := Pc.closing_of_ticket hticket
        omega
      · have hle := le_total Pc.closing hj
        have hone := Pc.closing_of_ticket hticket
        omega
    rw [Share.of_eq_others hi] at hA
    exact step_curPosted hs hA hq (hu hd) hsame

/-! ### The assertions of `destroy_workqueue` -/

/-- What `destroy_workqueue` asserts after its waiting loop and before `kfree`. -/
def Wq.Torn (s : Wq) : Prop :=
  s.qLen = 0 ∧ s.head = [] ∧ s.curDispatch = 0 ∧ s.curPosted = 0 ∧ s.waiting = 0 ∧
  s.trackList.length = 0 ∧ s.trackFlushList.length = 0 ∧
  (s.trackFree.length : Int) = s.maxDispatch

theorem step_destroyAsserts {b : Bool} {s s' : Wq} {pc pc' : Pc}
    (h : step b s pc = some (s', pc')) (htorn : pc.drained = true → s.Torn)
    (hI : s.destroyAsserts = true) : s'.destroyAsserts = true := by
  cases pc with
  | queueLock | flushQueue | calloutLock =>
    simp only [step, Option.some.injEq] at h
    obtain ⟨ok, ⟨rfl, -, -⟩ | ⟨rfl, -, -⟩⟩ := vmklnxWorkqueueDispatch_cases h <;> exact hI
  | relock k =>
    simp only [step, Option.some.injEq] at h
    obtain ⟨rfl, -, -⟩ | ⟨rfl, -, -⟩ := dispatchLoop_cases h <;> exact hI
  | callback w slot ticket =>
    cases w <;>
    · simp only [step, Option.some.injEq, Prod.mk.injEq] at h
      obtain ⟨rfl, rfl⟩ := h
      exact hI
  | cancelLock cl =>
    simp only [step] at h
    split at h
    · simp only [Option.some.injEq] at h
      rcases cancelRemove_cases s cl with hr | ⟨-, -, ok, hr⟩ <;>
        rw [hr] at h <;>
        obtain ⟨rfl, -, -⟩ | ⟨rfl, -, -⟩ := cancelScan_cases h <;>
        exact hI
    · simp only [Option.some.injEq, Prod.mk.injEq] at h
      obtain ⟨rfl, rfl⟩ := h
      exact hI
  | destroyCheck p =>
    simp only [step, Option.some.injEq, Prod.mk.injEq] at h
    obtain ⟨rfl, rfl⟩ := h
    obtain ⟨hq, hhead, -⟩ := htorn rfl
    simp only [hI, Bool.true_and, decide_eq_true_eq]
    exact ⟨hq, hhead⟩
  | destroyFree p =>
    simp only [step, Option.some.injEq, Prod.mk.injEq] at h
    obtain ⟨rfl, rfl⟩ := h
    obtain ⟨-, -, hrest⟩ := htorn rfl
    simp only [hI, Bool.true_and, decide_eq_true_eq]
    exact hrest
  | _ =>
    simp only [step, flushTest, cancelScan] at h
    repeat' split at h
    all_goals simp only [Option.some.injEq, Prod.mk.injEq, reduceCtorEq] at h
    all_goals obtain ⟨rfl, rfl⟩ := h
    all_goals exact hI

theorem enter_destroyAsserts {me : Nat} {s s' : Wq} {call : Call} {pc : Pc}
    (h : enter me s call = some (s', pc)) : s'.destroyAsserts = s.destroyAsserts := by
  cases call with
  | callout =>
    simp only [enter] at h
    split at h
    · cases h
    · simp only [Option.some.injEq] at h
      obtain ⟨ok, rfl, -, -⟩ | ⟨e, head, wt, free, ok, -, -, -, rfl, -⟩ :=
        vmklnxWorkqueueCallout_cases h <;> rfl
  | timeout =>
    simp only [enter] at h
    split at h
    · simp only [Option.some.injEq] at h
      obtain ⟨ok, ⟨rfl, -, -⟩ | ⟨rfl, -, -⟩⟩ := vmklnxWorkqueueDispatch_cases h <;> rfl
    · cases h
  | _ =>
    simp only [enter] at h
    repeat' split at h
    all_goals simp only [Option.some.injEq, Prod.mk.injEq, reduceCtorEq] at h
    all_goals obtain ⟨rfl, rfl⟩ := h
    all_goals rfl

theorem Pc.sleeping_le (pc : Pc) :
    pc.sleeping ≤ pc.flushing + pc.cancelling + pc.destroyer := by
  cases pc with
  | flushSleep f p =>
    simp only [Pc.sleeping, Pc.flushing, Pc.destroyer, Flush.waiting, Flush.closing]
    split <;> omega
  | cancelSleep cl => exact Nat.le_refl 1
  | _ => exact Nat.zero_le _

/-- In a quiet run nobody sleeps on a queue that is about to be freed. -/
theorem no_sleeper (h : QuietReach maxDispatch c) {i : Nat} {pc : Pc}
    (hi : c.pool[i]? = some pc) (hd : pc.drained = true) : total Pc.sleeping c.pool = 0 := by
  obtain ⟨p, -, hticket⟩ := Pc.flushReturned_of_drained hd
  have hclosing := Pc.closing_of_ticket hticket
  have hmine : pc.destroyer = 1 := by
    cases pc with
    | destroyCheck | destroyDelTimer | destroyFree => rfl
    | _ => cases hd
  obtain ⟨hdest, -, hflush, hcancel⟩ := quiet_of_reach h
  have hflag : c.shared.setExitFlag = true := by
    by_contra hclear
    rw [if_neg hclear] at hdest
    have hle := le_total Pc.destroyer hi
    change total Pc.destroyer c.pool = 0 at hdest
    omega
  have hnoFlush : total Pc.flushing c.pool = 0 := by
    refine hflush ?_
    have hle := le_total Pc.closing hi
    change 0 < total Pc.closing c.pool
    omega
  have hnoCancel : total Pc.cancelling c.pool = 0 := hcancel hflag
  refine total_eq_zero fun u hu => ?_
  obtain ⟨j, hj⟩ := List.mem_iff_getElem?.mp hu
  by_cases hji : j = i
  · subst hji
    rw [hi, Option.some.injEq] at hj
    subst hj
    cases pc with
    | destroyCheck | destroyDelTimer | destroyFree => rfl
    | _ => cases hd
  · have hsleep := Pc.sleeping_le u
    have hf := le_total Pc.flushing hj
    have hc := le_total Pc.cancelling hj
    have hone := one_destroyer h hi hmine hji hj
    omega

/-- In a quiet run, where a destroyer asserts that nothing is left, nothing is left. -/
theorem torn_of_drained (h : QuietReach maxDispatch c) {i : Nat} {pc : Pc}
    (hi : c.pool[i]? = some pc) (hd : pc.drained = true) : c.shared.Torn := by
  obtain ⟨p, hret, hticket⟩ := Pc.flushReturned_of_drained hd
  have hlast := lastPlunger_of_reach h i pc hi p hticket
  obtain ⟨hhead, hbusy⟩ := empty_of_lastPlunger h hi hret hlast
  have hA := accounts_of_reach h
  have hposted := drained_of_reach h i pc hi hd
  have hlists : c.shared.trackList = [] ∧ c.shared.trackFlushList = [] :=
    List.append_eq_nil_iff.mp hbusy
  have hcur : c.shared.curDispatch = 0 := by
    rw [hA.curDispatch, hbusy]
    rfl
  have hwait : c.shared.waiting = 0 := by
    rw [hA.waiting]
    have hzero : total Pc.sleeping c.pool = 0 := no_sleeper h hi hd
    simp only [Share.of, hzero]
    rfl
  refine ⟨?_, hhead, hcur, hposted, hwait, ?_, ?_, ?_⟩
  · rw [hA.qLen, hhead]
    rfl
  · rw [hlists.1]
    rfl
  · rw [hlists.2]
    rfl
  · rw [hA.trackFree_length, hcur]
    omega

theorem destroyAsserts_of_reach (h : QuietReach maxDispatch c) :
    c.shared.destroyAsserts = true := by
  refine Machine.Reach.invariant (fun c => c.shared.destroyAsserts = true) rfl ?_ ?_ h
  · intro c call s' pc _ hI _ hs
    exact (enter_destroyAsserts (machine_start hs).2).trans hI
  · intro c i b pc s' pc' hc hI _ hi hs
    exact step_destroyAsserts (machine_act hs).2 (torn_of_drained hc hi) hI

/-! ### The books of the queue -/

/-- The bookkeeping of a queue between two critical sections. -/
structure Books (c : Config Wq Pc) : Prop where
  qLen : c.shared.qLen = c.shared.head.length
  curDispatch : 0 ≤ c.shared.curDispatch ∧ c.shared.curDispatch ≤ c.shared.maxDispatch
  busy : (c.shared.trackList.length + c.shared.trackFlushList.length : Int) =
    c.shared.curDispatch
  free : (c.shared.trackFree.length : Int) = c.shared.maxDispatch - c.shared.curDispatch
  disjoint : ((c.shared.trackList ++ c.shared.trackFlushList ++ c.shared.trackFree).map
    Tracker.slot).Nodup
  curPosted : 0 ≤ c.shared.curPosted ∧
    c.shared.curPosted = (c.shared.requests + total Pc.posting c.pool : Nat)
  once : (c.shared.head.map Entry.work).Nodup
  pending : ∀ e ∈ c.shared.head, c.shared.pending e.work = true
  single : c.shared.maxDispatch = 1 → total Pc.executing c.pool ≤ 1

theorem books_of_reach {ok : Config Wq Pc → Event Call Bool → Prop}
    (h : machine.Reach ok (initial maxDispatch) c) : Books c := by
  have hA := accounts_of_reach h
  have hO := owned_of_reach h
  have hcur := hA.curDispatch
  have hfree := hA.trackFree_length
  have hexec := hA.executing
  have hposted : c.shared.curPosted = c.shared.requests + (total Pc.posting c.pool : Int) :=
    hA.curPosted
  have hlen : c.shared.busy.length =
      c.shared.trackList.length + c.shared.trackFlushList.length := List.length_append
  change c.shared.curDispatch = (total Pc.executing c.pool : Int) at hexec
  refine ⟨hA.qLen, ⟨by omega, by omega⟩, by omega, hfree, ?_, ⟨by omega, by omega⟩, ?_, ?_, ?_⟩
  · exact hA.slots.nodup_iff.mpr List.nodup_range
  · refine List.nodup_iff_count_le_one.mpr fun w => ?_
    have hw := hO w
    split at hw <;> omega
  · intro e he
    exact (hO.onHead (List.mem_map_of_mem he)).2
  · intro hone
    omega

/-- **Accounting.**  In every quiet run the books of the queue are right between any
    two critical sections, and no assertion fails.  The books and the assertions
    outside `destroy_workqueue` need no condition (`books_of_reach`,
    `asserts_of_reach`). -/
theorem books_and_asserts_of_quiet (h : QuietReach maxDispatch c) :
    Books c ∧ c.shared.asserts = true ∧ c.shared.destroyAsserts = true :=
  ⟨books_of_reach h, asserts_of_reach h, destroyAsserts_of_reach h⟩

/-- Call 0 queues an item and call 1 is its callout; call 2 destroys the queue, call 3
    being the callout of its plunger. -/
def destroyRun : List (Event Call Bool) :=
  [.start (.queueWork 0), .act 0 true, .act 0 true, .act 0 true, .act 0 true,
    .start .callout, .act 1 true, .act 1 true, .act 1 true,
    .start .destroy, .act 2 true, .act 2 true, .act 2 true, .act 2 true, .act 2 true,
    .start .callout, .act 3 true, .act 3 true, .act 3 true, .act 3 true,
    .act 2 true, .act 2 true, .act 2 true, .act 2 true, .act 2 true, .act 2 true, .act 2 true]

theorem books_and_asserts_after_destroy : ∃ c, QuietReach 1 c ∧ c.shared.freed = true ∧
    c.shared.destroyAsserts = true := by
  obtain ⟨c, hc, hobs⟩ := machine.exists_reach_of_runIf quietDestroy destroyRun (initial 1)
    (fun c => c.shared.freed) true (by decide)
  exact ⟨c, hc, hobs, (books_and_asserts_of_quiet hc).2.2⟩

/-- Call 0 arms the delay timer of an item, call 1 destroys the queue and gets past its
    flush and its wait for posted requests; then the timer expires and call 3 puts the
    item on `head`. -/
def lateTimerRun : List (Event Call Bool) :=
  [.start (.queueDelayedWork 0 1), .act 0 true, .act 0 true, .act 0 true,
    .start .destroy, .act 1 true, .act 1 true, .act 1 true, .act 1 true, .act 1 true,
    .start .callout, .act 2 true, .act 2 true, .act 2 true, .act 2 true,
    .act 1 true, .act 1 true, .act 1 true, .act 1 true,
    .start (.delayedWorkTimerFn 0), .act 3 true, .act 1 true]

/-- The assertions of `destroy_workqueue` do not hold in every run. -/
theorem late_timer_fails_assert :
    ∃ c, machine.Reachable (initial 1) c ∧ c.shared.destroyAsserts = false :=
  machine.exists_reachable_of_run lateTimerRun (initial 1) (fun c => c.shared.destroyAsserts)
    false (by decide)

end VmkLinux.Workqueue
