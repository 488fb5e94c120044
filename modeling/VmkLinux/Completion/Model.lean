/-
  VmkLinux/Completion/Model.lean
  ==============================
  **Completions** of `vmklinux26/vmware/linux_waitqueue.c`, on the sleeping and
  waking of `vmklinux26/vmware/linux_task.c`: one `struct completion`, any number of
  callers of `complete` and of the three wait functions.

  A critical section of `wait.lock` is one step, and so is one of `taskLock`.  The
  task of a waiter is named after its call.  The surroundings choose when a timer
  expires, whether a signal is pending and how much of the timeout is left
  (`jiffies` is monotone, so never more than was asked for); a task may also come
  into its call with an `LTE_RESUME` that an earlier wait left behind (`stale`).

  `complete` reads `task->state` before it takes `taskLock`, and the task may have
  been resumed in between.  That is the choice `late`: the event is sent although
  the task is by now `TASK_RUNNING`.

  Timeouts are read as `signed long`, the type of `schedule_timeout`.  Without
  counterpart in the source: `arg`, the timeout the caller gave, and `entry`, the
  value of `done` when the call first held the lock.
-/
import Mathlib.Algebra.Group.Int.Defs
import Mathlib.Algebra.Group.Nat.Defs
import VmkLinux.Interleave
import VmkLinux.Errno
import VmkLinux.Task.Sleep

namespace VmkLinux.Completion

open VmkLinux.Interleave VmkLinux.Task

/-! ### Data -/

/-- `struct completion`, with the tasks that wait on it and their `wait_timer`s. -/
structure Shared extends Tasks where
  done : Nat
  /-- `wait.task_list`, by the tasks of its entries. -/
  taskList : List Nat
  timerArmed : Nat → Bool

/-- `init_completion`. -/
def initCompletion : Shared where
  toTasks := .initial
  done := 0
  taskList := []
  timerArmed := fun _ => false

/-- `wait_for_completion`, `wait_for_completion_timeout` and
    `wait_for_completion_interruptible_timeout`. -/
inductive Kind where
  | plain
  | timeout
  | interruptibleTimeout
deriving DecidableEq, Repr

/-- The locals of a call of a wait function. -/
structure Wait where
  me : Nat
  kind : Kind
  arg : Int
  entry : Nat
  timeout : Int
deriving DecidableEq, Repr

/-- The points between two atomic steps; `timed` says that `schedule` was called from
    `__schedule_timeout` with its timer set. -/
inductive Pc where
  | completed
  | expired
  | waitLock (w : Wait)
  | relock (w : Wait)
  | returned (w : Wait) (consumed : Bool)
  | scheduleTimeout (w : Wait)
  | modTimer (w : Wait)
  | delTimer (w : Wait)
  | schedule (w : Wait) (timed : Bool)
deriving DecidableEq, Repr

/-- `MAX_SCHEDULE_TIMEOUT`. -/
def maxScheduleTimeout : Int := 2 ^ 63 - 1

/-! ### Tasks -/

/-- `__set_current_state`. -/
def setCurrentState (s : Shared) (me : Nat) (state : TaskState) : Shared :=
  { s with toTasks := s.toTasks.setCurrentState me state }

/-- `LinuxTask_SendEvent` of `LTE_RESUME`. -/
def sendEvent (s : Shared) (task : Nat) : Shared :=
  { s with toTasks := s.toTasks.sendEvent task }

/-- `LinuxTask_WaitEvent` for `LTE_RESUME`. -/
def waitEvent (s : Shared) (me : Nat) : Shared :=
  { s with toTasks := s.toTasks.waitEvent me }

/-! ### The wait queue -/

/-- Whether `default_wake_function` calls `wake_up_process`. -/
def wakes (s : Shared) (late : Bool) (task : Nat) : Bool :=
  late || decide (s.state task ≠ .running)

/-- `__wake_up_common` for one exclusive task.  Every entry is exclusive, and
    `default_wake_function` returns 1 for all of them, so the scan ends at the first. -/
def wakeUpCommon (s : Shared) (late : Bool) : Shared :=
  match s.taskList.head? with
  | none => s
  | some task => if wakes s late task then sendEvent s task else s

/-- The critical section of `complete`. -/
def complete (s : Shared) (late : Bool) : Shared :=
  wakeUpCommon { s with done := (s.done + 1) % 2 ^ 32 } late

theorem complete_done (s : Shared) (late : Bool) :
    (complete s late).done = (s.done + 1) % 2 ^ 32 := by
  simp only [complete, wakeUpCommon]
  split
  · rfl
  · split
    · rfl
    · rfl

/-- `__add_wait_queue_tail`. -/
def addWaitQueueTail (s : Shared) (me : Nat) : Shared :=
  { s with taskList := s.taskList ++ [me] }

/-- `__remove_wait_queue`. -/
def removeWaitQueue (s : Shared) (me : Nat) : Shared :=
  { s with taskList := s.taskList.erase me }

/-- `completion->done--`. -/
def consume (s : Shared) : Shared := { s with done := s.done - 1 }

/-- The body of the loop of a wait function, from its start to the unlock. -/
def waitBody (signal : Bool) (s : Shared) (w : Wait) : Shared × Pc :=
  match w.kind with
  | .plain => (setCurrentState s w.me .uninterruptible, .schedule w false)
  | .timeout => (setCurrentState s w.me .uninterruptible, .scheduleTimeout w)
  | .interruptibleTimeout =>
      if signal then
        (removeWaitQueue s w.me, .returned { w with timeout := -erestartsys } false)
      else (setCurrentState s w.me .interruptible, .scheduleTimeout w)

theorem waitBody_cases {signal : Bool} {s s' : Shared} {w : Wait} {pc : Pc}
    (h : waitBody signal s w = (s', pc)) :
    (∃ state, s' = setCurrentState s w.me state ∧
      ((w.kind = .plain ∧ pc = .schedule w false) ∨
        (w.kind ≠ .plain ∧ pc = .scheduleTimeout w))) ∨
    (w.kind ≠ .plain ∧ s' = removeWaitQueue s w.me ∧
      pc = .returned { w with timeout := -erestartsys } false) := by
  unfold waitBody at h
  split at h
  · rename_i hkind
    simp only [Prod.mk.injEq] at h
    exact Or.inl ⟨_, h.1.symm, Or.inl ⟨hkind, h.2.symm⟩⟩
  · rename_i hkind
    simp only [Prod.mk.injEq] at h
    exact Or.inl ⟨_, h.1.symm, Or.inr ⟨by simp [hkind], h.2.symm⟩⟩
  · rename_i hkind
    split at h
    · simp only [Prod.mk.injEq] at h
      exact Or.inr ⟨by simp [hkind], h.1.symm, h.2.symm⟩
    · simp only [Prod.mk.injEq] at h
      exact Or.inl ⟨_, h.1.symm, Or.inr ⟨by simp [hkind], h.2.symm⟩⟩

theorem waitBody_done {signal : Bool} {s s' : Shared} {w : Wait} {pc : Pc}
    (h : waitBody signal s w = (s', pc)) : s'.done = s.done := by
  rcases waitBody_cases h with ⟨state, rfl, -⟩ | ⟨-, rfl, -⟩
  · rfl
  · rfl

/-! ### The machine -/

inductive Call where
  | complete (late : Bool)
  | wait (kind : Kind) (timeout : Int) (stale : Bool)
  /-- `__wait_timeout`, for the timer of call `i`. -/
  | waitTimeout (i : Nat)
deriving DecidableEq, Repr

/-- What the surroundings choose for a step: `signal_pending(current)`, and
    `timeout - jiffies` where it is read. -/
structure Choice where
  signal : Bool
  diff : Int
deriving DecidableEq, Repr

def enter (me : Nat) (s : Shared) : Call → Option (Shared × Pc)
  | .complete late => some (complete s late, .completed)
  | .wait kind timeout stale =>
      some ({ s with resume := Function.update s.resume me stale },
        .waitLock ⟨me, kind, timeout, 0, timeout⟩)
  | .waitTimeout i =>
      if s.timerArmed i then
        some (sendEvent { s with timerArmed := Function.update s.timerArmed i false } i, .expired)
      else none

/-- Whether a wait that has come back from `schedule_timeout` has timed out. -/
def Wait.timedOut (w : Wait) : Bool := decide (w.kind ≠ .plain ∧ w.timeout = 0)

/-- Whether `__schedule_timeout` returns after `del_timer_sync` returned `ret`. -/
def timeoutBreaks (ret : Bool) (diff : Int) : Bool := decide (diff ≤ 0) || ret

def step (a : Choice) (s : Shared) : Pc → Option (Shared × Pc)
  | .completed => none
  | .expired => none
  | .returned _ _ => none
  -- the wait functions
  | .waitLock w =>
      if s.done = 0 then
        some (waitBody a.signal (addWaitQueueTail s w.me) { w with entry := s.done })
      else some (consume s, .returned { w with entry := s.done } true)
  | .relock w =>
      if w.timedOut then some (removeWaitQueue s w.me, .returned w false)
      else if s.done = 0 then some (waitBody a.signal s w)
      else some (consume (removeWaitQueue s w.me), .returned w true)
  -- __schedule_timeout
  | .scheduleTimeout w =>
      if w.timeout = maxScheduleTimeout then some (s, .schedule w false)
      else if w.timeout < 0 then some (s, .relock { w with timeout := 0 })
      else some (s, .modTimer w)
  | .modTimer w =>
      some ({ s with timerArmed := Function.update s.timerArmed w.me true }, .schedule w true)
  | .delTimer w =>
      if a.diff ≤ w.timeout then
        let s' := { s with timerArmed := Function.update s.timerArmed w.me false }
        if timeoutBreaks (s.timerArmed w.me) a.diff then
          some (s', .relock { w with timeout := if a.diff < 0 then 0 else a.diff })
        else
          -- `state`, as the wait function had set it
          some (setCurrentState s' w.me
            (if w.kind = .timeout then .uninterruptible else .interruptible), .modTimer w)
      else none
  -- schedule
  | .schedule w timed =>
      if s.scheduleReturns w.me a.signal then
        some (s, if timed then .delTimer w else .relock w)
      else if s.resume w.me then
        some (waitEvent s w.me, if timed then .delTimer w else .relock w)
      else none

theorem waitLock_cases {a : Choice} {s s' : Shared} {w : Wait} {pc : Pc}
    (h : step a s (.waitLock w) = some (s', pc)) :
    (s.done = 0 ∧
      waitBody a.signal (addWaitQueueTail s w.me) { w with entry := s.done } = (s', pc)) ∨
    (s.done ≠ 0 ∧ s' = consume s ∧ pc = .returned { w with entry := s.done } true) := by
  simp only [step] at h
  split at h
  · rename_i hdone
    exact Or.inl ⟨hdone, Option.some.inj h⟩
  · rename_i hdone
    simp only [Option.some.injEq, Prod.mk.injEq] at h
    exact Or.inr ⟨hdone, h.1.symm, h.2.symm⟩

theorem relock_cases {a : Choice} {s s' : Shared} {w : Wait} {pc : Pc}
    (h : step a s (.relock w) = some (s', pc)) :
    (w.timedOut = true ∧ s' = removeWaitQueue s w.me ∧ pc = .returned w false) ∨
    (w.timedOut = false ∧ s.done = 0 ∧ waitBody a.signal s w = (s', pc)) ∨
    (w.timedOut = false ∧ s.done ≠ 0 ∧ s' = consume (removeWaitQueue s w.me) ∧
      pc = .returned w true) := by
  simp only [step] at h
  split at h
  · rename_i hout
    simp only [Option.some.injEq, Prod.mk.injEq] at h
    exact Or.inl ⟨hout, h.1.symm, h.2.symm⟩
  · rename_i hout
    simp only [Bool.not_eq_true] at hout
    split at h
    · rename_i hdone
      exact Or.inr (Or.inl ⟨hout, hdone, Option.some.inj h⟩)
    · rename_i hdone
      simp only [Option.some.injEq, Prod.mk.injEq] at h
      exact Or.inr (Or.inr ⟨hout, hdone, h.1.symm, h.2.symm⟩)

theorem delTimer_cases {a : Choice} {s s' : Shared} {w : Wait} {pc : Pc}
    (h : step a s (.delTimer w) = some (s', pc)) :
    ∃ state, s' = { s with
        timerArmed := Function.update s.timerArmed w.me false
        state := state } ∧
      ((timeoutBreaks (s.timerArmed w.me) a.diff = true ∧
          pc = .relock { w with timeout := if a.diff < 0 then 0 else a.diff }) ∨
        (timeoutBreaks (s.timerArmed w.me) a.diff = false ∧ pc = .modTimer w)) := by
  simp only [step] at h
  split at h
  · split at h
    · rename_i hbreak
      simp only [Option.some.injEq, Prod.mk.injEq] at h
      exact ⟨s.state, h.1.symm, Or.inl ⟨hbreak, h.2.symm⟩⟩
    · rename_i hbreak
      simp only [Option.some.injEq, Prod.mk.injEq] at h
      exact ⟨_, h.1.symm, Or.inr ⟨by simpa using hbreak, h.2.symm⟩⟩
  · cases h

/-- The machine of one completion. -/
def machine : Machine Shared Pc Call Choice where
  start := fun me call s => enter me s call
  act := fun a s pc => step a s pc

/-- A completion that has just been initialised. -/
def initial : Config Shared Pc := ⟨initCompletion, []⟩

end VmkLinux.Completion
