/-
  VmkLinux/Semaphore/Model.lean
  =============================
  **Counting semaphores** of `vmklinux26/linux/lib/semaphore-sleepers.c`, with the inline
  part of `asm/semaphore.h`, on the wait queues of `vmklinux26/vmware/linux_waitqueue.c`
  and the sleeping and waking of `vmklinux26/vmware/linux_task.c`: one `struct
  semaphore`, any number of callers of `down`, `down_interruptible`, `down_trylock` and
  `up`.

  The inline part is one atomic operation on `count`, which needs no lock; it calls the
  slow part when the result says so.  A critical section of `wait.lock` does one atomic
  operation on `count` too, so it is one step; what it writes to the state of its own
  task outside the lock is part of the step, since that state is read by others only
  through the task's entry in the queue.

  The task of a caller is named after its call.  The surroundings choose whether a
  signal is pending, and code outside may call `wake_up_process` on any task at any time,
  so a task may also come into its call with an `LTE_RESUME` that was left behind.
  `default_wake_function` reads `task->state` before `wake_up_process` takes `taskLock`,
  and the task may have been resumed in between: that is the choice `late`.

  `count` and `sleepers` are the source's `int`s without their width; `Counted` bounds
  both by the number of calls.
-/
import Mathlib.Algebra.Group.Int.Defs
import Mathlib.Algebra.Group.Nat.Defs
import VmkLinux.Interleave
import VmkLinux.Task.Sleep

namespace VmkLinux.Semaphore

open VmkLinux.Interleave VmkLinux.Task

/-! ### Data -/

/-- `struct semaphore`, with the tasks that wait on it. -/
structure Shared extends Tasks where
  count : Int
  sleepers : Int
  /-- `wait.task_list`, by the tasks of its entries. -/
  taskList : List Nat

/-- `sema_init`. -/
def semaInit (val : Nat) : Shared where
  toTasks := .initial
  count := val
  sleepers := 0
  taskList := []

/-- `__down` and `__down_interruptible`. -/
inductive Kind where
  | plain
  | interruptible
deriving DecidableEq, Repr

/-- The state in which the task sleeps. -/
def Kind.sleepState : Kind → TaskState
  | .plain => .uninterruptible
  | .interruptible => .interruptible

theorem Kind.sleepState_ne (kind : Kind) : kind.sleepState ≠ .running := by
  cases kind with
  | plain => decide
  | interruptible => decide

/-- The points between two atomic steps. -/
inductive Pc where
  /-- `__down`, at its first `spin_lock_irqsave`. -/
  | lock (kind : Kind)
  | schedule (kind : Kind)
  /-- Back from `schedule`. -/
  | relock (kind : Kind)
  /-- `__down_trylock`. -/
  | trylock
  /-- `__up`. -/
  | wakeup
  | acquired
  | interrupted
  /-- `down_trylock` returns 1. -/
  | busy
  | released
  /-- `wake_up_process` has returned. -/
  | resumed
deriving DecidableEq, Repr

/-- A call and its task. -/
structure Thread where
  me : Nat
  pc : Pc
deriving DecidableEq, Repr

inductive Call where
  | down (kind : Kind)
  | downTrylock
  | up
  | wakeUpProcess (task : Nat)
deriving DecidableEq, Repr

/-- What the surroundings choose for a step. -/
structure Choice where
  /-- `signal_pending(current)`. -/
  signal : Bool
  late : Bool
deriving DecidableEq, Repr

/-! ### Tasks and the wait queue -/

/-- `__set_current_state`. -/
def setState (s : Shared) (me : Nat) (state : TaskState) : Shared :=
  { s with toTasks := s.toTasks.setCurrentState me state }

/-- `LinuxTask_SendEvent` of `LTE_RESUME`. -/
def wakeUpProcess (s : Shared) (task : Nat) : Shared :=
  { s with toTasks := s.toTasks.sendEvent task }

/-- `LinuxTask_WaitEvent` for `LTE_RESUME`. -/
def waitEvent (s : Shared) (me : Nat) : Shared :=
  { s with toTasks := s.toTasks.waitEvent me }

/-- `wake_up_locked`.  Every entry is exclusive, and `default_wake_function` returns 1 for
    all of them, so the scan of `__wake_up_common` ends at the first. -/
def wakeUpLocked (s : Shared) (late : Bool) : Shared :=
  match s.taskList.head? with
  | none => s
  | some task => if late || decide (s.state task ≠ .running) then wakeUpProcess s task else s

/-! ### Steps -/

/-- The end of `__down`: off the queue, with a wakeup for the next task. -/
def leaveQueue (s : Shared) (me : Nat) (late : Bool) : Shared :=
  setState (wakeUpLocked { s with taskList := s.taskList.erase me } late) me .running

/-- The loop of `__down` and `__down_interruptible`, between two calls of `schedule`. -/
def downLoop (a : Choice) (s : Shared) (me : Nat) (kind : Kind) : Shared × Pc :=
  if kind = .interruptible ∧ a.signal then
    (leaveQueue { s with sleepers := 0, count := s.count + s.sleepers } me a.late, .interrupted)
  else
    -- `atomic_add_negative(sleepers - 1, &sem->count)`
    let count := s.count + (s.sleepers - 1)
    if count < 0 then ({ s with count := count, sleepers := 1 }, .schedule kind)
    else (leaveQueue { s with count := count, sleepers := 0 } me a.late, .acquired)

/-- `__down_trylock`. -/
def downTrylock (a : Choice) (s : Shared) : Shared :=
  let count := s.count + (s.sleepers + 1)
  let s' := { s with count := count, sleepers := 0 }
  if count < 0 then s' else wakeUpLocked s' a.late

/-- `add_wait_queue_exclusive_locked`, and the count of this task. -/
def addSleeper (s : Shared) (me : Nat) : Shared :=
  { s with taskList := s.taskList ++ [me], sleepers := s.sleepers + 1 }

def step (a : Choice) (s : Shared) (me : Nat) : Pc → Option (Shared × Pc)
  | .lock kind => some (downLoop a (addSleeper (setState s me kind.sleepState) me) me kind)
  | .relock kind => some (downLoop a (setState s me kind.sleepState) me kind)
  | .schedule kind =>
      if s.scheduleReturns me a.signal then some (s, .relock kind)
      else if s.resume me then some (waitEvent s me, .relock kind)
      else none
  | .trylock => some (downTrylock a s, .busy)
  | .wakeup => some (wakeUpLocked s a.late, .released)
  | .acquired | .interrupted | .busy | .released | .resumed => none

/-- The inline functions of `asm/semaphore.h`. -/
def enter (s : Shared) : Call → Shared × Pc
  | .down kind =>
      ({ s with count := s.count - 1 }, if s.count - 1 < 0 then .lock kind else .acquired)
  | .downTrylock =>
      ({ s with count := s.count - 1 }, if s.count - 1 < 0 then .trylock else .acquired)
  | .up => ({ s with count := s.count + 1 }, if s.count + 1 ≤ 0 then .wakeup else .released)
  | .wakeUpProcess task => (wakeUpProcess s task, .resumed)

/-- The machine of one semaphore. -/
def machine : Machine Shared Thread Call Choice where
  start := fun me call s => some ((enter s call).1, ⟨me, (enter s call).2⟩)
  act := fun a s t => (step a s t.me t.pc).map fun r => (r.1, ⟨t.me, r.2⟩)

/-- A semaphore that has just been initialised. -/
def initial (val : Nat) : Config Shared Thread := ⟨semaInit val, []⟩

/-! ### What the steps do -/

section

variable (s : Shared) (me : Nat) (late : Bool)

@[simp] theorem wakeUpLocked_count : (wakeUpLocked s late).count = s.count := by
  unfold wakeUpLocked
  split
  · rfl
  · split
    · rfl
    · rfl

@[simp] theorem wakeUpLocked_sleepers : (wakeUpLocked s late).sleepers = s.sleepers := by
  unfold wakeUpLocked
  split
  · rfl
  · split
    · rfl
    · rfl

@[simp] theorem wakeUpLocked_taskList : (wakeUpLocked s late).taskList = s.taskList := by
  unfold wakeUpLocked
  split
  · rfl
  · split
    · rfl
    · rfl

@[simp] theorem wakeUpLocked_state : (wakeUpLocked s late).state = s.state := by
  unfold wakeUpLocked
  split
  · rfl
  · split
    · rfl
    · rfl

@[simp] theorem leaveQueue_count : (leaveQueue s me late).count = s.count :=
  wakeUpLocked_count ..

@[simp] theorem leaveQueue_sleepers : (leaveQueue s me late).sleepers = s.sleepers :=
  wakeUpLocked_sleepers ..

@[simp] theorem leaveQueue_taskList :
    (leaveQueue s me late).taskList = s.taskList.erase me :=
  wakeUpLocked_taskList ..

end

/-- How the loop ends: interrupted, asleep, or with the semaphore. -/
theorem downLoop_cases {a : Choice} {s s' : Shared} {me : Nat} {kind : Kind} {pc : Pc}
    (h : downLoop a s me kind = (s', pc)) :
    (pc = .interrupted ∧ a.signal = true ∧
      s' = leaveQueue { s with sleepers := 0, count := s.count + s.sleepers } me a.late) ∨
    (pc = .schedule kind ∧ s.count + (s.sleepers - 1) < 0 ∧
      s' = { s with count := s.count + (s.sleepers - 1), sleepers := 1 }) ∨
    (pc = .acquired ∧ 0 ≤ s.count + (s.sleepers - 1) ∧
      s' = leaveQueue { s with count := s.count + (s.sleepers - 1), sleepers := 0 } me a.late) := by
  unfold downLoop at h
  split at h
  · rename_i hsignal
    obtain ⟨rfl, rfl⟩ := Prod.mk.inj h
    exact .inl ⟨rfl, hsignal.2, rfl⟩
  · dsimp only at h
    split at h
    · rename_i hneg
      obtain ⟨rfl, rfl⟩ := Prod.mk.inj h
      exact .inr (.inl ⟨rfl, hneg, rfl⟩)
    · rename_i hnot
      obtain ⟨rfl, rfl⟩ := Prod.mk.inj h
      exact .inr (.inr ⟨rfl, Int.not_lt.mp hnot, rfl⟩)

theorem machine_start {s s' : Shared} {me : Nat} {call : Call} {t : Thread}
    (h : machine.start me call s = some (s', t)) :
    s' = (enter s call).1 ∧ t = ⟨me, (enter s call).2⟩ := by
  obtain ⟨hs, ht⟩ := Prod.mk.inj (Option.some.inj h)
  exact ⟨hs.symm, ht.symm⟩

theorem machine_act {a : Choice} {s s' : Shared} {t t' : Thread}
    (h : machine.act a s t = some (s', t')) :
    ∃ pc, t' = ⟨t.me, pc⟩ ∧ step a s t.me t.pc = some (s', pc) := by
  obtain ⟨⟨g, pc⟩, hstep, heq⟩ := Option.map_eq_some_iff.mp h
  obtain ⟨rfl, rfl⟩ := Prod.mk.inj heq
  exact ⟨pc, rfl, hstep⟩

/-! ### Permits -/

/-- The calls that got a permit. -/
def Pc.acquires : Pc → Nat
  | .acquired => 1
  | _ => 0

/-- The calls of `up`. -/
def Pc.ups : Pc → Nat
  | .wakeup | .released => 1
  | _ => 0

/-- The calls that `count` has been decremented for and `sleepers` does not know of yet. -/
def Pc.unknown : Pc → Nat
  | .lock _ | .trylock => 1
  | _ => 0

/-- The permits that have been handed out. -/
def acquired (c : Config Shared Thread) : Nat := total (fun t => t.pc.acquires) c.pool

/-- The permits that have been given back. -/
def ups (c : Config Shared Thread) : Nat := total (fun t => t.pc.ups) c.pool

/-- `count` is the permits that are left, less one for each call that still hopes for one:
    those that have not had the lock yet, and the sleepers, who count as one together. -/
structure Counted (val : Nat) (c : Config Shared Thread) : Prop where
  balance : c.shared.count + c.shared.sleepers + total (fun t => t.pc.unknown) c.pool + acquired c
    = val + ups c
  sleepers_nonneg : 0 ≤ c.shared.sleepers
  sleepers_le : c.shared.sleepers ≤ 1
  acquired_le : acquired c ≤ val + ups c

/-- What a step of a call may do to `count` and `sleepers`. -/
structure Pays (s : Shared) (pc : Pc) (s' : Shared) (pc' : Pc) : Prop where
  balance : s'.count + s'.sleepers + pc'.unknown + pc'.acquires + pc.ups
    = s.count + s.sleepers + pc.unknown + pc.acquires + pc'.ups
  sleepers : s'.sleepers = s.sleepers ∨ s'.sleepers = 0 ∨ s'.sleepers = 1
  acquires : pc'.acquires = pc.acquires ∨ 0 ≤ s'.count
  ups : pc.ups ≤ pc'.ups

/-- The loop hands on what `count` and `sleepers` hold together, or gives it out. -/
theorem downLoop_pays {a : Choice} {s s' : Shared} {me : Nat} {kind : Kind} {pc : Pc}
    (h : downLoop a s me kind = (s', pc)) :
    s'.count + s'.sleepers + pc.acquires = s.count + s.sleepers ∧
      (s'.sleepers = 0 ∨ s'.sleepers = 1) ∧ (pc.acquires = 0 ∨ 0 ≤ s'.count) ∧
      pc.unknown = 0 ∧ pc.ups = 0 := by
  rcases downLoop_cases h with ⟨rfl, -, rfl⟩ | ⟨rfl, -, rfl⟩ | ⟨rfl, hpos, rfl⟩
  · refine ⟨?_, .inl ?_, .inl rfl, rfl, rfl⟩
    · simp [Pc.acquires]
    · simp
  · refine ⟨?_, .inr rfl, .inl rfl, rfl, rfl⟩
    simp only [Pc.acquires]
    omega
  · refine ⟨?_, .inl ?_, .inr ?_, rfl, rfl⟩
    · simp only [leaveQueue_count, leaveQueue_sleepers, Pc.acquires]
      omega
    · simp
    · simpa using hpos

/-- What the inline part takes off `count` it gives out or leaves to the slow part. -/
theorem enter_pays (s : Shared) (call : Call) :
    (enter s call).1.sleepers = s.sleepers ∧
      ((enter s call).2.acquires = 0 ∨ 0 ≤ (enter s call).1.count) ∧
      (enter s call).1.count + (enter s call).2.unknown + (enter s call).2.acquires
        = s.count + (enter s call).2.ups := by
  cases call with
  | down kind =>
    refine ⟨rfl, ?_⟩
    dsimp only [enter]
    split
    · exact ⟨.inl rfl, by simp [Pc.unknown, Pc.acquires, Pc.ups]⟩
    · rename_i hnot
      exact ⟨.inr (Int.not_lt.mp hnot), by simp [Pc.unknown, Pc.acquires, Pc.ups]⟩
  | downTrylock =>
    refine ⟨rfl, ?_⟩
    dsimp only [enter]
    split
    · exact ⟨.inl rfl, by simp [Pc.unknown, Pc.acquires, Pc.ups]⟩
    · rename_i hnot
      exact ⟨.inr (Int.not_lt.mp hnot), by simp [Pc.unknown, Pc.acquires, Pc.ups]⟩
  | up =>
    refine ⟨rfl, ?_⟩
    dsimp only [enter]
    split
    · exact ⟨.inl rfl, by simp [Pc.unknown, Pc.acquires, Pc.ups]⟩
    · exact ⟨.inl rfl, by simp [Pc.unknown, Pc.acquires, Pc.ups]⟩
  | wakeUpProcess task =>
    exact ⟨rfl, .inl rfl, by simp [enter, wakeUpProcess, Pc.unknown, Pc.acquires, Pc.ups]⟩

theorem step_pays {a : Choice} {s s' : Shared} {me : Nat} {pc pc' : Pc}
    (h : step a s me pc = some (s', pc')) : Pays s pc s' pc' := by
  cases pc with
  | lock kind =>
    obtain ⟨hbalance, hsleepers, hacquires, hunknown, hups⟩ := downLoop_pays (Option.some.inj h)
    have hpc : (Pc.lock kind).unknown = 1 ∧ (Pc.lock kind).acquires = 0 ∧ (Pc.lock kind).ups = 0 :=
      ⟨rfl, rfl, rfl⟩
    refine ⟨?_, .inr hsleepers, ?_, ?_⟩
    · simp only [addSleeper, setState] at hbalance
      omega
    · simpa [Pc.acquires] using hacquires
    · simp [Pc.ups]
  | relock kind =>
    obtain ⟨hbalance, hsleepers, hacquires, hunknown, hups⟩ := downLoop_pays (Option.some.inj h)
    have hpc : (Pc.relock kind).unknown = 0 ∧ (Pc.relock kind).acquires = 0 ∧
        (Pc.relock kind).ups = 0 := ⟨rfl, rfl, rfl⟩
    refine ⟨?_, .inr hsleepers, ?_, ?_⟩
    · simp only [setState] at hbalance
      omega
    · simpa [Pc.acquires] using hacquires
    · simp [Pc.ups]
  | schedule kind =>
    simp only [step] at h
    split at h
    · obtain ⟨rfl, rfl⟩ := Prod.mk.inj (Option.some.inj h)
      exact ⟨rfl, .inl rfl, .inl rfl, Nat.le_refl _⟩
    · split at h
      · obtain ⟨rfl, rfl⟩ := Prod.mk.inj (Option.some.inj h)
        exact ⟨rfl, .inl rfl, .inl rfl, Nat.le_refl _⟩
      · cases h
  | trylock =>
    obtain ⟨rfl, rfl⟩ := Prod.mk.inj (Option.some.inj h)
    unfold downTrylock
    dsimp only
    split
    · refine ⟨?_, .inr (.inl rfl), .inl rfl, Nat.le_refl _⟩
      simp only [Pc.unknown, Pc.acquires, Pc.ups]
      omega
    · refine ⟨?_, .inr (.inl ?_), .inl rfl, Nat.le_refl _⟩
      · simp only [wakeUpLocked_count, wakeUpLocked_sleepers, Pc.unknown, Pc.acquires, Pc.ups]
        omega
      · simp
  | wakeup =>
    obtain ⟨rfl, rfl⟩ := Prod.mk.inj (Option.some.inj h)
    refine ⟨?_, .inl ?_, .inl rfl, Nat.le_refl _⟩
    · simp [Pc.unknown, Pc.acquires, Pc.ups]
    · simp
  | acquired => cases h
  | interrupted => cases h
  | busy => cases h
  | released => cases h
  | resumed => cases h

theorem counted_initial (val : Nat) : Counted val (initial val) where
  balance := by simp [initial, semaInit, acquired, ups]
  sleepers_nonneg := Int.le_refl _
  sleepers_le := Int.zero_le_ofNat 1
  acquired_le := Nat.zero_le _

theorem counted_of_reachable {val : Nat} {c : Config Shared Thread}
    (h : machine.Reachable (initial val) c) : Counted val c := by
  refine Machine.Reach.invariant (Counted val) (counted_initial val) ?_ ?_ h
  · intro c call s t _ hI _ hstart
    obtain ⟨rfl, rfl⟩ := machine_start hstart
    obtain ⟨hsleepers, hacquires, hbalance⟩ := enter_pays c.shared call
    have hI' := hI.balance
    have hle := hI.acquired_le
    have hnonneg := hI.sleepers_nonneg
    unfold acquired ups at hI' hle
    refine ⟨?_, hsleepers ▸ hnonneg, hsleepers ▸ hI.sleepers_le, ?_⟩
    · simp only [acquired, ups, total_append, hsleepers]
      omega
    · simp only [acquired, ups, total_append]
      omega
  · intro c i a t s t' _ hI _ hi hact
    obtain ⟨pc, rfl, hstep⟩ := machine_act hact
    obtain ⟨hbalance, hsleepers, hacquires, hups⟩ := step_pays hstep
    have hI' := hI.balance
    have hle := hI.acquired_le
    have hnonneg := hI.sleepers_nonneg
    have hone := hI.sleepers_le
    unfold acquired ups at hI' hle
    rw [total_eq_others _ hi, total_eq_others _ hi, total_eq_others _ hi] at hI'
    rw [total_eq_others _ hi, total_eq_others _ hi] at hle
    refine ⟨?_, by dsimp only; omega, by dsimp only; omega, ?_⟩
    · simp only [acquired, ups, total_set _ _ hi]
      omega
    · simp only [acquired, ups, total_set _ _ hi]
      omega

/-- **Permits are never handed out twice.**  In whatever order the calls take their steps,
    and whichever of them are interrupted, `down` and its variants never return with more
    permits than the semaphore started with and `up` has given back; and `count` stays
    within the number of calls, so it never wraps before there are `2 ^ 31` of them. -/
theorem semaphore_never_overgranted (val : Nat) {c : Config Shared Thread}
    (h : machine.Reachable (initial val) c) :
    acquired c ≤ val + ups c ∧ c.shared.count ≤ val + ups c ∧
      -(c.pool.length : Int) - 1 ≤ c.shared.count := by
  obtain ⟨hbalance, hnonneg, hone, hle⟩ := counted_of_reachable h
  have hunknown : total (fun t : Thread => t.pc.unknown) c.pool ≤ c.pool.length := by
    refine total_le_length c.pool fun t => ?_
    unfold Pc.unknown
    split <;> omega
  exact ⟨hle, by omega, by omega⟩

/-- A mutex, and a second task that has to wait for it. -/
def contended : List (Event Call Choice) :=
  [.start (.down .plain), .start (.down .interruptible), .act 1 ⟨false, false⟩, .start .up,
    .act 2 ⟨false, false⟩, .act 1 ⟨false, false⟩, .act 1 ⟨false, false⟩]

theorem semaphore_never_overgranted_contended :
    ∃ c, machine.Reachable (initial 1) c ∧ acquired c = 2 ∧ ups c = 1 ∧ acquired c ≤ 1 + ups c := by
  obtain ⟨c, hc, ho⟩ := machine.exists_reachable_of_run contended (initial 1)
    (fun c => (acquired c, ups c)) (2, 1) rfl
  obtain ⟨hacquired, hups⟩ := Prod.mk.inj ho
  exact ⟨c, hc, hacquired, hups, (semaphore_never_overgranted 1 hc).1⟩

end VmkLinux.Semaphore
