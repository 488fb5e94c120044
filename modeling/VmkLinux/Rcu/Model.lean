/-
  VmkLinux/Rcu/Model.lean
  =======================
  **RCU** of `vmklinux26/vmware/linux_rcu.c` and `include/linux/rcupdate.h`, for
  the one `vmklnx_rcu_data` of a module.

  Readers only count: `nestingLevel` is the number of open read-side critical
  sections, and readers never take `rdp->lock`.  Everything else happens under that
  lock, so a critical section is one step where it does not look at
  `nestingLevel`, and three where it does: up to the read, the read, and from the
  read to the release.  `qLen` is also read without the lock, by
  `vmklnx_rcu_read_unlock`.

  A read-side critical section is a call; nested sections are calls that overlap.
  A `struct rcu_head` is named after the call that queues it, as a driver may not
  queue a head again before its callback is invoked.  `generation` is not wrapped.
  The surroundings decide when the timer expires and when the tasklet runs; a
  tasklet never runs twice at once, but the handler of the timer may run beside
  it and beside earlier handlers.  `vmklnx_rcu_cleanup` runs when the module is
  unloaded, alone, and is not part of the machine.

  Without counterpart in the source: `sections` names the open sections, `waitFor`
  those open when a head was queued; `enqueued`, `removed`, `invoked` and
  `finished` are the histories of the heads.
-/
import VmkLinux.Interleave
import VmkLinux.TailQueue

namespace VmkLinux.Rcu

open VmkLinux.Interleave

/-! ### Data -/

/-- `struct vmklnx_rcu_data`, the fields of the heads, and the state of the tasklet
    and the timer. -/
structure Rdp where
  nestingLevel : Int
  generation : Int
  lock : Bool
  /-- `nxtlist`, `nxttail` and the `next` fields of the heads. -/
  nxt : TailQueue Nat
  qLen : Int
  completed : Int
  /-- `head->generation`. -/
  headGeneration : Nat → Int
  /-- Whether `head->func` is `wakeme_after_rcu`. -/
  wakes : Nat → Bool
  completion : Nat → Bool
  timerArmed : Bool
  taskletScheduled : Bool
  taskletRunning : Bool
  /-- No `VMK_ASSERT` has failed. -/
  asserts : Bool
  sections : List Nat
  waitFor : Nat → List Nat
  enqueued : List Nat
  removed : List Nat
  invoked : List Nat
  finished : List Nat

/-- `vmklnx_rcu_init`. -/
def vmklnxRcuInit : Rdp where
  nestingLevel := 0
  generation := 0
  lock := false
  nxt := TailQueue.empty
  qLen := 0
  completed := 0
  headGeneration := fun _ => 0
  wakes := fun _ => false
  completion := fun _ => false
  timerArmed := false
  taskletScheduled := false
  taskletRunning := false
  asserts := true
  sections := []
  waitFor := fun _ => []
  enqueued := []
  removed := []
  invoked := []
  finished := []

/-- `rcu_batch_before`. -/
def rcuBatchBefore (a b : Int) : Bool := decide (a - b < 0)

/-- Who runs `vmklnx_rcu_callback`. -/
inductive Runner where
  | tasklet
  | timer
deriving DecidableEq, Repr

/-- The points between two atomic steps.  A `me` is the name of the call itself. -/
inductive Pc where
  | done
  | reading (me : Nat)
  | unlockTestQLen
  | unlockLock
  | unlockTest
  | unlockInc
  | unlockUnlock
  | callLock (me : Nat) (wakes : Bool)
  | callTest (me : Nat) (wakes : Bool)
  | callInc (me : Nat) (wakes : Bool)
  | callUnlock (me : Nat) (wakes : Bool)
  | callSchedule (me : Nat) (wakes : Bool)
  | callModTimer (me : Nat) (wakes : Bool)
  | syncWait (me : Nat)
  | synced (me : Nat)
  | timerLock
  | timerTest
  | timerInc
  | timerUnlock
  | timerModTimer
  | runLock (r : Runner)
  | invoke (r : Runner) (head : Nat)
  | executing (r : Runner) (head : Nat)
deriving DecidableEq, Repr

/-! ### Critical sections -/

/-- The critical section of `vmklnx_call_rcu`, up to its read of `nestingLevel`. -/
def callEnqueue (s : Rdp) (head : Nat) (wakes : Bool) : Rdp :=
  { s with
    lock := true
    headGeneration := Function.update s.headGeneration head s.generation
    wakes := Function.update s.wakes head wakes
    nxt := s.nxt.push head
    qLen := s.qLen + 1
    enqueued := s.enqueued ++ [head]
    waitFor := Function.update s.waitFor head s.sections }

/-- What a call of `vmklnx_call_rcu` returns to. -/
def callReturn (me : Nat) (wakes : Bool) : Pc := if wakes then .syncWait me else .done

/-- The end of `vmklnx_rcu_callback`; the tasklet may then run again. -/
def callbackExit (s : Rdp) (r : Runner) : Rdp :=
  { s with
    completed := s.completed + 1
    taskletRunning := if r = .tasklet then false else s.taskletRunning }

/-- One round of the loop of `vmklnx_rcu_callback`: the list is empty, or its first
    head is unlinked, or its first head has not aged. -/
def callbackLoop (s : Rdp) (r : Runner) : Rdp × Pc :=
  match s.nxt.first with
  | none =>
      (callbackExit { s with asserts := s.asserts && decide (s.nxt.tail = .first) } r, .done)
  | some first =>
      if rcuBatchBefore (s.headGeneration first) s.generation then
        ({ s with
            nxt := s.nxt.pop first
            qLen := s.qLen - 1
            removed := s.removed ++ [first] }, .invoke r first)
      else (callbackExit s r, .done)

theorem callbackLoop_cases {s s' : Rdp} {r : Runner} {pc : Pc}
    (h : callbackLoop s r = (s', pc)) :
    (∃ ok, s' = callbackExit { s with asserts := ok } r ∧ pc = .done ∧
      (s.nxt.first = none ∨
        ∃ first, s.nxt.first = some first ∧ s.generation ≤ s.headGeneration first)) ∨
    (∃ first, s.nxt.first = some first ∧ s.headGeneration first < s.generation ∧
      pc = .invoke r first ∧
      s' = { s with
        nxt := s.nxt.pop first
        qLen := s.qLen - 1
        removed := s.removed ++ [first] }) := by
  unfold callbackLoop at h
  split at h
  · rename_i hnone
    simp only [Prod.mk.injEq] at h
    exact Or.inl ⟨_, h.1.symm, h.2.symm, Or.inl hnone⟩
  · rename_i first hfirst
    split at h
    · rename_i hbefore
      simp only [rcuBatchBefore, decide_eq_true_eq] at hbefore
      simp only [Prod.mk.injEq] at h
      exact Or.inr ⟨first, hfirst, by omega, h.2.symm, h.1.symm⟩
    · rename_i hnot
      simp only [rcuBatchBefore, decide_eq_true_eq] at hnot
      simp only [Prod.mk.injEq] at h
      exact Or.inl ⟨s.asserts, h.1.symm, h.2.symm, Or.inr ⟨first, hfirst, by omega⟩⟩

/-! ### The machine -/

inductive Call where
  | read
  | callRcu
  | synchronizeRcu
  | timer
  | tasklet
deriving DecidableEq, Repr

/-- How a call starts; `vmklnx_rcu_read_lock` is the start of a read. -/
def enter (me : Nat) (s : Rdp) : Call → Option (Rdp × Pc)
  | .read =>
      some ({ s with nestingLevel := s.nestingLevel + 1, sections := me :: s.sections },
        .reading me)
  | .callRcu => some (s, .callLock me false)
  | .synchronizeRcu =>
      some ({ s with completion := Function.update s.completion me false }, .callLock me true)
  | .timer => if s.timerArmed then some ({ s with timerArmed := false }, .timerLock) else none
  | .tasklet =>
      if s.taskletScheduled && !s.taskletRunning then
        some ({ s with taskletScheduled := false, taskletRunning := true }, .runLock .tasklet)
      else none

/-- One step of a call. -/
def step (s : Rdp) : Pc → Option (Rdp × Pc)
  | .done => none
  -- vmklnx_rcu_read_unlock
  | .reading me =>
      some ({ s with nestingLevel := s.nestingLevel - 1, sections := s.sections.erase me },
        if s.nestingLevel - 1 = 0 then .unlockTestQLen else .done)
  | .unlockTestQLen => some (s, if s.qLen ≠ 0 then .unlockLock else .done)
  | .unlockLock => if s.lock then none else some ({ s with lock := true }, .unlockTest)
  | .unlockTest => some (s, if s.nestingLevel = 0 then .unlockInc else .unlockUnlock)
  | .unlockInc => some ({ s with generation := s.generation + 1, lock := false }, .done)
  | .unlockUnlock => some ({ s with lock := false }, .done)
  -- vmklnx_call_rcu
  | .callLock me wakes => if s.lock then none else some (callEnqueue s me wakes, .callTest me wakes)
  | .callTest me wakes =>
      some (s, if s.nestingLevel = 0 then .callInc me wakes else .callUnlock me wakes)
  | .callInc me wakes =>
      some ({ s with generation := s.generation + 1, lock := false }, .callSchedule me wakes)
  | .callUnlock me wakes => some ({ s with lock := false }, .callModTimer me wakes)
  | .callSchedule me wakes => some ({ s with taskletScheduled := true }, callReturn me wakes)
  | .callModTimer me wakes => some ({ s with timerArmed := true }, callReturn me wakes)
  -- vmklnx_synchronize_rcu
  | .syncWait me => if s.completion me then some (s, .synced me) else none
  | .synced _ => none
  -- vmklnx_rcu_delay_timer
  | .timerLock => if s.lock then none else some ({ s with lock := true }, .timerTest)
  | .timerTest => some (s, if s.nestingLevel = 0 then .timerInc else .timerUnlock)
  | .timerInc => some ({ s with generation := s.generation + 1, lock := false }, .runLock .timer)
  | .timerUnlock => some ({ s with lock := false }, .timerModTimer)
  | .timerModTimer => some ({ s with timerArmed := true }, .done)
  -- vmklnx_rcu_callback
  | .runLock r => if s.lock then none else some (callbackLoop s r)
  | .invoke r head => some ({ s with invoked := s.invoked ++ [head] }, .executing r head)
  | .executing r head =>
      -- `wakeme_after_rcu` completes; any other callback is the driver's own
      some ({ s with
          finished := s.finished ++ [head]
          completion :=
            if s.wakes head then Function.update s.completion head true else s.completion },
        .runLock r)

/-- The RCU machine; its steps leave no choice to the surroundings. -/
def machine : Machine Rdp Pc Call Unit where
  start := fun me call s => enter me s call
  act := fun _ s pc => step s pc

/-- A module that has just been loaded. -/
def initial : Config Rdp Pc := ⟨vmklnxRcuInit, []⟩

end VmkLinux.Rcu
