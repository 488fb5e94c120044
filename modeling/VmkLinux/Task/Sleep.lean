/-
  VmkLinux/Task/Sleep.lean
  ========================
  **Sleeping and waking** of `vmklinux26/vmware/linux_task.c`: the states of the tasks, and
  what `wake_up_process`, `schedule` and `LinuxTask_WaitEvent` make of them.

  Tasks are named by numbers.  Of the events of a `LinuxTaskExt` only `LTE_RESUME` is here.
-/
import Mathlib.Algebra.Group.Nat.Defs
import Mathlib.Logic.Function.Basic

namespace VmkLinux.Task

/-- `task->state`. -/
inductive TaskState where
  | running
  | interruptible
  | uninterruptible
deriving DecidableEq, Repr

structure Tasks where
  state : Nat → TaskState
  /-- `LTE_RESUME` in `te->events`. -/
  resume : Nat → Bool

namespace Tasks

/-- Every task is `TASK_RUNNING`, and none has an event. -/
def initial : Tasks where
  state := fun _ => .running
  resume := fun _ => false

variable (t : Tasks)

/-- `__set_current_state`. -/
def setCurrentState (me : Nat) (state : TaskState) : Tasks :=
  { t with state := Function.update t.state me state }

/-- `LinuxTask_SendEvent` of `LTE_RESUME`, the one step of `wake_up_process`. -/
def sendEvent (task : Nat) : Tasks :=
  { t with resume := Function.update t.resume task true }

/-- `LinuxTask_WaitEvent` for `LTE_RESUME`, from its last test on. -/
def waitEvent (me : Nat) : Tasks where
  state := Function.update t.state me .running
  resume := Function.update t.resume me false

/-- Whether `schedule` returns without suspending the task; `signal` is `signal_pending`. -/
def scheduleReturns (me : Nat) (signal : Bool) : Bool :=
  (signal && decide (t.state me = .interruptible ∨ t.state me = .running))
    || decide (t.state me = .running)

section Fields

variable (me task : Nat) (state : TaskState)

@[simp] theorem setCurrentState_state :
    (t.setCurrentState me state).state = Function.update t.state me state := rfl

@[simp] theorem setCurrentState_resume : (t.setCurrentState me state).resume = t.resume := rfl

@[simp] theorem sendEvent_state : (t.sendEvent task).state = t.state := rfl

@[simp] theorem sendEvent_resume :
    (t.sendEvent task).resume = Function.update t.resume task true := rfl

@[simp] theorem waitEvent_state :
    (t.waitEvent me).state = Function.update t.state me .running := rfl

@[simp] theorem waitEvent_resume :
    (t.waitEvent me).resume = Function.update t.resume me false := rfl

end Fields

end Tasks

end VmkLinux.Task
