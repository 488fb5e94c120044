/-
  VmkLinux/Scsi/Model.lean
  ========================
  **SCSI commands** of `vmklinux26/vmware/linux_scsi.c`, from `SCSILinuxQueueCommand`
  to the bottom half: one host, any number of devices, ordinary commands.

  A critical section of `vmklock`, `list_lock` or `host_lock` is one step, but for the
  last loop of `SCSILinuxAbortCommands`: it drops `vmklock` before it calls `scsi_done`,
  and `list_lock`, which it holds all the while, does not keep the timeout of a command
  out.  There every section of `vmklock` is one step, and `listLock` says that the lock
  of a device is held.  A command is named after the call of `SCSILinuxQueueCommand`
  that allocated it, and that name is not used again when the command is put back.

  The driver accepts or refuses a command.  For one it accepted it calls `scsi_done`
  once, at any time; a call from inside its abort handler is one that runs while the
  aborter waits for the handler.  Every timed-out command has a work item of its own.

  Flags that ordinary commands never have (`TMF_REQUEST`, `INTERNAL_COMMAND`,
  `DUMP_REQUEST`) and commands that a debug build drops on purpose (`DROP_CMD`) are
  left out, and so is the result of a command.  Without counterpart in the source:
  `given`, that a command had its `NEED_CMDDONE` set; `puts` and `delayedPuts`, how
  often it was put on a completion list, and how often with `DELAY_CMDDONE` set;
  `doubled`, that "Attempted double completion" was reached for it.
-/
import VmkLinux.Interleave
import VmkLinux.Scsi.States

namespace VmkLinux.Scsi

open VmkLinux.Interleave

/-! ### Data -/

/-- Where the driver is with a command: it does not have it, has it, is in its call
    of `scsi_done`, has made that call. -/
inductive Driver where
  | none
  | holds
  | calling
  | called
deriving DecidableEq, Repr

/-- `struct scsi_cmnd`. -/
structure ScsiCmnd where
  device : Nat
  needCmddone : Bool
  delayCmddone : Bool
  cmddoneAttempted : Bool
  ioTimeout : Bool
  /-- `eh_timeout` is pending. -/
  timerArmed : Bool
  /-- `serial_number` is not 0. -/
  serialNumber : Bool
  driver : Driver
  given : Bool
  puts : Nat
  delayedPuts : Nat
  doubled : Bool
deriving DecidableEq, Repr

/-- A command as `scsi_get_command` and `SCSILinuxInitScmd` leave it. -/
def ScsiCmnd.get (device : Nat) : ScsiCmnd where
  device := device
  needCmddone := false
  delayCmddone := false
  cmddoneAttempted := false
  ioTimeout := false
  timerArmed := false
  serialNumber := true
  driver := .none
  given := false
  puts := 0
  delayedPuts := 0
  doubled := false

/-- What of `struct Scsi_Host` and its devices does not change. -/
structure Host where
  canQueue : Int
  queueDepth : Nat → Int
  abortHandler : Bool
  /-- A Fibre Channel host with a timeout for its commands. -/
  fcIoTimeout : Bool

/-- The commands and lists of a host; `isrDoneCmds`, `bhDoneCmds` and `runningBH` are
    the `scsiLinuxTLS` of each PCPU. -/
structure Shared where
  cmd : Nat → ScsiCmnd
  /-- `sdev->cmd_list`. -/
  cmdList : Nat → List Nat
  /-- The last loop of `SCSILinuxAbortCommands` holds `sdev->list_lock`. -/
  listLock : Nat → Bool
  hostBusy : Int
  deviceBusy : Nat → Int
  isrDoneCmds : Nat → List Nat
  bhDoneCmds : Nat → List Nat
  runningBH : Nat → Bool
  bhScheduled : Nat → Bool
  /-- The commands handed to `SCSILinuxCompleteCommand`. -/
  finished : List Nat

def initShared : Shared where
  cmd := fun _ => .get 0
  cmdList := fun _ => []
  listLock := fun _ => false
  hostBusy := 0
  deviceBusy := fun _ => 0
  isrDoneCmds := fun _ => []
  bhDoneCmds := fun _ => []
  runningBH := fun _ => false
  bhScheduled := fun _ => false
  finished := []

/-- `VMK_ReturnStatus`. -/
inductive Status where
  | ok
  | noMemory
  | wouldBlock
  | failure
deriving DecidableEq, Repr

/-- The locals of `SCSILinuxAbortCommands`: `targets` are the commands that
    `vmk_ScsiQueryTaskMgmt` says to abort, `todo` what is left of `list` in a loop over
    it. -/
structure Abort where
  sdev : Nat
  targets : List Nat
  list : List Nat
  todo : List Nat
  retval : Status
deriving DecidableEq, Repr

/-- Who calls `SCSILinuxCmdDone`; `SCSILinuxAbortCommands` does in its last loop. -/
inductive Caller where
  | queue
  | driver
  | work
  | abort (a : Abort)
deriving DecidableEq, Repr

/-- Who calls `SCSILinuxAbortCommand`. -/
inductive Handler where
  | abort (a : Abort)
  | work
deriving DecidableEq, Repr

/-- The points between two atomic steps; `x` is a command, `p` a PCPU. -/
inductive Pc where
  | done
  | returned (r : Status)
  | queueSetup (x : Nat)
  | queueFail (x : Nat)
  | queueLock (x : Nat)
  | refusedTimer (x : Nat)
  | refusedTest (x : Nat)
  | putCommand (x : Nat) (r : Status)
  | doneLock (x : Nat) (k : Caller)
  | doneTimer (x : Nat) (k : Caller)
  | doneRelock (x : Nat) (k : Caller)
  | doneSchedule (x : Nat) (k : Caller)
  | notReached (x : Nat) (k : Caller)
  | abortCollect (a : Abort)
  | abortLoop (a : Abort)
  | abortFinish (a : Abort)
  | finishLoop (a : Abort)
  | tryAbort (h : Handler) (x : Nat)
  | abortStatus (h : Handler) (x : Nat) (success : Bool)
  | timedOut (x : Nat)
  | workFinish (x : Nat)
  | bhSplice (p : Nat)
  | bhLoop (p : Nat)
  | bhBusy (p : Nat) (x : Nat)
  | bhPut (p : Nat) (x : Nat)
  | bhComplete (p : Nat) (x : Nat)
  | bhEnd (p : Nat) (late : Bool)
deriving DecidableEq, Repr

/-- What the surroundings choose for a step. -/
structure Choice where
  noMemory : Bool := false
  /-- `cmd_len > max_cmd_len`. -/
  tooLong : Bool := false
  hostState : HostState := .running
  hostSelfBlocked : Bool := false
  sdevState : SdevState := .running
  /-- The status of `queuecommand` is not 0. -/
  refused : Bool := false
  /-- What the driver's abort handler returns. -/
  aborted : Bool := true
  pcpu : Nat := 0
  /-- How `now` compares with `yield` in the bottom half. -/
  clock : Ordering := .lt
deriving DecidableEq, Repr

/-! ### Updates -/

def Shared.setCmd (s : Shared) (x : Nat) (c : ScsiCmnd) : Shared :=
  { s with cmd := Function.update s.cmd x c }

@[simp] theorem Shared.setCmd_cmd_self (s : Shared) (x : Nat) (c : ScsiCmnd) :
    (s.setCmd x c).cmd x = c := by
  simp [setCmd]

@[simp] theorem Shared.setCmd_cmd_ne (s : Shared) {x y : Nat} (c : ScsiCmnd) (h : y ≠ x) :
    (s.setCmd x c).cmd y = s.cmd y := by
  simp [setCmd, h]

@[simp] theorem Shared.setCmd_setCmd (s : Shared) (x : Nat) (c c' : ScsiCmnd) :
    (s.setCmd x c).setCmd x c' = s.setCmd x c' := by
  simp [setCmd]

/-- `++shost->host_busy; ++sdev->device_busy`, or back. -/
def Shared.addBusy (s : Shared) (x : Nat) (n : Int) : Shared :=
  { s with
    hostBusy := s.hostBusy + n
    deviceBusy := Function.update s.deviceBusy (s.cmd x).device
      (s.deviceBusy (s.cmd x).device + n) }

/-- `scsi_delete_timer`; a handler that has started is not waited for. -/
def ScsiCmnd.deleteTimer (c : ScsiCmnd) : ScsiCmnd := { c with timerArmed := false }

/-- A timer that the command has is deleted. -/
def deleteIoTimer (s : Shared) (x : Nat) : Shared :=
  if (s.cmd x).ioTimeout then s.setCmd x (s.cmd x).deleteTimer else s

/-- The command is made ready for its one `SCSILinuxCmdDone`. -/
def ScsiCmnd.need (c : ScsiCmnd) : ScsiCmnd := { c with needCmddone := true, given := true }

/-- The command when it is put on a completion list. -/
def ScsiCmnd.put (c : ScsiCmnd) : ScsiCmnd :=
  { c with
    serialNumber := false
    puts := c.puts + 1
    delayedPuts := c.delayedPuts + if c.delayCmddone then 1 else 0 }

/-- `SCSILinuxScheduleCompletion` and `SCSILinuxSignalBH`, on PCPU `p`. -/
def scheduleCompletion (s : Shared) (x p : Nat) : Shared :=
  { s.setCmd x (s.cmd x).put with
    isrDoneCmds := Function.update s.isrDoneCmds p (s.isrDoneCmds p ++ [x])
    runningBH := Function.update s.runningBH p true
    bhScheduled :=
      if s.runningBH p then s.bhScheduled else Function.update s.bhScheduled p true }

/-! ### `SCSILinuxQueueCommand` -/

/-- The test under `host_lock` that sends a command back. -/
def wouldBlock (H : Host) (a : Choice) (s : Shared) (sdev : Nat) : Bool :=
  a.hostSelfBlocked || decide (a.sdevState = .block) || decide (a.sdevState = .quiesce)
    || decide (a.hostState = .recovery) || decide (H.queueDepth sdev ≤ s.deviceBusy sdev)
    || decide (H.canQueue ≤ s.hostBusy)

/-- The command as the driver's `queuecommand` finds it. -/
def ScsiCmnd.submit (H : Host) (c : ScsiCmnd) (refused : Bool) : ScsiCmnd :=
  let timed := H.fcIoTimeout && H.abortHandler
  { c.need with
    ioTimeout := timed
    timerArmed := timed
    driver := if refused then .none else .holds }

/-- The critical section of `host_lock`, with the call of `queuecommand`. -/
def queueCommand (H : Host) (a : Choice) (s : Shared) (x : Nat) : Shared × Pc :=
  if wouldBlock H a s (s.cmd x).device then (s, .putCommand x .wouldBlock)
  else if a.sdevState = .del ∨ a.sdevState = .offline then
    ((s.setCmd x (s.cmd x).need).addBusy x 1, .doneLock x .queue)
  else
    ((s.setCmd x ((s.cmd x).submit H a.refused)).addBusy x 1,
      if a.refused then .refusedTimer x else .returned .ok)

/-! ### `SCSILinuxCmdDone` -/

/-- The driver has made its call when `SCSILinuxCmdDone` returns to it. -/
def ScsiCmnd.doneReturn (c : ScsiCmnd) : Caller → ScsiCmnd
  | .driver => { c with driver := .called }
  | _ => c

/-- What a call of `SCSILinuxCmdDone` returns to. -/
def Caller.next : Caller → Pc
  | .queue => .returned .ok
  | .driver | .work => .done
  | .abort a => .finishLoop a

def doneReturn (s : Shared) (x : Nat) (k : Caller) : Shared × Pc :=
  (s.setCmd x ((s.cmd x).doneReturn k), k.next)

/-- The critical section that decides. -/
def cmdDone (s : Shared) (x : Nat) (k : Caller) : Shared × Pc :=
  if !(s.cmd x).needCmddone then (s.setCmd x { s.cmd x with doubled := true }, .notReached x k)
  else if (s.cmd x).delayCmddone then
    doneReturn (s.setCmd x { s.cmd x with cmddoneAttempted := true }) x k
  else (s.setCmd x { s.cmd x with needCmddone := false }, .doneSchedule x k)

/-! ### `SCSILinuxAbortCommands` -/

/-- One round of the first loop: the state, and the abort list so far. -/
def collectOne (targets : List Nat) (sl : Shared × List Nat) (x : Nat) : Shared × List Nat :=
  if (sl.1.cmd x).needCmddone && !(sl.1.cmd x).cmddoneAttempted && decide (x ∈ targets)
      && !(sl.1.cmd x).delayCmddone then
    ({ sl.1.setCmd x { sl.1.cmd x with delayCmddone := true } with
        cmdList := Function.update sl.1.cmdList (sl.1.cmd x).device
          ((sl.1.cmdList (sl.1.cmd x).device).erase x) },
      sl.2 ++ [x])
  else sl

def collect (a : Abort) (s : Shared) : Shared × List Nat :=
  (s.cmdList a.sdev).foldl (collectOne a.targets) (s, [])

/-- The section of `vmklock` in one round of the last loop. -/
def finishOne (sdev : Nat) (s : Shared) (x : Nat) : Shared :=
  { s.setCmd x { s.cmd x with delayCmddone := false } with
    cmdList := Function.update s.cmdList sdev (s.cmdList sdev ++ [x]) }

/-- `list_lock` of a device is taken, or given back. -/
def Shared.setListLock (s : Shared) (sdev : Nat) (held : Bool) : Shared :=
  { s with listLock := Function.update s.listLock sdev held }

/-- `SCSILinuxTryAbortCommand`: whether the status is `SUCCESS`. -/
def tryAbortCommand (H : Host) (c : ScsiCmnd) (aborted : Bool) : Bool :=
  if !H.abortHandler then false
  else if !c.serialNumber then true
  else aborted

/-- The status of `SCSILinuxAbortCommand`. -/
def abortCommandStatus (success attempted : Bool) : Status :=
  if success then if !attempted then .failure else .ok
  else if attempted then .ok else .failure

/-- `SCSILinuxAbortCommand` returns to the loop of an aborter, or to the work item. -/
def handlerReturn (x : Nat) (r : Status) : Handler → Pc
  | .abort a => .abortLoop { a with retval := if r = .failure then .failure else a.retval }
  | .work => .workFinish x

/-! ### The machine -/

inductive Call where
  | queueCommand (sdev : Nat) (noMemory : Bool)
  | abortCommands (sdev : Nat) (targets : List Nat)
  /-- The driver calls `scsi_done` for `x`. -/
  | scsiDone (x : Nat)
  /-- The timer of `x` expires. -/
  | cmdTimedOut (x : Nat)
  | bh (p : Nat)
deriving DecidableEq, Repr

def enter (me : Nat) (s : Shared) : Call → Option (Shared × Pc)
  | .queueCommand sdev noMemory =>
      -- scsi_get_command
      if noMemory then some (s, .returned .noMemory)
      else if s.listLock sdev then none
      else
        some ({ s.setCmd me (.get sdev) with
            cmdList := Function.update s.cmdList sdev (s.cmdList sdev ++ [me]) },
          .queueSetup me)
  | .abortCommands sdev targets => some (s, .abortCollect ⟨sdev, targets, [], [], .ok⟩)
  | .scsiDone x =>
      if (s.cmd x).driver = .holds then
        some (s.setCmd x { s.cmd x with driver := .calling }, .doneLock x .driver)
      else none
  | .cmdTimedOut x =>
      if (s.cmd x).timerArmed then some (s.setCmd x (s.cmd x).deleteTimer, .timedOut x) else none
  | .bh p =>
      if s.bhScheduled p then
        some ({ s with bhScheduled := Function.update s.bhScheduled p false }, .bhSplice p)
      else none

def step (H : Host) (a : Choice) (s : Shared) : Pc → Option (Shared × Pc)
  | .done => none
  | .returned _ => none
  | .notReached _ _ => none
  -- SCSILinuxQueueCommand
  | .queueSetup x =>
      -- SCSILinuxComputeSGArray fails, or one of the tests before the host_lock
      some (s,
        if a.noMemory then .putCommand x .noMemory
        else if a.tooLong ∨ a.hostState = .cancel then .queueFail x
        else .queueLock x)
  | .queueFail x =>
      some ((s.setCmd x (s.cmd x).need).addBusy x 1, .doneLock x .queue)
  | .queueLock x => some (queueCommand H a s x)
  | .refusedTimer x => some (deleteIoTimer s x, .refusedTest x)
  | .refusedTest x =>
      some (s, if (s.cmd x).needCmddone then .doneLock x .queue else .returned .ok)
  | .putCommand x r =>
      if s.listLock (s.cmd x).device then none
      else
        some ({ s with
            cmdList := Function.update s.cmdList (s.cmd x).device
              ((s.cmdList (s.cmd x).device).erase x) },
          .returned r)
  -- SCSILinuxCmdDone
  | .doneLock x k => some (if (s.cmd x).ioTimeout then (s, .doneTimer x k) else cmdDone s x k)
  | .doneTimer x k => some (s.setCmd x (s.cmd x).deleteTimer, .doneRelock x k)
  | .doneRelock x k => some (cmdDone s x k)
  | .doneSchedule x k => some (doneReturn (scheduleCompletion s x a.pcpu) x k)
  -- SCSILinuxAbortCommands
  | .abortCollect b =>
      if s.listLock b.sdev then none
      else
        some ((collect b s).1,
          .abortLoop { b with list := (collect b s).2, todo := (collect b s).2 })
  | .abortLoop b =>
      some (s,
        match b.todo with
        | [] => .abortFinish b
        | x :: todo => .tryAbort (.abort { b with todo := todo }) x)
  | .abortFinish b =>
      if s.listLock b.sdev then none
      else some (s.setListLock b.sdev true, .finishLoop { b with todo := b.list })
  | .finishLoop b =>
      match b.todo with
      | [] => some (s.setListLock b.sdev false, .returned b.retval)
      | x :: todo =>
          some (finishOne b.sdev s x,
            if (s.cmd x).cmddoneAttempted then .doneLock x (.abort { b with todo := todo })
            else .finishLoop { b with todo := todo })
  -- SCSILinuxAbortCommand
  | .tryAbort h x => some (s, .abortStatus h x (tryAbortCommand H (s.cmd x) a.aborted))
  | .abortStatus h x success =>
      some (s, handlerReturn x (abortCommandStatus success (s.cmd x).cmddoneAttempted) h)
  -- SCSILinuxCmdTimedOut and SCSIProcessCmdTimedOut
  | .timedOut x =>
      if (s.cmd x).needCmddone && !(s.cmd x).delayCmddone then
        some (s.setCmd x { s.cmd x with ioTimeout := false, delayCmddone := true },
          .tryAbort .work x)
      else some (s.setCmd x { s.cmd x with ioTimeout := false }, .done)
  | .workFinish x =>
      some (s.setCmd x { s.cmd x with delayCmddone := false },
        if (s.cmd x).cmddoneAttempted then .doneLock x .work else .done)
  -- SCSILinuxBH
  | .bhSplice p =>
      some ({ s with
          bhDoneCmds := Function.update s.bhDoneCmds p (s.isrDoneCmds p ++ s.bhDoneCmds p)
          isrDoneCmds := Function.update s.isrDoneCmds p [] },
        .bhLoop p)
  | .bhLoop p =>
      if a.clock = .lt then
        match s.bhDoneCmds p with
        | [] => some (s, .bhEnd p false)
        | x :: rest =>
            some ({ s with bhDoneCmds := Function.update s.bhDoneCmds p rest }, .bhBusy p x)
      else some (s, .bhEnd p (decide (a.clock = .gt)))
  | .bhBusy p x => some (s.addBusy x (-1), .bhPut p x)
  | .bhPut p x =>
      if s.listLock (s.cmd x).device then none
      else
        some ({ s with
            cmdList := Function.update s.cmdList (s.cmd x).device
              ((s.cmdList (s.cmd x).device).erase x) },
          .bhComplete p x)
  | .bhComplete p x => some ({ s with finished := s.finished ++ [x] }, .bhLoop p)
  | .bhEnd p late =>
      if late ∧ ¬ (s.bhDoneCmds p = [] ∧ s.isrDoneCmds p = []) then
        some ({ s with bhScheduled := Function.update s.bhScheduled p true }, .done)
      else if ¬ late ∧ s.isrDoneCmds p ≠ [] then some (s, .bhSplice p)
      else some ({ s with runningBH := Function.update s.runningBH p false }, .done)

/-- The machine of a host. -/
def machine (H : Host) : Machine Shared Pc Call Choice where
  start := fun me call s => enter me s call
  act := fun a s pc => step H a s pc

/-- A host without commands. -/
def initial : Config Shared Pc := ⟨initShared, []⟩

end VmkLinux.Scsi
