/-
  VmkLinux/Scsi/Busy.lean
  =======================
  **Busy counters of a host and its devices** (`vmklinux26/vmware/linux_scsi.c`,
  `linux_scsi_vmk_if.c` and `linux_scsi_lld_if.c`): `SCSILinuxQueueCommand` with all its
  exits, `SCSILinuxDumpCommand` with `SCSILinuxDumpCmdDone`, `scsi_execute`, and the
  completion through `SCSILinuxCmdDone` and `SCSILinuxBH`.

  A thread is a command: the call that issues it, and where the command itself is.  The two
  move on their own, since the driver may complete a command while the call is still on its
  way out; the choice says which of them moves.  `host_lock` is explicit: a section that is
  one step waits for it to be free.  The states of host and device that
  `SCSILinuxQueueCommand` tests are choices of the surroundings, as are the answers of
  `queuecommand`.

  `SCSILinuxDumpCommand` has one `scsi_cmnd` for all its calls (`Shared.dump`).

  A dump command that the driver refuses stays counted, its limits are tested with `==`
  where other commands may have been counted above them, and a second dump command takes
  the first one's `scsi_cmnd`.  `busy_accounting` has these as its condition and
  `busy_miscounted` the runs without.
-/
import VmkLinux.Interleave

namespace VmkLinux.Scsi.Busy

open VmkLinux.Interleave

/-! ### Data -/

inductive Kind where
  | queue
  | execute
  | dump
deriving DecidableEq, Repr

/-- The static command of `SCSILinuxDumpCommand`: its device, and whether
    `VMK_FLAGS_DUMP_REQUEST` is set. -/
structure DumpCmd where
  dev : Nat
  request : Bool
deriving DecidableEq, Repr

structure Shared where
  hostLock : Bool
  hostBusy : Int
  deviceBusy : Nat → Int
  dump : DumpCmd

/-- Where a command is.  `held` is counted in and in the hands of its call. -/
inductive Cmd where
  | uncounted
  | held
  | driver
  | dropped
  | listed
  | woken
  | lost
  | delivered
deriving DecidableEq, Repr

inductive Pc where
  -- SCSILinuxQueueCommand
  | getCommand
  | debugDrop
  | dropCount
  | testLen
  | testCancel
  | errCount
  | queueLock
  | queueTest
  | queueBlocked
  | testDel
  | errUnlock
  | queueCommand
  | queueUnlock
  | cmdDone
  -- scsi_execute
  | executeAlloc
  | executeCount
  | executeCommand
  | executeUnlock
  | executeStatus
  | executeDown
  | executeFree
  -- SCSILinuxDumpCommand
  | dumpInit
  | dumpLock
  | dumpTest
  | dumpBlocked
  | dumpUnlock
  | dumpFlags
  | dumpRelock
  | dumpCommand
  | dumpReturn
  | done
deriving DecidableEq, Repr

structure Thread where
  kind : Kind
  dev : Nat
  pc : Pc
  cmd : Cmd := .uncounted
  accepted : Bool := false
  refused : Bool := false
deriving DecidableEq, Repr

inductive Call where
  | queueCommand (dev : Nat)
  | execute (dev : Nat)
  | dumpCommand (dev : Nat)
deriving DecidableEq, Repr

/-- `cmd`: the command moves, not its call.  `fails`: there is no memory, or a test that
    the counters have no part in holds; `refuse`: `queuecommand` does not take the command;
    `done`: it calls `scsi_done` before it returns. -/
structure Choice where
  cmd : Bool := false
  fails : Bool := false
  refuse : Bool := false
  done : Bool := false
deriving DecidableEq, Repr

/-! ### Steps -/

/-- `++host_busy`, `++device_busy`. -/
def Shared.inc (s : Shared) (d : Nat) : Shared :=
  { s with
    hostBusy := s.hostBusy + 1
    deviceBusy := fun e => if e = d then s.deviceBusy e + 1 else s.deviceBusy e }

/-- `--host_busy`, `--device_busy`. -/
def Shared.dec (s : Shared) (d : Nat) : Shared :=
  { s with
    hostBusy := s.hostBusy - 1
    deviceBusy := fun e => if e = d then s.deviceBusy e - 1 else s.deviceBusy e }

def Shared.lock (s : Shared) : Shared := { s with hostLock := true }

def Shared.unlock (s : Shared) : Shared := { s with hostLock := false }

def enter (call : Call) (s : Shared) : Option (Shared × Thread) :=
  match call with
  | .queueCommand d => some (s, { kind := .queue, dev := d, pc := .getCommand })
  | .execute d => some (s, { kind := .execute, dev := d, pc := .executeAlloc })
  | .dumpCommand d => some (s, { kind := .dump, dev := d, pc := .dumpInit })

section Model

variable (canQueue : Nat) (queueDepth : Nat → Nat)

/-- Where `queuecommand` leaves a command that completes through the bottom half. -/
def Choice.answer (a : Choice) : Cmd :=
  if a.done then .listed else if a.refuse then .held else .driver

def stepCall (a : Choice) (s : Shared) (t : Thread) : Option (Shared × Thread) :=
  match t.pc with
  | .getCommand =>
      if a.fails then some (s, { t with pc := .done }) else some (s, { t with pc := .debugDrop })
  | .debugDrop =>
      if a.fails then some (s, { t with pc := .dropCount })
      else some (s, { t with pc := .testLen })
  | .dropCount =>
      if s.hostLock then none
      else some (s.inc t.dev, { t with pc := .done, cmd := .dropped })
  | .testLen =>
      if a.fails then some (s, { t with pc := .errCount })
      else some (s, { t with pc := .testCancel })
  | .testCancel =>
      if a.fails then some (s, { t with pc := .errCount })
      else some (s, { t with pc := .queueLock })
  | .errCount =>
      if s.hostLock then none
      else some (s.inc t.dev, { t with pc := .cmdDone, cmd := .held })
  | .queueLock => if s.hostLock then none else some (s.lock, { t with pc := .queueTest })
  | .queueTest =>
      -- host_self_blocked, SDEV_BLOCK, SDEV_QUIESCE, SHOST_RECOVERY
      if a.fails ∨ s.deviceBusy t.dev ≥ queueDepth t.dev ∨ s.hostBusy ≥ canQueue then
        some (s, { t with pc := .queueBlocked })
      else some (s.inc t.dev, { t with pc := .testDel, cmd := .held })
  | .queueBlocked => some (s.unlock, { t with pc := .done })
  | .testDel =>
      -- SDEV_DEL, SDEV_OFFLINE
      if a.fails then some (s, { t with pc := .errUnlock })
      else some (s, { t with pc := .queueCommand })
  | .errUnlock => some (s.unlock, { t with pc := .cmdDone })
  | .queueCommand =>
      some (s, { t with pc := .queueUnlock, cmd := a.answer, refused := a.refuse,
                        accepted := !a.refuse })
  | .queueUnlock =>
      if t.refused then some (s.unlock, { t with pc := .cmdDone })
      else some (s.unlock, { t with pc := .done })
  | .cmdDone =>
      -- VMK_FLAGS_NEED_CMDDONE is clear where the driver has refused and completed
      if t.cmd = .held then some (s, { t with pc := .done, cmd := .listed })
      else some (s, { t with pc := .done })
  | .executeAlloc =>
      if a.fails then some (s, { t with pc := .done })
      else some (s, { t with pc := .executeCount })
  | .executeCount =>
      if s.hostLock then none
      else some ((s.inc t.dev).lock, { t with pc := .executeCommand, cmd := .held })
  | .executeCommand =>
      some (s, { t with pc := .executeUnlock, cmd := a.answer, refused := a.refuse,
                        accepted := !a.refuse })
  | .executeUnlock => some (s.unlock, { t with pc := .executeStatus })
  | .executeStatus =>
      if t.cmd = .held then some (s, { t with pc := .executeFree })
      else some (s, { t with pc := .executeDown })
  | .executeDown => if t.cmd = .woken then some (s, { t with pc := .executeFree }) else none
  | .executeFree =>
      if s.hostLock then none
      else some (s.dec t.dev, { t with pc := .done, cmd := .delivered })
  | .dumpInit =>
      some ({ s with dump := { dev := t.dev, request := false } }, { t with pc := .dumpLock })
  | .dumpLock => if s.hostLock then none else some (s.lock, { t with pc := .dumpTest })
  | .dumpTest =>
      if a.fails ∨ s.deviceBusy t.dev = queueDepth t.dev ∨ s.hostBusy = canQueue then
        some (s, { t with pc := .dumpBlocked })
      else some (s.inc t.dev, { t with pc := .dumpUnlock, cmd := .held })
  | .dumpBlocked => some (s.unlock, { t with pc := .done })
  | .dumpUnlock => some (s.unlock, { t with pc := .dumpFlags })
  | .dumpFlags =>
      some ({ s with dump := { s.dump with request := true } }, { t with pc := .dumpRelock })
  | .dumpRelock => if s.hostLock then none else some (s.lock, { t with pc := .dumpCommand })
  | .dumpCommand =>
      if a.done then
        if s.dump.request then
          -- SCSILinuxDumpCmdDone finds its own CPU holding the lock
          some (s.dec s.dump.dev, { t with pc := .dumpReturn, cmd := .delivered,
                                           refused := a.refuse, accepted := !a.refuse })
        else
          some (s, { t with pc := .dumpReturn, cmd := .lost, refused := a.refuse,
                            accepted := !a.refuse })
      else if a.refuse then some (s, { t with pc := .dumpReturn, refused := true })
      else some (s, { t with pc := .dumpReturn, cmd := .driver, accepted := true })
  | .dumpReturn => some (s.unlock, { t with pc := .done })
  | .done => none

/-- What happens to a command: the driver, or an abort, completes it, and the bottom half
    delivers it. -/
def stepCmd (s : Shared) (t : Thread) : Option (Shared × Thread) :=
  match t.cmd with
  | .driver =>
      match t.kind with
      | .dump =>
          if s.dump.request then
            -- SCSILinuxDumpCmdDone
            if s.hostLock then none else some (s.dec s.dump.dev, { t with cmd := .delivered })
          else some (s, { t with cmd := .lost })
      | .queue | .execute => some (s, { t with cmd := .listed })
  | .dropped => some (s, { t with cmd := .listed })
  | .listed =>
      match t.kind with
      | .queue => if s.hostLock then none else some (s.dec t.dev, { t with cmd := .delivered })
      | .execute | .dump => some (s, { t with cmd := .woken })
  | _ => none

def step (a : Choice) (s : Shared) (t : Thread) : Option (Shared × Thread) :=
  if a.cmd then stepCmd s t else stepCall canQueue queueDepth a s t

def machine : Machine Shared Thread Call Choice where
  start _ := enter
  act := step canQueue queueDepth

end Model

/-- An idle host. -/
def initial : Config Shared Thread where
  shared :=
    { hostLock := false, hostBusy := 0, deviceBusy := fun _ => 0,
      dump := { dev := 0, request := false } }
  pool := []

/-- The call `i` takes `k` steps in which nothing fails; its command takes `k`. -/
def acts (i k : Nat) : List (Event Call Choice) := List.replicate k (.act i {})

def completes (i k : Nat) : List (Event Call Choice) := List.replicate k (.act i { cmd := true })

/-! ### What the counters stand for -/

/-- Counted in, and the completion not delivered. -/
def Cmd.counted : Cmd → Nat
  | .uncounted | .delivered => 0
  | _ => 1

def Thread.counted (t : Thread) : Nat := t.cmd.counted

/-- Of `SCSILinuxQueueCommand` or `SCSILinuxDumpCommand`, accepted by the driver and not
    delivered. -/
def Thread.outstanding (t : Thread) : Nat :=
  if t.kind ≠ .execute ∧ t.accepted then t.cmd.counted else 0

/-- Past the test of the limits, and the driver has not answered. -/
def Pc.pending : Pc → Bool
  | .testDel | .queueCommand | .dumpUnlock | .dumpFlags | .dumpRelock | .dumpCommand => true
  | _ => false

/-- Counted in under the limits: pending, or outstanding. -/
def Thread.reserved (t : Thread) : Nat :=
  if (t.kind ≠ .execute ∧ t.accepted) ∨ t.pc.pending then t.cmd.counted else 0

/-- The call has the static command of `SCSILinuxDumpCommand`, or the driver does. -/
def Thread.dumping (t : Thread) : Nat :=
  match t.pc with
  | .dumpLock | .dumpTest | .dumpBlocked | .dumpUnlock | .dumpFlags | .dumpRelock
  | .dumpCommand => 1
  | _ => if t.kind = .dump ∧ t.cmd = .driver then 1 else 0

/-- A weight, on the commands of one device. -/
def of (d : Nat) (w : Thread → Nat) (t : Thread) : Nat := if t.dev = d then w t else 0

/-- A dump command is issued when no other is under way, finds the counters within their
    limits, and is not refused. -/
def dumpsAlone (canQueue : Nat) (queueDepth : Nat → Nat) (c : Config Shared Thread) :
    Event Call Choice → Bool
  | .start _ => true
  | .act i a =>
      match c.pool[i]? with
      | some t =>
          if a.cmd then true
          else
            match t.pc with
            | .dumpInit => decide (∀ u ∈ c.pool, u.dumping = 0)
            | .dumpTest =>
                decide (c.shared.hostBusy ≤ canQueue ∧
                  c.shared.deviceBusy t.dev ≤ queueDepth t.dev)
            | .dumpCommand => a.done || !a.refuse
            | _ => true
      | none => true

/-! ### Where a command can be -/

/-- The driver has not been asked. -/
def Thread.unanswered (t : Thread) : Prop := t.refused = false ∧ t.accepted = false

/-- What the call says about its command. -/
def Thread.Shape (t : Thread) : Prop :=
  match t.pc with
  | .getCommand | .debugDrop | .dropCount | .testLen | .testCancel | .errCount | .queueLock
  | .queueTest | .queueBlocked => t.kind = .queue ∧ t.cmd = .uncounted ∧ t.unanswered
  | .testDel | .errUnlock | .queueCommand => t.kind = .queue ∧ t.cmd = .held ∧ t.unanswered
  | .queueUnlock =>
      t.kind = .queue ∧ t.cmd ≠ .uncounted ∧
        (t.refused = true → t.cmd = .held ∨ t.cmd = .listed ∨ t.cmd = .delivered)
  | .cmdDone => t.kind = .queue ∧ (t.cmd = .held ∨ t.cmd = .listed ∨ t.cmd = .delivered)
  | .executeAlloc | .executeCount =>
      t.kind = .execute ∧ t.cmd = .uncounted ∧ t.unanswered
  | .executeCommand => t.kind = .execute ∧ t.cmd = .held ∧ t.unanswered
  | .executeUnlock | .executeStatus =>
      t.kind = .execute ∧ (t.cmd = .held ∨ t.cmd = .driver ∨ t.cmd = .listed ∨ t.cmd = .woken)
  | .executeDown =>
      t.kind = .execute ∧ (t.cmd = .driver ∨ t.cmd = .listed ∨ t.cmd = .woken)
  | .executeFree => t.kind = .execute ∧ (t.cmd = .held ∨ t.cmd = .woken)
  | .dumpInit | .dumpLock | .dumpTest | .dumpBlocked =>
      t.kind = .dump ∧ t.cmd = .uncounted ∧ t.unanswered
  | .dumpUnlock | .dumpFlags | .dumpRelock | .dumpCommand =>
      t.kind = .dump ∧ t.cmd = .held ∧ t.unanswered
  | .dumpReturn | .done =>
      (t.refused = true → t.cmd = .listed ∨ t.cmd = .delivered) ∧
        (t.kind = .execute → t.cmd = .uncounted ∨ t.cmd = .delivered) ∧
        (t.kind = .dump → t.cmd = .uncounted ∨ t.cmd = .driver ∨ t.cmd = .delivered) ∧
        (t.kind = .queue → t.pc = .done)

/-- The static command is that of the call which is using it. -/
def Thread.OwnsDump (s : Shared) (t : Thread) : Prop :=
  0 < t.dumping → s.dump.dev = t.dev ∧
    (t.pc = .dumpRelock ∨ t.pc = .dumpCommand ∨ t.cmd = .driver → s.dump.request = true)

section Step

variable {canQueue : Nat} {queueDepth : Nat → Nat} {a : Choice} {s s' : Shared} {t t' : Thread}

/-- The command is out of the hands of its call. -/
def Thread.Away (t : Thread) : Prop := t.cmd ≠ .uncounted ∧ t.cmd ≠ .held

/-- Only then the command takes a step, -/
theorem away_of_stepCmd (h : stepCmd s t = some (s', t')) : t.Away := by
  unfold stepCmd at h
  constructor
  all_goals intro hcmd
  all_goals simp only [hcmd, reduceCtorEq] at h

/-- and the call is at its end, or waits. -/
theorem Thread.Shape.pc_of_away (hI : t.Shape) (haway : t.Away) :
    t.pc = .queueUnlock ∨ t.pc = .cmdDone ∨ t.pc = .executeUnlock ∨ t.pc = .executeStatus ∨
      t.pc = .executeDown ∨ t.pc = .executeFree ∨ t.pc = .dumpReturn ∨ t.pc = .done := by
  obtain ⟨huncounted, hheld⟩ := haway
  cases hpc : t.pc
  all_goals simp only [reduceCtorEq, or_true, or_false]
  all_goals simp only [Thread.Shape, hpc] at hI
  all_goals first
    | exact huncounted hI.2.1
    | exact hheld hI.2.1

theorem step_shape (h : step canQueue queueDepth a s t = some (s', t')) (hI : t.Shape)
    (hown : t.OwnsDump s)
    (hrefuse : t.pc = .dumpCommand → a.cmd = false → a.done = true ∨ a.refuse = false) :
    t'.Shape := by
  unfold step at h
  split at h
  · rcases hI.pc_of_away (away_of_stepCmd h) with hpc | hpc | hpc | hpc | hpc | hpc | hpc | hpc
    all_goals unfold stepCmd at h
    all_goals repeat' split at h
    all_goals simp only [Option.some.injEq, Prod.mk.injEq, reduceCtorEq] at h
    all_goals obtain ⟨rfl, rfl⟩ := h
    all_goals simp only [Thread.Shape, Thread.OwnsDump, Thread.dumping, hpc] at *
    all_goals first
      | assumption
      | grind -linarith
  · unfold stepCall at h
    cases hpc : t.pc
    all_goals simp only [hpc] at h
    all_goals repeat' split at h
    all_goals simp only [Option.some.injEq, Prod.mk.injEq, reduceCtorEq] at h
    all_goals obtain ⟨rfl, rfl⟩ := h
    all_goals simp only [Thread.Shape, Thread.unanswered, Thread.OwnsDump, Thread.dumping, hpc,
      Choice.answer] at *
    all_goals first
      | assumption
      | grind -linarith

theorem step_ownsDump (h : step canQueue queueDepth a s t = some (s', t')) (hI : t.Shape)
    (hown : t.OwnsDump s) : t'.OwnsDump s' := by
  unfold step at h
  split at h
  · rcases hI.pc_of_away (away_of_stepCmd h) with hpc | hpc | hpc | hpc | hpc | hpc | hpc | hpc
    all_goals unfold stepCmd at h
    all_goals repeat' split at h
    all_goals simp only [Option.some.injEq, Prod.mk.injEq, reduceCtorEq] at h
    all_goals obtain ⟨rfl, rfl⟩ := h
    all_goals simp only [Thread.Shape, Thread.OwnsDump, Thread.dumping, hpc,
      Shared.dec] at *
    all_goals grind -linarith
  · unfold stepCall at h
    cases hpc : t.pc
    all_goals simp only [hpc] at h
    all_goals repeat' split at h
    all_goals simp only [Option.some.injEq, Prod.mk.injEq, reduceCtorEq] at h
    all_goals obtain ⟨rfl, rfl⟩ := h
    all_goals simp only [Thread.Shape, Thread.unanswered, Thread.OwnsDump, Thread.dumping, hpc,
      Choice.answer, Shared.inc, Shared.dec, Shared.lock, Shared.unlock] at *
    all_goals grind -linarith

/-- The static command changes hands only where a call takes it. -/
theorem step_dump (h : step canQueue queueDepth a s t = some (s', t')) :
    s'.dump = s.dump ∨ (t.pc = .dumpInit ∧ a.cmd = false) ∨
      (s'.dump.dev = s.dump.dev ∧ s'.dump.request = true) := by
  unfold step at h
  split at h
  · unfold stepCmd at h
    repeat' split at h
    all_goals simp only [Option.some.injEq, Prod.mk.injEq, reduceCtorEq] at h
    all_goals obtain ⟨rfl, rfl⟩ := h
    all_goals exact .inl rfl
  · rename_i hcall
    unfold stepCall at h
    cases hpc : t.pc
    all_goals simp only [hpc] at h
    all_goals repeat' split at h
    all_goals simp only [Option.some.injEq, Prod.mk.injEq, reduceCtorEq] at h
    all_goals obtain ⟨rfl, rfl⟩ := h
    all_goals simp [Shared.inc, Shared.dec, Shared.lock, Shared.unlock, hcall]

/-- The counters follow the command. -/
theorem step_counted (h : step canQueue queueDepth a s t = some (s', t')) (hI : t.Shape)
    (hown : t.OwnsDump s) :
    s'.hostBusy + t.counted = s.hostBusy + t'.counted ∧
      ∀ d, s'.deviceBusy d + of d Thread.counted t = s.deviceBusy d + of d Thread.counted t' := by
  unfold step at h
  split at h
  · unfold stepCmd at h
    repeat' split at h
    all_goals simp only [Option.some.injEq, Prod.mk.injEq, reduceCtorEq] at h
    all_goals obtain ⟨rfl, rfl⟩ := h
    all_goals simp only [Thread.OwnsDump, Thread.dumping, of, Thread.counted, Cmd.counted,
      Shared.dec, *] at *
    all_goals grind -linarith
  · unfold stepCall at h
    cases hpc : t.pc
    all_goals simp only [hpc] at h
    all_goals repeat' split at h
    all_goals simp only [Option.some.injEq, Prod.mk.injEq, reduceCtorEq] at h
    all_goals obtain ⟨rfl, rfl⟩ := h
    all_goals simp only [Thread.Shape, Thread.unanswered, Thread.OwnsDump, Thread.dumping, hpc,
      Choice.answer, of, Thread.counted, Cmd.counted, Shared.inc, Shared.dec, Shared.lock,
      Shared.unlock] at *
    all_goals grind -linarith

theorem step_dev (h : step canQueue queueDepth a s t = some (s', t')) : t'.dev = t.dev := by
  unfold step stepCmd stepCall at h
  repeat' split at h
  all_goals simp only [Option.some.injEq, Prod.mk.injEq, reduceCtorEq] at h
  all_goals obtain ⟨rfl, rfl⟩ := h
  all_goals rfl

/-- A command comes under the limits where they are tested. -/
theorem step_reserved (h : step canQueue queueDepth a s t = some (s', t')) (hI : t.Shape) :
    t'.reserved ≤ t.reserved ∨
      (t.counted = 0 ∧
        ((s.hostBusy < canQueue ∧ s.deviceBusy t.dev < queueDepth t.dev) ∨
          (t.pc = .dumpTest ∧ a.cmd = false ∧ s.hostBusy ≠ canQueue ∧
            s.deviceBusy t.dev ≠ queueDepth t.dev))) := by
  unfold step at h
  split at h
  · unfold stepCmd at h
    repeat' split at h
    all_goals simp only [Option.some.injEq, Prod.mk.injEq, reduceCtorEq] at h
    all_goals obtain ⟨rfl, rfl⟩ := h
    all_goals left
    all_goals simp only [Thread.reserved, Cmd.counted, *]
    all_goals grind -linarith
  · unfold stepCall at h
    cases hpc : t.pc
    all_goals simp only [hpc] at h
    all_goals repeat' split at h
    all_goals simp only [Option.some.injEq, Prod.mk.injEq, reduceCtorEq] at h
    all_goals obtain ⟨rfl, rfl⟩ := h
    all_goals simp only [Thread.Shape, Thread.unanswered, hpc, Choice.answer, Thread.reserved,
      Thread.counted, Cmd.counted, Pc.pending] at *
    all_goals grind -linarith

end Step

/-! ### Whole runs -/

structure Accounted (canQueue : Nat) (queueDepth : Nat → Nat) (c : Config Shared Thread) :
    Prop where
  shape : Each (fun _ t => t.Shape) c.pool
  owns : Each (fun _ t => t.OwnsDump c.shared) c.pool
  host : c.shared.hostBusy = total Thread.counted c.pool
  device : ∀ d, c.shared.deviceBusy d = total (of d Thread.counted) c.pool
  canQueue : total Thread.reserved c.pool ≤ canQueue
  queueDepth : ∀ d, total (of d Thread.reserved) c.pool ≤ queueDepth d

theorem reserved_le_counted (t : Thread) : t.reserved ≤ t.counted := by
  unfold Thread.reserved Thread.counted
  split
  · exact Nat.le_refl _
  · exact Nat.zero_le _

theorem outstanding_le_reserved (t : Thread) : t.outstanding ≤ t.reserved := by
  unfold Thread.outstanding Thread.reserved
  split
  · rename_i h
    exact Nat.le_of_eq (if_pos (.inl h)).symm
  · exact Nat.zero_le _

theorem counted_le_one (t : Thread) : t.counted ≤ 1 := by
  unfold Thread.counted Cmd.counted
  cases t.cmd <;> simp

theorem of_le_of {w w' : Thread → Nat} (h : ∀ t, w t ≤ w' t) (d : Nat) (t : Thread) :
    of d w t ≤ of d w' t := by
  unfold of
  split
  · exact h t
  · exact Nat.le_refl 0

variable {canQueue : Nat} {queueDepth : Nat → Nat}

theorem accounted_enter {c : Config Shared Thread} {call : Call} {s : Shared} {t : Thread}
    (h : enter call c.shared = some (s, t)) (hI : Accounted canQueue queueDepth c) :
    Accounted canQueue queueDepth ⟨s, c.pool ++ [t]⟩ := by
  obtain ⟨hshape, howns, hhost, hdevice, hcan, hdepth⟩ := hI
  have hnew : s = c.shared ∧ t.Shape ∧ t.dumping = 0 ∧ t.counted = 0 ∧ t.reserved = 0 := by
    cases call <;> simp only [enter, Option.some.injEq, Prod.mk.injEq] at h
    all_goals obtain ⟨rfl, rfl⟩ := h
    all_goals exact ⟨rfl, ⟨rfl, rfl, rfl, rfl⟩, rfl, rfl, rfl⟩
  obtain ⟨rfl, hs, hdumping, hcounted, hreserved⟩ := hnew
  constructor
  · exact hshape.append (fun _ _ _ hu => hu) hs
  · exact howns.append (fun _ _ _ hu => hu) (fun hpos => by omega)
  · simp only [total_append, hcounted]
    exact hhost
  · intro d
    simp only [total_append, of, hcounted, ite_self]
    exact hdevice d
  · simp only [total_append, hreserved]
    exact hcan
  · intro d
    simp only [total_append, of, hreserved, ite_self]
    exact hdepth d

theorem accounted_step {a : Choice} {i : Nat} {c : Config Shared Thread} {s : Shared}
    {t t' : Thread} (hi : c.pool[i]? = some t)
    (h : step canQueue queueDepth a c.shared t = some (s, t'))
    (hok : dumpsAlone canQueue queueDepth c (.act i a) = true)
    (hI : Accounted canQueue queueDepth c) :
    Accounted canQueue queueDepth ⟨s, c.pool.set i t'⟩ := by
  obtain ⟨hshape, howns, hhost, hdevice, hcan, hdepth⟩ := hI
  have hmine := hshape i t hi
  have hown := howns i t hi
  simp only [dumpsAlone, hi] at hok
  have hrefuse : t.pc = .dumpCommand → a.cmd = false → a.done = true ∨ a.refuse = false := by
    intro hpc hcall
    simpa [hpc, hcall] using hok
  obtain ⟨hcount, hcountDev⟩ := step_counted h hmine hown
  have hdev := step_dev h
  simp only [total_eq_others _ hi] at hhost hdevice hcan hdepth
  have hle : others Thread.reserved c.pool i ≤ others Thread.counted c.pool i :=
    mono_others c.pool i _ _ reserved_le_counted
  have hleDev : others (of t.dev Thread.reserved) c.pool i ≤
      others (of t.dev Thread.counted) c.pool i :=
    mono_others c.pool i _ _ (of_le_of reserved_le_counted t.dev)
  have hone := counted_le_one t'
  have hone' := reserved_le_counted t'
  have hnew : t'.reserved ≤ t.reserved ∨ (c.shared.hostBusy < canQueue ∧
      c.shared.deviceBusy t.dev < queueDepth t.dev ∧ t.counted = 0) := by
    rcases step_reserved h hmine with hless | ⟨hzero, hlt | ⟨hpc, hcall, hne, hne'⟩⟩
    · exact .inl hless
    · exact .inr ⟨hlt.1, hlt.2, hzero⟩
    · simp only [hpc, hcall, Bool.false_eq_true, if_false, decide_eq_true_eq] at hok
      exact .inr ⟨by omega, by omega, hzero⟩
  constructor
  · exact hshape.set (fun _ _ _ _ hu => hu) (step_shape h hmine hown hrefuse)
  · refine howns.set (fun j u _ hj hu => ?_) (step_ownsDump h hmine hown)
    rcases step_dump h with hsame | ⟨hpc, hcall⟩ | ⟨hsame, hreq⟩
    · unfold Thread.OwnsDump at hu ⊢
      rw [hsame]
      exact hu
    · simp only [hpc, hcall, Bool.false_eq_true, if_false, decide_eq_true_eq] at hok
      intro hpos
      have hzero := hok u (List.mem_of_getElem? hj)
      omega
    · intro hpos
      obtain ⟨hdev, -⟩ := hu hpos
      exact ⟨hsame.trans hdev, fun _ => hreq⟩
  · simp only [total_set _ _ hi]
    push_cast at hhost ⊢
    omega
  · intro d
    have hd := hdevice d
    have hd' := hcountDev d
    simp only [total_set _ _ hi]
    push_cast at hd ⊢
    omega
  · simp only [total_set _ _ hi]
    omega
  · intro d
    have hd := hdepth d
    simp only [total_set _ _ hi]
    by_cases hdd : t.dev = d
    · subst hdd
      have hbusy := hdevice t.dev
      simp only [of, hdev, if_true] at hbusy hd ⊢
      omega
    · simp only [of, hdev, hdd, if_false] at hd ⊢
      exact hd

theorem accounted_of_reach {c : Config Shared Thread}
    (h : (machine canQueue queueDepth).Reach
      (fun c e => dumpsAlone canQueue queueDepth c e = true) initial c) :
    Accounted canQueue queueDepth c := by
  refine Machine.Reach.invariant (Accounted canQueue queueDepth) ?_ ?_ ?_ h
  · constructor <;> simp [initial, each_nil]
  · intro c call s t _ hI _ hs
    exact accounted_enter hs hI
  · intro c i a t s t' _ hI hok hi hs
    exact accounted_step hi hs hok hI

/-- **Busy accounting.**  In every run whose dump commands come one at a time, within the
    limits and are not refused: the counters of the host and of each device are the numbers
    of commands counted in and not delivered, so never negative; a command that the driver
    refused is not counted once its call has returned and the bottom half has it no more;
    and what the driver accepted from the two queueing entries stays within the limits. -/
theorem busy_accounting {c : Config Shared Thread}
    (h : (machine canQueue queueDepth).Reach
      (fun c e => dumpsAlone canQueue queueDepth c e = true) initial c) :
    c.shared.hostBusy = total Thread.counted c.pool ∧
    (∀ d, c.shared.deviceBusy d = total (of d Thread.counted) c.pool) ∧
    0 ≤ c.shared.hostBusy ∧ (∀ d, 0 ≤ c.shared.deviceBusy d) ∧
    (∀ t ∈ c.pool, t.refused = true → t.pc = .done → t.cmd ≠ .listed → t.counted = 0) ∧
    total Thread.outstanding c.pool ≤ canQueue ∧
    ∀ d, total (of d Thread.outstanding) c.pool ≤ queueDepth d := by
  obtain ⟨hshape, -, hhost, hdevice, hcan, hdepth⟩ := accounted_of_reach h
  have hmono := mono_total c.pool
  refine ⟨hhost, hdevice, by omega, fun d => ?_, fun t ht hrefused hpc hcmd => ?_, ?_, fun d => ?_⟩
  · rw [hdevice d]
    omega
  · obtain ⟨i, hi⟩ := List.mem_iff_getElem?.mp ht
    have hs := hshape i t hi
    simp only [Thread.Shape, hpc] at hs
    rcases hs.1 hrefused with hlisted | hdelivered
    · exact absurd hlisted hcmd
    · simp [Thread.counted, hdelivered, Cmd.counted]
  · exact Nat.le_trans (hmono _ _ outstanding_le_reserved) hcan
  · exact Nat.le_trans (hmono _ _ (of_le_of outstanding_le_reserved d)) (hdepth d)

/-- A host that takes two commands, its devices one each: one command is accepted, one is
    refused by the driver and delivered by the bottom half, an internal command runs to its
    end, and a dump command is accepted. -/
theorem busy_accounting_all_entries :
    ∃ c, (machine 2 fun _ => 1).Reach (fun c e => dumpsAlone 2 (fun _ => 1) c e = true) initial c ∧
      c.shared.hostBusy = 2 ∧ total Thread.outstanding c.pool ≤ 2 := by
  obtain ⟨c, hc, ho⟩ := (machine 2 fun _ => 1).exists_reach_of_runIf (dumpsAlone 2 fun _ => 1)
    (List.flatten [[.start (.queueCommand 0)], acts 0 9, [.start (.queueCommand 1)], acts 1 7,
      [.act 1 { refuse := true }], acts 1 2, completes 1 1, [.start (.execute 2)], acts 2 5,
      completes 2 2, acts 2 2, [.start (.dumpCommand 3)], acts 3 8])
    initial (fun c => c.shared.hostBusy) 2 (by decide)
  exact ⟨c, hc, ho, (busy_accounting hc).2.2.2.2.2.1⟩

/-- Three runs.  A dump command that the driver refused stays counted.  With a limit of one
    command, of which an internal command takes no notice, a command is accepted, and a dump
    command on top of it.  Two dump commands overlap, and both are taken off the second
    one's device. -/
theorem busy_miscounted :
    (∃ c, (machine 1 fun _ => 1).Reachable initial c ∧ c.shared.hostBusy = 1 ∧
      ∃ t ∈ c.pool, t.refused = true ∧ t.pc = .done ∧ t.cmd = .held) ∧
    (∃ c, (machine 1 fun _ => 1).Reachable initial c ∧ total Thread.outstanding c.pool = 2) ∧
    ∃ c, (machine 3 fun _ => 1).Reachable initial c ∧ c.shared.deviceBusy 1 = -1 := by
  refine ⟨?_, ?_, ?_⟩
  · obtain ⟨c, hc, ho⟩ := (machine 1 fun _ => 1).exists_reachable_of_run
      (List.flatten [[.start (.dumpCommand 0)], acts 0 6, [.act 0 { refuse := true }], acts 0 1])
      initial
      (fun c => (c.shared.hostBusy, c.pool.any fun t =>
        decide (t.refused = true ∧ t.pc = .done ∧ t.cmd = .held)))
      (1, true) (by decide)
    simp only [Prod.mk.injEq, List.any_eq_true, decide_eq_true_eq] at ho
    exact ⟨c, hc, ho⟩
  · exact (machine 1 fun _ => 1).exists_reachable_of_run
      (List.flatten [[.start (.queueCommand 0)], acts 0 9, [.start (.execute 1)], acts 1 4,
        [.start (.dumpCommand 2)], acts 2 8])
      initial (fun c => total Thread.outstanding c.pool) 2 (by decide)
  · exact (machine 3 fun _ => 1).exists_reachable_of_run
      (List.flatten [[.start (.dumpCommand 0)], acts 0 8, [.start (.dumpCommand 1)], acts 1 8,
        completes 0 1, completes 1 1])
      initial (fun c => c.shared.deviceBusy 1) (-1) (by decide)

end VmkLinux.Scsi.Busy
