/-
  VmkLinux/Scsi/TimeoutWork.lean
  ==============================
  **The timeout work item** of `vmklinux26/vmware/linux_scsi.c`: `SCSILinuxCmdTimedOut`
  sets `DELAY_CMDDONE` on the command, puts the command into the one global
  `linuxSCSIIO_work` with `INIT_WORK`, and queues that item on the single-threaded
  `linuxSCSIWQ`; `SCSIProcessCmdTimedOut` and `SCSILinuxAbortCommands` take the flag off
  again.  Any number of commands, devices, timeouts and aborts.

  `Model` gives every timed-out command an item of its own.  Here the item is shared:
  its list entry, its `PENDING` bit and its data, with each store of `INIT_WORK`, the
  `test_and_set_bit` and the `list_add_tail` of `queue_work`, and the unlock, the read of
  the data and the `clear_bit` of `vmklnx_workqueue_callout` one step each.  A critical
  section of `vmklock` is one step, so the loops of `SCSILinuxAbortCommands` take a step
  for each command, with `list_lock` held.  The helper may call out at any time.

  `INIT_LIST_HEAD` on an entry that is on the queue leaves the links of the queue behind;
  the model notes that (`relinked`) and does not follow them any further.  The exit flag
  of the workqueue, which only module unload sets, is left out, and so is `IO_TIMEOUT`,
  which nothing here reads.  Without counterpart in the source: `unread`, how many
  `INIT_WORK`s there were less how many callouts have read the data of the item.

  Every command with `DELAY_CMDDONE` should have someone who will take the flag off.
  `deferred_commands_owned` proves that for runs in which `INIT_WORK` is reached only
  after the callout for the timeout before it has read its command.  Two timeouts closer
  together than that lose the first command, or initialise the item while it is queued
  (`deferred_command_lost`).
-/
import VmkLinux.Interleave

namespace VmkLinux.Scsi.TimeoutWork

open VmkLinux.Interleave

/-! ### Model -/

/-- The bits of `vmkflags` that deferral reads and writes. -/
structure Flags where
  needCmddone : Bool
  delayCmddone : Bool
  cmddoneAttempted : Bool
  internalCommand : Bool
deriving DecidableEq, Repr

/-- What is queued on `linuxSCSIWQ`: `linuxSCSIIO_work` or another item. -/
inductive Item where
  | linuxSCSIIOWork
  | other (name : Nat)
deriving DecidableEq, Repr

/-- Commands and devices have names.  `queue`, `curDispatch` are of `linuxSCSIWQ`;
    `pending` and `data` are of `linuxSCSIIO_work`. -/
structure Shared where
  vmkflags : Nat → Flags
  cmdList : Nat → List Nat
  listLock : Nat → Bool
  queue : List Item
  curDispatch : Nat
  pending : Bool
  data : Option Nat
  relinked : Bool
  unread : Nat

inductive Pc where
  -- SCSILinuxCmdTimedOut
  | timedOut (scmd : Nat)
  | initEntry (scmd : Nat)
  | initPending (scmd : Nat)
  | prepareWork (scmd : Nat)
  | testPending (scmd : Nat)
  | addTail (scmd : Nat)
  -- vmklnx_workqueue_callout, with SCSIProcessCmdTimedOut
  | callout
  | popped (item : Item)
  | clearPending (scmd : Nat)
  | abort (scmd : Nat)
  | endDelay (scmd : Nat)
  | scsiDone (scmd : Nat)
  | finish
  -- SCSILinuxAbortCommands
  | lockList (sdev : Nat)
  | mark (sdev : Nat) (rest abortList : List Nat)
  | aborting (sdev : Nat) (abortList : List Nat)
  | complete (sdev : Nat) (abortList : List Nat)
  | completeDone (sdev scmd : Nat) (abortList : List Nat)
  | returned
deriving DecidableEq, Repr

/-- The calls of the module, and what the rest of the driver stack does to a command:
    it is issued to a device, completed, and put back when it is done with. -/
inductive Call where
  | timedOut (scmd : Nat)
  | callout
  | abortCommands (sdev : Nat)
  | queueOther (name : Nat)
  | issue (sdev scmd : Nat) (internal : Bool)
  | cmdDone (scmd : Nat)
  | putCommand (sdev scmd : Nat)
deriving DecidableEq, Repr

def Shared.setFlags (s : Shared) (scmd : Nat) (f : Flags) : Shared :=
  { s with vmkflags := fun c => if c = scmd then f else s.vmkflags c }

/-- The flags after `SCSILinuxCmdDone`; a command that does not need it is the
    "Attempted double completion". -/
def Flags.cmdDone (f : Flags) : Flags :=
  if f.needCmddone = false then f
  else if f.delayCmddone then { f with cmddoneAttempted := true }
  else { f with needCmddone := false }

def Shared.cmdDone (s : Shared) (scmd : Nat) : Shared :=
  s.setFlags scmd (s.vmkflags scmd).cmdDone

def Shared.setCmdList (s : Shared) (sdev : Nat) (l : List Nat) : Shared :=
  { s with cmdList := fun d => if d = sdev then l else s.cmdList d }

def Shared.setListLock (s : Shared) (sdev : Nat) (held : Bool) : Shared :=
  { s with listLock := fun d => if d = sdev then held else s.listLock d }

def enter (_me : Nat) (call : Call) (s : Shared) : Option (Shared × Pc) :=
  match call with
  | .timedOut scmd => some (s, .timedOut scmd)
  | .callout => some (s, .callout)
  | .abortCommands sdev => some (s, .lockList sdev)
  | .queueOther name =>
      if s.relinked ∨ .other name ∈ s.queue then none
      else some ({ s with queue := s.queue ++ [.other name] }, .returned)
  | .issue sdev scmd internal =>
      if s.listLock sdev ∨ (s.vmkflags scmd).needCmddone ∨ (s.vmkflags scmd).delayCmddone then none
      else some ((s.setFlags scmd ⟨true, false, false, internal⟩).setCmdList sdev
        (s.cmdList sdev ++ [scmd]), .returned)
  | .cmdDone scmd => some (s.cmdDone scmd, .returned)
  | .putCommand sdev scmd =>
      if s.listLock sdev ∨ (s.vmkflags scmd).needCmddone ∨ (s.vmkflags scmd).delayCmddone then none
      else some (s.setCmdList sdev ((s.cmdList sdev).erase scmd), .returned)

/-- One step; `wanted` answers `vmk_ScsiQueryTaskMgmt`. -/
def step (wanted : Bool) (s : Shared) : Pc → Option (Shared × Pc)
  | .timedOut scmd =>
      if (s.vmkflags scmd).needCmddone then
        if (s.vmkflags scmd).delayCmddone then some (s, .returned)
        else if (s.vmkflags scmd).internalCommand then
          some (s.setFlags scmd
            { s.vmkflags scmd with delayCmddone := true, needCmddone := false }, .initEntry scmd)
        else some (s.setFlags scmd { s.vmkflags scmd with delayCmddone := true }, .initEntry scmd)
      else some (s, .returned)
  | .initEntry scmd =>
      some ({ s with relinked := s.relinked || decide (.linuxSCSIIOWork ∈ s.queue),
                     unread := s.unread + 1 }, .initPending scmd)
  | .initPending scmd => some ({ s with pending := false }, .prepareWork scmd)
  | .prepareWork scmd => some ({ s with data := some scmd }, .testPending scmd)
  | .testPending scmd =>
      if s.pending then some (s, .returned) else some ({ s with pending := true }, .addTail scmd)
  | .addTail _ =>
      if s.relinked then none
      else some ({ s with queue := s.queue ++ [.linuxSCSIIOWork] }, .returned)
  | .callout =>
      if s.relinked then none
      else
        match s.queue with
        | [] => some (s, .returned)
        | item :: rest =>
            -- create_singlethread_workqueue: maxDispatch is 1
            if 1 ≤ s.curDispatch then some (s, .returned)
            else some ({ s with queue := rest, curDispatch := s.curDispatch + 1 }, .popped item)
  | .popped item =>
      match item with
      | .linuxSCSIIOWork =>
          match s.data with
          | some scmd => some ({ s with unread := s.unread - 1 }, .clearPending scmd)
          | none => none
      | .other _ => some (s, .finish)
  | .clearPending scmd => some ({ s with pending := false }, .abort scmd)
  | .abort scmd => some (s, .endDelay scmd)
  | .endDelay scmd =>
      if (s.vmkflags scmd).cmddoneAttempted then
        some (s.setFlags scmd { s.vmkflags scmd with delayCmddone := false }, .scsiDone scmd)
      else some (s.setFlags scmd { s.vmkflags scmd with delayCmddone := false }, .finish)
  | .scsiDone scmd => some (s.cmdDone scmd, .finish)
  | .finish => some ({ s with curDispatch := s.curDispatch - 1 }, .returned)
  | .lockList sdev =>
      if s.listLock sdev then none
      else some (s.setListLock sdev true, .mark sdev (s.cmdList sdev) [])
  | .mark sdev cmds abortList =>
      match cmds with
      | [] => some (s.setListLock sdev false, .aborting sdev abortList)
      | scmd :: rest =>
          if (s.vmkflags scmd).needCmddone ∧ (s.vmkflags scmd).cmddoneAttempted = false ∧ wanted ∧
              (s.vmkflags scmd).delayCmddone = false then
            some ((s.setFlags scmd { s.vmkflags scmd with delayCmddone := true }).setCmdList sdev
              ((s.cmdList sdev).erase scmd), .mark sdev rest (abortList ++ [scmd]))
          else some (s, .mark sdev rest abortList)
  | .aborting sdev abortList =>
      if s.listLock sdev then none else some (s.setListLock sdev true, .complete sdev abortList)
  | .complete sdev cmds =>
      match cmds with
      | [] => some (s.setListLock sdev false, .returned)
      | scmd :: abortList =>
          if (s.vmkflags scmd).cmddoneAttempted then
            some ((s.setFlags scmd { s.vmkflags scmd with delayCmddone := false }).setCmdList sdev
              (s.cmdList sdev ++ [scmd]), .completeDone sdev scmd abortList)
          else
            some ((s.setFlags scmd { s.vmkflags scmd with delayCmddone := false }).setCmdList sdev
              (s.cmdList sdev ++ [scmd]), .complete sdev abortList)
  | .completeDone sdev scmd abortList => some (s.cmdDone scmd, .complete sdev abortList)
  | .returned => none

def machine : Machine Shared Pc Call Bool where
  start := enter
  act wanted s pc := step wanted s pc

def initial : Config Shared Pc where
  shared :=
    { vmkflags := fun _ => ⟨false, false, false, false⟩, cmdList := fun _ => [],
      listLock := fun _ => false, queue := [], curDispatch := 0, pending := false, data := none,
      relinked := false, unread := 0 }
  pool := []

/-- `INIT_WORK` is reached only when every timeout before has had its command read. -/
def spaced (c : Config Shared Pc) : Event Call Bool → Bool
  | .act i _ =>
      match c.pool[i]? with
      | some (.initEntry _) => decide (c.shared.unread = 0)
      | _ => true
  | .start _ => true

/-! ### Who owns a deferred command -/

/-- On its way into the item: the flag is set, and `queue_work` has not returned. -/
def Pc.sends (scmd : Nat) : Pc → Nat
  | .initEntry c | .initPending c | .prepareWork c | .testPending c | .addTail c =>
      if c = scmd then 1 else 0
  | _ => 0

/-- On the `abort_list` of a running `SCSILinuxAbortCommands`. -/
def Pc.aborts (scmd : Nat) : Pc → Nat
  | .mark _ _ l | .aborting _ l | .complete _ l | .completeDone _ _ l => if scmd ∈ l then 1 else 0
  | _ => 0

/-- The command of a callout that is executing. -/
def Pc.executes (scmd : Nat) : Pc → Nat
  | .clearPending c | .abort c | .endDelay c => if c = scmd then 1 else 0
  | _ => 0

/-- The callout has the item in hand and has not read its data. -/
def Pc.reads : Pc → Nat
  | .popped .linuxSCSIIOWork => 1
  | _ => 0

/-- The threads that count on the item staying as it is. -/
def Pc.uses : Pc → Nat
  | .initPending _ | .prepareWork _ | .testPending _ | .addTail _ | .popped .linuxSCSIIOWork => 1
  | _ => 0

/-- How often the item carries the command: queued, or with a callout. -/
def Shared.carries (s : Shared) (scmd reading : Nat) : Nat :=
  if s.data = some scmd then s.queue.count .linuxSCSIIOWork + reading else 0

def Pc.Knows (s : Shared) : Pc → Prop
  | .prepareWork _ => s.pending = false
  | .testPending scmd => s.pending = false ∧ s.data = some scmd
  | .addTail scmd => s.data = some scmd
  | _ => True

/-- The item has at most one user, and every deferred command an owner. -/
structure Owned (c : Config Shared Pc) : Prop where
  unread : total Pc.uses c.pool + c.shared.queue.count .linuxSCSIIOWork = c.shared.unread
  single : c.shared.unread ≤ 1
  knows : Each (fun _ pc => pc.Knows c.shared) c.pool
  owner : ∀ scmd, (c.shared.vmkflags scmd).delayCmddone = true →
    0 < total (Pc.sends scmd) c.pool + total (Pc.aborts scmd) c.pool +
      total (Pc.executes scmd) c.pool + c.shared.carries scmd (total Pc.reads c.pool)

theorem reads_le_uses (pc : Pc) : pc.reads ≤ pc.uses := by
  cases pc with
  | popped item => cases item <;> simp [Pc.reads, Pc.uses]
  | _ => simp [Pc.reads]

theorem knows_of_idle {s : Shared} {pc : Pc} (h : pc.uses = 0) : pc.Knows s := by
  cases pc <;> simp [Pc.uses, Pc.Knows] at h ⊢

theorem knows_congr {s s' : Shared} {pc : Pc} (hdata : s'.data = s.data)
    (hpending : s.pending = false → s'.pending = false) (h : pc.Knows s) : pc.Knows s' := by
  cases pc <;> simp only [Pc.Knows, hdata] at h ⊢
  case prepareWork => exact hpending h
  case testPending => exact ⟨hpending h.1, h.2⟩
  case addTail => exact h

@[simp] theorem cmdDone_delay (f : Flags) : f.cmdDone.delayCmddone = f.delayCmddone := by
  unfold Flags.cmdDone
  split
  · rfl
  · split <;> rfl

/-! ### One step -/

section Step

variable {wanted : Bool} {s s' : Shared} {pc pc' : Pc}

theorem step_unread (h : step wanted s pc = some (s', pc')) (hI : pc.Knows s)
    (huses : pc.uses ≤ s.unread) :
    pc'.uses + s'.queue.count .linuxSCSIIOWork + s.unread =
      pc.uses + s.queue.count .linuxSCSIIOWork + s'.unread := by
  cases pc with
  | testPending scmd =>
    simp only [step, hI.1, Bool.false_eq_true, if_false, Option.some.injEq, Prod.mk.injEq] at h
    obtain ⟨rfl, rfl⟩ := h
    rfl
  | callout =>
    simp only [step] at h
    repeat' split at h
    all_goals simp only [Option.some.injEq, Prod.mk.injEq, reduceCtorEq] at h
    all_goals obtain ⟨rfl, rfl⟩ := h
    · rfl
    · rfl
    · rename_i item rest hq _
      rw [hq]
      cases item with
      | linuxSCSIIOWork =>
        simp [Pc.uses]
        omega
      | other name => simp [Pc.uses]
  | _ =>
    simp only [step] at h
    repeat' split at h
    all_goals simp only [Option.some.injEq, Prod.mk.injEq, reduceCtorEq] at h
    all_goals obtain ⟨rfl, rfl⟩ := h
    all_goals simp only [Pc.uses, Shared.setFlags, Shared.cmdDone, Shared.setListLock,
      Shared.setCmdList, List.count_append, List.count_singleton] at huses ⊢
    all_goals try simp only [beq_self_eq_true, if_true]
    all_goals omega

/-- Only `INIT_WORK` adds to what is unread. -/
theorem step_unread_le (h : step wanted s pc = some (s', pc')) :
    s'.unread ≤ s.unread ∨ ∃ scmd, pc = .initEntry scmd ∧ s'.unread = s.unread + 1 := by
  cases pc with
  | initEntry scmd =>
    simp only [step, Option.some.injEq, Prod.mk.injEq] at h
    obtain ⟨rfl, rfl⟩ := h
    exact .inr ⟨scmd, rfl, rfl⟩
  | _ =>
    left
    simp only [step] at h
    repeat' split at h
    all_goals simp only [Option.some.injEq, Prod.mk.injEq, reduceCtorEq] at h
    all_goals obtain ⟨rfl, rfl⟩ := h
    all_goals simp [Shared.setFlags, Shared.cmdDone, Shared.setListLock, Shared.setCmdList]

/-- The item changes in the hands of a user only. -/
theorem step_item (h : step wanted s pc = some (s', pc')) :
    (s'.data = s.data ∧ (s.pending = false → s'.pending = false)) ∨ pc.uses = 1 := by
  cases pc with
  | prepareWork | testPending => exact .inr rfl
  | _ =>
    left
    simp only [step] at h
    repeat' split at h
    all_goals simp only [Option.some.injEq, Prod.mk.injEq, reduceCtorEq] at h
    all_goals obtain ⟨rfl, rfl⟩ := h
    all_goals simp [Shared.setFlags, Shared.cmdDone, Shared.setListLock, Shared.setCmdList]

theorem step_knows (h : step wanted s pc = some (s', pc')) (hI : pc.Knows s) : pc'.Knows s' := by
  cases pc with
  | initPending scmd =>
    simp only [step, Option.some.injEq, Prod.mk.injEq] at h
    obtain ⟨rfl, rfl⟩ := h
    exact rfl
  | prepareWork scmd =>
    simp only [step, Option.some.injEq, Prod.mk.injEq] at h
    obtain ⟨rfl, rfl⟩ := h
    exact ⟨hI, rfl⟩
  | testPending scmd =>
    simp only [step, hI.1, Bool.false_eq_true, if_false, Option.some.injEq, Prod.mk.injEq] at h
    obtain ⟨rfl, rfl⟩ := h
    exact hI.2
  | _ =>
    simp only [step] at h
    repeat' split at h
    all_goals simp only [Option.some.injEq, Prod.mk.injEq, reduceCtorEq] at h
    all_goals obtain ⟨rfl, rfl⟩ := h
    all_goals exact trivial

/-- A deferred command keeps an owner.  `x` and `reading` are what the other threads
    own of it; a user of the item is alone with it. -/
theorem step_owner (scmd x reading : Nat) (h : step wanted s pc = some (s', pc'))
    (hI : pc.Knows s)
    (halone : pc.uses = 1 → s.queue.count .linuxSCSIIOWork + reading = 0)
    (howner : (s.vmkflags scmd).delayCmddone = true →
      0 < x + pc.sends scmd + pc.aborts scmd + pc.executes scmd +
        s.carries scmd (reading + pc.reads))
    (hdelay : (s'.vmkflags scmd).delayCmddone = true) :
    0 < x + pc'.sends scmd + pc'.aborts scmd + pc'.executes scmd +
      s'.carries scmd (reading + pc'.reads) := by
  cases pc with
  | prepareWork c =>
    have hzero := halone rfl
    simp only [step, Option.some.injEq, Prod.mk.injEq] at h
    obtain ⟨rfl, rfl⟩ := h
    have hpos := howner hdelay
    simp only [Pc.sends, Pc.aborts, Pc.executes, Pc.reads, Shared.carries] at hpos ⊢
    grind
  | testPending c =>
    simp only [step, hI.1, Bool.false_eq_true, if_false, Option.some.injEq, Prod.mk.injEq] at h
    obtain ⟨rfl, rfl⟩ := h
    exact howner hdelay
  | addTail c =>
    have hdata : s.data = some c := hI
    simp only [step] at h
    split at h
    · cases h
    · simp only [Option.some.injEq, Prod.mk.injEq] at h
      obtain ⟨rfl, rfl⟩ := h
      have hpos := howner hdelay
      simp only [Pc.sends, Pc.aborts, Pc.executes, Pc.reads, Shared.carries, hdata,
        List.count_append, List.count_singleton] at hpos ⊢
      grind
  | callout =>
    simp only [step] at h
    repeat' split at h
    all_goals simp only [Option.some.injEq, Prod.mk.injEq, reduceCtorEq] at h
    all_goals obtain ⟨rfl, rfl⟩ := h
    · exact howner hdelay
    · exact howner hdelay
    · rename_i item rest hq _
      have hpos := howner hdelay
      simp only [Pc.sends, Pc.aborts, Pc.executes, Pc.reads, Shared.carries, hq] at hpos ⊢
      cases item <;> grind
  | _ =>
    simp only [step] at h
    repeat' split at h
    all_goals simp only [Option.some.injEq, Prod.mk.injEq, reduceCtorEq] at h
    all_goals obtain ⟨rfl, rfl⟩ := h
    all_goals simp only [Pc.sends, Pc.aborts, Pc.executes, Pc.reads, Shared.carries,
      Shared.setFlags, Shared.cmdDone, Shared.setListLock, Shared.setCmdList] at howner hdelay ⊢
    all_goals grind -linarith [cmdDone_delay]

end Step

/-! ### Runs -/

theorem owned_initial : Owned initial where
  unread := rfl
  single := Nat.zero_le 1
  knows := each_nil _
  owner := by
    intro scmd hdelay
    cases hdelay

/-- A call starts outside all of this, and leaves the flag as it is or takes it off. -/
theorem enter_fresh {me : Nat} {call : Call} {s s' : Shared} {pc : Pc}
    (h : enter me call s = some (s', pc)) :
    pc.uses = 0 ∧ pc.reads = 0 ∧ s'.unread = s.unread ∧ s'.data = s.data ∧
      s'.pending = s.pending ∧ s'.queue.count .linuxSCSIIOWork = s.queue.count .linuxSCSIIOWork ∧
      ∀ scmd, (s'.vmkflags scmd).delayCmddone = true → (s.vmkflags scmd).delayCmddone = true := by
  cases call <;> simp only [enter] at h
  all_goals repeat' split at h
  all_goals simp only [Option.some.injEq, Prod.mk.injEq, reduceCtorEq] at h
  all_goals obtain ⟨rfl, rfl⟩ := h
  all_goals refine ⟨rfl, rfl, rfl, rfl, rfl, ?_, fun scmd hdelay => ?_⟩
  all_goals simp_all [Shared.setFlags, Shared.cmdDone, Shared.setCmdList]
  all_goals grind -linarith [cmdDone_delay]

theorem owned_enter {c : Config Shared Pc} {call : Call} {s : Shared} {pc : Pc}
    (h : enter c.pool.length call c.shared = some (s, pc)) (hI : Owned c) :
    Owned ⟨s, c.pool ++ [pc]⟩ := by
  obtain ⟨hunread, hsingle, hknows, howner⟩ := hI
  obtain ⟨huses, hreads, hsame, hdata, hpending, hcount, hdelay⟩ := enter_fresh h
  refine ⟨?_, ?_, ?_, ?_⟩
  · simp only [total_append]
    omega
  · show s.unread ≤ 1
    omega
  · refine hknows.append (fun i u _ hu => ?_) (knows_of_idle huses)
    exact knows_congr hdata (fun hp => by rw [hpending]; exact hp) hu
  · intro scmd hd
    have hpos := howner scmd (hdelay scmd hd)
    simp only [total_append, hreads, Nat.add_zero, Shared.carries, hdata, hcount] at hpos ⊢
    omega

theorem owned_step {wanted : Bool} {i : Nat} {c : Config Shared Pc} {s : Shared} {pc pc' : Pc}
    (hi : c.pool[i]? = some pc) (h : step wanted c.shared pc = some (s, pc'))
    (hok : ∀ scmd, pc = .initEntry scmd → c.shared.unread = 0) (hI : Owned c) :
    Owned ⟨s, c.pool.set i pc'⟩ := by
  obtain ⟨hunread, hsingle, hknows, howner⟩ := hI
  rw [total_eq_others _ hi] at hunread
  have hmine : pc.Knows c.shared := hknows i pc hi
  have hbooks := step_unread h hmine (by omega)
  have hreads : others Pc.reads c.pool i ≤ others Pc.uses c.pool i :=
    others_le_others fun _ u _ _ => reads_le_uses u
  refine ⟨?_, ?_, ?_, ?_⟩
  · rw [total_set _ _ hi]
    show _ + s.queue.count .linuxSCSIIOWork = s.unread
    omega
  · show s.unread ≤ 1
    rcases step_unread_le h with hle | ⟨scmd, hpc, hadd⟩
    · omega
    · have hzero := hok scmd hpc
      omega
  · refine hknows.set (fun j u hji hj hu => ?_) (step_knows h hmine)
    rcases step_item h with ⟨hdata, hpending⟩ | huses
    · exact knows_congr hdata hpending hu
    · have hother : u.uses ≤ others Pc.uses c.pool i := le_others Pc.uses hji hj
      exact knows_of_idle (by omega)
  · intro scmd hdelay
    have hold := howner scmd
    simp only [total_eq_others _ hi] at hold
    simp only [total_set _ _ hi]
    have hpos := step_owner scmd
      (others (Pc.sends scmd) c.pool i + others (Pc.aborts scmd) c.pool i +
        others (Pc.executes scmd) c.pool i)
      (others Pc.reads c.pool i) h hmine (fun huses => by omega)
      (fun hd => by have := hold hd; omega) hdelay
    omega

theorem owned_of_reach {c : Config Shared Pc}
    (h : machine.Reach (fun c e => spaced c e = true) initial c) : Owned c := by
  refine Machine.Reach.invariant Owned owned_initial ?_ ?_ h
  · intro c call s pc _ hI _ hs
    exact owned_enter hs hI
  · intro c i wanted pc s pc' _ hI hok hi hs
    refine owned_step hi hs (fun scmd hpc => ?_) hI
    subst hpc
    simpa [spaced, hi] using hok

/-- The command is on the `abort_list` of a running `SCSILinuxAbortCommands`. -/
def onAbortList (c : Config Shared Pc) (scmd : Nat) : Prop :=
  ∃ (i : Nat) (pc : Pc), c.pool[i]? = some pc ∧ 0 < pc.aborts scmd

/-- The command is the data of the item, which is queued or picked up by a callout, or
    it is the argument of a `SCSIProcessCmdTimedOut` that is executing. -/
def isWorkData (c : Config Shared Pc) (scmd : Nat) : Prop :=
  (c.shared.data = some scmd ∧
    (.linuxSCSIIOWork ∈ c.shared.queue ∨
      ∃ i : Nat, c.pool[i]? = some (Pc.popped .linuxSCSIIOWork))) ∨
  ∃ (i : Nat) (pc : Pc), c.pool[i]? = some pc ∧ 0 < pc.executes scmd

/-- The `SCSILinuxCmdTimedOut` that set the flag has not yet queued the item. -/
def isSent (c : Config Shared Pc) (scmd : Nat) : Prop :=
  ∃ (i : Nat) (pc : Pc), c.pool[i]? = some pc ∧ 0 < pc.sends scmd

/-- **Every deferred command has an owner.**  In every run whose timeouts are `spaced`: a
    command with `DELAY_CMDDONE` is on an `abort_list`, or is the data of the queued or
    executing item, or is with the call that is about to queue it; and `INIT_WORK` finds
    and leaves the item off the queue. -/
theorem deferred_commands_owned {c : Config Shared Pc}
    (h : machine.Reach (fun c e => spaced c e = true) initial c) :
    (∀ scmd, (c.shared.vmkflags scmd).delayCmddone = true →
      onAbortList c scmd ∨ isWorkData c scmd ∨ isSent c scmd) ∧
    (∀ (i scmd : Nat) (wanted : Bool), c.pool[i]? = some (Pc.initEntry scmd) →
      spaced c (.act i wanted) = true → .linuxSCSIIOWork ∉ c.shared.queue) ∧
    ∀ i scmd : Nat, c.pool[i]? = some (Pc.initPending scmd) ∨
      c.pool[i]? = some (Pc.prepareWork scmd) → .linuxSCSIIOWork ∉ c.shared.queue := by
  obtain ⟨hunread, hsingle, hknows, howner⟩ := owned_of_reach h
  refine ⟨fun scmd hdelay => ?_, fun i scmd wanted hi hok => ?_, fun i scmd hi => ?_⟩
  · have hpos := howner scmd hdelay
    by_cases hsends : 0 < total (Pc.sends scmd) c.pool
    · exact .inr (.inr (exists_of_total_pos hsends))
    by_cases haborts : 0 < total (Pc.aborts scmd) c.pool
    · exact .inl (exists_of_total_pos haborts)
    by_cases hexec : 0 < total (Pc.executes scmd) c.pool
    · exact .inr (.inl (.inr (exists_of_total_pos hexec)))
    right; left; left
    have hcarries : 0 < c.shared.carries scmd (total Pc.reads c.pool) := by omega
    unfold Shared.carries at hcarries
    split at hcarries
    · rename_i hdata
      refine ⟨hdata, ?_⟩
      by_cases hqueue : .linuxSCSIIOWork ∈ c.shared.queue
      · exact .inl hqueue
      · right
        rw [List.count_eq_zero_of_not_mem hqueue, Nat.zero_add] at hcarries
        obtain ⟨i, pc, hi, hreads⟩ := exists_of_total_pos hcarries
        refine ⟨i, ?_⟩
        cases pc with
        | popped item =>
          cases item with
          | linuxSCSIIOWork => exact hi
          | other name => simp [Pc.reads] at hreads
        | _ => simp [Pc.reads] at hreads
    · omega
  · have hzero : c.shared.unread = 0 := by simpa [spaced, hi] using hok
    exact List.count_eq_zero.mp (by omega)
  · apply List.count_eq_zero.mp
    rcases hi with hi | hi
    · have hmine := total_eq_others Pc.uses hi
      simp only [Pc.uses] at hmine
      omega
    · have hmine := total_eq_others Pc.uses hi
      simp only [Pc.uses] at hmine
      omega

/-- Two commands time out one after the other; the first is with its callout when the
    second is sent. -/
theorem deferred_commands_owned_twice :
    ∃ c, machine.Reach (fun c e => spaced c e = true) initial c ∧
      (c.shared.vmkflags 0).delayCmddone = true ∧ (c.shared.vmkflags 1).delayCmddone = true ∧
      (onAbortList c 0 ∨ isWorkData c 0 ∨ isSent c 0) ∧
      (onAbortList c 1 ∨ isWorkData c 1 ∨ isSent c 1) := by
  obtain ⟨c, hc, ho⟩ := machine.exists_reach_of_runIf spaced
    [.start (.issue 0 0 false), .start (.issue 0 1 false), .start (.timedOut 0),
     .act 2 false, .act 2 false, .act 2 false, .act 2 false, .act 2 false, .act 2 false,
     .start .callout, .act 3 false, .act 3 false, .start (.timedOut 1), .act 4 false,
     .act 4 false, .act 4 false]
    initial
    (fun c => ((c.shared.vmkflags 0).delayCmddone, (c.shared.vmkflags 1).delayCmddone))
    (true, true) (by decide)
  simp only [Prod.mk.injEq] at ho
  have howned := (deferred_commands_owned hc).1
  exact ⟨c, hc, ho.1, ho.2, howned 0 ho.1, howned 1 ho.2⟩

/-- A call that has returned owns nothing. -/
theorem unowned_of_returned {c : Config Shared Pc} {scmd : Nat} (hqueue : c.shared.queue = [])
    (hpool : ∀ pc ∈ c.pool, pc = .returned) :
    ¬ (onAbortList c scmd ∨ isWorkData c scmd ∨ isSent c scmd) := by
  have hgone : ∀ (i : Nat) (pc : Pc), c.pool[i]? = some pc → pc = .returned :=
    fun i pc hi => hpool pc (List.mem_of_getElem? hi)
  rintro (⟨i, pc, hi, hpos⟩ | (⟨-, hmem | ⟨i, hi⟩⟩ | ⟨i, pc, hi, hpos⟩) | ⟨i, pc, hi, hpos⟩)
  · rw [hgone i pc hi] at hpos
    cases hpos
  · rw [hqueue] at hmem
    cases hmem
  · cases hgone i _ hi
  · rw [hgone i pc hi] at hpos
    cases hpos
  · rw [hgone i pc hi] at hpos
    cases hpos

/-- Two timeouts close together.  In the first run the second overwrites the item between
    the unlock and the read of the callout for the first: all calls return, and the first
    command is deferred for good.  In the second run `INIT_WORK` meets the item on the
    queue. -/
theorem deferred_command_lost :
    (∃ c, machine.Reachable initial c ∧ (c.shared.vmkflags 0).delayCmddone = true ∧
      ¬ (onAbortList c 0 ∨ isWorkData c 0 ∨ isSent c 0)) ∧
    ∃ c, machine.Reachable initial c ∧ c.pool[3]? = some (.initPending 1) ∧
      c.shared.queue = [.linuxSCSIIOWork] := by
  constructor
  · obtain ⟨c, hc, ho⟩ := machine.exists_reachable_of_run
      [.start (.issue 0 0 false), .start (.issue 0 1 false), .start (.timedOut 0),
       .act 2 false, .act 2 false, .act 2 false, .act 2 false, .act 2 false, .act 2 false,
       .start .callout, .act 3 false, .start (.timedOut 1), .act 4 false, .act 4 false,
       .act 4 false, .act 4 false, .act 4 false, .act 4 false, .act 3 false, .act 3 false,
       .act 3 false, .act 3 false, .act 3 false, .start .callout, .act 5 false, .act 5 false,
       .act 5 false, .act 5 false, .act 5 false, .act 5 false]
      initial
      (fun c => ((c.shared.vmkflags 0).delayCmddone, c.shared.queue,
        c.pool.all fun pc => decide (pc = .returned)))
      (true, [], true) (by decide)
    simp only [Prod.mk.injEq, List.all_eq_true, decide_eq_true_eq] at ho
    obtain ⟨hdelay, hqueue, hpool⟩ := ho
    exact ⟨c, hc, hdelay, unowned_of_returned hqueue hpool⟩
  · obtain ⟨c, hc, ho⟩ := machine.exists_reachable_of_run
      [.start (.issue 0 0 false), .start (.issue 0 1 false), .start (.timedOut 0),
       .act 2 false, .act 2 false, .act 2 false, .act 2 false, .act 2 false, .act 2 false,
       .start (.timedOut 1), .act 3 false, .act 3 false]
      initial (fun c => (c.pool[3]?, c.shared.queue))
      (some (.initPending 1), [.linuxSCSIIOWork]) (by decide)
    simp only [Prod.mk.injEq] at ho
    exact ⟨c, hc, ho⟩

end VmkLinux.Scsi.TimeoutWork
