/-
  VmkLinux/Scsi/FcModel.lean
  ==========================
  **Remote ports of an FC host** (`vmklinux26/vmware/linux_scsi_transport.c`):
  `fc_remote_port_add` with `fc_rport_create`, `fc_remote_port_delete`,
  `fc_remote_port_rolechg`, the loss and the fast-fail timer, the scan, the teardown of a
  target (`fc_starget_delete`), the final delete and `fc_remove_host`, over any number of
  ports.

  Every section of `host_lock` is one step.  The host has three single-threaded work queues:
  `work_q` for teardowns and final deletes, `devloss_work_q` for the timers, and the queue
  of the SCSI host for scans.  A work item that is executing is a thread; a flush waits until
  everything that was queued before it has run (the tickets of an entry and of a flush say
  what was before).  A timer fires at any time after it was armed.

  A port is named by its number.  `tgtid_bind_type` is `FC_TGTID_BIND_BY_WWPN`, which nothing
  changes, so a port is known by its channel and port name (`Key`).

  What the driver promises stands in `enter`: one `fc_remote_port_add` at a time for a key, and
  none while the port is online; a delete or a change of roles only for a port that
  `fc_remote_port_add` has returned and that is not deleted since; one `fc_remove_host`.  A delete
  may come while the roles of the port are being changed.

  Four fields have no counterpart in the source: `hands` says that the driver has the port,
  `up` that `fc_remote_port_add` has returned it as a target and no delete or change of roles
  was called since, `changing` counts the changes of roles in progress, and `deletes` the
  times `rport_delete_work` was queued.
-/
import VmkLinux.Interleave

namespace VmkLinux.Scsi.Fc

open VmkLinux.Interleave

/-! ### Work queues -/

inductive Kind where
  | devLoss
  | failIo
  | scan
  | stgtDelete
  | rportDelete
deriving DecidableEq, Repr

/-- A work item on a queue; `ticket` is its rank among all that were queued. -/
structure Entry where
  kind : Kind
  rport : Nat
  ticket : Nat
deriving DecidableEq, Repr

/-- A work queue with its one world. -/
structure Queue where
  items : List Entry
  running : Option Entry
  enq : Nat
deriving DecidableEq, Repr

/-- What executes, and what is on the queue. -/
def Queue.entries (q : Queue) : List Entry := q.running.toList ++ q.items

/-- The item is on the queue. -/
def Queue.pending (q : Queue) (k : Kind) (r : Nat) : Bool :=
  q.items.any fun e => decide (e.kind = k ∧ e.rport = r)

/-- `queue_work`: nothing happens to an item that is on the queue. -/
def Queue.push (q : Queue) (k : Kind) (r : Nat) : Queue :=
  if q.pending k r then q
  else { q with items := q.items ++ [⟨k, r, q.enq⟩], enq := q.enq + 1 }

/-- The function of the item has returned. -/
def Queue.finish (q : Queue) : Queue := { q with running := none }

/-- Everything with a ticket below `mark` has run. -/
def Queue.flushed (q : Queue) (mark : Nat) : Bool :=
  q.items.all (fun e => decide (mark ≤ e.ticket)) &&
    q.running.all fun e => decide (mark ≤ e.ticket)

/-! ### Ports -/

inductive PortState where
  | online
  | blocked
  | notPresent
  | deleted
deriving DecidableEq, Repr

structure Key where
  channel : Nat
  portName : Nat
deriving DecidableEq, Repr

/-- `target` is `FC_RPORT_ROLE_FCP_TARGET` in `roles`, `targetId` is `none` for -1. -/
structure Rport where
  key : Key := ⟨0, 0⟩
  target : Bool := false
  state : PortState := .deleted
  targetId : Option Nat := none
  devlossPending : Bool := false
  scanPending : Bool := false
  devLossArmed : Bool := false
  failIoArmed : Bool := false
  live : Bool := false
  hands : Bool := false
  up : Bool := false
  changing : Nat := 0
  deletes : Nat := 0
deriving DecidableEq, Repr

/-- The host; `adding` are the keys of the calls of `fc_remote_port_add` in progress, and
    `scanEntries` is `pendingScanWorkQueueEntries`. -/
structure Shared where
  removeCalled : Bool
  removing : Bool
  rports : List Nat
  bindings : List Nat
  nextRport : Nat
  nextTargetId : Nat
  rport : Nat → Rport
  adding : List Key
  workQ : Queue
  devlossQ : Queue
  scsiQ : Queue
  scanEntries : Int

/-- One port changes. -/
def Shared.upd (s : Shared) (r : Nat) (f : Rport → Rport) : Shared :=
  { s with rport := fun e => if e = r then f (s.rport e) else s.rport e }

/-- Who stops the timers of a port. -/
inductive Caller where
  | add
  | rolechg
  | stgtDelete
deriving DecidableEq, Repr

inductive Pc where
  -- fc_remote_port_add
  | addTest
  | addFlush
  | addFlushWait
  | addSearch
  | addRestart
  -- fc_rport_create
  | addCreate
  | addDevice
  | addScanFlag
  | addScanInc
  | addScanQueue
  | addReturn
  -- fc_remote_port_delete
  | delTest
  | delSection
  | delBlock
  | delArmFail
  | delArmLoss
  -- fc_remote_port_rolechg
  | roleTest
  | roleSection
  | roleClear
  | roleFlush
  | roleFlushWait
  | roleScan
  -- the two timers are stopped
  | cancelFail
  | cancelFailFlush
  | cancelFailWait
  | cancelLoss
  | cancelLossFlush
  | cancelLossWait
  -- fc_timeout_deleted_rport
  | tmoSection
  | tmoQueue
  | tmoReturn
  -- fc_timeout_fail_rport_io
  | failTest
  | failReturn
  -- fc_scsi_scan_rport
  | scanTest
  | scanSection
  -- fc_starget_delete
  | sdCallback
  | sdTest
  | sdClear
  | sdRemove
  -- fc_rport_final_delete
  | fdTest
  | fdFlush
  | fdFlushWait
  | fdTarget
  | fdFree
  -- fc_remove_host
  | rmFlag
  | rmSection
  | rmFlushDevloss
  | rmWaitDevloss
  | rmFlushWork
  | rmWaitWork
  | rmFlushScsi
  | rmWaitScsi
  | done
deriving DecidableEq, Repr

/-- `final` says that `fc_starget_delete` was called by `fc_rport_final_delete`. -/
structure Thread where
  pc : Pc
  rport : Nat := 0
  key : Key := ⟨0, 0⟩
  target : Bool := false
  caller : Caller := .add
  final : Bool := false
  mark : Nat := 0
deriving DecidableEq, Repr

inductive Call where
  | add (key : Key) (target : Bool)
  | delete (rport : Nat)
  | rolechg (rport : Nat) (target : Bool)
  | removeHost
  | fireFailIo (rport : Nat)
  | fireDevLoss (rport : Nat)
  | runWork
  | runDevloss
  | runScsi
deriving DecidableEq, Repr

/-- `fails`: there is no memory, or `device_add` fails.  `fast`: the port has a fast-fail
    timeout below the link timeout.  `now`: a timeout is zero. -/
structure Choice where
  fails : Bool := false
  fast : Bool := false
  now : Bool := false
deriving DecidableEq, Repr

/-! ### Steps -/

/-- Where the function of a work item begins. -/
def Kind.entry : Kind → Pc
  | .devLoss => .tmoSection
  | .failIo => .failTest
  | .scan => .scanTest
  | .stgtDelete => .sdCallback
  | .rportDelete => .fdTest

/-- The world of a queue takes the next item. -/
def Queue.run (q : Queue) : Option (Queue × Thread) :=
  match q.running, q.items with
  | none, e :: rest =>
      some ({ q with items := rest, running := some e },
        { pc := e.kind.entry, rport := e.rport })
  | _, _ => none

def enter (call : Call) (s : Shared) : Option (Shared × Thread) :=
  match call with
  | .add key target =>
      if key ∈ s.adding ∨ ∃ r ∈ s.rports, (s.rport r).key = key ∧ (s.rport r).state = .online then
        none
      else
        some ({ s with adding := key :: s.adding },
          { pc := .addTest, key := key, target := target })
  | .delete r =>
      if (s.rport r).hands then
        some (s.upd r fun p => { p with hands := false, up := false },
          { pc := .delTest, rport := r })
      else none
  | .rolechg r target =>
      if (s.rport r).hands then
        some (s.upd r fun p => { p with up := false, changing := p.changing + 1 },
          { pc := .roleTest, rport := r, target := target })
      else none
  | .removeHost =>
      if s.removeCalled then none else some ({ s with removeCalled := true }, { pc := .rmFlag })
  | .fireFailIo r =>
      -- delayed_work_timer_fn
      if (s.rport r).failIoArmed then
        some ({ s.upd r fun p => { p with failIoArmed := false } with
          devlossQ := s.devlossQ.push .failIo r }, { pc := .done })
      else none
  | .fireDevLoss r =>
      if (s.rport r).devLossArmed then
        some ({ s.upd r fun p => { p with devLossArmed := false } with
          devlossQ := s.devlossQ.push .devLoss r }, { pc := .done })
      else none
  | .runWork =>
      match s.workQ.run with
      | some (q, t) => some ({ s with workQ := q }, t)
      | none => none
  | .runDevloss =>
      match s.devlossQ.run with
      | some (q, t) => some ({ s with devlossQ := q }, t)
      | none => none
  | .runScsi =>
      match s.scsiQ.run with
      | some (q, t) => some ({ s with scsiQ := q }, t)
      | none => none

/-- A port on the list that the search of `fc_remote_port_add` accepts. -/
def Shared.findBlocked (s : Shared) (key : Key) : Option Nat :=
  s.rports.find? fun r => decide ((s.rport r).state = .blocked ∧ (s.rport r).key = key)

def Shared.findBinding (s : Shared) (key : Key) : Option Nat :=
  s.bindings.find? fun r => decide ((s.rport r).key = key)

theorem Shared.mem_of_findBlocked {s : Shared} {key : Key} {r : Nat}
    (h : s.findBlocked key = some r) :
    r ∈ s.rports ∧ (s.rport r).state = .blocked ∧ (s.rport r).key = key := by
  have hr := List.find?_some h
  simp only [decide_eq_true_eq] at hr
  exact ⟨List.mem_of_find?_eq_some h, hr⟩

theorem Shared.mem_of_findBinding {s : Shared} {key : Key} {r : Nat}
    (h : s.findBinding key = some r) : r ∈ s.bindings ∧ (s.rport r).key = key := by
  have hr := List.find?_some h
  simp only [decide_eq_true_eq] at hr
  exact ⟨List.mem_of_find?_eq_some h, hr⟩

/-- `FC_RPORT_SCAN_PENDING` is set, the counter incremented and the scan queued. -/
def Shared.startScan (s : Shared) (r : Nat) : Shared :=
  { s.upd r fun p => { p with scanPending := true } with
    scanEntries := s.scanEntries + 1
    scsiQ := s.scsiQ.push .scan r }

/-- The port goes away: `FC_PORTSTATE_DELETED`, and `rport_delete_work` is queued. -/
def Shared.delete (s : Shared) (r : Nat) : Shared :=
  { s.upd r fun p => { p with state := .deleted, deletes := p.deletes + 1 } with
    rports := s.rports.erase r
    bindings := s.bindings.erase r
    workQ := s.workQ.push .rportDelete r }

/-- What follows the stopping of the timers. -/
def Caller.next : Caller → Pc
  | .add => .addRestart
  | .rolechg => .roleClear
  | .stgtDelete => .sdClear

def Shared.endAdd (s : Shared) (key : Key) : Shared := { s with adding := s.adding.erase key }

def Shared.endRolechg (s : Shared) (r : Nat) : Shared :=
  s.upd r fun p => { p with changing := p.changing - 1 }

def stepAdd (a : Choice) (s : Shared) (t : Thread) : Option (Shared × Thread) :=
  match t.pc with
  | .addTest =>
      if s.removing then some (s.endAdd t.key, { t with pc := .done })
      else some (s, { t with pc := .addFlush })
  | .addFlush => some (s, { t with pc := .addFlushWait, mark := s.workQ.enq })
  | .addFlushWait =>
      if s.workQ.flushed t.mark then some (s, { t with pc := .addSearch }) else none
  | .addSearch =>
      match s.findBlocked t.key with
      | some r =>
          some (s.upd r fun p => { p with state := .online, target := t.target },
            { t with pc := if t.target then .cancelFail else .addReturn, rport := r,
                     caller := .add })
      | none =>
          match s.findBinding t.key with
          | some r =>
              let s' : Shared :=
                { s.upd r fun p => { p with state := .online, target := t.target } with
                  rports := s.rports ++ [r]
                  bindings := s.bindings.erase r }
              some (if t.target then s'.startScan r else s',
                { t with pc := .addReturn, rport := r })
          | none => some (s, { t with pc := .addCreate })
  | .addRestart =>
      some ((s.upd t.rport fun p => { p with devlossPending := false }).startScan t.rport,
        { t with pc := .addReturn })
  | .addCreate =>
      if a.fails then some (s.endAdd t.key, { t with pc := .done })
      else
        some ({ s.upd s.nextRport fun _ =>
            { key := t.key, target := t.target, state := .online, live := true
              targetId := if t.target then some s.nextTargetId else none } with
            rports := s.rports ++ [s.nextRport]
            nextRport := s.nextRport + 1
            nextTargetId := if t.target then s.nextTargetId + 1 else s.nextTargetId },
          { t with pc := .addDevice, rport := s.nextRport })
  | .addDevice =>
      if a.fails then
        some (({ s.upd t.rport fun p => { p with live := false } with
          rports := s.rports.erase t.rport }).endAdd t.key, { t with pc := .done })
      else if t.target then some (s, { t with pc := .addScanFlag })
      else some (s, { t with pc := .addReturn })
  | .addScanFlag =>
      some (s.upd t.rport fun p => { p with scanPending := true }, { t with pc := .addScanInc })
  | .addScanInc =>
      some ({ s with scanEntries := s.scanEntries + 1 }, { t with pc := .addScanQueue })
  | .addScanQueue =>
      some ({ s with scsiQ := s.scsiQ.push .scan t.rport }, { t with pc := .addReturn })
  | .addReturn =>
      some ((s.upd t.rport fun p => { p with hands := true, up := t.target }).endAdd t.key,
        { t with pc := .done })
  | _ => none

def stepDelete (a : Choice) (s : Shared) (t : Thread) : Option (Shared × Thread) :=
  match t.pc with
  | .delTest =>
      if s.removing then some (s, { t with pc := .done })
      else some (s, { t with pc := .delSection })
  | .delSection =>
      if (s.rport t.rport).targetId = none then some (s.delete t.rport, { t with pc := .done })
      else
        some (s.upd t.rport fun p => { p with state := .blocked, devlossPending := true },
          { t with pc := .delBlock })
  | .delBlock => some (s, { t with pc := .delArmFail })
  | .delArmFail =>
      if a.fast = false ∨ (s.rport t.rport).failIoArmed ∨ s.devlossQ.pending .failIo t.rport then
        some (s, { t with pc := .delArmLoss })
      else if a.now then
        some ({ s with devlossQ := s.devlossQ.push .failIo t.rport }, { t with pc := .delArmLoss })
      else
        some (s.upd t.rport fun p => { p with failIoArmed := true }, { t with pc := .delArmLoss })
  | .delArmLoss =>
      if (s.rport t.rport).devLossArmed ∨ s.devlossQ.pending .devLoss t.rport then
        some (s, { t with pc := .done })
      else if a.now then
        some ({ s with devlossQ := s.devlossQ.push .devLoss t.rport }, { t with pc := .done })
      else some (s.upd t.rport fun p => { p with devLossArmed := true }, { t with pc := .done })
  | _ => none

def stepRolechg (s : Shared) (t : Thread) : Option (Shared × Thread) :=
  match t.pc with
  | .roleTest =>
      if s.removing then some (s.endRolechg t.rport, { t with pc := .done })
      else some (s, { t with pc := .roleSection })
  | .roleSection =>
      if t.target ∧ (s.rport t.rport).targetId = none then
        some ({ s.upd t.rport fun p =>
            { p with target := true, targetId := some s.nextTargetId } with
            nextTargetId := s.nextTargetId + 1 }, { t with pc := .cancelFail, caller := .rolechg })
      else if t.target ∧ (s.rport t.rport).target = false then
        some (s.upd t.rport fun p => { p with target := true },
          { t with pc := .cancelFail, caller := .rolechg })
      else
        some ((s.upd t.rport fun p => { p with target := t.target }).endRolechg t.rport,
          { t with pc := .done })
  | .roleClear =>
      some (s.upd t.rport fun p => { p with devlossPending := false }, { t with pc := .roleFlush })
  | .roleFlush => some (s, { t with pc := .roleFlushWait, mark := s.workQ.enq })
  | .roleFlushWait =>
      if s.workQ.flushed t.mark then some (s, { t with pc := .roleScan }) else none
  | .roleScan =>
      some ((s.startScan t.rport).endRolechg t.rport, { t with pc := .done })
  | _ => none

/-- `cancel_delayed_work` of both timers, with a flush where it comes too late. -/
def stepCancel (s : Shared) (t : Thread) : Option (Shared × Thread) :=
  match t.pc with
  | .cancelFail =>
      if (s.rport t.rport).failIoArmed then
        some (s.upd t.rport fun p => { p with failIoArmed := false }, { t with pc := .cancelLoss })
      else some (s, { t with pc := .cancelFailFlush })
  | .cancelFailFlush => some (s, { t with pc := .cancelFailWait, mark := s.devlossQ.enq })
  | .cancelFailWait =>
      if s.devlossQ.flushed t.mark then some (s, { t with pc := .cancelLoss }) else none
  | .cancelLoss =>
      if (s.rport t.rport).devLossArmed then
        some (s.upd t.rport fun p => { p with devLossArmed := false },
          { t with pc := t.caller.next })
      else some (s, { t with pc := .cancelLossFlush })
  | .cancelLossFlush => some (s, { t with pc := .cancelLossWait, mark := s.devlossQ.enq })
  | .cancelLossWait =>
      if s.devlossQ.flushed t.mark then some (s, { t with pc := t.caller.next }) else none
  | _ => none

def stepTimer (s : Shared) (t : Thread) : Option (Shared × Thread) :=
  match t.pc with
  | .tmoSection =>
      if (s.rport t.rport).state = .online ∧ (s.rport t.rport).target = false then
        some (s.upd t.rport fun p => { p with devlossPending := false }, { t with pc := .tmoQueue })
      else if (s.rport t.rport).state ≠ .blocked then
        some (s.upd t.rport fun p => { p with devlossPending := false },
          { t with pc := .tmoReturn })
      else
        -- the binding is saved
        some ({ s.upd t.rport fun p =>
            { p with devlossPending := false, target := false, state := .notPresent } with
            rports := s.rports.erase t.rport
            bindings := s.bindings ++ [t.rport] }, { t with pc := .tmoQueue })
  | .tmoQueue =>
      some ({ s with
          workQ := s.workQ.push .stgtDelete t.rport
          devlossQ := s.devlossQ.finish }, { t with pc := .done })
  | .tmoReturn => some ({ s with devlossQ := s.devlossQ.finish }, { t with pc := .done })
  | .failTest => some (s, { t with pc := .failReturn })
  | .failReturn => some ({ s with devlossQ := s.devlossQ.finish }, { t with pc := .done })
  | .scanTest => some (s, { t with pc := .scanSection })
  | .scanSection =>
      some ({ s.upd t.rport fun p => { p with scanPending := false } with
          scanEntries := s.scanEntries - 1
          scsiQ := s.scsiQ.finish }, { t with pc := .done })
  | _ => none

def stepTeardown (s : Shared) (t : Thread) : Option (Shared × Thread) :=
  match t.pc with
  | .sdCallback => some (s, { t with pc := .sdTest })
  | .sdTest =>
      if (s.rport t.rport).devlossPending then
        some (s, { t with pc := .cancelFail, caller := .stgtDelete })
      else some (s, { t with pc := .sdRemove })
  | .sdClear =>
      some (s.upd t.rport fun p => { p with devlossPending := false }, { t with pc := .sdRemove })
  | .sdRemove =>
      if t.final then some (s, { t with pc := .fdFree })
      else some ({ s with workQ := s.workQ.finish }, { t with pc := .done })
  | .fdTest =>
      if (s.rport t.rport).scanPending then some (s, { t with pc := .fdFlush })
      else some (s, { t with pc := .fdTarget })
  | .fdFlush => some (s, { t with pc := .fdFlushWait, mark := s.scsiQ.enq })
  | .fdFlushWait =>
      if s.scsiQ.flushed t.mark then some (s, { t with pc := .fdTarget }) else none
  | .fdTarget =>
      if (s.rport t.rport).targetId = none then some (s, { t with pc := .fdFree })
      else some (s, { t with pc := .sdCallback, final := true })
  | .fdFree =>
      some ({ s.upd t.rport fun p => { p with live := false } with workQ := s.workQ.finish },
        { t with pc := .done })
  | _ => none

def stepRemove (s : Shared) (t : Thread) : Option (Shared × Thread) :=
  match t.pc with
  | .rmFlag => some ({ s with removing := true }, { t with pc := .rmSection })
  | .rmSection =>
      some ((s.rports ++ s.bindings).foldl Shared.delete s, { t with pc := .rmFlushDevloss })
  | .rmFlushDevloss => some (s, { t with pc := .rmWaitDevloss, mark := s.devlossQ.enq })
  | .rmWaitDevloss =>
      if s.devlossQ.flushed t.mark then some (s, { t with pc := .rmFlushWork }) else none
  | .rmFlushWork => some (s, { t with pc := .rmWaitWork, mark := s.workQ.enq })
  | .rmWaitWork =>
      if s.workQ.flushed t.mark then some (s, { t with pc := .rmFlushScsi }) else none
  | .rmFlushScsi => some (s, { t with pc := .rmWaitScsi, mark := s.scsiQ.enq })
  | .rmWaitScsi => if s.scsiQ.flushed t.mark then some (s, { t with pc := .done }) else none
  | _ => none

def step (a : Choice) (s : Shared) (t : Thread) : Option (Shared × Thread) :=
  match t.pc with
  | .addTest | .addFlush | .addFlushWait | .addSearch | .addRestart | .addCreate | .addDevice
  | .addScanFlag | .addScanInc | .addScanQueue | .addReturn => stepAdd a s t
  | .delTest | .delSection | .delBlock | .delArmFail | .delArmLoss => stepDelete a s t
  | .roleTest | .roleSection | .roleClear | .roleFlush | .roleFlushWait | .roleScan =>
      stepRolechg s t
  | .cancelFail | .cancelFailFlush | .cancelFailWait | .cancelLoss | .cancelLossFlush
  | .cancelLossWait => stepCancel s t
  | .tmoSection | .tmoQueue | .tmoReturn | .failTest | .failReturn | .scanTest | .scanSection =>
      stepTimer s t
  | .sdCallback | .sdTest | .sdClear | .sdRemove | .fdTest | .fdFlush | .fdFlushWait | .fdTarget
  | .fdFree => stepTeardown s t
  | .rmFlag | .rmSection | .rmFlushDevloss | .rmWaitDevloss | .rmFlushWork | .rmWaitWork
  | .rmFlushScsi | .rmWaitScsi => stepRemove s t
  | .done => none

theorem step_cases {a : Choice} {s : Shared} {t : Thread} {p : Shared × Thread}
    (h : step a s t = some p) :
    stepAdd a s t = some p ∨ stepDelete a s t = some p ∨ stepRolechg s t = some p ∨
      stepCancel s t = some p ∨ stepTimer s t = some p ∨ stepTeardown s t = some p ∨
      stepRemove s t = some p := by
  unfold step at h
  cases hpc : t.pc
  all_goals simp only [hpc, reduceCtorEq] at h
  all_goals simp only [h, true_or, or_true]

/-! ### The ways through a step -/

/-- Every way through `step`: the state and the thread after it, and what was tested. -/
inductive Stepped (a : Choice) (s : Shared) (t : Thread) : Pc → Shared → Thread → Prop
  | addTest_removing (hremoving : s.removing = true) :
      Stepped a s t .addTest (s.endAdd t.key) { t with pc := .done }
  | addTest (hremoving : ¬s.removing = true) : Stepped a s t .addTest s { t with pc := .addFlush }
  | addFlush : Stepped a s t .addFlush s { t with pc := .addFlushWait, mark := s.workQ.enq }
  | addFlushWait (hflushed : s.workQ.flushed t.mark = true) :
      Stepped a s t .addFlushWait s { t with pc := .addSearch }
  | addSearch_cancel (r : Nat) (hfind : s.findBlocked t.key = some r) (htarget : t.target = true) :
      Stepped a s t .addSearch (s.upd r fun p => { p with state := .online, target := t.target })
        { t with pc := .cancelFail, rport := r, caller := .add }
  | addSearch_blocked (r : Nat) (hfind : s.findBlocked t.key = some r)
      (htarget : ¬t.target = true) :
      Stepped a s t .addSearch (s.upd r fun p => { p with state := .online, target := t.target })
        { t with pc := .addReturn, rport := r, caller := .add }
  | addSearch_binding (r : Nat) (hblocked : s.findBlocked t.key = none)
      (hfind : s.findBinding t.key = some r) (htarget : ¬t.target = true) :
      Stepped a s t .addSearch
        { s.upd r fun p => { p with state := .online, target := t.target } with
          rports := s.rports ++ [r]
          bindings := s.bindings.erase r }
        { t with pc := .addReturn, rport := r }
  | addSearch_target (r : Nat) (hblocked : s.findBlocked t.key = none)
      (hfind : s.findBinding t.key = some r) (htarget : t.target = true) :
      Stepped a s t .addSearch
        (Shared.startScan { s.upd r fun p => { p with state := .online, target := t.target } with
          rports := s.rports ++ [r]
          bindings := s.bindings.erase r } r)
        { t with pc := .addReturn, rport := r }
  | addSearch_none (hblocked : s.findBlocked t.key = none)
      (hbinding : s.findBinding t.key = none) :
      Stepped a s t .addSearch s { t with pc := .addCreate }
  | addRestart :
      Stepped a s t .addRestart
        ((s.upd t.rport fun p => { p with devlossPending := false }).startScan t.rport)
        { t with pc := .addReturn }
  | addCreate_fails (hfails : a.fails = true) :
      Stepped a s t .addCreate (s.endAdd t.key) { t with pc := .done }
  | addCreate_target (hfails : ¬a.fails = true) (htarget : t.target = true) :
      Stepped a s t .addCreate
        { s.upd s.nextRport fun _ =>
            { key := t.key, target := t.target, state := .online, live := true
              targetId := some s.nextTargetId } with
          rports := s.rports ++ [s.nextRport]
          nextRport := s.nextRport + 1
          nextTargetId := s.nextTargetId + 1 }
        { t with pc := .addDevice, rport := s.nextRport }
  | addCreate (hfails : ¬a.fails = true) (htarget : ¬t.target = true) :
      Stepped a s t .addCreate
        { s.upd s.nextRport fun _ =>
            { key := t.key, target := t.target, state := .online, live := true } with
          rports := s.rports ++ [s.nextRport]
          nextRport := s.nextRport + 1 }
        { t with pc := .addDevice, rport := s.nextRport }
  | addDevice_fails (hfails : a.fails = true) :
      Stepped a s t .addDevice
        (Shared.endAdd { s.upd t.rport fun p => { p with live := false } with
          rports := s.rports.erase t.rport } t.key) { t with pc := .done }
  | addDevice_target (hfails : ¬a.fails = true) (htarget : t.target = true) :
      Stepped a s t .addDevice s { t with pc := .addScanFlag }
  | addDevice (hfails : ¬a.fails = true) (htarget : ¬t.target = true) :
      Stepped a s t .addDevice s { t with pc := .addReturn }
  | addScanFlag :
      Stepped a s t .addScanFlag (s.upd t.rport fun p => { p with scanPending := true })
        { t with pc := .addScanInc }
  | addScanInc :
      Stepped a s t .addScanInc { s with scanEntries := s.scanEntries + 1 }
        { t with pc := .addScanQueue }
  | addScanQueue :
      Stepped a s t .addScanQueue { s with scsiQ := s.scsiQ.push .scan t.rport }
        { t with pc := .addReturn }
  | addReturn :
      Stepped a s t .addReturn
        ((s.upd t.rport fun p => { p with hands := true, up := t.target }).endAdd t.key)
        { t with pc := .done }
  | delTest_removing (hremoving : s.removing = true) :
      Stepped a s t .delTest s { t with pc := .done }
  | delTest (hremoving : ¬s.removing = true) : Stepped a s t .delTest s { t with pc := .delSection }
  | delSection_delete (hid : (s.rport t.rport).targetId = none) :
      Stepped a s t .delSection (s.delete t.rport) { t with pc := .done }
  | delSection (hid : ¬(s.rport t.rport).targetId = none) :
      Stepped a s t .delSection
        (s.upd t.rport fun p => { p with state := .blocked, devlossPending := true })
        { t with pc := .delBlock }
  | delBlock : Stepped a s t .delBlock s { t with pc := .delArmFail }
  | delArmFail_skip
      (hskip : a.fast = false ∨ (s.rport t.rport).failIoArmed = true ∨
        s.devlossQ.pending .failIo t.rport = true) :
      Stepped a s t .delArmFail s { t with pc := .delArmLoss }
  | delArmFail_now
      (hskip : ¬(a.fast = false ∨ (s.rport t.rport).failIoArmed = true ∨
        s.devlossQ.pending .failIo t.rport = true)) (hnow : a.now = true) :
      Stepped a s t .delArmFail { s with devlossQ := s.devlossQ.push .failIo t.rport }
        { t with pc := .delArmLoss }
  | delArmFail
      (hskip : ¬(a.fast = false ∨ (s.rport t.rport).failIoArmed = true ∨
        s.devlossQ.pending .failIo t.rport = true)) (hnow : ¬a.now = true) :
      Stepped a s t .delArmFail (s.upd t.rport fun p => { p with failIoArmed := true })
        { t with pc := .delArmLoss }
  | delArmLoss_skip
      (hskip : (s.rport t.rport).devLossArmed = true ∨
        s.devlossQ.pending .devLoss t.rport = true) :
      Stepped a s t .delArmLoss s { t with pc := .done }
  | delArmLoss_now
      (hskip : ¬((s.rport t.rport).devLossArmed = true ∨
        s.devlossQ.pending .devLoss t.rport = true)) (hnow : a.now = true) :
      Stepped a s t .delArmLoss { s with devlossQ := s.devlossQ.push .devLoss t.rport }
        { t with pc := .done }
  | delArmLoss
      (hskip : ¬((s.rport t.rport).devLossArmed = true ∨
        s.devlossQ.pending .devLoss t.rport = true)) (hnow : ¬a.now = true) :
      Stepped a s t .delArmLoss (s.upd t.rport fun p => { p with devLossArmed := true })
        { t with pc := .done }
  | roleTest_removing (hremoving : s.removing = true) :
      Stepped a s t .roleTest (s.endRolechg t.rport) { t with pc := .done }
  | roleTest (hremoving : ¬s.removing = true) :
      Stepped a s t .roleTest s { t with pc := .roleSection }
  | roleSection_id
      (hid : t.target = true ∧ (s.rport t.rport).targetId = none) :
      Stepped a s t .roleSection
        { s.upd t.rport fun p =>
            { p with target := true, targetId := some s.nextTargetId } with
          nextTargetId := s.nextTargetId + 1 } { t with pc := .cancelFail, caller := .rolechg }
  | roleSection_target
      (hid : ¬(t.target = true ∧ (s.rport t.rport).targetId = none))
      (htarget : t.target = true ∧ (s.rport t.rport).target = false) :
      Stepped a s t .roleSection (s.upd t.rport fun p => { p with target := true })
        { t with pc := .cancelFail, caller := .rolechg }
  | roleSection
      (hid : ¬(t.target = true ∧ (s.rport t.rport).targetId = none))
      (htarget : ¬(t.target = true ∧ (s.rport t.rport).target = false)) :
      Stepped a s t .roleSection
        ((s.upd t.rport fun p => { p with target := t.target }).endRolechg t.rport)
        { t with pc := .done }
  | roleClear :
      Stepped a s t .roleClear (s.upd t.rport fun p => { p with devlossPending := false })
        { t with pc := .roleFlush }
  | roleFlush : Stepped a s t .roleFlush s { t with pc := .roleFlushWait, mark := s.workQ.enq }
  | roleFlushWait (hflushed : s.workQ.flushed t.mark = true) :
      Stepped a s t .roleFlushWait s { t with pc := .roleScan }
  | roleScan :
      Stepped a s t .roleScan ((s.startScan t.rport).endRolechg t.rport) { t with pc := .done }
  | cancelFail_armed (harmed : (s.rport t.rport).failIoArmed = true) :
      Stepped a s t .cancelFail (s.upd t.rport fun p => { p with failIoArmed := false })
        { t with pc := .cancelLoss }
  | cancelFail (harmed : ¬(s.rport t.rport).failIoArmed = true) :
      Stepped a s t .cancelFail s { t with pc := .cancelFailFlush }
  | cancelFailFlush :
      Stepped a s t .cancelFailFlush s { t with pc := .cancelFailWait, mark := s.devlossQ.enq }
  | cancelFailWait (hflushed : s.devlossQ.flushed t.mark = true) :
      Stepped a s t .cancelFailWait s { t with pc := .cancelLoss }
  | cancelLoss_armed (harmed : (s.rport t.rport).devLossArmed = true) :
      Stepped a s t .cancelLoss (s.upd t.rport fun p => { p with devLossArmed := false })
        { t with pc := t.caller.next }
  | cancelLoss (harmed : ¬(s.rport t.rport).devLossArmed = true) :
      Stepped a s t .cancelLoss s { t with pc := .cancelLossFlush }
  | cancelLossFlush :
      Stepped a s t .cancelLossFlush s { t with pc := .cancelLossWait, mark := s.devlossQ.enq }
  | cancelLossWait (hflushed : s.devlossQ.flushed t.mark = true) :
      Stepped a s t .cancelLossWait s { t with pc := t.caller.next }
  | tmoSection_online
      (honline : (s.rport t.rport).state = .online ∧ (s.rport t.rport).target = false) :
      Stepped a s t .tmoSection (s.upd t.rport fun p => { p with devlossPending := false })
        { t with pc := .tmoQueue }
  | tmoSection_return
      (honline : ¬((s.rport t.rport).state = .online ∧ (s.rport t.rport).target = false))
      (hblocked : (s.rport t.rport).state ≠ .blocked) :
      Stepped a s t .tmoSection (s.upd t.rport fun p => { p with devlossPending := false })
        { t with pc := .tmoReturn }
  | tmoSection
      (honline : ¬((s.rport t.rport).state = .online ∧ (s.rport t.rport).target = false))
      (hblocked : ¬(s.rport t.rport).state ≠ .blocked) :
      Stepped a s t .tmoSection
        { s.upd t.rport fun p =>
            { p with devlossPending := false, target := false, state := .notPresent } with
          rports := s.rports.erase t.rport
          bindings := s.bindings ++ [t.rport] } { t with pc := .tmoQueue }
  | tmoQueue :
      Stepped a s t .tmoQueue
        { s with
          workQ := s.workQ.push .stgtDelete t.rport
          devlossQ := s.devlossQ.finish } { t with pc := .done }
  | tmoReturn :
      Stepped a s t .tmoReturn { s with devlossQ := s.devlossQ.finish } { t with pc := .done }
  | failTest : Stepped a s t .failTest s { t with pc := .failReturn }
  | failReturn :
      Stepped a s t .failReturn { s with devlossQ := s.devlossQ.finish } { t with pc := .done }
  | scanTest : Stepped a s t .scanTest s { t with pc := .scanSection }
  | scanSection :
      Stepped a s t .scanSection
        { s.upd t.rport fun p => { p with scanPending := false } with
          scanEntries := s.scanEntries - 1
          scsiQ := s.scsiQ.finish } { t with pc := .done }
  | sdCallback : Stepped a s t .sdCallback s { t with pc := .sdTest }
  | sdTest_pending (hpending : (s.rport t.rport).devlossPending = true) :
      Stepped a s t .sdTest s { t with pc := .cancelFail, caller := .stgtDelete }
  | sdTest (hpending : ¬(s.rport t.rport).devlossPending = true) :
      Stepped a s t .sdTest s { t with pc := .sdRemove }
  | sdClear :
      Stepped a s t .sdClear (s.upd t.rport fun p => { p with devlossPending := false })
        { t with pc := .sdRemove }
  | sdRemove_final (hfinal : t.final = true) : Stepped a s t .sdRemove s { t with pc := .fdFree }
  | sdRemove (hfinal : ¬t.final = true) :
      Stepped a s t .sdRemove { s with workQ := s.workQ.finish } { t with pc := .done }
  | fdTest_pending (hpending : (s.rport t.rport).scanPending = true) :
      Stepped a s t .fdTest s { t with pc := .fdFlush }
  | fdTest (hpending : ¬(s.rport t.rport).scanPending = true) :
      Stepped a s t .fdTest s { t with pc := .fdTarget }
  | fdFlush : Stepped a s t .fdFlush s { t with pc := .fdFlushWait, mark := s.scsiQ.enq }
  | fdFlushWait (hflushed : s.scsiQ.flushed t.mark = true) :
      Stepped a s t .fdFlushWait s { t with pc := .fdTarget }
  | fdTarget_none (hid : (s.rport t.rport).targetId = none) :
      Stepped a s t .fdTarget s { t with pc := .fdFree }
  | fdTarget (hid : ¬(s.rport t.rport).targetId = none) :
      Stepped a s t .fdTarget s { t with pc := .sdCallback, final := true }
  | fdFree :
      Stepped a s t .fdFree
        { s.upd t.rport fun p => { p with live := false } with workQ := s.workQ.finish }
        { t with pc := .done }
  | rmFlag : Stepped a s t .rmFlag { s with removing := true } { t with pc := .rmSection }
  | rmSection :
      Stepped a s t .rmSection ((s.rports ++ s.bindings).foldl Shared.delete s)
        { t with pc := .rmFlushDevloss }
  | rmFlushDevloss :
      Stepped a s t .rmFlushDevloss s { t with pc := .rmWaitDevloss, mark := s.devlossQ.enq }
  | rmWaitDevloss (hflushed : s.devlossQ.flushed t.mark = true) :
      Stepped a s t .rmWaitDevloss s { t with pc := .rmFlushWork }
  | rmFlushWork : Stepped a s t .rmFlushWork s { t with pc := .rmWaitWork, mark := s.workQ.enq }
  | rmWaitWork (hflushed : s.workQ.flushed t.mark = true) :
      Stepped a s t .rmWaitWork s { t with pc := .rmFlushScsi }
  | rmFlushScsi : Stepped a s t .rmFlushScsi s { t with pc := .rmWaitScsi, mark := s.scsiQ.enq }
  | rmWaitScsi (hflushed : s.scsiQ.flushed t.mark = true) :
      Stepped a s t .rmWaitScsi s { t with pc := .done }

theorem stepped {a : Choice} {s s' : Shared} {t t' : Thread} (h : step a s t = some (s', t')) :
    ∃ pc, t.pc = pc ∧ Stepped a s t pc s' t' := by
  refine ⟨_, rfl, ?_⟩
  unfold step at h
  cases hpc : t.pc
  all_goals simp only [hpc, reduceCtorEq] at h
  all_goals simp only [stepAdd, stepDelete, stepRolechg, stepCancel, stepTimer, stepTeardown,
    stepRemove, hpc] at h
  all_goals repeat' split at h
  all_goals cases h
  all_goals constructor <;> assumption

/-- In `fc_remove_host`. -/
def Thread.removes (t : Thread) : Bool :=
  match t.pc with
  | .rmFlag | .rmSection | .rmFlushDevloss | .rmWaitDevloss | .rmFlushWork | .rmWaitWork
  | .rmFlushScsi | .rmWaitScsi => true
  | _ => false

def machine : Machine Shared Thread Call Choice where
  start _ := enter
  act := step

def Queue.empty : Queue := { items := [], running := none, enq := 0 }

/-- `vmklnx_fc_host_setup`. -/
def initial : Config Shared Thread where
  shared :=
    { removeCalled := false, removing := false, rports := [], bindings := [], nextRport := 0,
      nextTargetId := 0, rport := fun _ => {}, adding := [], workQ := .empty, devlossQ := .empty,
      scsiQ := .empty, scanEntries := 0 }
  pool := []

/-- Thread `i` takes `k` steps in which nothing fails. -/
def acts (i k : Nat) : List (Event Call Choice) := List.replicate k (.act i {})

end VmkLinux.Scsi.Fc
