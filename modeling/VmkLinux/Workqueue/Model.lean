/-
  VmkLinux/Workqueue/Model.lean
  =============================
  **The workqueue** of `vmklinux26/vmware/linux_workqueue.c`: Linux work queues
  layered on the vmkernel's helper worlds.

  The machine below has one step for every critical section of `wqLock`, one
  for every atomic operation on a pending bit, on a timer or on the flush mutex,
  and one for every unlocked read or write of a shared field.  The surroundings
  decide when a call starts, when a timer expires, when a helper world picks up
  an accepted request, whether `vmk_HelperSubmitRequest` accepts one, and when a
  driver's callback returns.  What a callback itself does to the queue (it may
  queue its own work item again, cancel others, flush) is done by further calls,
  which may start while it runs.

  The build is a debug build: `VMK_ASSERT` is checked (`asserts`,
  `destroyAsserts`) and `debug_set` clears `executing` of a returned tracker.

  Work items live on this queue only.  A sleeper of `vmk_WorldWaitIRQ` may wake
  at any time, so a wakeup has no effect of its own.

  Three fields have no counterpart in the source: `queued` is the history of
  `list_add_tail` on `head`, and an entry's `ticket` its rank there; `returned`
  and `removed` collect the tickets whose callback has returned and the tickets
  that a cancel took off `head`.
-/
import VmkLinux.Interleave
import Mathlib.Logic.Function.Basic

namespace VmkLinux.Workqueue

open VmkLinux.Interleave

/-! ### Data -/

/-- A `work_struct_plus`: an item of a driver, or the plunger on the stack of the
    `flush_workqueue` call `owner`. -/
inductive Work where
  | item (i : Nat)
  | plunger (owner : Nat)
deriving DecidableEq, Repr

/-- An element of `wqPtr->head`. -/
structure Entry where
  work : Work
  ticket : Nat
deriving DecidableEq, Repr

/-- A `work_tracker`; `slot` is its place in the array behind the queue, and
    `ticket` that of the entry it tracks. -/
structure Tracker where
  slot : Nat
  executing : Option Work
  ticket : Nat
deriving DecidableEq, Repr

/-- `struct workqueue_struct`, the fields of the work items, and what the helper
    worlds hold for this queue. -/
structure Wq where
  head : List Entry
  delayTimer : Bool
  qLen : Int
  curPosted : Int
  curDispatch : Int
  maxDispatch : Int
  waiting : Int
  trackList : List Tracker
  trackFlushList : List Tracker
  trackFree : List Tracker
  flushMutex : Bool
  setExitFlag : Bool
  /-- The `__WORK_PENDING` bit of `work->pending`. -/
  pending : Work → Bool
  /-- Whether `work->wq_data` is this queue (else it is `NULL`). -/
  wqData : Work → Bool
  /-- Whether the timer of the delayed work around item `i` is pending. -/
  timer : Nat → Bool
  /-- Whether the completion of the plunger of call `f` is done. -/
  completion : Nat → Bool
  /-- Helper requests accepted and not yet delivered. -/
  requests : Nat
  queued : List Work
  returned : List Nat
  removed : List Nat
  /-- No `VMK_ASSERT` outside `destroy_workqueue` has failed. -/
  asserts : Bool
  /-- No `VMK_ASSERT` of `destroy_workqueue` has failed. -/
  destroyAsserts : Bool
  /-- `kfree(wqPtr)` has run. -/
  freed : Bool

/-- `__create_workqueue`, for a queue of the given `maxDispatch` (one world, or as many
    as there are helpers): the trackers are put on `trackFree` one by one, each at the
    front. -/
def createWorkqueue (maxDispatch : Nat) : Wq where
  head := []
  delayTimer := false
  qLen := 0
  curPosted := 0
  curDispatch := 0
  maxDispatch := maxDispatch
  waiting := 0
  trackList := []
  trackFlushList := []
  trackFree := (List.range maxDispatch).reverse.map fun slot => ⟨slot, none, 0⟩
  flushMutex := false
  setExitFlag := false
  pending := fun _ => false
  wqData := fun _ => false
  timer := fun _ => false
  completion := fun _ => false
  requests := 0
  queued := []
  returned := []
  removed := []
  asserts := true
  destroyAsserts := true
  freed := false

/-! ### Program points -/

/-- A call of `flush_workqueue`, by a driver or by `destroy_workqueue`. -/
structure Flush where
  me : Nat
  destroying : Bool
deriving DecidableEq, Repr

/-- The locals of a call of `vmklnx_cancel_work_sync`; `timer` says whether the
    caller passed the delay timer. -/
structure Cancel where
  work : Nat
  timer : Bool
  didGrabPending : Bool
  ret : Nat
deriving DecidableEq, Repr

/-- Where `vmklnx_workqueue_dispatch` returns to. -/
inductive Ret where
  | done (ret : Nat)
  | flush (f : Flush) (p : Nat)
deriving DecidableEq, Repr

/-- The points between two atomic steps.  In the flush and destroy points `p` is
    the ticket of the call's plunger. -/
inductive Pc where
  | done (ret : Nat)
  | queueExitFlag (i : Nat)
  | queueTestPending (i : Nat)
  | queueLock (i : Nat) (ret : Nat)
  | delayedTestPending (i : Nat)
  | delayedSetData (i : Nat)
  | delayedAddTimer (i : Nat)
  | submit (k : Ret)
  | submitFailed (k : Ret)
  | armDelay (k : Ret)
  | relock (k : Ret)
  | clearPending (w : Work) (slot ticket : Nat)
  | callback (w : Work) (slot ticket : Nat)
  | plungerComplete (owner slot ticket : Nat)
  | calloutLock (slot ticket : Nat)
  | flushMutexLock (f : Flush)
  | flushInit (f : Flush)
  | flushQueue (f : Flush)
  | flushWait (f : Flush) (p : Nat)
  | flushLock (f : Flush) (p : Nat)
  | flushSleep (f : Flush) (p : Nat)
  | flushMutexUnlock (f : Flush) (p : Nat)
  | flushed (p : Nat)
  | cancelGrab (c : Cancel)
  | cancelTimer (c : Cancel)
  | cancelData (c : Cancel)
  | cancelLock (c : Cancel)
  | cancelSleep (c : Cancel)
  | cancelClear (i : Nat) (ret : Nat)
  | destroyExitFlag (me : Nat)
  | destroyLock (p : Nat)
  | destroyCheck (p : Nat)
  | destroyDelTimer (p : Nat)
  | destroyFree (p : Nat)
  | destroyed (p : Nat)
deriving DecidableEq, Repr

def Ret.pc : Ret → Pc
  | .done ret => .done ret
  | .flush f p => .flushWait f p

/-! ### Critical sections -/

/-- The test of the loop of `vmklnx_workqueue_dispatch`, with the lock held: count
    one more request as posted and go on to submit it, or return. -/
def dispatchLoop (s : Wq) (k : Ret) : Wq × Pc :=
  if min (s.maxDispatch - s.curDispatch) (s.qLen - s.curPosted) > 0 then
    ({ s with curPosted := s.curPosted + 1 }, .submit k)
  else (s, k.pc)

/-- `vmklnx_workqueue_dispatch`, up to its first release of the lock. -/
def vmklnxWorkqueueDispatch (s : Wq) (k : Ret) : Wq × Pc :=
  dispatchLoop { s with asserts := s.asserts && decide ((s.head.length : Int) = s.qLen) } k

/-- `__queue_work`, up to its call of the dispatcher. -/
def queueWork (s : Wq) (w : Work) : Wq :=
  { s with
    head := s.head ++ [⟨w, s.queued.length⟩]
    queued := s.queued ++ [w]
    qLen := s.qLen + 1
    wqData := Function.update s.wqData w true
    asserts := s.asserts && decide
      (w ∉ s.head.map Entry.work ∧ s.pending w = true ∧ (s.head.length : Int) = s.qLen ∧
        s.qLen + 1 > 0) }

/-- The first critical section of `vmklnx_workqueue_callout`: give up, or take the
    first entry off `head` and put a tracker for it on `trackList`. -/
def vmklnxWorkqueueCallout (s : Wq) : Wq × Pc :=
  let entered := decide ((s.head.length : Int) = s.qLen ∧ s.curPosted > 0)
  let giveUp : Wq :=
    { s with curPosted := s.curPosted - 1, asserts := s.asserts && entered }
  match s.head, s.trackFree with
  | [], _ => (giveUp, .done 0)
  | e :: head, free =>
      if s.curDispatch ≥ s.maxDispatch then (giveUp, .done 0)
      else match free with
        -- `VMK_ASSERT(!list_empty(&wqPtr->trackFree))` fails
        | [] => ({ giveUp with asserts := false }, .done 0)
        | wt :: trackFree =>
            ({ s with
                curPosted := s.curPosted - 1
                head := head
                curDispatch := s.curDispatch + 1
                qLen := s.qLen - 1
                trackFree := trackFree
                trackList := ⟨wt.slot, some e.work, e.ticket⟩ :: s.trackList
                asserts := s.asserts && entered && decide
                  (s.pending e.work = true ∧ s.qLen > 0 ∧ (head.length : Int) = s.qLen - 1 ∧
                    wt.executing = none ∧
                    (s.trackList.length + 1 + s.trackFlushList.length : Int) =
                      s.curDispatch + 1 ∧
                    (trackFree.length : Int) = s.maxDispatch - (s.curDispatch + 1)) },
              .clearPending e.work wt.slot e.ticket)

/-- The critical section of `vmklnx_plunger_complete`. -/
def vmklnxPlungerComplete (s : Wq) : Wq :=
  { s with
    trackFlushList := s.trackList ++ s.trackFlushList
    trackList := []
    asserts := s.asserts && decide (s.trackList ++ s.trackFlushList ≠ []) }

/-- The last critical section of `vmklnx_workqueue_callout` before it calls the
    dispatcher: the tracker leaves whichever list it is on. -/
def calloutDone (s : Wq) (slot : Nat) : Wq :=
  { s with
    curDispatch := s.curDispatch - 1
    trackList := s.trackList.filter (·.slot ≠ slot)
    trackFlushList := s.trackFlushList.filter (·.slot ≠ slot)
    trackFree := ⟨slot, none, 0⟩ :: s.trackFree }

/-- The loop test of `flush_workqueue`, with the lock held. -/
def flushTest (s : Wq) (f : Flush) (p : Nat) : Wq × Pc :=
  if s.trackFlushList = [] then (s, .flushMutexUnlock f p)
  else ({ s with waiting := s.waiting + 1 }, .flushSleep f p)

/-- The scan of `trackList` and `trackFlushList` for a running `work`. -/
def Wq.running (s : Wq) (w : Work) : Bool :=
  s.trackList.any (·.executing = some w) || s.trackFlushList.any (·.executing = some w)

/-- The end of one round of `vmklnx_cancel_work_sync`; a call that has neither
    grabbed the bit nor waited naps before its next round. -/
def Cancel.next (c : Cancel) : Pc :=
  if c.didGrabPending then .cancelClear c.work c.ret else .cancelGrab c

/-- The scan loop of `vmklnx_cancel_work_sync`, with the lock held. -/
def cancelScan (s : Wq) (c : Cancel) : Wq × Pc :=
  if s.running (.item c.work) then ({ s with waiting := s.waiting + 1 }, .cancelSleep c)
  else (s, c.next)

/-- The attempt of `vmklnx_cancel_work_sync` to grab the bit from the queue. -/
def cancelRemove (s : Wq) (c : Cancel) : Wq × Cancel :=
  if Work.item c.work ∈ s.head.map Entry.work ∧ s.pending (.item c.work) = true then
    let head := s.head.filter fun e => e.work ≠ .item c.work
    ({ s with
        head := head
        qLen := s.qLen - 1
        removed :=
          (s.head.filter fun e => e.work = .item c.work).map Entry.ticket ++ s.removed
        asserts := s.asserts && decide
          (c.didGrabPending = false ∧ (head.length : Int) = s.qLen - 1) },
      { c with didGrabPending := true, ret := 1 })
  else (s, c)

/-! ### What a critical section can do -/

theorem dispatchLoop_cases {s s' : Wq} {k : Ret} {pc : Pc} (h : dispatchLoop s k = (s', pc)) :
    (s' = { s with curPosted := s.curPosted + 1 } ∧ pc = .submit k ∧
      min (s.maxDispatch - s.curDispatch) (s.qLen - s.curPosted) > 0) ∨
    (s' = s ∧ pc = k.pc ∧
      min (s.maxDispatch - s.curDispatch) (s.qLen - s.curPosted) ≤ 0) := by
  unfold dispatchLoop at h
  split at h
  · rename_i hmin
    simp only [Prod.mk.injEq] at h
    exact Or.inl ⟨h.1.symm, h.2.symm, hmin⟩
  · rename_i hmin
    simp only [Prod.mk.injEq] at h
    exact Or.inr ⟨h.1.symm, h.2.symm, by omega⟩

theorem vmklnxWorkqueueDispatch_cases {s s' : Wq} {k : Ret} {pc : Pc}
    (h : vmklnxWorkqueueDispatch s k = (s', pc)) :
    ∃ ok, (s' = { s with curPosted := s.curPosted + 1, asserts := ok } ∧ pc = .submit k ∧
        min (s.maxDispatch - s.curDispatch) (s.qLen - s.curPosted) > 0) ∨
      (s' = { s with asserts := ok } ∧ pc = k.pc ∧
        min (s.maxDispatch - s.curDispatch) (s.qLen - s.curPosted) ≤ 0) := by
  unfold vmklnxWorkqueueDispatch at h
  have hcases := dispatchLoop_cases h
  exact ⟨_, hcases⟩

theorem vmklnxWorkqueueCallout_cases {s s' : Wq} {pc : Pc}
    (h : vmklnxWorkqueueCallout s = (s', pc)) :
    (∃ ok, s' = { s with curPosted := s.curPosted - 1, asserts := ok } ∧ pc = .done 0 ∧
      (s.head = [] ∨ s.curDispatch ≥ s.maxDispatch ∨ s.trackFree = [])) ∨
    (∃ e head wt free ok, s.head = e :: head ∧ s.trackFree = wt :: free ∧
      s.curDispatch < s.maxDispatch ∧
      s' = { s with
        curPosted := s.curPosted - 1
        head := head
        curDispatch := s.curDispatch + 1
        qLen := s.qLen - 1
        trackFree := free
        trackList := ⟨wt.slot, some e.work, e.ticket⟩ :: s.trackList
        asserts := ok } ∧
      pc = .clearPending e.work wt.slot e.ticket) := by
  unfold vmklnxWorkqueueCallout at h
  grind

theorem cancelRemove_cases (s : Wq) (c : Cancel) :
    cancelRemove s c = (s, c) ∨
    (Work.item c.work ∈ s.head.map Entry.work ∧ s.pending (.item c.work) = true ∧
      ∃ ok, cancelRemove s c = ({ s with
        head := s.head.filter fun e => e.work ≠ .item c.work
        qLen := s.qLen - 1
        removed :=
          (s.head.filter fun e => e.work = .item c.work).map Entry.ticket ++ s.removed
        asserts := ok }, { c with didGrabPending := true, ret := 1 })) := by
  unfold cancelRemove
  split
  · rename_i hc
    exact Or.inr ⟨hc.1, hc.2, _, rfl⟩
  · exact Or.inl rfl

theorem cancelScan_cases {s s' : Wq} {c : Cancel} {pc : Pc} (h : cancelScan s c = (s', pc)) :
    (s' = { s with waiting := s.waiting + 1 } ∧ pc = .cancelSleep c ∧
      s.running (.item c.work) = true) ∨
    (s' = s ∧ pc = c.next ∧ s.running (.item c.work) = false) := by
  unfold cancelScan at h
  split at h
  · rename_i hrun
    simp only [Prod.mk.injEq] at h
    exact Or.inl ⟨h.1.symm, h.2.symm, hrun⟩
  · rename_i hrun
    simp only [Prod.mk.injEq] at h
    exact Or.inr ⟨h.1.symm, h.2.symm, by simpa using hrun⟩

/-! ### The machine -/

/-- The calls, and the two kinds of deliveries by the vmkernel: the expiry of a
    timer and a helper world with an accepted request. -/
inductive Call where
  | queueWork (i : Nat)
  | queueDelayedWork (i : Nat) (delay : Nat)
  | delayedWorkTimerFn (i : Nat)
  | callout
  | timeout
  | flush
  | cancel (i : Nat) (timer : Bool)
  | destroy
deriving DecidableEq, Repr

/-- How a call starts.  The expiry of `delayTimer` and the one critical section of
    `vmklnx_workqueue_timeout` are one step, and so are the delivery of a request
    and the first critical section of the callout. -/
def enter (me : Nat) (s : Wq) : Call → Option (Wq × Pc)
  | .queueWork i => some (s, .queueExitFlag i)
  | .queueDelayedWork i delay =>
      if delay = 0 then some (s, .queueExitFlag i) else some (s, .delayedTestPending i)
  | .delayedWorkTimerFn i =>
      if s.timer i then
        some ({ s with timer := Function.update s.timer i false }, .queueLock i 0)
      else none
  | .callout =>
      if s.requests = 0 then none
      else some (vmklnxWorkqueueCallout { s with requests := s.requests - 1 })
  | .timeout =>
      if s.delayTimer then
        some (vmklnxWorkqueueDispatch { s with delayTimer := false } (.done 0))
      else none
  | .flush => some (s, .flushMutexLock ⟨me, false⟩)
  | .cancel i timer => some (s, .cancelGrab ⟨i, timer, false, 0⟩)
  | .destroy => some (s, .destroyExitFlag me)

/-- One step of a call; `accepted` is the answer of `vmk_HelperSubmitRequest`. -/
def step (accepted : Bool) (s : Wq) : Pc → Option (Wq × Pc)
  | .done _ => none
  -- vmklnx_queue_work
  | .queueExitFlag i => if s.setExitFlag then some (s, .done 0) else some (s, .queueTestPending i)
  | .queueTestPending i =>
      if s.pending (.item i) then some (s, .done 0)
      else some ({ s with pending := Function.update s.pending (.item i) true }, .queueLock i 1)
  | .queueLock i ret => some (vmklnxWorkqueueDispatch (queueWork s (.item i)) (.done ret))
  -- queue_delayed_work
  | .delayedTestPending i =>
      if s.pending (.item i) then some (s, .done 0)
      else some ({ s with pending := Function.update s.pending (.item i) true }, .delayedSetData i)
  | .delayedSetData i =>
      some ({ s with
          wqData := Function.update s.wqData (.item i) true
          asserts := s.asserts && decide
            (s.timer i = false ∧ Work.item i ∉ s.head.map Entry.work) }, .delayedAddTimer i)
  | .delayedAddTimer i => some ({ s with timer := Function.update s.timer i true }, .done 1)
  -- vmklnx_workqueue_dispatch
  | .submit k =>
      if accepted then
        if s.maxDispatch = 1 then some ({ s with requests := s.requests + 1 }, k.pc)
        else some ({ s with requests := s.requests + 1 }, .relock k)
      else some (s, .submitFailed k)
  | .submitFailed k => some ({ s with curPosted := s.curPosted - 1 }, .armDelay k)
  | .armDelay k => some ({ s with delayTimer := true }, k.pc)
  | .relock k => some (dispatchLoop s k)
  -- vmklnx_workqueue_callout
  | .clearPending w slot ticket =>
      some ({ s with pending := Function.update s.pending w false }, .callback w slot ticket)
  | .callback (.item _) slot ticket =>
      some ({ s with returned := ticket :: s.returned }, .calloutLock slot ticket)
  | .callback (.plunger owner) slot ticket =>
      some (vmklnxPlungerComplete s, .plungerComplete owner slot ticket)
  | .plungerComplete owner slot ticket =>
      some ({ s with
          completion := Function.update s.completion owner true
          returned := ticket :: s.returned }, .calloutLock slot ticket)
  | .calloutLock slot _ => some (vmklnxWorkqueueDispatch (calloutDone s slot) (.done 0))
  -- flush_workqueue
  | .flushMutexLock f =>
      if s.flushMutex then none else some ({ s with flushMutex := true }, .flushInit f)
  | .flushInit f =>
      some ({ s with
          completion := Function.update s.completion f.me false
          wqData := Function.update s.wqData (.plunger f.me) false
          pending := Function.update s.pending (.plunger f.me) true }, .flushQueue f)
  | .flushQueue f =>
      some (vmklnxWorkqueueDispatch (queueWork s (.plunger f.me)) (.flush f s.queued.length))
  | .flushWait f p => if s.completion f.me then some (s, .flushLock f p) else none
  | .flushLock f p => some (flushTest s f p)
  | .flushSleep f p => some (flushTest { s with waiting := s.waiting - 1 } f p)
  | .flushMutexUnlock f p =>
      if f.destroying then some ({ s with flushMutex := false }, .destroyLock p)
      else some ({ s with flushMutex := false }, .flushed p)
  | .flushed _ => none
  -- vmklnx_cancel_work_sync
  | .cancelGrab c =>
      if s.pending (.item c.work) then
        if c.timer then some (s, .cancelTimer c) else some (s, .cancelData c)
      else
        some ({ s with pending := Function.update s.pending (.item c.work) true },
          .cancelData { c with didGrabPending := true })
  | .cancelTimer c =>
      if s.timer c.work then
        some ({ s with
            timer := Function.update s.timer c.work false
            asserts := s.asserts && s.pending (.item c.work) },
          .cancelData { c with didGrabPending := true, ret := 1 })
      else some (s, .cancelData c)
  | .cancelData c =>
      if s.wqData (.item c.work) then some (s, .cancelLock c) else some (s, c.next)
  | .cancelLock c =>
      if s.wqData (.item c.work) then
        some (cancelScan (cancelRemove s c).1 (cancelRemove s c).2)
      else some (s, c.next)
  | .cancelSleep c => some (cancelScan { s with waiting := s.waiting - 1 } c)
  | .cancelClear i ret =>
      some ({ s with pending := Function.update s.pending (.item i) false }, .done ret)
  -- destroy_workqueue
  | .destroyExitFlag me =>
      if s.setExitFlag then some (s, .done 0)
      else some ({ s with setExitFlag := true }, .flushMutexLock ⟨me, true⟩)
  | .destroyLock p =>
      if s.curPosted > 0 then some (s, .destroyLock p) else some (s, .destroyCheck p)
  | .destroyCheck p =>
      some ({ s with destroyAsserts := s.destroyAsserts && decide (s.qLen = 0 ∧ s.head = []) },
        .destroyDelTimer p)
  | .destroyDelTimer p => some ({ s with delayTimer := false }, .destroyFree p)
  | .destroyFree p =>
      some ({ s with
          freed := true
          destroyAsserts := s.destroyAsserts && decide
            (s.curDispatch = 0 ∧ s.curPosted = 0 ∧ s.waiting = 0 ∧ s.trackList.length = 0 ∧
              s.trackFlushList.length = 0 ∧ (s.trackFree.length : Int) = s.maxDispatch) },
        .destroyed p)
  | .destroyed _ => none

/-- The workqueue machine; nothing happens on a queue that has been freed. -/
def machine : Machine Wq Pc Call Bool where
  start me call s := if s.freed then none else enter me s call
  act accepted s pc := if s.freed then none else step accepted s pc

/-- A new queue with no call in progress. -/
def initial (maxDispatch : Nat) : Config Wq Pc := ⟨createWorkqueue maxDispatch, []⟩

end VmkLinux.Workqueue
