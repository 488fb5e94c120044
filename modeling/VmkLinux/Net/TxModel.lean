/-
  VmkLinux/Net/TxModel.lean
  =========================
  **The transmit path** of `vmklinux26/vmware/linux_net.c`: `netdev_tx`,
  `process_tx_queue` and `net_tx_action` on the transmit queues of one device, with
  `netif_tx_stop_queue`, `netif_tx_wake_queue`, the watchdog, and the blocking of the
  queues, by itself and in `dev_close`.

  Each lock, trylock, unlock, bit operation and list operation is one step.  A thread
  spins on a lock by having no step.  The driver returns from `hard_start_xmit` with
  either result, at any time; a queue that it stops or wakes meanwhile is one that
  another thread stops or wakes.  The device has `numTxQueues` queues, a queue is named
  by its index in `dev->_tx`, and a packet by a name that is not used twice.

  `softq.state` is the two flags `unblocked` and `started`, and `softq.hardState`, which
  nothing reads, is left out.  The stress options of a debug build that drop packets are
  a choice of the surroundings; the one that stops the queue is a stop from outside.
  The wait for `rxInFlight` in `BlockNetDev` may end at any time.

  Without counterpart in the source: `handed`, `accepted` and `released`, the packets
  given to `netdev_tx`, taken by the driver and released by this layer; `closing` and
  `stopped`, that `dev_close` was called and that it has called `dev->stop`.
-/
import Mathlib.Algebra.Group.Int.Defs
import Mathlib.Algebra.Group.Nat.Defs
import VmkLinux.Interleave

namespace VmkLinux.Net.Tx

open VmkLinux.Interleave

/-! ### Data -/

/-- `struct netdev_queue` with its `netdev_soft_queue`. -/
structure NetdevQueue where
  xoff : Bool
  sched : Bool
  queueLock : Bool
  xmitLock : Bool
  processingTx : Bool
  unblocked : Bool
  started : Bool
  outputList : List Nat
  outputListMaxSize : Nat
deriving DecidableEq, Repr

/-- The device, and `softnet_data[cpu].output_queue` of every CPU. -/
structure Shared where
  blocked : Bool
  queue : Nat → NetdevQueue
  outputQueue : Nat → List Nat
  closing : Bool
  stopped : Bool
  handed : List Nat
  accepted : List Nat
  released : List Nat

/-- The reference counts of a socket buffer. -/
structure SkBuff where
  users : Nat
  dataref : Nat
  fragsref : Nat
deriving DecidableEq, Repr

/-- The counts that `do_alloc_skb` sets. -/
def doAllocSkb : SkBuff := ⟨1, 1, 1⟩

/-- Whether `__kfree_skb`, through `skb_release_data`, releases the packet. -/
def SkBuff.kfreeReleases (skb : SkBuff) : Bool :=
  decide (skb.users - 1 = 0) && decide (skb.dataref - 1 = 0) && decide (skb.fragsref - 1 = 0)

inductive Pc where
  -- netdev_tx
  | testBlocked
  | lockQueue
  | testState
  | queuePkts
  -- process_tx_queue
  | loop
  | tryXmit
  | xmitBusy
  | setProcessing
  | testStopped
  | stoppedClear
  | stoppedUnlock
  | popHead
  | unlockQueue
  | mapPkt
  | xmit
  | clearProcessing
  | unlockXmit
  | relockQueue
  | xmitStatus
  | putBack
  | retestStopped
  | drained
  | schedule
  | insert
  -- the callers again
  | unlock
  | releasePkts
  | releaseFree
  -- net_tx_action
  | takeQueues
  | nextQueue
  | tryQueue
  -- netif_tx_stop_queue, netif_tx_wake_queue
  | stopQueue
  | wakeQueue
  | wakeSchedule
  | wakeInsert
  -- the watchdog
  | watchdogLock
  | watchdogUnlock
  | startLock
  | startSoft
  | stopLock
  | stopSoft
  | softUnlock
  -- block_tx_soft_queue and unblock_tx_soft_queue by themselves
  | blockQueueLock
  | blockQueue
  | unblockLock
  | unblockQueue
  -- dev_close, with BlockNetDev
  | blockNetDev
  | blockLock
  | blockSoft
  | blockUnlock
  | blockRelease
  | blockSched
  | rxWait
  | xmitWait
  | devStop
  | done
deriving DecidableEq, Repr

/-- What became of the packet in hand: not mapped, accepted, refused by the driver. -/
inductive Outcome where
  | unmapped
  | sent
  | refused
deriving DecidableEq, Repr

/-- A thread with its local variables.  `action` tells the two callers of
    `process_tx_queue` apart, `pkt` is the packet popped off the queue, `head` is the list
    of queues that `net_tx_action` took, and `queue` is also the loop variable of
    `dev_close`. -/
structure Thread where
  pc : Pc
  queue : Nat
  action : Bool := false
  pktList : List Nat := []
  freeList : List Nat := []
  pkt : Option Nat := none
  skb : SkBuff := doAllocSkb
  outcome : Outcome := .sent
  iter : Nat := 0
  head : List Nat := []
deriving DecidableEq, Repr

inductive Call where
  | netdevTx (q : Nat) (pkts : List Nat)
  | netTxAction
  | stopQueue (q : Nat)
  | wakeQueue (q : Nat)
  | watchdogLock (q : Nat)
  | startSoft (q : Nat)
  | stopSoft (q : Nat)
  | blockQueue (q : Nat)
  | unblockQueue (q : Nat)
  | devClose
deriving DecidableEq, Repr

/-- The choices of the surroundings: a stress option is on, `map_pkt_to_skb` fails,
    `hard_start_xmit` returns an error, and the CPU the thread is on. -/
structure Choice where
  stress : Bool := false
  unmapped : Bool := false
  refused : Bool := false
  cpu : Nat := 0
deriving DecidableEq, Repr

/-! ### Steps -/

def Shared.setQueue (s : Shared) (q : Nat) (Q : NetdevQueue) : Shared :=
  { s with queue := fun k => if k = q then Q else s.queue k }

/-- The list operation of `__netif_schedule`, with `__cpu_raise_softirq`. -/
def Shared.insertQueue (s : Shared) (cpu q : Nat) : Shared :=
  { s with outputQueue := fun k => if k = cpu then q :: s.outputQueue k else s.outputQueue k }

section Update

variable (s : Shared) (q : Nat) (Q : NetdevQueue)

@[simp] theorem setQueue_self : (s.setQueue q Q).queue q = Q := if_pos rfl
@[simp] theorem setQueue_outputQueue : (s.setQueue q Q).outputQueue = s.outputQueue := rfl
@[simp] theorem setQueue_blocked : (s.setQueue q Q).blocked = s.blocked := rfl
@[simp] theorem setQueue_closing : (s.setQueue q Q).closing = s.closing := rfl
@[simp] theorem setQueue_stopped : (s.setQueue q Q).stopped = s.stopped := rfl
@[simp] theorem setQueue_handed : (s.setQueue q Q).handed = s.handed := rfl
@[simp] theorem setQueue_accepted : (s.setQueue q Q).accepted = s.accepted := rfl
@[simp] theorem setQueue_released : (s.setQueue q Q).released = s.released := rfl

theorem setQueue_of_ne {k : Nat} (h : k ≠ q) : (s.setQueue q Q).queue k = s.queue k := if_neg h

theorem mem_insertQueue {cpu k p : Nat} (h : p ∈ (s.insertQueue cpu q).outputQueue k) :
    p = q ∨ p ∈ s.outputQueue k := by
  simp only [Shared.insertQueue] at h
  split at h
  · exact List.mem_cons.mp h
  · exact .inr h

end Update

/-- `listSpaceLeft`, an `int`. -/
def listSpaceLeft (Q : NetdevQueue) : Int :=
  Int.bmod (Q.outputListMaxSize - Q.outputList.length) (2 ^ 32)

/-- Whether `netdev_queue_tx_pkts_locked` takes the list as a whole; the sum of the counts has
    32 bits. -/
def joins (Q : NetdevQueue) (pktList : List Nat) : Bool :=
  (pktList.length + Q.outputList.length) % 2 ^ 32 < Q.outputListMaxSize

/-- `netdev_queue_tx_pkts_locked`: the new `outputList`, and what is left on `pktList`. -/
def queueTxPkts (Q : NetdevQueue) (pktList : List Nat) : List Nat × List Nat :=
  if joins Q pktList then (Q.outputList ++ pktList, [])
  else
    -- nothing is appended when listSpaceLeft is not positive
    (Q.outputList ++ pktList.take (listSpaceLeft Q).toNat, pktList.drop (listSpaceLeft Q).toNat)

section Model

variable (numTxQueues : Nat)

def enter (_me : Nat) (call : Call) (s : Shared) : Option (Shared × Thread) :=
  match call with
  | .netdevTx q pkts =>
      if q < numTxQueues ∧ pkts.Nodup ∧ ∀ p ∈ pkts, p ∉ s.handed then
        some ({ s with handed := s.handed ++ pkts },
          { pc := .testBlocked, queue := q, pktList := pkts })
      else none
  | .netTxAction => some (s, { pc := .takeQueues, queue := 0, action := true })
  | .stopQueue q => if q < numTxQueues then some (s, { pc := .stopQueue, queue := q }) else none
  | .wakeQueue q => if q < numTxQueues then some (s, { pc := .wakeQueue, queue := q }) else none
  | .watchdogLock q =>
      if q < numTxQueues then some (s, { pc := .watchdogLock, queue := q }) else none
  | .startSoft q => if q < numTxQueues then some (s, { pc := .startLock, queue := q }) else none
  | .stopSoft q => if q < numTxQueues then some (s, { pc := .stopLock, queue := q }) else none
  | .blockQueue q =>
      if q < numTxQueues then some (s, { pc := .blockQueueLock, queue := q }) else none
  | .unblockQueue q =>
      if q < numTxQueues then some (s, { pc := .unblockLock, queue := q }) else none
  | .devClose =>
      if s.closing then none
      else some ({ s with closing := true }, { pc := .blockNetDev, queue := 0 })

/-- One step of a thread whose queue is `Q`. -/
def stepOn (a : Choice) (s : Shared) (t : Thread) (Q : NetdevQueue) :
    Option (Shared × Thread) :=
  match t.pc with
  | .testBlocked =>
      if s.blocked ∨ a.stress then
        some ({ s with released := s.released ++ t.pktList }, { t with pc := .done, pktList := [] })
      else some (s, { t with pc := .lockQueue })
  | .lockQueue =>
      if Q.queueLock then none
      else some (s.setQueue t.queue { Q with queueLock := true }, { t with pc := .testState })
  | .testState =>
      if Q.unblocked ∧ Q.started then some (s, { t with pc := .queuePkts })
      else some (s, { t with pc := .unlock })
  | .queuePkts =>
      some (s.setQueue t.queue { Q with outputList := (queueTxPkts Q t.pktList).1 },
        { t with pc := .loop, pktList := (queueTxPkts Q t.pktList).2, iter := 0 })
  | .loop =>
      match Q.outputList with
      | [] => some (s, { t with pc := .drained })
      | p :: rest =>
          if t.iter < Q.outputListMaxSize then
            if a.stress then
              some (s.setQueue t.queue { Q with outputList := rest },
                { t with freeList := t.freeList ++ [p] })
            else some (s, { t with pc := .tryXmit })
          else some (s, { t with pc := .drained })
  | .tryXmit =>
      if Q.xmitLock then some (s, { t with pc := .xmitBusy })
      else some (s.setQueue t.queue { Q with xmitLock := true }, { t with pc := .setProcessing })
  | .xmitBusy =>
      if Q.processingTx then some (s, { t with pc := .unlock })
      else some (s, { t with pc := .schedule })
  | .setProcessing =>
      some (s.setQueue t.queue { Q with processingTx := true }, { t with pc := .testStopped })
  | .testStopped =>
      if Q.xoff then some (s, { t with pc := .stoppedClear })
      else some (s, { t with pc := .popHead })
  | .stoppedClear =>
      some (s.setQueue t.queue { Q with processingTx := false }, { t with pc := .stoppedUnlock })
  | .stoppedUnlock =>
      some (s.setQueue t.queue { Q with xmitLock := false }, { t with pc := .unlock })
  | .popHead =>
      some (s.setQueue t.queue { Q with outputList := Q.outputList.tail },
        { t with pc := .unlockQueue, pkt := Q.outputList.head? })
  | .unlockQueue =>
      some (s.setQueue t.queue { Q with queueLock := false }, { t with pc := .mapPkt })
  | .mapPkt =>
      if a.unmapped then
        some (s, { t with pc := .clearProcessing, outcome := .unmapped,
                          freeList := t.freeList ++ t.pkt.toList, pkt := none })
      else some (s, { t with pc := .xmit, skb := doAllocSkb })
  | .xmit =>
      if a.refused then some (s, { t with pc := .clearProcessing, outcome := .refused })
      else
        some ({ s with accepted := s.accepted ++ t.pkt.toList },
          { t with pc := .clearProcessing, outcome := .sent, pkt := none })
  | .clearProcessing =>
      some (s.setQueue t.queue { Q with processingTx := false }, { t with pc := .unlockXmit })
  | .unlockXmit =>
      some (s.setQueue t.queue { Q with xmitLock := false }, { t with pc := .relockQueue })
  | .relockQueue =>
      if Q.queueLock then none
      else some (s.setQueue t.queue { Q with queueLock := true }, { t with pc := .xmitStatus })
  | .xmitStatus =>
      match t.outcome with
      | .unmapped => some (s, { t with pc := .loop })
      | .sent => some (s, { t with pc := .loop, iter := t.iter + 1 })
      | .refused => some (s, { t with pc := .putBack })
  | .putBack =>
      -- one more fragsref, then dev_kfree_skb_any
      if { t.skb with fragsref := t.skb.fragsref + 1 }.kfreeReleases then
        some ({ s with released := s.released ++ t.pkt.toList }.setQueue t.queue
          { Q with outputList := t.pkt.toList ++ Q.outputList },
          { t with pc := .retestStopped, pkt := none })
      else
        some (s.setQueue t.queue { Q with outputList := t.pkt.toList ++ Q.outputList },
          { t with pc := .retestStopped, pkt := none })
  | .retestStopped =>
      if Q.xoff then some (s, { t with pc := .unlock }) else some (s, { t with pc := .schedule })
  | .drained =>
      if Q.outputList = [] then some (s, { t with pc := .unlock })
      else some (s, { t with pc := .schedule })
  | .schedule =>
      if Q.sched then some (s, { t with pc := .unlock })
      else some (s.setQueue t.queue { Q with sched := true }, { t with pc := .insert })
  | .insert => some (s.insertQueue a.cpu t.queue, { t with pc := .unlock })
  | .unlock =>
      if t.action then
        some (s.setQueue t.queue { Q with queueLock := false }, { t with pc := .releaseFree })
      else some (s.setQueue t.queue { Q with queueLock := false }, { t with pc := .releasePkts })
  | .releasePkts =>
      some ({ s with released := s.released ++ t.pktList },
        { t with pc := .releaseFree, pktList := [] })
  | .releaseFree =>
      if t.action then
        some ({ s with released := s.released ++ t.freeList },
          { t with pc := .nextQueue, freeList := [] })
      else
        some ({ s with released := s.released ++ t.freeList },
          { t with pc := .done, freeList := [] })
  | .takeQueues =>
      some ({ s with outputQueue := fun k => if k = a.cpu then [] else s.outputQueue k },
        { t with pc := .nextQueue, head := s.outputQueue a.cpu })
  | .nextQueue =>
      match t.head with
      | [] => some (s, { t with pc := .done })
      | q :: rest =>
          some (s.setQueue q { s.queue q with sched := false },
            { t with pc := .tryQueue, queue := q, head := rest })
  | .tryQueue =>
      if Q.queueLock then some (s, { t with pc := .nextQueue })
      else
        some (s.setQueue t.queue { Q with queueLock := true }, { t with pc := .loop, iter := 0 })
  | .stopQueue => some (s.setQueue t.queue { Q with xoff := true }, { t with pc := .done })
  | .wakeQueue =>
      if Q.xoff then
        some (s.setQueue t.queue { Q with xoff := false }, { t with pc := .wakeSchedule })
      else some (s, { t with pc := .done })
  | .wakeSchedule =>
      if Q.sched then some (s, { t with pc := .done })
      else some (s.setQueue t.queue { Q with sched := true }, { t with pc := .wakeInsert })
  | .wakeInsert => some (s.insertQueue a.cpu t.queue, { t with pc := .done })
  | .watchdogLock =>
      if Q.xmitLock then none
      else some (s.setQueue t.queue { Q with xmitLock := true }, { t with pc := .watchdogUnlock })
  | .watchdogUnlock =>
      some (s.setQueue t.queue { Q with xmitLock := false }, { t with pc := .done })
  | .startLock =>
      if Q.queueLock then none
      else some (s.setQueue t.queue { Q with queueLock := true }, { t with pc := .startSoft })
  | .startSoft =>
      some (s.setQueue t.queue { Q with started := true }, { t with pc := .softUnlock })
  | .stopLock =>
      if Q.queueLock then none
      else some (s.setQueue t.queue { Q with queueLock := true }, { t with pc := .stopSoft })
  | .stopSoft =>
      some (s.setQueue t.queue { Q with outputList := [], started := false },
        { t with pc := .softUnlock, freeList := t.freeList ++ Q.outputList })
  | .softUnlock =>
      some (s.setQueue t.queue { Q with queueLock := false }, { t with pc := .releaseFree })
  | .blockQueueLock =>
      if Q.queueLock then none
      else some (s.setQueue t.queue { Q with queueLock := true }, { t with pc := .blockQueue })
  | .blockQueue =>
      some (s.setQueue t.queue { Q with outputList := [], unblocked := false },
        { t with pc := .softUnlock, freeList := t.freeList ++ Q.outputList })
  | .unblockLock =>
      if Q.queueLock then none
      else some (s.setQueue t.queue { Q with queueLock := true }, { t with pc := .unblockQueue })
  | .unblockQueue =>
      some (s.setQueue t.queue { Q with unblocked := true }, { t with pc := .softUnlock })
  | .blockNetDev =>
      if s.blocked then some (s, { t with pc := .xmitWait, queue := 0 })
      else some ({ s with blocked := true }, { t with pc := .blockLock, queue := 0 })
  | .blockLock =>
      if t.queue < numTxQueues then
        if Q.queueLock then none
        else some (s.setQueue t.queue { Q with queueLock := true }, { t with pc := .blockSoft })
      else some (s, { t with pc := .rxWait })
  | .blockSoft =>
      some (s.setQueue t.queue { Q with outputList := [], unblocked := false },
        { t with pc := .blockUnlock, freeList := t.freeList ++ Q.outputList })
  | .blockUnlock =>
      some (s.setQueue t.queue { Q with queueLock := false }, { t with pc := .blockRelease })
  | .blockRelease =>
      some ({ s with released := s.released ++ t.freeList },
        { t with pc := .blockSched, freeList := [] })
  | .blockSched =>
      -- msleep and try again while the bit is set
      if Q.sched then some (s, t)
      else
        some (s.setQueue t.queue { Q with sched := true },
          { t with pc := .blockLock, queue := t.queue + 1 })
  | .rxWait => some (s, { t with pc := .xmitWait, queue := 0 })
  | .xmitWait =>
      if t.queue < numTxQueues then
        if Q.xmitLock then none else some (s, { t with queue := t.queue + 1 })
      else some (s, { t with pc := .devStop })
  | .devStop => some ({ s with stopped := true }, { t with pc := .done })
  | .done => none

def step (a : Choice) (s : Shared) (t : Thread) : Option (Shared × Thread) :=
  stepOn numTxQueues a s t (s.queue t.queue)

def machine : Machine Shared Thread Call Choice where
  start := enter numTxQueues
  act := step numTxQueues

end Model

/-- A device that is open, unblocked and started, with nothing queued; its queues may
    have any sizes. -/
def initial (outputListMaxSize : Nat → Nat) : Config Shared Thread where
  shared :=
    { blocked := false, outputQueue := fun _ => [], closing := false, stopped := false,
      handed := [], accepted := [], released := [],
      queue := fun q =>
        { xoff := false, sched := false, queueLock := false, xmitLock := false,
          processingTx := false, unblocked := true, started := true, outputList := [],
          outputListMaxSize := outputListMaxSize q } }
  pool := []

/-- Thread `i` takes `k` steps in which nothing fails, on CPU 0. -/
def acts (i k : Nat) : List (Event Call Choice) := List.replicate k (.act i {})

end VmkLinux.Net.Tx
