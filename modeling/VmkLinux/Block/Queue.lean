/-
  VmkLinux/Block/Queue.lean
  =========================
  **A request queue and its driver** (`vmklinux26/vmware/linux_block.c`): the queueing of
  `LinuxBlockIssueCmd`, `generic_unplug_device`, and `blk_start_queue`, `blk_stop_queue`,
  `blk_plug_device` and `blk_remove_plug`.

  Commands, and completions after which the driver starts the queue again, run in any order; what
  they do under `queue_lock` is not interrupted.  `request_fn` takes requests from the queue until
  the queue is empty or it stops the queue.

  `blk_start_queue` plugs the queue and leaves it at that: `request_fn` is called by the next
  command only.  Where the queue has no requests then, or a command has still to unplug it
  (`orderly`), no request waits on a started queue (`queue_not_stalled`).
-/
import Mathlib.Data.Fin.Tuple.Basic
import VmkLinux.Interleave

namespace VmkLinux.Block

open VmkLinux.Interleave

/-! ### Data -/

/-- `request_queue_t`.  `inDriver` are the requests that the driver has taken and not completed,
    and `called` says that `request_fn` was called since a request was last added and
    `blk_start_queue` was last called; neither is in the source. -/
structure Shared where
  queueHead : List Nat := []
  plugged : Bool := false
  stopped : Bool := false
  queueLock : Bool := false
  inDriver : List Nat := []
  called : Bool := true
deriving DecidableEq, Repr

inductive Pc where
  /-- `LinuxBlockIssueCmd`. -/
  | issueLock
  | issueAdd
  | issueUnlock
  /-- `generic_unplug_device`. -/
  | unplugLock
  | unplugTest
  | requestFn
  | unplugUnlock
  /-- The driver, after a completion. -/
  | startLock
  | startQueue
  | startUnlock
  | done
deriving DecidableEq, Repr

structure Thread where
  pc : Pc
  req : Nat := 0
deriving DecidableEq, Repr

/-- A command, or the completion of a request that the driver has taken. -/
inductive Call where
  | issueCmd
  | complete (req : Nat) (start : Bool)
deriving DecidableEq, Repr

/-- What the driver does next in `request_fn`. -/
inductive Choice where
  | dequeue
  | stop
  | leave
deriving DecidableEq, Repr

/-! ### The queue -/

def blkPlugDevice (s : Shared) : Shared := if s.stopped then s else { s with plugged := true }

/-- `list_add` puts the request at the head. -/
def addRequest (req : Nat) (s : Shared) : Shared :=
  { s with queueHead := req :: s.queueHead, called := false }

def blkStopQueue (s : Shared) : Shared := { s with plugged := false, stopped := true }

def blkStartQueue (s : Shared) : Shared :=
  blkPlugDevice { s with stopped := false, called := false }

def enter (me : Nat) (call : Call) (s : Shared) : Option (Shared × Thread) :=
  match call with
  | .issueCmd => some (s, { pc := .issueLock, req := me })
  | .complete req start =>
      if req ∈ s.inDriver then
        some ({ s with inDriver := s.inDriver.erase req },
          { pc := if start then .startLock else .done, req := req })
      else none

/-- `spin_lock_irq` of `queue_lock`. -/
def lock (next : Pc) (s : Shared) (t : Thread) : Option (Shared × Thread) :=
  if s.queueLock then none else some ({ s with queueLock := true }, { t with pc := next })

def unlock (next : Pc) (s : Shared) (t : Thread) : Option (Shared × Thread) :=
  some ({ s with queueLock := false }, { t with pc := next })

def step (a : Choice) (s : Shared) (t : Thread) : Option (Shared × Thread) :=
  match t.pc with
  | .issueLock => lock .issueAdd s t
  | .issueAdd => some (addRequest t.req (blkPlugDevice s), { t with pc := .issueUnlock })
  | .issueUnlock => unlock .unplugLock s t
  | .unplugLock => lock .unplugTest s t
  -- `__generic_unplug_device`
  | .unplugTest =>
      if s.stopped then some (s, { t with pc := .unplugUnlock })
      else if s.plugged then
        some ({ s with plugged := false, called := true }, { t with pc := .requestFn })
      else some (s, { t with pc := .unplugUnlock })
  | .requestFn =>
      match a, s.queueHead with
      | .dequeue, req :: reqs =>
          some ({ s with queueHead := reqs, inDriver := req :: s.inDriver }, t)
      | .dequeue, [] => none
      | .stop, _ => some (blkStopQueue s, { t with pc := .unplugUnlock })
      | .leave, [] => some (s, { t with pc := .unplugUnlock })
      | .leave, _ :: _ => none
  | .unplugUnlock => unlock .done s t
  | .startLock => lock .startQueue s t
  | .startQueue => some (blkStartQueue s, { t with pc := .startUnlock })
  | .startUnlock => unlock .done s t
  | .done => none

def machine : Machine Shared Thread Call Choice := ⟨enter, step⟩

def initial : Config Shared Thread := ⟨{}, []⟩

/-! ### Orderly restarts -/

/-- The command has still to look at the plug. -/
def Thread.willTest (t : Thread) : Nat :=
  match t.pc with
  | .issueUnlock | .unplugLock | .unplugTest => 1
  | _ => 0

def Thread.issuing (t : Thread) : Bool :=
  match t.pc with
  | .issueLock | .issueAdd | .issueUnlock | .unplugLock | .unplugTest | .requestFn
  | .unplugUnlock => true
  | .startLock | .startQueue | .startUnlock | .done => false

/-- The queue is started again while it is empty, or while a command has still to look at the
    plug. -/
def orderly (c : Config Shared Thread) : Event Call Choice → Bool
  | .start _ => true
  | .act i _ =>
      match c.pool[i]? with
      | some t => decide (t.pc ≠ .startQueue) || decide (c.shared.queueHead = []) ||
          c.pool.any fun u => u.willTest = 1
      | none => true

/-! ### The invariant -/

def Thread.holdsLock (t : Thread) : Nat :=
  match t.pc with
  | .issueAdd | .issueUnlock | .unplugTest | .requestFn | .unplugUnlock | .startQueue
  | .startUnlock => 1
  | .issueLock | .unplugLock | .startLock | .done => 0

def Thread.inRequestFn (t : Thread) : Nat := if t.pc = .requestFn then 1 else 0

/-- Requests on a started queue are in the driver's hands, or a command will unplug the queue. -/
structure Inv (s : Shared) (sum : (Thread → Nat) → Nat) : Prop where
  lock : sum Thread.holdsLock = s.queueLock.toNat
  served : s.queueHead ≠ [] → s.stopped = false →
    s.plugged = true ∧ 0 < sum Thread.willTest ∨ 0 < sum Thread.inRequestFn

section Step

variable {s s' : Shared} {t t' : Thread} {a : Choice} {rest : (Thread → Nat) → Nat}

theorem inRequestFn_le_holdsLock (t : Thread) : t.inRequestFn ≤ t.holdsLock := by
  unfold Thread.inRequestFn Thread.holdsLock
  split
  · rename_i hpc
    simp [hpc]
  · exact Nat.zero_le _

/-- Only the thread that has the lock can be in `request_fn`. -/
theorem inv_step (hI : Inv s fun w => rest w + w t) (hrest : Mono rest)
    (hok : t.pc = .startQueue → s.queueHead = [] ∨ 0 < rest Thread.willTest)
    (h : step a s t = some (s', t')) : Inv s' fun w => rest w + w t' := by
  have hle := hrest _ _ inRequestFn_le_holdsLock
  obtain ⟨hlock, hserved⟩ := hI
  unfold step at h
  cases hpc : t.pc
  all_goals simp only [hpc, lock, unlock, reduceCtorEq] at h
  all_goals repeat' split at h
  all_goals simp only [Option.some.injEq, Prod.mk.injEq, reduceCtorEq] at h
  all_goals obtain ⟨rfl, rfl⟩ := h
  all_goals constructor
  all_goals simp only [Thread.holdsLock, Thread.willTest, Thread.inRequestFn, hpc, blkPlugDevice,
    addRequest, blkStopQueue, blkStartQueue] at *
  all_goals grind -linarith [Bool.toNat]

end Step

/-! ### Whole runs -/

theorem inv_of_reach {c : Config Shared Thread}
    (h : machine.Reach (fun c e => orderly c e = true) initial c) :
    Inv c.shared fun w => total w c.pool := by
  refine h.invariant (fun c => Inv c.shared fun w => total w c.pool) ⟨rfl, by simp [initial]⟩ ?_ ?_
  · intro c call g t _ hI _ hs
    simp only [machine] at hs
    obtain ⟨hlock, hserved⟩ := hI
    cases call with
    | issueCmd =>
      simp only [enter, Option.some.injEq, Prod.mk.injEq] at hs
      obtain ⟨rfl, rfl⟩ := hs
      constructor
      all_goals simp only [total_append, Thread.holdsLock, Thread.willTest, Thread.inRequestFn]
      all_goals grind -linarith
    | complete req start =>
      simp only [enter] at hs
      split at hs
      · simp only [Option.some.injEq, Prod.mk.injEq] at hs
        obtain ⟨rfl, rfl⟩ := hs
        constructor
        all_goals simp only [total_append, Thread.holdsLock, Thread.willTest, Thread.inRequestFn]
        all_goals grind -linarith
      · cases hs
  · intro c i a t g t' _ hI hok ht hs
    have hI' : Inv c.shared fun w => others w c.pool i + w t := by
      constructor
      · rw [← total_eq_others _ ht]
        exact hI.lock
      · rw [← total_eq_others _ ht, ← total_eq_others _ ht]
        exact hI.served
    have hok' : t.pc = .startQueue →
        c.shared.queueHead = [] ∨ 0 < others Thread.willTest c.pool i := by
      intro hpc
      simp only [orderly, ht, hpc, ne_eq, not_true_eq_false, decide_false, Bool.false_or,
        Bool.or_eq_true, decide_eq_true_eq, List.any_eq_true] at hok
      refine hok.imp_right ?_
      rintro ⟨u, hu, hwill⟩
      obtain ⟨j, hj⟩ := List.mem_iff_getElem?.mp hu
      have hle := le_total Thread.willTest hj
      rw [total_eq_others _ ht] at hle
      have hzero : t.willTest = 0 := by simp [Thread.willTest, hpc]
      omega
    have hstep := inv_step hI' (mono_others c.pool i) hok' hs
    constructor
    · rw [total_set _ t' ht]
      exact hstep.lock
    · rw [total_set _ t' ht, total_set _ t' ht]
      exact hstep.served

/-- With the lock free and no command under way, `request_fn` was called for the requests on a
    started queue. -/
def NotStalled (c : Config Shared Thread) : Prop :=
  c.shared.queueLock = false → (∀ t ∈ c.pool, t.issuing = false) → c.shared.queueHead ≠ [] →
    c.shared.stopped = false → c.shared.called = true

/-- **A started queue with work is not stalled**, where it is started again in order. -/
theorem queue_not_stalled {c : Config Shared Thread}
    (h : machine.Reach (fun c e => orderly c e = true) initial c) : NotStalled c := by
  intro _ hissuing hne hstopped
  have hI := inv_of_reach h
  have htest : total Thread.willTest c.pool = 0 := by
    refine total_eq_zero fun t ht => ?_
    have hnot := hissuing t ht
    unfold Thread.issuing at hnot
    unfold Thread.willTest
    cases hpc : t.pc <;> simp_all
  have hfn : total Thread.inRequestFn c.pool = 0 := by
    refine total_eq_zero fun t ht => ?_
    have hnot := hissuing t ht
    unfold Thread.issuing at hnot
    unfold Thread.inRequestFn
    cases hpc : t.pc <;> simp_all
  rcases hI.served hne hstopped with ⟨-, hpos⟩ | hpos
  · omega
  · omega

/-- The driver stops the queue after the first command.  The second adds its request; before it
    looks at the plug, the first request is completed and the queue started. -/
theorem queue_not_stalled_restart :
    ∃ c, machine.Reach (fun c e => orderly c e = true) initial c ∧
      (c.shared.queueHead, c.shared.stopped, c.shared.inDriver) = ([], false, [1]) ∧
      NotStalled c := by
  obtain ⟨c, hc, ho⟩ := machine.exists_reach_of_runIf orderly
    ([.start .issueCmd, .act 0 .leave, .act 0 .leave, .act 0 .leave, .act 0 .leave, .act 0 .leave,
      .act 0 .dequeue, .act 0 .stop, .act 0 .leave,
      .start .issueCmd, .act 1 .leave, .act 1 .leave, .act 1 .leave,
      .start (.complete 0 true), .act 2 .leave, .act 2 .leave, .act 2 .leave,
      .act 1 .leave, .act 1 .leave, .act 1 .dequeue, .act 1 .leave, .act 1 .leave])
    initial (fun c => (c.shared.queueHead, c.shared.stopped, c.shared.inDriver))
    ([], false, [1]) (by decide)
  exact ⟨c, hc, ho, queue_not_stalled hc⟩

/-- The second command comes to its end while the queue is stopped.  When the first request is
    completed and the queue started, nobody calls `request_fn`. -/
theorem queue_stalled :
    ∃ c, machine.Reachable initial c ∧
      (c.shared.queueLock, c.pool.all fun t => !t.issuing, c.shared.queueHead, c.shared.stopped,
        c.shared.called) = (false, true, [1], false, false) :=
  machine.exists_reachable_of_run
    [.start .issueCmd, .act 0 .leave, .act 0 .leave, .act 0 .leave, .act 0 .leave, .act 0 .leave,
      .act 0 .dequeue, .act 0 .stop, .act 0 .leave,
      .start .issueCmd, .act 1 .leave, .act 1 .leave, .act 1 .leave, .act 1 .leave, .act 1 .leave,
      .act 1 .leave,
      .start (.complete 0 true), .act 2 .leave, .act 2 .leave, .act 2 .leave]
    initial _ _ (by decide)

end VmkLinux.Block
