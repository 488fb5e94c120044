/-
  VmkLinux/Task/Signals.lean
  ==========================
  **Signals and sleepers** (`vmklinux26/vmware/linux_signal.c`, `linux_task.c`): one task that
  calls `schedule`, `siginitsetinv` and `flush_signals`, and any number of calls of
  `LinuxSignalSendByTask` and `wake_up_process` for it.

  The task tests for signals before it takes the lock under which it goes to sleep; a sender looks
  at the state and the flags of the task after it has dropped that lock.  What is between two
  such accesses is one step.  The place of the task in `schedule` is a part of the shared state,
  and its steps are calls that are over at once.  `vmk_WorldWaitIRQ` may return at any time: the
  source expects spurious wakeups.

  A signal that is sent after the test is missed when its sender looks at the flags before
  `LT_TASK_SUSPENDED` is set, and a signal above 32 is lost where the set is returned as an `int`.
  Elsewhere (`orderly`) no task sleeps through a signal (`no_signal_slept_through`).
-/
import VmkLinux.Interleave
import VmkLinux.Task.Sleep

namespace VmkLinux.Task.Signals

open VmkLinux.Interleave

/-! ### Data -/

/-- Where the task is. -/
inductive TaskPc where
  | out
  /-- `schedule`, before its `signal_pending`. -/
  | test
  /-- `LinuxTask_WaitEvent`: the lock, the test of the events, the flag, and the wait. -/
  | lock
  | loop
  | setSuspended
  | wait
  | blocked
  | relock
  | clearSuspended
deriving DecidableEq, Repr

structure Shared where
  pc : TaskPc
  /-- `pending.signal.sig[0]` and `blocked.sig[0]`. -/
  pending : BitVec 64
  blocked : BitVec 64
  state : TaskState
  /-- `LT_TASK_SUSPENDED` in `te->flags`. -/
  suspended : Bool
  /-- `LTE_RESUME` in `te->events`. -/
  resume : Bool
  /-- The task holds `taskLock`. -/
  taskLock : Bool
deriving DecidableEq, Repr

/-- Where a call of `LinuxSignalSendByTask` is. -/
inductive SendPc where
  | send
  | readState
  | readFlags
  | resume
  | done
deriving DecidableEq, Repr

structure Thread where
  pc : SendPc
  sig : Nat := 0
deriving DecidableEq, Repr

inductive Call where
  /-- `LinuxSignalSendByTask`. -/
  | send (sig : Nat)
  | wakeUpProcess
  /-- The calls of the task, and its next step in `schedule`. -/
  | setCurrentState (state : TaskState)
  | siginitsetinv (mask : BitVec 64)
  | flushSignals
  | schedule
  | go
deriving DecidableEq, Repr

/-! ### Signals -/

/-- The signals that are pending and not blocked. -/
def Shared.unblocked (s : Shared) : BitVec 64 := s.pending &&& ~~~s.blocked

/-- `LinuxSignalPendingInt`: the set is returned as an `int`. -/
def signalPendingInt (s : Shared) : BitVec 32 := s.unblocked.setWidth 32

/-- `signal_pending`. -/
def signalPending (s : Shared) : BitVec 32 := signalPendingInt s

def sigBit (sig : Nat) : BitVec 64 := 1#64 <<< (sig - 1)

/-- `LinuxTask_SendEvent` of `LTE_RESUME`, with `taskLock` free. -/
def sendEvent (s : Shared) : Option Shared :=
  if s.taskLock then none else some { s with resume := true }

/-- One step of the task in `schedule`. -/
def go (s : Shared) : Option Shared :=
  match s.pc with
  | .out => none
  | .test =>
      if signalPending s ≠ 0 ∧ (s.state = .interruptible ∨ s.state = .running) then
        some { s with pc := .out }
      else if s.state = .running then some { s with pc := .out }
      else some { s with pc := .lock }
  | .lock => some { s with taskLock := true, pc := .loop }
  | .loop =>
      if s.resume then
        some { s with resume := false, state := .running, taskLock := false, pc := .out }
      else some { s with pc := .setSuspended }
  | .setSuspended => some { s with suspended := true, pc := .wait }
  | .wait => some { s with taskLock := false, pc := .blocked }
  | .blocked => some { s with pc := .relock }
  | .relock => some { s with taskLock := true, pc := .clearSuspended }
  | .clearSuspended => some { s with suspended := false, pc := .loop }

/-- The task makes a call of its own, from outside `schedule`. -/
def own (s s' : Shared) : Option (Shared × Thread) :=
  if s.pc = .out then some (s', { pc := .done }) else none

def enter (_me : Nat) (call : Call) (s : Shared) : Option (Shared × Thread) :=
  match call with
  | .send sig => if 1 ≤ sig ∧ sig ≤ 64 then some (s, { pc := .send, sig := sig }) else none
  | .wakeUpProcess =>
      match sendEvent s with
      | some s' => some (s', { pc := .done })
      | none => none
  | .setCurrentState state => own s { s with state := state }
  | .siginitsetinv mask => own s { s with blocked := ~~~mask }
  | .flushSignals => own s { s with pending := 0 }
  | .schedule => own s { s with pc := .test }
  | .go =>
      match go s with
      | some s' => some (s', { pc := .done })
      | none => none

/-- One step of `LinuxSignalSendByTask`. -/
def step (_a : Unit) (s : Shared) (t : Thread) : Option (Shared × Thread) :=
  match t.pc with
  | .send =>
      if s.taskLock then none
      else
        let s' := { s with pending := s.pending ||| sigBit t.sig }
        some (s', { t with pc := if signalPendingInt s' ≠ 0 then .readState else .done })
  | .readState =>
      some (s, { t with pc := if s.state = .interruptible then .readFlags else .done })
  | .readFlags => some (s, { t with pc := if s.suspended then .resume else .done })
  | .resume =>
      match sendEvent s with
      | some s' => some (s', { t with pc := .done })
      | none => none
  | .done => none

def machine : Machine Shared Thread Call Unit := ⟨enter, step⟩

/-- A task with any mask. -/
def initial (blocked : BitVec 64) : Config Shared Thread :=
  ⟨⟨.out, 0, blocked, .running, false, false, false⟩, []⟩

/-! ### Senders in time -/

/-- The task is about to sleep, and `LT_TASK_SUSPENDED` does not say so yet. -/
def Shared.nodding (s : Shared) : Bool :=
  !s.resume && !s.suspended && decide (s.pc = .lock ∨ s.pc = .loop ∨ s.pc = .setSuspended)

/-- A signal above 32 is blocked, and stays so while it is pending; no sender of an unblocked
    signal looks at the flags while the task is about to sleep. -/
def orderly (c : Config Shared Thread) : Event Call Unit → Bool
  | .start (.siginitsetinv mask) => decide ((c.shared.pending &&& mask) >>> 32 = 0)
  | .start _ => true
  | .act i _ =>
      match c.pool[i]? with
      | some t =>
          match t.pc with
          | .send => decide (t.sig ≤ 32) || c.shared.blocked.getLsbD (t.sig - 1)
          | .readFlags => !c.shared.nodding || decide (c.shared.unblocked = 0)
          | _ => true
      | none => true

/-! ### The set as an `int` -/

/-- No signal above 32 is pending and unblocked. -/
def Shared.Low (s : Shared) : Prop := ∀ i, 32 ≤ i → s.unblocked.getLsbD i = false

theorem signalPendingInt_eq_zero {s : Shared} (hlow : s.Low) :
    signalPendingInt s = 0 ↔ s.unblocked = 0 := by
  constructor
  · intro h
    apply BitVec.eq_of_getLsbD_eq
    intro i _
    rcases Nat.lt_or_ge i 32 with hlt | hge
    · have hbit : (signalPendingInt s).getLsbD i = s.unblocked.getLsbD i := by
        simp [signalPendingInt, hlt]
      rw [← hbit, h]
      simp
    · rw [hlow i hge]
      simp
  · intro h
    rw [signalPendingInt, h]
    rfl

theorem low_send {s : Shared} {sig : Nat} (hlow : s.Low)
    (h : sig ≤ 32 ∨ s.blocked.getLsbD (sig - 1) = true) :
    ({ s with pending := s.pending ||| sigBit sig } : Shared).Low := by
  intro i hi
  have hold := hlow i hi
  simp only [Shared.unblocked, BitVec.getLsbD_and, BitVec.getLsbD_or, BitVec.getLsbD_not] at hold ⊢
  have hbit : (sigBit sig).getLsbD i = true → i = sig - 1 := by
    simp [sigBit, BitVec.getLsbD_shiftLeft, BitVec.getLsbD_one]
    omega
  cases hset : (sigBit sig).getLsbD i with
  | false => simpa [hset] using hold
  | true =>
    have heq := hbit hset
    rcases h with hle | hblocked
    · omega
    · simp [heq, hblocked]

theorem low_siginitsetinv {s : Shared} {mask : BitVec 64}
    (h : (s.pending &&& mask) >>> 32 = 0) : ({ s with blocked := ~~~mask } : Shared).Low := by
  intro i hi
  have hbit : ((s.pending &&& mask) >>> 32).getLsbD (i - 32) = false := by
    simp [h]
  rw [BitVec.getLsbD_ushiftRight, Nat.add_sub_cancel' hi] at hbit
  simpa only [Shared.unblocked, BitVec.not_not] using hbit

/-! ### The invariant -/

/-- The sender has sent an unblocked signal, and may still resume the task. -/
def Thread.promises (t : Thread) : Nat :=
  match t.pc with
  | .readState | .readFlags | .resume => 1
  | .send | .done => 0

/-- The task has found no signal, and nobody has resumed it: it sleeps, or is about to. -/
def Shared.dozes (s : Shared) : Prop :=
  s.pc ≠ .out ∧ s.pc ≠ .test ∧ s.state = .interruptible ∧ s.resume = false

structure Inv (c : Config Shared Thread) : Prop where
  low : c.shared.Low
  suspended : c.shared.pc = .wait ∨ c.shared.pc = .blocked ∨ c.shared.pc = .relock ∨
    c.shared.pc = .clearSuspended → c.shared.suspended = true
  promised : c.shared.dozes → c.shared.unblocked ≠ 0 → 0 < total Thread.promises c.pool

theorem inv_go {s s' : Shared} {pool : List Thread} (h : go s = some s') (hI : Inv ⟨s, pool⟩) :
    Inv ⟨s', pool ++ [{ pc := .done }]⟩ := by
  obtain ⟨hlow, hsuspended, hpromised⟩ := hI
  have htest := signalPendingInt_eq_zero hlow
  unfold go at h
  cases hpc : s.pc <;> simp only [hpc] at h
  all_goals repeat' split at h
  all_goals simp only [Option.some.injEq, reduceCtorEq] at h
  all_goals obtain rfl := h
  all_goals refine ⟨hlow, ?_, ?_⟩
  all_goals simp only [total_append, Thread.promises, Shared.dozes] at *
  all_goals grind -linarith [Shared.unblocked, signalPending]

/-- A task that is outside `schedule` owes nothing to a signal. -/
theorem inv_own {s s' s₁ : Shared} {t : Thread} {pool : List Thread}
    (h : own s s' = some (s₁, t)) (hlow : s'.Low) (hpc : s'.pc = s.pc ∨ s'.pc = .test) :
    Inv ⟨s₁, pool ++ [t]⟩ := by
  unfold own at h
  split at h
  · rename_i hout
    obtain ⟨rfl, rfl⟩ := Prod.mk.inj (Option.some.inj h)
    have hpc' : s'.pc = .out ∨ s'.pc = .test := hpc.imp_left fun heq => heq.trans hout
    refine ⟨hlow, fun hsleep => ?_, fun hdozes => ?_⟩
    · simp only at hsleep
      rcases hpc' with heq | heq <;> simp [heq] at hsleep
    · exact absurd hpc' (not_or.mpr ⟨hdozes.1, hdozes.2.1⟩)
  · cases h

/-- An event is no loss. -/
theorem inv_sendEvent {s s' : Shared} {pool pool' : List Thread} (h : sendEvent s = some s')
    (hI : Inv ⟨s, pool⟩) : Inv ⟨s', pool'⟩ := by
  unfold sendEvent at h
  split at h
  · cases h
  · obtain rfl := Option.some.inj h
    exact ⟨hI.low, hI.suspended, fun hdozes => by cases hdozes.2.2.2⟩

theorem inv_enter {s s' : Shared} {t : Thread} {pool : List Thread} {me : Nat} {call : Call}
    (hI : Inv ⟨s, pool⟩) (h : enter me call s = some (s', t))
    (hok : orderly ⟨s, pool⟩ (.start call) = true) : Inv ⟨s', pool ++ [t]⟩ := by
  cases call with
  | send sig =>
    simp only [enter] at h
    split at h
    · obtain ⟨rfl, rfl⟩ := Prod.mk.inj (Option.some.inj h)
      refine ⟨hI.low, hI.suspended, fun hdozes hne => ?_⟩
      rw [total_append]
      exact hI.promised hdozes hne
    · cases h
  | wakeUpProcess =>
    simp only [enter] at h
    split at h
    · rename_i s₁ hsend
      obtain ⟨rfl, rfl⟩ := Prod.mk.inj (Option.some.inj h)
      exact inv_sendEvent hsend hI
    · cases h
  | setCurrentState state => exact inv_own h hI.low (.inl rfl)
  | siginitsetinv mask =>
    simp only [orderly, decide_eq_true_eq] at hok
    exact inv_own h (low_siginitsetinv hok) (.inl rfl)
  | flushSignals =>
    refine inv_own h (fun i _ => ?_) (.inl rfl)
    simp [Shared.unblocked]
  | schedule => exact inv_own h hI.low (.inr rfl)
  | go =>
    simp only [enter] at h
    split at h
    · rename_i s₁ hgo
      obtain ⟨rfl, rfl⟩ := Prod.mk.inj (Option.some.inj h)
      exact inv_go hgo hI
    · cases h

theorem inv_step {c : Config Shared Thread} {s' : Shared} {t t' : Thread} {i : Nat} {a : Unit}
    (h : step a c.shared t = some (s', t')) (hI : Inv c) (hi : c.pool[i]? = some t)
    (hok : orderly c (.act i a) = true) : Inv ⟨s', c.pool.set i t'⟩ := by
  obtain ⟨hlow, hsuspended, hpromised⟩ := hI
  simp only [orderly, hi] at hok
  unfold step at h
  cases hpc : t.pc <;> simp only [hpc] at h hok
  case send =>
    split at h
    · cases h
    · obtain ⟨rfl, rfl⟩ := Prod.mk.inj (Option.some.inj h)
      simp only [Bool.or_eq_true, decide_eq_true_eq] at hok
      have hlow' := low_send hlow hok
      refine ⟨hlow', hsuspended, fun _ hne => ?_⟩
      have hint := mt (signalPendingInt_eq_zero hlow').mp hne
      rw [total_set _ _ hi, if_pos hint]
      exact Nat.succ_pos _
  case readState =>
    obtain ⟨rfl, rfl⟩ := Prod.mk.inj (Option.some.inj h)
    refine ⟨hlow, hsuspended, fun hdozes _ => ?_⟩
    have hstate : c.shared.state = .interruptible := hdozes.2.2.1
    rw [total_set _ _ hi, if_pos hstate]
    exact Nat.succ_pos _
  case readFlags =>
    obtain ⟨rfl, rfl⟩ := Prod.mk.inj (Option.some.inj h)
    refine ⟨hlow, hsuspended, fun hdozes hne => ?_⟩
    -- the flag is set, since the task is not about to sleep without it
    have hset : c.shared.suspended = true := by
      obtain ⟨hout, htest, -, hresume⟩ := hdozes
      by_contra hnot
      simp only [Bool.or_eq_true, Bool.not_eq_true', decide_eq_true_eq] at hok
      have hnod := hok.resolve_right hne
      cases hpc' : c.shared.pc <;> simp_all [Shared.nodding]
    rw [total_set _ _ hi, if_pos hset]
    exact Nat.succ_pos _
  case resume =>
    split at h
    · rename_i s₁ hsend
      obtain ⟨rfl, -⟩ := Prod.mk.inj (Option.some.inj h)
      exact inv_sendEvent hsend ⟨hlow, hsuspended, hpromised⟩
    · cases h
  case done => cases h

theorem inv_of_reach {blocked : BitVec 64} {c : Config Shared Thread}
    (h : machine.Reach (fun c e => orderly c e = true) (initial blocked) c) : Inv c := by
  refine Machine.Reach.invariant Inv ?_ ?_ ?_ h
  · refine ⟨fun i _ => ?_, by simp [initial], fun hdozes => absurd rfl hdozes.1⟩
    simp [initial, Shared.unblocked]
  · intro c call s' t _ hI hok hs
    replace hs : enter c.pool.length call c.shared = some (s', t) := hs
    exact inv_enter hI hs hok
  · intro c i a t s' t' _ hI hok hi hs
    exact inv_step (a := a) hs hI hi hok

/-- **No interruptible sleeper is left with a pending signal**, and `signal_pending` says whether
    there is one, where the senders are in time. -/
theorem no_signal_slept_through {blocked : BitVec 64} {c : Config Shared Thread}
    (h : machine.Reach (fun c e => orderly c e = true) (initial blocked) c) :
    (c.shared.pc = .blocked → c.shared.state = .interruptible → c.shared.resume = false →
      (∀ t ∈ c.pool, t.pc = .done) → c.shared.unblocked = 0) ∧
    (signalPending c.shared ≠ 0 ↔ c.shared.unblocked ≠ 0) := by
  obtain ⟨hlow, -, hpromised⟩ := inv_of_reach h
  refine ⟨fun hpc hstate hresume hdone => ?_, not_congr (signalPendingInt_eq_zero hlow)⟩
  by_contra hne
  have hpos := hpromised ⟨by simp [hpc], by simp [hpc], hstate, hresume⟩ hne
  have hzero : total Thread.promises c.pool = 0 :=
    total_eq_zero fun t ht => by simp [Thread.promises, hdone t ht]
  omega

/-- A signal that is sent to a sleeper wakes it; a blocked one does not. -/
theorem no_signal_slept_through_blocked :
    ∃ c, machine.Reach (fun c e => orderly c e = true) (initial (1#64 <<< 49)) c ∧
      (c.shared.pc, c.shared.pending, c.shared.resume, c.pool.map Thread.pc) =
        (.blocked, 1#64 <<< 49, false, List.replicate 21 .done) ∧
      (c.shared.pc = .blocked → c.shared.state = .interruptible → c.shared.resume = false →
        (∀ t ∈ c.pool, t.pc = .done) → c.shared.unblocked = 0) ∧
      (signalPending c.shared ≠ 0 ↔ c.shared.unblocked ≠ 0) := by
  obtain ⟨c, hc, ho⟩ := machine.exists_reach_of_runIf orderly
    [.start (.setCurrentState .interruptible), .start .schedule, .start .go, .start .go,
      .start .go, .start .go, .start .go, .start (.send 9), .act 7 (), .act 7 (), .act 7 (),
      .act 7 (), .start .go, .start .go, .start .go, .start .go, .start .flushSignals,
      .start (.setCurrentState .interruptible), .start .schedule, .start .go, .start .go,
      .start .go, .start .go, .start .go, .start (.send 50), .act 20 ()] (initial (1#64 <<< 49))
    (fun c => (c.shared.pc, c.shared.pending, c.shared.resume, c.pool.map Thread.pc))
    (.blocked, 1#64 <<< 49, false, List.replicate 21 .done) (by decide)
  exact ⟨c, hc, ho, no_signal_slept_through hc⟩

/-- A task sleeps with signal 9 pending, whose sender looked at the flags too early; and signal 40
    is pending, and `signal_pending` returns zero. -/
theorem signal_slept_through :
    (∃ c, machine.Reachable (initial 0) c ∧
      (c.shared.pc, c.shared.state, c.shared.resume, c.pool.map Thread.pc, c.shared.unblocked) =
        (.blocked, .interruptible, false, List.replicate 8 .done, 1#64 <<< 8)) ∧
    ∃ c, machine.Reachable (initial 0) c ∧
      (signalPending c.shared, c.shared.unblocked) = (0#32, 1#64 <<< 39) := by
  refine ⟨?_, ?_⟩
  · exact machine.exists_reachable_of_run
      [.start (.setCurrentState .interruptible), .start .schedule, .start .go,
        .start (.send 9), .act 3 (), .act 3 (), .act 3 (),
        .start .go, .start .go, .start .go, .start .go] (initial 0) _ _ (by decide)
  · exact machine.exists_reachable_of_run [.start (.send 40), .act 0 ()] (initial 0) _ _
      (by decide)

end VmkLinux.Task.Signals
