/-
  VmkLinux/Task/Kthread.lean
  ==========================
  **The stop handshake** (`vmklinux26/vmware/linux_kthread.c`): any number of calls of
  `kthread_create`, `kthread_stop` and `wake_up_process`, and the threads that are made.

  A thread has the name of the call that has made it; the VMkernel gives no world id twice, and
  none is zero.  The place of a thread in `kthread` is a part of the shared state, and its steps
  are calls that are over at once.  A thread sleeps in `LinuxTask_WaitEvent`, under `taskLock`: it
  tests the event and is blocked in one step, and `LinuxTask_SendEvent` sets the event and wakes it
  in one.  `vmk_WorldWaitIRQ` may also return by itself, and a signal may be pending for a thread
  that is about to sleep.  `complete` and the last turn of `wait_for_completion` are critical
  sections of the completion's lock, and one step each; how the waiter sleeps in between is in
  `VmkLinux.Completion`.

  The caller stops a thread once (`Kt.stop`), and `threadfn` returns when `kthread_should_stop` has
  returned true in it (`Kt.saw`).  All calls of `kthread_stop` share one record, with its own
  completion; `serving`, the thread for which the record is in use, is not in the source, and
  neither are `Kt.called`, `Kt.result`, `Kt.wakes` and `Kt.unheard`.  The result is
  `handshake_of_reachable`.
-/
import VmkLinux.Interleave
import VmkLinux.Errno

namespace VmkLinux.Task.Kthread

open VmkLinux.Interleave

/-! ### Data -/

/-- Where a thread is; `first` says that it sleeps in `kthread` itself, and not in `threadfn`. -/
inductive KtPc where
  | none
  /-- `LinuxStartFunc`. -/
  | storePid
  | completeCreate
  | schedule
  | waitEvent (first : Bool)
  | blocked (first : Bool)
  | firstCheck
  | threadfn
  | secondCheck
  | setErr
  | complete
  | gone
deriving DecidableEq, Repr

/-- A thread. -/
structure Kt where
  pc : KtPc
  world : Nat
  pid : Nat
  /-- `kthread_create` has returned it. -/
  created : Bool
  /-- `LTE_RESUME` in `te->events`, and `vmk_WorldWakeup` of a blocked world. -/
  resume : Bool
  woken : Bool
  ret : Int
  saw : Bool
  /-- `threadfn` was called, and what it has returned. -/
  called : Bool
  result : Option Int
  /-- The call of `kthread_stop` for it, and whether anyone has woken it: ever, and since it
      left `LinuxTask_WaitEvent` last. -/
  stop : Option Nat
  wakes : Bool
  unheard : Bool
deriving DecidableEq, Repr

/-- `kthread_stop_info` and `kthread_stop_lock`, with the threads and their `create.done`. -/
structure Shared where
  kt : Nat → Kt
  createDone : Nat → Bool
  used : List Nat
  k : Nat
  err : Int
  done : Nat
  /-- The call that holds the lock. -/
  stopLock : Option Nat
  serving : Option Nat

def Shared.setKt (s : Shared) (n : Nat) (e : Kt) : Shared :=
  { s with kt := fun m => if m = n then e else s.kt m }

inductive Pc where
  /-- `kthread_create`. -/
  | create
  | waitCreate
  | created
  /-- `kthread_stop`. -/
  | lock
  | initCompletion
  | setK
  | wake
  | wait
  | clearK
  | readErr
  | unlock
  | returned
  | done
deriving DecidableEq, Repr

structure Thread where
  pc : Pc
  me : Nat
  target : Nat := 0
  ret : Int := 0
deriving DecidableEq, Repr

/-- What a thread does next: the next statement, with a signal pending or a spurious wakeup where
    that matters; in `threadfn`, a call of `kthread_should_stop` or `schedule`, or its return. -/
inductive Move where
  | go
  | signal
  | spurious
  | shouldStop
  | sleep
  | ret (v : Int)
deriving DecidableEq, Repr

inductive Call where
  | kthreadCreate
  | kthreadStop (k : Option Nat)
  | wakeUpProcess (n : Nat)
  | move (n : Nat) (m : Move)
deriving DecidableEq, Repr

/-! ### Threads -/

/-- `kthread_should_stop` in thread `n`. -/
def shouldStop (s : Shared) (n : Nat) : Bool := decide (s.k = (s.kt n).pid)

/-- `LinuxTask_SendEvent` of `LTE_RESUME`. -/
def sendEvent (e : Kt) : Kt :=
  { e with
    resume := true
    woken := match e.pc with
      | .blocked _ => true
      | _ => e.woken }

/-- `wake_up_process`. -/
def wakeUpProcess (e : Kt) : Kt := { sendEvent e with wakes := true, unheard := true }

/-- One step of a thread. -/
def move (s : Shared) (n : Nat) (m : Move) : Option Shared :=
  let e := s.kt n
  match e.pc, m with
  | .storePid, .go => some (s.setKt n { e with pid := e.world, pc := .completeCreate })
  | .completeCreate, .go =>
      some { s.setKt n { e with pc := .schedule } with
        createDone := fun m => if m = n then true else s.createDone m }
  | .schedule, .go => some (s.setKt n { e with pc := .waitEvent true })
  | .schedule, .signal => some (s.setKt n { e with pc := .firstCheck })
  | .waitEvent first, .go =>
      if e.resume then
        some (s.setKt n { e with
          resume := false
          unheard := false
          pc := if first then .firstCheck else .threadfn })
      else some (s.setKt n { e with woken := false, pc := .blocked first })
  | .blocked first, .go =>
      if e.woken then some (s.setKt n { e with pc := .waitEvent first }) else none
  | .blocked first, .spurious => some (s.setKt n { e with pc := .waitEvent first })
  | .firstCheck, .go =>
      if shouldStop s n then some (s.setKt n { e with pc := .secondCheck })
      else some (s.setKt n { e with called := true, pc := .threadfn })
  | .threadfn, .shouldStop => some (s.setKt n { e with saw := e.saw || shouldStop s n })
  | .threadfn, .sleep => some (s.setKt n { e with pc := .waitEvent false })
  | .threadfn, .ret v =>
      if e.saw then some (s.setKt n { e with ret := v, result := some v, pc := .secondCheck })
      else none
  | .secondCheck, .go =>
      if shouldStop s n then some (s.setKt n { e with pc := .setErr })
      else some (s.setKt n { e with pc := .gone })
  | .setErr, .go => some { s.setKt n { e with pc := .complete } with err := e.ret }
  | .complete, .go => some { s.setKt n { e with pc := .gone } with done := s.done + 1 }
  | _, _ => none

/-! ### Calls -/

def enter (me : Nat) (call : Call) (s : Shared) : Option (Shared × Thread) :=
  match call with
  | .kthreadCreate => some (s, { pc := .create, me := me, target := me })
  | .kthreadStop none => some (s, { pc := .done, me := me, ret := -einval })
  | .kthreadStop (some n) =>
      if (s.kt n).created = true ∧ (s.kt n).stop = none then
        some (s.setKt n { s.kt n with stop := some me }, { pc := .lock, me := me, target := n })
      else none
  | .wakeUpProcess n =>
      if (s.kt n).created = true then
        some (s.setKt n (wakeUpProcess (s.kt n)), { pc := .done, me := me })
      else none
  | .move n m =>
      match move s n m with
      | some s' => some (s', { pc := .done, me := me })
      | none => none

/-- A new thread: `ret` is `-EINTR` in `kthread`. -/
def newKt (world : Nat) : Kt :=
  ⟨.storePid, world, 0, false, false, false, -eintr, false, false, none, none, false, false⟩

/-- `a` is the id of the new world. -/
def step (a : Nat) (s : Shared) (t : Thread) : Option (Shared × Thread) :=
  match t.pc with
  | .create =>
      if a ≠ 0 ∧ a ∉ s.used then
        some ({ s.setKt t.target (newKt a) with used := a :: s.used }, { t with pc := .waitCreate })
      else none
  | .waitCreate =>
      if s.createDone t.target then
        some (s.setKt t.target { s.kt t.target with created := true }, { t with pc := .created })
      else none
  | .created => none
  | .lock =>
      match s.stopLock with
      | some _ => none
      | none => some ({ s with stopLock := some t.me }, { t with pc := .initCompletion })
  | .initCompletion => some ({ s with done := 0 }, { t with pc := .setK })
  | .setK =>
      some ({ s with k := (s.kt t.target).pid, serving := some t.target }, { t with pc := .wake })
  | .wake => some (s.setKt t.target (wakeUpProcess (s.kt t.target)), { t with pc := .wait })
  | .wait =>
      if s.done = 0 then none else some ({ s with done := s.done - 1 }, { t with pc := .clearK })
  | .clearK => some ({ s with k := 0, serving := none }, { t with pc := .readErr })
  | .readErr => some (s, { t with ret := s.err, pc := .unlock })
  | .unlock => some ({ s with stopLock := none }, { t with pc := .returned })
  | .returned => none
  | .done => none

def machine : Machine Shared Thread Call Nat := ⟨enter, step⟩

def initial : Config Shared Thread :=
  ⟨⟨fun _ => { newKt 0 with pc := .none }, fun _ => false, [], 0, 0, 0, none, none⟩, []⟩

/-! ### The invariant -/

/-- The thread has not come back from its first `schedule`. -/
def KtPc.starting : KtPc → Bool
  | .none | .storePid | .completeCreate | .schedule => true
  | .waitEvent first | .blocked first => first
  | _ => false

/-- The thread is about to answer. -/
def KtPc.ending : KtPc → Bool
  | .secondCheck | .setErr | .complete => true
  | _ => false

/-- A thread has its world, and its pid once it has started. -/
structure Kt.Born (s : Shared) (n : Nat) (e : Kt) : Prop where
  unborn : e.pc = .none ∨ e.pc = .storePid → e.pid = 0
  stored : e.pc ≠ .none → e.pc ≠ .storePid → e.pid = e.world
  world : e.pc ≠ .none → e.world ≠ 0 ∧ e.world ∈ s.used
  created : s.createDone n = true ∨ e.created = true →
    e.pc ≠ .none ∧ e.pc ≠ .storePid ∧ e.pc ≠ .completeCreate

/-- A thread that knows of its stop is being stopped, and its answer is what `threadfn` has
    returned. -/
structure Kt.Ends (s : Shared) (n : Nat) (e : Kt) : Prop where
  early : e.pc.starting = true ∨ e.pc = .firstCheck →
    e.called = false ∧ e.ret = -eintr ∧ e.saw = false
  known : e.saw = true → e.pc ≠ .gone → s.serving = some n
  ending : e.pc.ending = true → s.serving = some n
  outcome : e.pc.ending = true ∨ e.pc = .gone →
    e.called = false ∧ e.ret = -eintr ∨ e.result = some e.ret
  err : e.pc = .complete → s.err = e.ret
  unstopped : e.stop = none → s.serving ≠ some n ∧ e.pc ≠ .gone

/-- Nobody's event is lost. -/
structure Kt.Hears (e : Kt) : Prop where
  first : e.wakes = true → e.pc.starting = true → e.unheard = true
  heard : e.unheard = true → e.resume = true
  awake : ∀ first, e.pc = .blocked first → e.resume = true → e.woken = true

/-- The record names the thread that it is in use for, and has its answer when the thread is
    gone. -/
structure Record (s : Shared) : Prop where
  free : s.stopLock = none → s.serving = none
  idle : s.serving = none → s.k = 0
  busy : ∀ n, s.serving = some n → s.k = (s.kt n).pid ∧ (s.kt n).created = true
  waiting : ∀ n, s.serving = some n → (s.kt n).pc ≠ .gone → s.done = 0
  answered : ∀ n, s.serving = some n → (s.kt n).pc = .gone → s.err = (s.kt n).ret
  distinct : ∀ m n, (s.kt m).pc ≠ .none → (s.kt n).pc ≠ .none →
    (s.kt m).world = (s.kt n).world → m = n

/-- The call is the one that stops its thread. -/
structure Thread.Stops (s : Shared) (i : Nat) (t : Thread) : Prop where
  stop : (s.kt t.target).stop = some i
  created : (s.kt t.target).created = true

/-- What a call knows. -/
def Thread.Fits (s : Shared) (i : Nat) (t : Thread) : Prop :=
  t.me = i ∧
  match t.pc with
  | .create => t.target = i ∧ (s.kt i).pc = .none ∧ s.createDone i = false
  | .waitCreate | .created | .done => True
  | .lock => t.Stops s i ∧ s.serving ≠ some t.target ∧ (s.kt t.target).pc ≠ .gone
  | .initCompletion =>
      t.Stops s i ∧ s.stopLock = some i ∧ s.serving = none ∧ (s.kt t.target).pc ≠ .gone
  | .setK =>
      t.Stops s i ∧ s.stopLock = some i ∧ s.serving = none ∧ (s.kt t.target).pc ≠ .gone ∧ s.done = 0
  | .wake => t.Stops s i ∧ s.stopLock = some i ∧ s.serving = some t.target
  | .wait =>
      t.Stops s i ∧ s.stopLock = some i ∧ s.serving = some t.target ∧
        (s.kt t.target).wakes = true
  | .clearK =>
      t.Stops s i ∧ s.stopLock = some i ∧ s.serving = some t.target ∧ (s.kt t.target).pc = .gone
  | .readErr =>
      t.Stops s i ∧ s.stopLock = some i ∧ s.serving = none ∧ (s.kt t.target).pc = .gone ∧
        s.err = (s.kt t.target).ret
  | .unlock =>
      s.stopLock = some i ∧ s.serving = none ∧ (s.kt t.target).pc = .gone ∧
        t.ret = (s.kt t.target).ret
  | .returned => (s.kt t.target).pc = .gone ∧ t.ret = (s.kt t.target).ret

structure Inv (c : Config Shared Thread) : Prop where
  born : ∀ n, (c.shared.kt n).Born c.shared n
  ends : ∀ n, (c.shared.kt n).Ends c.shared n
  hears : ∀ n, (c.shared.kt n).Hears
  record : Record c.shared
  new : ∀ n, c.pool.length ≤ n → (c.shared.kt n).pc = .none ∧ c.shared.createDone n = false
  calls : Each (fun i t => t.Fits c.shared i) c.pool
  served : ∀ n, c.shared.serving = some n → ∃ (i : Nat) (t : Thread), c.pool[i]? = some t ∧
    t.target = n ∧ (t.pc = .wake ∨ t.pc = .wait ∨ t.pc = .clearK)

section Moves

variable {s s' : Shared} {n : Nat} {m : Move}

/-- `kthread_should_stop` is true in the thread that the record is in use for. -/
theorem serving_of_shouldStop (hborn : ∀ n, (s.kt n).Born s n) (hrec : Record s)
    (hpc : (s.kt n).pc ≠ .none) (hpid : (s.kt n).pc ≠ .storePid) (h : shouldStop s n = true) :
    s.serving = some n := by
  simp only [shouldStop, decide_eq_true_eq] at h
  have hn := (hborn n).stored hpc hpid
  have hworld := (hborn n).world hpc
  cases hserving : s.serving with
  | none =>
    have hk := hrec.idle hserving
    exact absurd (hn ▸ h ▸ hk) hworld.1
  | some m =>
    obtain ⟨hk, hcreated⟩ := hrec.busy m hserving
    have hm := (hborn m).created (.inr hcreated)
    have hstored := (hborn m).stored hm.1 hm.2.1
    have heq : (s.kt m).world = (s.kt n).world := by
      rw [← hstored, ← hk, h, hn]
    rw [hrec.distinct m n hm.1 hpc heq]

theorem shouldStop_of_serving (hrec : Record s) (h : s.serving = some n) :
    shouldStop s n = true := by
  simp only [shouldStop, decide_eq_true_eq]
  exact (hrec.busy n h).1

/-- What a step of a thread does to the rest. -/
theorem move_frame (h : move s n m = some s') :
    (∀ j, j ≠ n → s'.kt j = s.kt j) ∧ s'.used = s.used ∧ s'.k = s.k ∧
      s'.stopLock = s.stopLock ∧ s'.serving = s.serving ∧
      (∀ j, s'.createDone j = true → s.createDone j = true ∨
        j = n ∧ (s.kt n).pc = .completeCreate) ∧
      (s'.err = s.err ∨ (s.kt n).pc = .setErr ∧ s'.err = (s.kt n).ret) ∧
      (s'.done = s.done ∨ (s.kt n).pc = .complete ∧ (s'.kt n).pc = .gone) := by
  unfold move at h
  cases hpc : (s.kt n).pc <;> cases m <;> simp only [hpc, reduceCtorEq] at h
  all_goals repeat' split at h
  all_goals simp only [Option.some.injEq, reduceCtorEq] at h
  all_goals obtain rfl := h
  all_goals simp only [Shared.setKt]
  all_goals grind -linarith

/-- What a step of a thread does to the thread. -/
theorem move_self (h : move s n m = some s') :
    (s'.kt n).world = (s.kt n).world ∧ (s'.kt n).created = (s.kt n).created ∧
      (s'.kt n).stop = (s.kt n).stop ∧ (s'.kt n).wakes = (s.kt n).wakes ∧
      (s.kt n).pc ≠ .none ∧ (s.kt n).pc ≠ .gone ∧ (s'.kt n).pc ≠ .none ∧
      ((s'.kt n).pc = .gone → (s.kt n).pc = .complete ∧ s'.err = s.err ∧
          (s'.kt n).ret = (s.kt n).ret ∨
        (s.kt n).pc = .secondCheck ∧ shouldStop s n = false) := by
  unfold move at h
  cases hpc : (s.kt n).pc <;> cases m <;> simp only [hpc, reduceCtorEq] at h
  all_goals repeat' split at h
  all_goals simp only [Option.some.injEq, reduceCtorEq] at h
  all_goals obtain rfl := h
  all_goals simp only [Shared.setKt, if_true]
  all_goals grind -linarith

theorem move_born (h : move s n m = some s') (hn : (s.kt n).Born s n) : (s'.kt n).Born s' n := by
  obtain ⟨hunborn, hstored, hworld, hcreated⟩ := hn
  unfold move at h
  cases hpc : (s.kt n).pc <;> cases m <;> simp only [hpc, reduceCtorEq] at h
  all_goals repeat' split at h
  all_goals simp only [Option.some.injEq, reduceCtorEq] at h
  all_goals obtain rfl := h
  all_goals simp only [Shared.setKt, if_true]
  all_goals constructor
  all_goals grind -linarith

theorem move_hears (h : move s n m = some s') (hn : (s.kt n).Hears) : (s'.kt n).Hears := by
  obtain ⟨hfirst, hheard, hawake⟩ := hn
  unfold move at h
  cases hpc : (s.kt n).pc <;> cases m <;> simp only [hpc, reduceCtorEq] at h
  all_goals repeat' split at h
  all_goals simp only [Option.some.injEq, reduceCtorEq] at h
  all_goals obtain rfl := h
  all_goals simp only [Shared.setKt, if_true]
  all_goals constructor
  all_goals grind -linarith [KtPc.starting]

theorem move_ends (h : move s n m = some s') (hn : (s.kt n).Ends s n)
    (hstop : (s.kt n).pc ≠ .none → (s.kt n).pc ≠ .storePid → shouldStop s n = true →
      s.serving = some n)
    (hserve : s.serving = some n → shouldStop s n = true) : (s'.kt n).Ends s' n := by
  obtain ⟨hearly, hknown, hending, houtcome, herr, hunstopped⟩ := hn
  unfold move at h
  cases hpc : (s.kt n).pc <;> cases m <;> simp only [hpc, reduceCtorEq] at h
  all_goals repeat' split at h
  all_goals simp only [Option.some.injEq, reduceCtorEq] at h
  all_goals obtain rfl := h
  all_goals simp only [Shared.setKt, if_true]
  all_goals constructor
  all_goals grind -linarith [KtPc.starting, KtPc.ending]

theorem move_record (h : move s n m = some s') (hborn : ∀ n, (s.kt n).Born s n)
    (hends : ∀ n, (s.kt n).Ends s n) (hrec : Record s) : Record s' := by
  obtain ⟨hkt, -, hk, hlock, hserving, -, herr, hdone⟩ := move_frame h
  obtain ⟨hworld, hcreated, -, -, hnone, hgone, hnone', hgone'⟩ := move_self h
  have hborn' := move_born h (hborn n)
  have hself : (s.kt n).pc.ending = true → ∀ j, s.serving = some j → j = n := by
    intro hend j hj
    exact Option.some.inj (hj.symm.trans ((hends n).ending hend))
  refine ⟨?_, ?_, ?_, ?_, ?_, ?_⟩
  · rw [hlock, hserving]
    exact hrec.free
  · rw [hserving, hk]
    exact hrec.idle
  · intro j hj
    rw [hserving] at hj
    obtain ⟨hkj, hcj⟩ := hrec.busy j hj
    by_cases hjn : j = n
    · subst hjn
      have hpc := (hborn j).created (.inr hcj)
      have hpc' := hborn'.created (.inr (hcreated.trans hcj))
      have hpid := (hborn j).stored hpc.1 hpc.2.1
      have hpid' := hborn'.stored hpc'.1 hpc'.2.1
      exact ⟨by rw [hk, hkj, hpid, hpid', hworld], hcreated.trans hcj⟩
    · rw [hkt j hjn, hk]
      exact ⟨hkj, hcj⟩
  · intro j hj hpc
    rw [hserving] at hj
    rcases hdone with hsame | ⟨hcomplete, hgo⟩
    · rw [hsame]
      by_cases hjn : j = n
      · subst hjn
        exact hrec.waiting j hj hgone
      · rw [hkt j hjn] at hpc
        exact hrec.waiting j hj hpc
    · obtain rfl := hself (by rw [hcomplete]; rfl) j hj
      exact absurd hgo hpc
  · intro j hj hpc
    rw [hserving] at hj
    by_cases hjn : j = n
    · subst hjn
      rcases hgone' hpc with ⟨hcomplete, hsame, hret⟩ | ⟨-, hfalse⟩
      · rw [hsame, hret]
        exact (hends j).err hcomplete
      · rw [shouldStop_of_serving hrec hj] at hfalse
        cases hfalse
    · rcases herr with hsame | ⟨hset, -⟩
      · rw [hkt j hjn] at hpc ⊢
        rw [hsame]
        exact hrec.answered j hj hpc
      · exact absurd (hself (by rw [hset]; rfl) j hj) hjn
  · have hkeep : ∀ j, (s'.kt j).pc ≠ .none → (s.kt j).pc ≠ .none ∧
        (s'.kt j).world = (s.kt j).world := by
      intro j hj
      by_cases hjn : j = n
      · subst hjn
        exact ⟨hnone, hworld⟩
      · rw [hkt j hjn] at hj ⊢
        exact ⟨hj, rfl⟩
    intro i j hi hj heq
    obtain ⟨hi', hwi⟩ := hkeep i hi
    obtain ⟨hj', hwj⟩ := hkeep j hj
    exact hrec.distinct i j hi' hj' (by rw [← hwi, ← hwj, heq])

/-- The other threads are as they were. -/
theorem move_other (h : move s n m = some s') (hends : ∀ n, (s.kt n).Ends s n) {j : Nat}
    (hjn : j ≠ n) (hborn : (s.kt j).Born s j) :
    (s'.kt j).Born s' j ∧ (s'.kt j).Ends s' j := by
  obtain ⟨hkt, hused, -, -, hserving, hdone, herr, -⟩ := move_frame h
  have hj := hends j
  rw [hkt j hjn]
  constructor
  · refine ⟨hborn.unborn, hborn.stored, hused ▸ hborn.world, fun hc => hborn.created ?_⟩
    exact hc.imp_left fun hd => (hdone j hd).resolve_right fun hn => hjn hn.1
  · refine ⟨hj.early, hserving ▸ hj.known, hserving ▸ hj.ending, hj.outcome, fun hpc => ?_,
      hserving ▸ hj.unstopped⟩
    rcases herr with hsame | ⟨hset, -⟩
    · rw [hsame]
      exact hj.err hpc
    · -- both would have the record
      have hjs := hj.ending (by rw [hpc]; rfl)
      have hns := (hends n).ending (by rw [hset]; rfl)
      exact absurd (Option.some.inj (hjs.symm.trans hns)) hjn

/-- A call keeps what it knows while a thread moves. -/
theorem Fits.move {t : Thread} {i : Nat} (h : move s n m = some s') (ht : t.Fits s i)
    (hends : (s.kt n).Ends s n) : t.Fits s' i := by
  obtain ⟨hkt, -, -, hlock, hserving, hdone, herr, hcount⟩ := move_frame h
  obtain ⟨-, hcreated, hstop, hwakes, hnone, hgone, -, hgone'⟩ := move_self h
  have hstops : t.Stops s i → t.Stops s' i := by
    rintro ⟨hstop', hcreated'⟩
    by_cases htn : t.target = n
    · rw [htn] at hstop' hcreated'
      exact ⟨by rw [htn, hstop, hstop'], by rw [htn, hcreated, hcreated']⟩
    · exact ⟨by rw [hkt _ htn, hstop'], by rw [hkt _ htn, hcreated']⟩
  have hgoes : (s'.kt n).pc = .gone → s.serving = some n := by
    intro hpc
    rcases hgone' hpc with ⟨hcomplete, -⟩ | ⟨hsecond, -⟩
    · exact hends.ending (by rw [hcomplete]; rfl)
    · exact hends.ending (by rw [hsecond]; rfl)
  have hstays : s.serving ≠ some t.target → (s.kt t.target).pc ≠ .gone →
      (s'.kt t.target).pc ≠ .gone := by
    intro hother hpc
    by_cases htn : t.target = n
    · rw [htn] at hother ⊢
      exact fun hpc' => hother (hgoes hpc')
    · rw [hkt _ htn]
      exact hpc
  have hdead : (s.kt t.target).pc = .gone → s'.kt t.target = s.kt t.target := by
    intro hpc
    exact hkt _ fun htn => hgone (htn ▸ hpc)
  have hidle : s.serving = none → s'.err = s.err ∧ s'.done = s.done := by
    intro hnot
    have hend : (s.kt n).pc.ending ≠ true := by
      intro hend
      rw [hends.ending hend] at hnot
      cases hnot
    refine ⟨herr.resolve_right fun hset => hend ?_, hcount.resolve_right fun hset => hend ?_⟩
    · rw [hset.1]
      rfl
    · rw [hset.1]
      rfl
  obtain ⟨hme, hpc⟩ := ht
  refine ⟨hme, ?_⟩
  rw [hserving, hlock]
  cases hcase : t.pc <;> simp only [hcase] at hpc ⊢
  case create =>
    have hin : i ≠ n := fun heq => hnone (heq ▸ hpc.2.1)
    refine ⟨hpc.1, by rw [hkt i hin, hpc.2.1], ?_⟩
    by_contra htrue
    rw [Bool.not_eq_false] at htrue
    rcases hdone i htrue with hd | ⟨heq, -⟩
    · rw [hpc.2.2] at hd
      cases hd
    · exact hin heq
  case lock => exact ⟨hstops hpc.1, hpc.2.1, hstays hpc.2.1 hpc.2.2⟩
  case initCompletion =>
    exact ⟨hstops hpc.1, hpc.2.1, hpc.2.2.1, hstays (by simp [hpc.2.2.1]) hpc.2.2.2⟩
  case setK =>
    obtain ⟨hs, hl, hv, hg, hd⟩ := hpc
    exact ⟨hstops hs, hl, hv, hstays (by simp [hv]) hg, (hidle hv).2.trans hd⟩
  case wake => exact ⟨hstops hpc.1, hpc.2⟩
  case wait =>
    obtain ⟨hs, hl, hv, hw⟩ := hpc
    refine ⟨hstops hs, hl, hv, ?_⟩
    by_cases htn : t.target = n
    · rw [htn] at hw ⊢
      exact hwakes.trans hw
    · rw [hkt _ htn, hw]
  case clearK =>
    obtain ⟨hs, hl, hv, hg⟩ := hpc
    exact ⟨hstops hs, hl, hv, by rw [hdead hg, hg]⟩
  case readErr =>
    obtain ⟨hs, hl, hv, hg, he⟩ := hpc
    exact ⟨hstops hs, hl, hv, by rw [hdead hg, hg], by rw [(hidle hv).1, he, hdead hg]⟩
  case unlock =>
    obtain ⟨hl, hv, hg, hr⟩ := hpc
    exact ⟨hl, hv, by rw [hdead hg, hg], by rw [hdead hg, hr]⟩
  case returned => exact ⟨by rw [hdead hpc.1, hpc.1], by rw [hdead hpc.1, hpc.2]⟩

end Moves

/-! ### Events and stops -/

/-- The thread is where it was: it has got an event, or a call to stop it. -/
structure Kt.Alike (e e' : Kt) : Prop where
  pc : e'.pc = e.pc
  world : e'.world = e.world
  pid : e'.pid = e.pid
  created : e'.created = e.created
  ret : e'.ret = e.ret
  saw : e'.saw = e.saw
  called : e'.called = e.called
  result : e'.result = e.result
  stop : e'.stop = e.stop ∨ e.stop = none ∧ e'.stop ≠ none
  wakes : e.wakes = true → e'.wakes = true

section Alike

variable {s : Shared} {n : Nat} {e : Kt}

theorem alike_refl (e : Kt) : e.Alike e :=
  ⟨rfl, rfl, rfl, rfl, rfl, rfl, rfl, rfl, .inl rfl, id⟩

theorem alike_setKt (h : (s.kt n).Alike e) (j : Nat) : (s.kt j).Alike ((s.setKt n e).kt j) := by
  simp only [Shared.setKt]
  split
  · rename_i heq
    subst heq
    exact h
  · exact alike_refl _

theorem Born.alike (h : (s.kt n).Alike e) {j : Nat} (hj : (s.kt j).Born s j) :
    ((s.setKt n e).kt j).Born (s.setKt n e) j := by
  obtain ⟨hpc, hworld, hpid, hcreated, -⟩ := alike_setKt h j
  obtain ⟨h1, h2, h3, h4⟩ := hj
  refine ⟨?_, ?_, ?_, ?_⟩ <;> rw [hpc]
  · rw [hpid]
    exact h1
  · rw [hpid, hworld]
    exact h2
  · rw [hworld]
    exact h3
  · rw [hcreated]
    exact h4

theorem Ends.alike (h : (s.kt n).Alike e) {j : Nat} (hj : (s.kt j).Ends s j) :
    ((s.setKt n e).kt j).Ends (s.setKt n e) j := by
  obtain ⟨hpc, -, -, -, hret, hsaw, hcalled, hresult, hstop, -⟩ := alike_setKt h j
  obtain ⟨h1, h2, h3, h4, h5, h6⟩ := hj
  refine ⟨?_, ?_, ?_, ?_, ?_, fun hnone => ?_⟩ <;> rw [hpc]
  · rw [hcalled, hret, hsaw]
    exact h1
  · rw [hsaw]
    exact h2
  · exact h3
  · rw [hcalled, hret, hresult]
    exact h4
  · rw [hret]
    exact h5
  · rcases hstop with hsame | ⟨-, hnot⟩
    · exact h6 (hsame.symm.trans hnone)
    · exact absurd hnone hnot

theorem Record.alike (h : (s.kt n).Alike e) (hrec : Record s) : Record (s.setKt n e) := by
  have hkt := alike_setKt h
  obtain ⟨h1, h2, h3, h4, h5, h6⟩ := hrec
  refine ⟨h1, h2, fun j hj => ?_, fun j hj => ?_, fun j hj => ?_, fun i j => ?_⟩
  · rw [(hkt j).pid, (hkt j).created]
    exact h3 j hj
  · rw [(hkt j).pc]
    exact h4 j hj
  · rw [(hkt j).pc, (hkt j).ret]
    exact h5 j hj
  · rw [(hkt i).pc, (hkt j).pc, (hkt i).world, (hkt j).world]
    exact h6 i j

theorem Fits.alike {t : Thread} {i : Nat} (h : (s.kt n).Alike e) (ht : t.Fits s i) :
    t.Fits (s.setKt n e) i := by
  have hkt := alike_setKt h
  have hstops : t.Stops s i → t.Stops (s.setKt n e) i := by
    rintro ⟨hstop, hcreated⟩
    refine ⟨?_, (hkt _).created.trans hcreated⟩
    rcases (hkt t.target).stop with hsame | ⟨hnone, -⟩
    · exact hsame.trans hstop
    · rw [hnone] at hstop
      cases hstop
  obtain ⟨hme, hpc⟩ := ht
  refine ⟨hme, ?_⟩
  rw [(hkt i).pc, (hkt t.target).pc, (hkt t.target).ret]
  cases hcase : t.pc <;> simp only [hcase] at hpc ⊢
  case create | unlock | returned => exact hpc
  case lock | initCompletion | setK | wake | clearK | readErr => exact ⟨hstops hpc.1, hpc.2⟩
  case wait => exact ⟨hstops hpc.1, hpc.2.1, hpc.2.2.1, (hkt t.target).wakes hpc.2.2.2⟩

end Alike

/-! ### Whole runs -/

/-- A call starts. -/
theorem inv_start {c : Config Shared Thread} {s' : Shared} {t : Thread} (hI : Inv c)
    (hborn : ∀ n, (s'.kt n).Born s' n) (hends : ∀ n, (s'.kt n).Ends s' n)
    (hhears : ∀ n, (s'.kt n).Hears) (hrecord : Record s')
    (hnew : ∀ n, c.pool.length < n → (s'.kt n).pc = .none ∧ s'.createDone n = false)
    (hcalls : ∀ (i : Nat) (u : Thread), c.pool[i]? = some u → u.Fits c.shared i → u.Fits s' i)
    (ht : t.Fits s' c.pool.length) (hserving : s'.serving = c.shared.serving) :
    Inv ⟨s', c.pool ++ [t]⟩ := by
  refine ⟨hborn, hends, hhears, hrecord, fun n hn => hnew n ?_, hI.calls.append hcalls ht, ?_⟩
  · simp only [List.length_append, List.length_singleton] at hn
    omega
  · intro n hn
    obtain ⟨i, u, hi, hu⟩ := hI.served n (hserving.symm.trans hn)
    exact ⟨i, u, List.getElem?_append_left (List.getElem?_eq_some_iff.mp hi).1 ▸ hi, hu⟩

/-- An event or a stop comes. -/
theorem inv_alike {c : Config Shared Thread} {n : Nat} {e : Kt} {t : Thread} (hI : Inv c)
    (h : (c.shared.kt n).Alike e) (hhears : e.Hears)
    (ht : t.Fits (c.shared.setKt n e) c.pool.length) :
    Inv ⟨c.shared.setKt n e, c.pool ++ [t]⟩ := by
  refine inv_start hI (fun j => Born.alike h (hI.born j)) (fun j => Ends.alike h (hI.ends j))
    (fun j => ?_) (Record.alike h hI.record) (fun j hj => ?_)
    (fun i u _ hu => Fits.alike h hu) ht rfl
  · simp only [Shared.setKt]
    split
    · exact hhears
    · exact hI.hears j
  · rw [(alike_setKt h j).pc]
    exact hI.new j (by omega)

theorem wakeUpProcess_alike (e : Kt) : e.Alike (wakeUpProcess e) :=
  ⟨rfl, rfl, rfl, rfl, rfl, rfl, rfl, rfl, .inl rfl, fun _ => rfl⟩

theorem wakeUpProcess_hears (e : Kt) : (wakeUpProcess e).Hears := by
  refine ⟨fun _ _ => rfl, fun _ => rfl, fun first hpc _ => ?_⟩
  replace hpc : e.pc = .blocked first := hpc
  simp [wakeUpProcess, sendEvent, hpc]

theorem inv_enter {c : Config Shared Thread} {s' : Shared} {t : Thread} {call : Call}
    (hI : Inv c) (h : enter c.pool.length call c.shared = some (s', t)) :
    Inv ⟨s', c.pool ++ [t]⟩ := by
  obtain ⟨hnone, hfalse⟩ := hI.new c.pool.length (Nat.le_refl _)
  cases call with
  | kthreadCreate =>
    obtain ⟨rfl, rfl⟩ := Prod.mk.inj (Option.some.inj h)
    exact inv_start hI hI.born hI.ends hI.hears hI.record (fun n hn => hI.new n (by omega))
      (fun _ _ _ hu => hu) ⟨rfl, rfl, hnone, hfalse⟩ rfl
  | kthreadStop k =>
    cases k with
    | none =>
      obtain ⟨rfl, rfl⟩ := Prod.mk.inj (Option.some.inj h)
      exact inv_start hI hI.born hI.ends hI.hears hI.record (fun n hn => hI.new n (by omega))
        (fun _ _ _ hu => hu) ⟨rfl, trivial⟩ rfl
    | some n =>
      simp only [enter] at h
      split at h
      · rename_i hguard
        obtain ⟨hcreated, hstop⟩ := hguard
        obtain ⟨rfl, rfl⟩ := Prod.mk.inj (Option.some.inj h)
        obtain ⟨hother, hgone⟩ := (hI.ends n).unstopped hstop
        have hhears := hI.hears n
        refine inv_alike hI ⟨rfl, rfl, rfl, rfl, rfl, rfl, rfl, rfl, .inr ⟨hstop, by simp⟩, id⟩
          ⟨hhears.first, hhears.heard, hhears.awake⟩ ⟨rfl, ⟨?_, ?_⟩, hother, ?_⟩
        · simp [Shared.setKt]
        · simpa [Shared.setKt] using hcreated
        · simpa [Shared.setKt] using hgone
      · cases h
  | wakeUpProcess n =>
    simp only [enter] at h
    split at h
    · obtain ⟨rfl, rfl⟩ := Prod.mk.inj (Option.some.inj h)
      exact inv_alike hI (wakeUpProcess_alike _) (wakeUpProcess_hears _) ⟨rfl, trivial⟩
    · cases h
  | move n m =>
    simp only [enter] at h
    split at h
    · rename_i s₁ hmove
      obtain ⟨rfl, rfl⟩ := Prod.mk.inj (Option.some.inj h)
      obtain ⟨hkt, -, -, -, hserving, hdone, -⟩ := move_frame hmove
      have hstop := @serving_of_shouldStop c.shared n hI.born hI.record
      have hserve := @shouldStop_of_serving c.shared n hI.record
      have hother := fun j (hjn : j ≠ n) => move_other hmove hI.ends hjn (hI.born j)
      refine inv_start hI (fun j => ?_) (fun j => ?_) (fun j => ?_)
        (move_record hmove hI.born hI.ends hI.record) (fun j hj => ?_)
        (fun i u _ hu => Fits.move hmove hu (hI.ends n)) ⟨rfl, trivial⟩ hserving
      · by_cases hjn : j = n
        · exact hjn ▸ move_born hmove (hI.born n)
        · exact (hother j hjn).1
      · by_cases hjn : j = n
        · exact hjn ▸ move_ends hmove (hI.ends n) hstop hserve
        · exact (hother j hjn).2
      · by_cases hjn : j = n
        · exact hjn ▸ move_hears hmove (hI.hears n)
        · rw [hkt j hjn]
          exact hI.hears j
      · obtain ⟨hnone, hfalse⟩ := hI.new j (by omega)
        have hjn : j ≠ n := fun heq => (move_self hmove).2.2.2.2.1 (heq ▸ hnone)
        refine ⟨by rw [hkt j hjn, hnone], ?_⟩
        by_contra htrue
        rw [Bool.not_eq_false] at htrue
        rcases hdone j htrue with hd | ⟨heq, -⟩
        · rw [hfalse] at hd
          cases hd
        · exact hjn heq
    · cases h

/-- A call that does not hold the lock keeps what it knows while the record changes. -/
theorem Fits.outside {s s' : Shared} {u : Thread} {j : Nat} (hu : u.Fits s j)
    (hnot : s.stopLock ≠ some j) (hkt : s'.kt = s.kt) (hcreate : s'.createDone = s.createDone)
    (hserving : ∀ n, s'.serving = some n → s.serving = some n ∨ (s.kt n).stop ≠ some j) :
    u.Fits s' j := by
  obtain ⟨hme, hpc⟩ := hu
  refine ⟨hme, ?_⟩
  rw [hkt, hcreate]
  cases hcase : u.pc <;> simp only [hcase] at hpc ⊢
  case create | returned => exact hpc
  case lock =>
    obtain ⟨⟨hstop, hcreated⟩, hother, hgone⟩ := hpc
    refine ⟨⟨hkt ▸ hstop, hkt ▸ hcreated⟩, fun hs => ?_, hgone⟩
    rcases hserving _ hs with hold | hne
    · exact hother hold
    · exact hne hstop
  case initCompletion | setK | wake | wait | clearK | readErr => exact absurd hpc.2.1 hnot
  case unlock => exact absurd hpc.1 hnot

/-- The call for which the record is in use is not the one that steps. -/
theorem served_set {c : Config Shared Thread} {t : Thread} {i n : Nat} (hI : Inv c)
    (hi : c.pool[i]? = some t) (hpc : t.pc ≠ .wake ∧ t.pc ≠ .wait ∧ t.pc ≠ .clearK) (t' : Thread)
    (hn : c.shared.serving = some n) :
    ∃ (j : Nat) (u : Thread), (c.pool.set i t')[j]? = some u ∧ u.target = n ∧
      (u.pc = .wake ∨ u.pc = .wait ∨ u.pc = .clearK) := by
  obtain ⟨j, u, hj, htarget, hcase⟩ := hI.served n hn
  refine ⟨j, u, ?_, htarget, hcase⟩
  have hji : i ≠ j := by
    rintro rfl
    obtain rfl := Option.some.inj (hi.symm.trans hj)
    exact absurd hcase (by simp [hpc])
  exact (List.getElem?_set_ne hji).trans hj

/-- The call that holds the lock, or takes it, changes the record. -/
theorem inv_record {c : Config Shared Thread} {s' : Shared} {t t' : Thread} {i : Nat} (hI : Inv c)
    (hi : c.pool[i]? = some t) (hkt : s'.kt = c.shared.kt)
    (hcreate : s'.createDone = c.shared.createDone) (hused : s'.used = c.shared.used)
    (hnot : ∀ j, j ≠ i → c.shared.stopLock ≠ some j) (hends : ∀ n, (s'.kt n).Ends s' n)
    (hrecord : Record s') (ht : t'.Fits s' i)
    (hserving : ∀ n, s'.serving = some n →
      c.shared.serving = some n ∨ (c.shared.kt n).stop = some i)
    (hserved : ∀ n, s'.serving = some n →
      c.shared.serving = some n ∧ t.pc ≠ .wake ∧ t.pc ≠ .wait ∧ t.pc ≠ .clearK ∨
      t'.target = n ∧ (t'.pc = .wake ∨ t'.pc = .wait ∨ t'.pc = .clearK)) :
    Inv ⟨s', c.pool.set i t'⟩ := by
  have hlt := (List.getElem?_eq_some_iff.mp hi).1
  refine ⟨fun n => ?_, hends, fun n => ?_, hrecord, fun n hn => ?_, ?_, fun n hn => ?_⟩
  · obtain ⟨h1, h2, h3, h4⟩ := hI.born n
    simp only [hkt]
    exact ⟨h1, h2, hused ▸ h3, hcreate ▸ h4⟩
  · simp only [hkt]
    exact hI.hears n
  · rw [List.length_set] at hn
    simp only [hkt, hcreate]
    exact hI.new n hn
  · refine hI.calls.set (fun j u hji _ hu => ?_) ht
    refine Fits.outside hu (hnot j hji) hkt hcreate fun n hn => ?_
    exact (hserving n hn).imp_right fun hstop hstop' =>
      hji (Option.some.inj (hstop'.symm.trans hstop))
  · rcases hserved n hn with ⟨hold, hwake, hwait, hclear⟩ | hself
    · exact served_set hI hi ⟨hwake, hwait, hclear⟩ _ hold
    · exact ⟨i, t', List.getElem?_set_self hlt, hself⟩

section Steps

variable {c : Config Shared Thread} {t : Thread} {i : Nat}

/-- A thread that is not made yet is nobody's target. -/
theorem target_ne {u : Thread} {j n : Nat} (hu : u.Fits c.shared j) (hji : j ≠ n)
    (hborn : (c.shared.kt n).Born c.shared n) (hnone : (c.shared.kt n).pc = .none)
    (hpc : u.pc ≠ .waitCreate ∧ u.pc ≠ .created ∧ u.pc ≠ .done) : u.target ≠ n := by
  have hcreated : (c.shared.kt n).created ≠ true :=
    fun htrue => (hborn.created (.inr htrue)).1 hnone
  rintro rfl
  obtain ⟨-, hfits⟩ := hu
  cases hcase : u.pc <;> simp only [hcase] at hfits hpc
  case create => exact hji hfits.1.symm
  case lock | initCompletion | setK | wake | wait | clearK | readErr =>
    exact hcreated hfits.1.created
  case unlock =>
    rw [hnone] at hfits
    cases hfits.2.2.1
  case returned =>
    rw [hnone] at hfits
    cases hfits.1
  all_goals simp at hpc

theorem inv_create {a : Nat} (hI : Inv c) (hi : c.pool[i]? = some t) (hpc : t.pc = .create)
    (ha : a ≠ 0 ∧ a ∉ c.shared.used) :
    Inv ⟨{ c.shared.setKt t.target (newKt a) with used := a :: c.shared.used },
      c.pool.set i { t with pc := .waitCreate }⟩ := by
  have ht := hI.calls i t hi
  simp only [Thread.Fits, hpc] at ht
  obtain ⟨hme, htarget, hnone, hfalse⟩ := ht
  rw [htarget]
  have hborn := hI.born i
  have hcreated : (c.shared.kt i).created ≠ true :=
    fun htrue => (hborn.created (.inr htrue)).1 hnone
  have hserving : ∀ n, c.shared.serving = some n → n ≠ i := by
    rintro n hn rfl
    exact hcreated (hI.record.busy n hn).2
  have hlt := (List.getElem?_eq_some_iff.mp hi).1
  have hkt : ∀ n, n ≠ i → (c.shared.setKt i (newKt a)).kt n = c.shared.kt n := fun n hn => if_neg hn
  have hself : (c.shared.setKt i (newKt a)).kt i = newKt a := if_pos rfl
  refine ⟨fun n => ?_, fun n => ?_, fun n => ?_, ⟨hI.record.free, hI.record.idle, ?_, ?_, ?_, ?_⟩,
    fun n hn => ?_, ?_, fun n hn => ?_⟩
  · by_cases hn : n = i
    · subst hn
      refine ⟨fun _ => ?_, fun _ hstore => ?_, fun _ => ?_, fun hc => ?_⟩ <;> simp only [hself] at *
      · rfl
      · exact absurd rfl hstore
      · exact ⟨ha.1, List.mem_cons_self⟩
      · rcases hc with hd | hd
        · rw [show c.shared.createDone n = true from hd] at hfalse
          cases hfalse
        · cases hd
    · obtain ⟨h1, h2, h3, h4⟩ := hI.born n
      simp only [hkt n hn]
      exact ⟨h1, h2, fun hne => ⟨(h3 hne).1, List.mem_cons_of_mem _ (h3 hne).2⟩, h4⟩
  · by_cases hn : n = i
    · subst hn
      simp only [hself]
      exact ⟨fun _ => ⟨rfl, rfl, rfl⟩, by simp [newKt], by simp [newKt, KtPc.ending],
        by simp [newKt, KtPc.ending], by simp [newKt],
        fun _ => ⟨fun hs => hserving n hs rfl, by simp [newKt]⟩⟩
    · obtain ⟨h1, h2, h3, h4, h5, h6⟩ := hI.ends n
      simp only [hkt n hn]
      exact ⟨h1, h2, h3, h4, h5, h6⟩
  · by_cases hn : n = i
    · subst hn
      simp only [hself]
      exact ⟨by simp [newKt], by simp [newKt], by simp [newKt]⟩
    · simp only [hkt n hn]
      exact hI.hears n
  · intro n hn
    simp only [hkt n (hserving n hn)]
    exact hI.record.busy n hn
  · intro n hn
    simp only [hkt n (hserving n hn)]
    exact hI.record.waiting n hn
  · intro n hn
    simp only [hkt n (hserving n hn)]
    exact hI.record.answered n hn
  · -- the id of the new world is nobody else's
    have hfresh : ∀ n, n ≠ i → (c.shared.kt n).pc ≠ .none → (c.shared.kt n).world ≠ a :=
      fun n _ hne heq => ha.2 (heq ▸ ((hI.born n).world hne).2)
    intro m n hm hn heq
    by_cases hmi : m = i <;> by_cases hni : n = i
    · exact hmi.trans hni.symm
    · subst hmi
      simp only [hself, hkt n hni] at hm hn heq
      exact absurd heq.symm (hfresh n hni hn)
    · subst hni
      simp only [hself, hkt m hmi] at hm hn heq
      exact absurd heq (hfresh m hmi hm)
    · simp only [hkt m hmi, hkt n hni] at hm hn heq
      exact hI.record.distinct m n hm hn heq
  · rw [List.length_set] at hn
    simp only [hkt n (by omega)]
    exact hI.new n hn
  · refine hI.calls.set (fun j u hji _ hu => ?_) ⟨hme, trivial⟩
    have hcopy := hu
    obtain ⟨hme', hfits⟩ := hu
    refine ⟨hme', ?_⟩
    simp only [hkt j hji]
    cases hcase : u.pc <;> simp only [hcase] at hfits ⊢
    case create => exact hfits
    all_goals have htu := target_ne hcopy hji hborn hnone (by simp [hcase])
    all_goals try simp only [hkt _ htu]
    case unlock | returned => exact hfits
    all_goals refine ⟨⟨?_, ?_⟩, hfits.2⟩
    all_goals simp only [hkt _ htu]
    all_goals first | exact hfits.1.stop | exact hfits.1.created
  · exact served_set hI hi (by simp [hpc]) _ hn

/-- `kthread_create` returns. -/
theorem inv_created (hI : Inv c) (hi : c.pool[i]? = some t) (hpc : t.pc = .waitCreate)
    (hdone : c.shared.createDone t.target = true) :
    Inv ⟨c.shared.setKt t.target { c.shared.kt t.target with created := true },
      c.pool.set i { t with pc := .created }⟩ := by
  have ht := hI.calls i t hi
  have hkt : ∀ n, (c.shared.setKt t.target { c.shared.kt t.target with created := true }).kt n =
      { c.shared.kt n with created := (c.shared.kt n).created || decide (n = t.target) } := by
    intro n
    simp only [Shared.setKt]
    split
    · rename_i heq
      simp [heq]
    · rename_i hne
      simp [hne]
  refine ⟨fun n => ?_, fun n => ?_, fun n => ?_, ⟨hI.record.free, hI.record.idle, ?_, ?_, ?_, ?_⟩,
    fun n hn => ?_, ?_, fun n hn => ?_⟩
  · obtain ⟨h1, h2, h3, h4⟩ := hI.born n
    simp only [hkt]
    refine ⟨h1, h2, h3, fun hc => h4 ?_⟩
    simp only [Bool.or_eq_true, decide_eq_true_eq] at hc
    rcases hc with hd | hd | rfl
    · exact .inl hd
    · exact .inr hd
    · exact .inl hdone
  · obtain ⟨h1, h2, h3, h4, h5, h6⟩ := hI.ends n
    simp only [hkt]
    exact ⟨h1, h2, h3, h4, h5, h6⟩
  · obtain ⟨h1, h2, h3⟩ := hI.hears n
    simp only [hkt]
    exact ⟨h1, h2, h3⟩
  · intro n hn
    obtain ⟨hk, hcreated⟩ := hI.record.busy n hn
    simp only [hkt, hcreated, Bool.true_or]
    exact ⟨hk, trivial⟩
  · intro n hn
    simp only [hkt]
    exact hI.record.waiting n hn
  · intro n hn
    simp only [hkt]
    exact hI.record.answered n hn
  · intro m n
    simp only [hkt]
    exact hI.record.distinct m n
  · rw [List.length_set] at hn
    simp only [hkt]
    exact hI.new n hn
  · refine hI.calls.set (fun j u hji _ hu => ?_) ⟨ht.1, trivial⟩
    have hstops : u.Stops c.shared j → u.Stops _ j := fun hs =>
      ⟨(congrArg Kt.stop (hkt u.target)).trans hs.stop,
        (congrArg Kt.created (hkt u.target)).trans (by simp [hs.created])⟩
    obtain ⟨hme', hfits⟩ := hu
    refine ⟨hme', ?_⟩
    simp only [hkt]
    cases hcase : u.pc <;> simp only [hcase] at hfits ⊢
    case create | unlock | returned => exact hfits
    all_goals exact ⟨hstops hfits.1, hfits.2⟩
  · exact served_set hI hi (by simp [hpc]) _ hn

/-- `kthread_stop` wakes its thread. -/
theorem inv_wake (hI : Inv c) (hi : c.pool[i]? = some t) (hpc : t.pc = .wake) :
    Inv ⟨c.shared.setKt t.target (wakeUpProcess (c.shared.kt t.target)),
      c.pool.set i { t with pc := .wait }⟩ := by
  have hlt := (List.getElem?_eq_some_iff.mp hi).1
  have halike := wakeUpProcess_alike (c.shared.kt t.target)
  have hset := Fits.alike halike (hI.calls i t hi)
  simp only [Thread.Fits, hpc] at hset
  refine ⟨fun n => Born.alike halike (hI.born n), fun n => Ends.alike halike (hI.ends n),
    fun n => ?_, Record.alike halike hI.record, fun n hn => ?_, ?_, fun n hn => ?_⟩
  · simp only [Shared.setKt]
    split
    · exact wakeUpProcess_hears _
    · exact hI.hears n
  · rw [List.length_set] at hn
    rw [(alike_setKt halike n).pc]
    exact hI.new n hn
  · exact hI.calls.set (fun j u _ _ hu => Fits.alike halike hu)
      ⟨hset.1, ⟨hset.2.1.stop, hset.2.1.created⟩, hset.2.2.1, hset.2.2.2, by
        simp [Shared.setKt, wakeUpProcess]⟩
  · have hserving : c.shared.serving = some t.target := hset.2.2.2
    obtain rfl := Option.some.inj (hserving.symm.trans hn)
    exact ⟨i, _, List.getElem?_set_self hlt, rfl, .inr (.inl rfl)⟩

theorem inv_setK (hI : Inv c) (hi : c.pool[i]? = some t) (hpc : t.pc = .setK) :
    Inv ⟨{ c.shared with k := (c.shared.kt t.target).pid, serving := some t.target },
      c.pool.set i { t with pc := .wake }⟩ := by
  have ht := hI.calls i t hi
  simp only [Thread.Fits, hpc] at ht
  obtain ⟨hme, hstops, hlock, hserving, hgone, hdone⟩ := ht
  refine inv_record hI hi rfl rfl rfl ?_ (fun n => ?_) ⟨?_, ?_, ?_, ?_, ?_, hI.record.distinct⟩
    ⟨hme, ⟨hstops.stop, hstops.created⟩, hlock, rfl⟩ ?_ ?_
  · intro j hji hj
    exact hji (Option.some.inj (hj.symm.trans hlock))
  · -- nobody was being stopped
    obtain ⟨h1, h2, h3, h4, h5, h6⟩ := hI.ends n
    rw [hserving] at h2 h3
    refine ⟨h1, fun hsaw hne => ?_, fun hend => ?_, h4, h5, fun hnone => ⟨?_, (h6 hnone).2⟩⟩
    · cases h2 hsaw hne
    · cases h3 hend
    · intro hn
      obtain rfl := Option.some.inj hn
      rw [hstops.stop] at hnone
      cases hnone
  · intro hfree
    exact absurd (hlock.symm.trans hfree) (by simp)
  · intro hidle
    cases hidle
  · rintro n hn
    obtain rfl := Option.some.inj hn
    exact ⟨rfl, hstops.created⟩
  · exact fun _ _ _ => hdone
  · rintro n hn hpc'
    obtain rfl := Option.some.inj hn
    exact absurd hpc' hgone
  · rintro n hn
    obtain rfl := Option.some.inj hn
    exact .inr hstops.stop
  · rintro n hn
    exact .inr ⟨Option.some.inj hn, .inl rfl⟩

theorem inv_clearK (hI : Inv c) (hi : c.pool[i]? = some t) (hpc : t.pc = .clearK) :
    Inv ⟨{ c.shared with k := 0, serving := none }, c.pool.set i { t with pc := .readErr }⟩ := by
  have ht := hI.calls i t hi
  simp only [Thread.Fits, hpc] at ht
  obtain ⟨hme, hstops, hlock, hserving, hgone⟩ := ht
  have herr := hI.record.answered _ hserving hgone
  refine inv_record hI hi rfl rfl rfl ?_ (fun n => ?_)
    ⟨fun _ => rfl, fun _ => rfl, ?_, ?_, ?_, hI.record.distinct⟩
    ⟨hme, ⟨hstops.stop, hstops.created⟩, hlock, rfl, hgone, herr⟩ ?_ ?_
  · intro j hji hj
    exact hji (Option.some.inj (hj.symm.trans hlock))
  · -- the thread that was being stopped is gone
    obtain ⟨h1, h2, h3, h4, h5, h6⟩ := hI.ends n
    have hn : c.shared.serving = some n → (c.shared.kt n).pc = .gone := by
      intro hn
      obtain rfl := Option.some.inj (hserving.symm.trans hn)
      exact hgone
    refine ⟨h1, fun hsaw hne => ?_, fun hend => ?_, h4, h5, fun hnone => ⟨by simp, (h6 hnone).2⟩⟩
    · exact absurd (hn (h2 hsaw hne)) hne
    · replace hend : (c.shared.kt n).pc.ending = true := hend
      rw [hn (h3 hend)] at hend
      cases hend
  all_goals rintro n hn
  all_goals cases hn

/-- The other steps of `kthread_stop` leave the threads and what the record is used for alone. -/
theorem inv_hold {s' : Shared} {t' : Thread} (hI : Inv c) (hi : c.pool[i]? = some t)
    (hkt : s' = { c.shared with done := s'.done, stopLock := s'.stopLock })
    (hnot : ∀ j, j ≠ i → c.shared.stopLock ≠ some j)
    (hfree : s'.stopLock = none → c.shared.serving = none)
    (hdone : ∀ n, c.shared.serving = some n → (c.shared.kt n).pc ≠ .gone → s'.done = 0)
    (ht : t'.Fits s' i)
    (hserved : ∀ n, c.shared.serving = some n → t'.target = n ∧ t'.pc = .clearK) :
    Inv ⟨s', c.pool.set i t'⟩ := by
  rw [hkt] at ht ⊢
  refine inv_record hI hi rfl rfl rfl hnot (fun n => ?_)
    ⟨hfree, hI.record.idle, hI.record.busy, hdone, hI.record.answered, hI.record.distinct⟩ ht
    (fun n hn => .inl hn) (fun n hn => ?_)
  · obtain ⟨h1, h2, h3, h4, h5, h6⟩ := hI.ends n
    exact ⟨h1, h2, h3, h4, h5, h6⟩
  · obtain ⟨htarget, hpc⟩ := hserved n hn
    exact .inr ⟨htarget, .inr (.inr hpc)⟩

theorem inv_step {a : Nat} {s' : Shared} {t' : Thread} (hI : Inv c) (hi : c.pool[i]? = some t)
    (h : step a c.shared t = some (s', t')) : Inv ⟨s', c.pool.set i t'⟩ := by
  have ht := hI.calls i t hi
  have hheld : c.shared.stopLock = some i → ∀ j, j ≠ i → c.shared.stopLock ≠ some j := by
    intro hlock j hji hj
    exact hji (Option.some.inj (hj.symm.trans hlock))
  unfold step at h
  cases hpc : t.pc <;> simp only [hpc] at h
  case create =>
    split at h
    · rename_i ha
      obtain ⟨rfl, rfl⟩ := Prod.mk.inj (Option.some.inj h)
      exact inv_create hI hi hpc ha
    · cases h
  case waitCreate =>
    split at h
    · rename_i hdone
      obtain ⟨rfl, rfl⟩ := Prod.mk.inj (Option.some.inj h)
      exact inv_created hI hi hpc hdone
    · cases h
  case setK =>
    obtain ⟨rfl, rfl⟩ := Prod.mk.inj (Option.some.inj h)
    exact inv_setK hI hi hpc
  case wake =>
    obtain ⟨rfl, rfl⟩ := Prod.mk.inj (Option.some.inj h)
    exact inv_wake hI hi hpc
  case clearK =>
    obtain ⟨rfl, rfl⟩ := Prod.mk.inj (Option.some.inj h)
    exact inv_clearK hI hi hpc
  all_goals simp only [Thread.Fits, hpc] at ht
  case lock =>
    split at h
    · cases h
    · rename_i hlock
      obtain ⟨rfl, rfl⟩ := Prod.mk.inj (Option.some.inj h)
      obtain ⟨hme, hstops, hother, hgone⟩ := ht
      have hidle := hI.record.free hlock
      refine inv_hold hI hi rfl (by simp [hlock]) (by simp) hI.record.waiting
        ⟨hme, ⟨hstops.stop, hstops.created⟩, by simp [hme], hidle, hgone⟩ (by simp [hidle])
  case initCompletion =>
    obtain ⟨rfl, rfl⟩ := Prod.mk.inj (Option.some.inj h)
    obtain ⟨hme, hstops, hlock, hidle, hgone⟩ := ht
    exact inv_hold hI hi rfl (hheld hlock) (fun _ => hidle) (fun _ _ _ => rfl)
      ⟨hme, ⟨hstops.stop, hstops.created⟩, hlock, hidle, hgone, rfl⟩ (by simp [hidle])
  case wait =>
    split at h
    · cases h
    · rename_i hpos
      obtain ⟨rfl, rfl⟩ := Prod.mk.inj (Option.some.inj h)
      obtain ⟨hme, hstops, hlock, hserving, -⟩ := ht
      have hgone : (c.shared.kt t.target).pc = .gone := by
        by_contra hne
        exact hpos (hI.record.waiting _ hserving hne)
      refine inv_hold hI hi rfl (hheld hlock) (by simp [hlock]) (fun n hn hne => ?_)
        ⟨hme, ⟨hstops.stop, hstops.created⟩, hlock, hserving, hgone⟩ (fun n hn => ?_)
      · obtain rfl := Option.some.inj (hserving.symm.trans hn)
        exact absurd hgone hne
      · exact ⟨Option.some.inj (hserving.symm.trans hn), rfl⟩
  case readErr =>
    obtain ⟨rfl, rfl⟩ := Prod.mk.inj (Option.some.inj h)
    obtain ⟨hme, hstops, hlock, hidle, hgone, herr⟩ := ht
    exact inv_hold hI hi rfl (hheld hlock) (fun _ => hidle) hI.record.waiting
      ⟨hme, hlock, hidle, hgone, herr⟩ (by simp [hidle])
  case unlock =>
    obtain ⟨rfl, rfl⟩ := Prod.mk.inj (Option.some.inj h)
    obtain ⟨hme, hlock, hidle, hgone, hret⟩ := ht
    exact inv_hold hI hi rfl (hheld hlock) (fun _ => hidle) hI.record.waiting
      ⟨hme, hgone, hret⟩ (by simp [hidle])
  all_goals cases h

end Steps

theorem inv_of_reachable {c : Config Shared Thread} (h : machine.Reachable initial c) : Inv c := by
  refine Machine.Reach.invariant Inv ?_ ?_ ?_ h
  · refine ⟨fun n => ⟨fun _ => rfl, fun hne => absurd rfl hne, fun hne => absurd rfl hne, ?_⟩,
      fun n => ⟨fun _ => ⟨rfl, rfl, rfl⟩, ?_, ?_, ?_, ?_, ?_⟩, fun n => ⟨?_, ?_, ?_⟩,
      ⟨fun _ => rfl, fun _ => rfl, ?_, ?_, ?_, fun m n hne => absurd rfl hne⟩,
      fun n _ => ⟨rfl, rfl⟩, each_nil _, ?_⟩
    all_goals simp [initial, newKt, KtPc.ending]
  · intro c call s' t _ hI _ hs
    exact inv_enter hI hs
  · intro c i a t s' t' _ hI _ hi hs
    exact inv_step hI hi hs

/-! ### The handshake -/

/-- The call is between its taking of the lock and its giving it back. -/
def Pc.holds : Pc → Bool
  | .initCompletion | .setK | .wake | .wait | .clearK | .readErr | .unlock => true
  | _ => false

structure Handshake (c : Config Shared Thread) : Prop where
  /-- `kthread_should_stop` is true only in the thread that a `kthread_stop` waits for. -/
  alone : ∀ n, (c.shared.kt n).pc ≠ .none → (c.shared.kt n).pc ≠ .storePid →
    (c.shared.kt n).pc ≠ .gone → shouldStop c.shared n = true →
    ∃ t ∈ c.pool, t.target = n ∧ (t.pc = .wake ∨ t.pc = .wait)
  /-- A `kthread_stop` that has returned has the value of the thread it has stopped. -/
  answer : ∀ t ∈ c.pool, t.pc = .returned → (c.shared.kt t.target).pc = .gone ∧
    ((c.shared.kt t.target).result = some t.ret ∨
      (c.shared.kt t.target).called = false ∧ t.ret = -eintr)
  /-- Whenever a thread is woken, it has its event until it leaves `LinuxTask_WaitEvent` next;
      not even a call before its first sleep is lost. -/
  heard : ∀ n, (c.shared.kt n).unheard = true → (c.shared.kt n).resume = true
  first : ∀ n, (c.shared.kt n).wakes = true → (c.shared.kt n).pc.starting = true →
    (c.shared.kt n).unheard = true
  awake : ∀ n first, (c.shared.kt n).pc = .blocked first → (c.shared.kt n).resume = true →
    (c.shared.kt n).woken = true
  /-- A `kthread_stop` that waits has woken its thread, which can see that it is to stop. -/
  noticed : ∀ t ∈ c.pool, t.pc = .wait →
    (c.shared.kt t.target).wakes = true ∧ shouldStop c.shared t.target = true
  /-- One `kthread_stop` at a time uses the record. -/
  single : ∀ (i j : Nat) (t u : Thread), c.pool[i]? = some t → c.pool[j]? = some u →
    t.pc.holds = true → u.pc.holds = true → i = j

theorem stopLock_of_holds {s : Shared} {t : Thread} {i : Nat} (ht : t.Fits s i)
    (h : t.pc.holds = true) : s.stopLock = some i := by
  obtain ⟨-, hfits⟩ := ht
  cases hpc : t.pc <;> simp only [hpc] at h hfits
  case initCompletion | setK | wake | wait | clearK | readErr => exact hfits.2.1
  case unlock => exact hfits.1
  all_goals cases h

/-- **The stop handshake**, in every reachable state. -/
theorem handshake_of_reachable {c : Config Shared Thread} (h : machine.Reachable initial c) :
    Handshake c := by
  have hI := inv_of_reachable h
  have hfits : ∀ t ∈ c.pool, ∃ i, t.Fits c.shared i := by
    intro t ht
    obtain ⟨i, hi⟩ := List.mem_iff_getElem?.mp ht
    exact ⟨i, hI.calls i t hi⟩
  refine ⟨fun n hnone hstore hgone hstop => ?_, fun t ht hpc => ?_, fun n => (hI.hears n).heard,
    fun n => (hI.hears n).first, fun n => (hI.hears n).awake, fun t ht hpc => ?_,
    fun i j t u hi hj ht hu => ?_⟩
  · have hserving := serving_of_shouldStop hI.born hI.record hnone hstore hstop
    obtain ⟨i, t, hi, htarget, hpc⟩ := hI.served n hserving
    refine ⟨t, List.mem_of_getElem? hi, htarget, ?_⟩
    rcases hpc with hpc | hpc | hpc
    · exact .inl hpc
    · exact .inr hpc
    · -- at that point the thread has answered
      have ht := hI.calls i t hi
      simp only [Thread.Fits, hpc] at ht
      exact absurd (htarget ▸ ht.2.2.2.2) hgone
  · obtain ⟨i, hme, hcase⟩ := hfits t ht
    simp only [hpc] at hcase
    obtain ⟨hgone, hret⟩ := hcase
    refine ⟨hgone, ?_⟩
    rw [hret]
    exact ((hI.ends t.target).outcome (.inr hgone)).symm
  · obtain ⟨i, hme, hcase⟩ := hfits t ht
    simp only [hpc] at hcase
    exact ⟨hcase.2.2.2, shouldStop_of_serving hI.record hcase.2.2.1⟩
  · have hi' := stopLock_of_holds (hI.calls i t hi) ht
    have hj' := stopLock_of_holds (hI.calls j u hj) hu
    exact Option.some.inj (hi'.symm.trans hj')

/-- One thread is stopped before its first `schedule`, and another one in `threadfn`, where it
    was woken a second time before it called `schedule`. -/
theorem handshake_of_reachable_two :
    ∃ c, machine.Reachable initial c ∧
      (c.pool.filterMap fun t => if t.pc = .returned then some (t.target, t.ret) else none) =
        [(0, -eintr), (1, 7)] ∧ Handshake c := by
  obtain ⟨c, hc, ho⟩ := machine.exists_reachable_of_run
    [.start .kthreadCreate, .start .kthreadCreate, .act 0 11, .act 1 12,
      .start (.move 0 .go), .start (.move 1 .go), .start (.move 0 .go), .start (.move 1 .go),
      .act 0 0, .act 1 0, .start (.wakeUpProcess 1), .start (.move 1 .go), .start (.move 1 .go),
      .start (.move 1 .go), .start (.wakeUpProcess 1), .start (.move 1 .sleep),
      .start (.move 1 .go), .start (.kthreadStop (some 0)), .start (.kthreadStop (some 1)),
      .act 13 0, .act 13 0, .act 13 0, .act 13 0, .start (.move 0 .go), .start (.move 0 .go),
      .start (.move 0 .go), .start (.move 0 .go), .start (.move 0 .go), .start (.move 0 .go),
      .act 13 0, .act 13 0, .act 13 0, .act 13 0,
      .act 14 0, .act 14 0, .act 14 0, .act 14 0, .start (.move 1 .shouldStop),
      .start (.move 1 (.ret 7)), .start (.move 1 .go), .start (.move 1 .go), .start (.move 1 .go),
      .act 14 0, .act 14 0, .act 14 0, .act 14 0] initial
    (fun c => c.pool.filterMap fun t =>
      if t.pc = .returned then some (t.target, t.ret) else none)
    [(0, -eintr), (1, 7)] (by decide)
  exact ⟨c, hc, ho, handshake_of_reachable hc⟩

end VmkLinux.Task.Kthread
