/-
  VmkLinux/Task/Create.lean
  =========================
  **A new task** (`vmklinux26/vmware/linux_task.c`, `linux_kthread.c`): any number of callers of
  `kernel_thread` and `kthread_create`, and the worlds that they make.

  A `LinuxTaskExt` is taken from `taskFreeChain` and goes back to it when its world exits.  The
  place of a world in `LinuxStartFunc`, and in `kthread`, is a part of its `LinuxTaskExt`; the
  function that it runs may return at any time.  Anyone may send a signal to a task that can be
  found by its world; a task is woken by those that `kthread_create` has given it to.

  The new world stores its pid itself, and its descriptor is its own: `kernel_thread` reads the pid
  when the world may not have stored it yet, or may be gone; `kthread_create` writes the name into
  a descriptor that is free if a signal has ended the thread.  Otherwise (`orderly`) the callers
  get what they ask for (`identity_of_reach`).

  Not in the source: `Te.owner` and `Te.published`, the call that has made the task and whether
  it has returned; `returned`, the pids that were returned with the worlds they were asked for; and
  `strays`, the calls that have touched a descriptor that was not theirs any more.
-/
import VmkLinux.Interleave

namespace VmkLinux.Task.Create

open VmkLinux.Interleave

/-! ### Data -/

/-- Where a world is. -/
inductive WorldPc where
  /-- There is no world. -/
  | none
  /-- `LinuxStartFunc`. -/
  | storePid
  | setDescriptor
  /-- `kthread`. -/
  | complete
  | schedule
  /-- The function of the driver. -/
  | body
  /-- `LinuxTask_Exit`. -/
  | exit
deriving DecidableEq, Repr

/-- `LinuxTaskExt`, with the world that runs it. -/
structure Te where
  owner : Option Nat
  published : Bool
  /-- `te->func` is `kthread`. -/
  kthread : Bool
  world : Nat
  pc : WorldPc
  pid : Nat
  /-- A signal is pending. -/
  signal : Bool
  /-- `LTE_RESUME` in `te->events`. -/
  resume : Bool
deriving DecidableEq, Repr

/-- A pid that a call has returned, itself or in a task, and the world it has made. -/
structure Entry where
  pid : Nat
  world : Nat
deriving DecidableEq, Repr

structure Shared where
  te : Nat → Te
  taskFreeChain : List Nat
  /-- `create.done` of a call of `kthread_create`. -/
  done : Nat → Bool
  returned : List Entry
  strays : List Nat

def Shared.setTe (s : Shared) (k : Nat) (e : Te) : Shared :=
  { s with te := fun j => if j = k then e else s.te j }

def Shared.setDone (s : Shared) (n : Nat) (b : Bool) : Shared :=
  { s with done := fun m => if m = n then b else s.done m }

inductive Pc where
  /-- `LinuxTask_Create`. -/
  | construct
  | worldCreate
  /-- `kernel_thread`. -/
  | readPid
  /-- `kthread_create`. -/
  | writeComm
  | waitForCompletion
  | returnTask
  | done
deriving DecidableEq, Repr

structure Thread where
  pc : Pc
  me : Nat
  kthread : Bool := false
  te : Nat := 0
  world : Nat := 0
deriving DecidableEq, Repr

inductive Call where
  | kernelThread
  | kthreadCreate
  /-- The world of a task takes its next step. -/
  | world (te : Nat)
  /-- A signal, as with `kill_proc`. -/
  | signal (te : Nat)
  | wakeUpProcess (te : Nat)
deriving DecidableEq, Repr

/-- What `vmk_WorldCreate` says: the id of the new world, which is not zero. -/
abbrev Choice := Option Nat

/-! ### Descriptors -/

/-- `LinuxTaskConstruct`. -/
def construct (s : Shared) (me : Nat) (kthread : Bool) : Option (Shared × Nat) :=
  match s.taskFreeChain with
  | [] => none
  | k :: chain =>
      some ({ s with taskFreeChain := chain }.setTe k
        ⟨some me, false, kthread, 0, .none, 0, false, false⟩, k)

/-- `LinuxTaskDestruct`: what was in the descriptor stays. -/
def destruct (s : Shared) (k : Nat) : Shared :=
  { s.setTe k { s.te k with owner := none, pc := .none } with
    taskFreeChain := k :: s.taskFreeChain }

/-- The call has touched its descriptor, which may be free, or in use again. -/
def touch (s : Shared) (k me : Nat) : Shared :=
  if (s.te k).owner = some me then s else { s with strays := me :: s.strays }

/-! ### Worlds -/

def worldStep (s : Shared) (k : Nat) : Option Shared :=
  let e := s.te k
  match e.pc with
  | .none => none
  | .storePid => some (s.setTe k { e with pid := e.world, pc := .setDescriptor })
  | .setDescriptor => some (s.setTe k { e with pc := if e.kthread then .complete else .body })
  | .complete =>
      match e.owner with
      | some n => some ((s.setTe k { e with pc := .schedule }).setDone n true)
      | none => none
  | .schedule =>
      if e.signal then some (s.setTe k { e with pc := .body })
      else if e.resume then some (s.setTe k { e with resume := false, pc := .body })
      else none
  | .body => some (s.setTe k { e with pc := .exit })
  | .exit => some (destruct s k)

/-- The descriptor is bound to its world. -/
def Te.found (e : Te) : Bool :=
  decide (e.pc = .complete ∨ e.pc = .schedule ∨ e.pc = .body ∨ e.pc = .exit)

def enter (me : Nat) (call : Call) (s : Shared) : Option (Shared × Thread) :=
  match call with
  | .kernelThread => some (s, { pc := .construct, me := me })
  | .kthreadCreate =>
      some (s.setDone me false, { pc := .construct, me := me, kthread := true })
  | .world k =>
      match worldStep s k with
      | some s' => some (s', { pc := .done, me := me })
      | none => none
  | .signal k =>
      if (s.te k).found then
        some (s.setTe k { s.te k with signal := true }, { pc := .done, me := me })
      else none
  | .wakeUpProcess k =>
      if (s.te k).published then
        some (s.setTe k { s.te k with resume := true }, { pc := .done, me := me })
      else none

/-! ### Callers -/

def step (a : Choice) (s : Shared) (t : Thread) : Option (Shared × Thread) :=
  match t.pc with
  | .construct =>
      match construct s t.me t.kthread with
      | some (s', k) => some (s', { t with pc := .worldCreate, te := k })
      | none => some (s, { t with pc := .done })
  | .worldCreate =>
      match a with
      | some id =>
          if id = 0 then none
          else
            some (s.setTe t.te { s.te t.te with world := id, pc := .storePid },
              { t with world := id, pc := if t.kthread then .writeComm else .readPid })
      | none => some (destruct s t.te, { t with pc := .done })
  | .readPid =>
      let s' := touch s t.te t.me
      some ({ s' with returned := ⟨(s.te t.te).pid, t.world⟩ :: s'.returned },
        { t with pc := .done })
  | .writeComm => some (touch s t.te t.me, { t with pc := .waitForCompletion })
  | .waitForCompletion =>
      if s.done t.me then some (s.setDone t.me false, { t with pc := .returnTask }) else none
  | .returnTask =>
      let e := s.te t.te
      some ({ s.setTe t.te { e with published := true } with
        returned := ⟨e.pid, t.world⟩ :: s.returned }, { t with pc := .done })
  | .done => none

def machine : Machine Shared Thread Call Choice := ⟨enter, step⟩

/-- `LinuxTaskInitTasks`: as many descriptors as there may be worlds, whatever is in them. -/
def initial (maxWorlds junk : Nat) : Config Shared Thread :=
  ⟨⟨fun _ => ⟨none, false, false, 0, .none, junk, false, false⟩, (List.range maxWorlds).reverse,
    fun _ => false, [], []⟩, []⟩

/-! ### Tasks that wait for their callers -/

/-- No signal is sent to a thread whose `kthread_create` has not returned; and `kernel_thread`
    reads the pid when the world has stored it, and has not exited. -/
def orderly (c : Config Shared Thread) : Event Call Choice → Bool
  | .start (.signal k) => !(c.shared.te k).kthread || (c.shared.te k).published
  | .start _ => true
  | .act i _ =>
      match c.pool[i]? with
      | some t =>
          let e := c.shared.te t.te
          decide (t.pc = .readPid → e.owner = some i ∧ e.pc ≠ .none ∧ e.pc ≠ .storePid)
      | none => true

/-! ### The invariant -/

/-- A descriptor is free, or it has a caller; the pid of a world that has stored it is its own; a
    thread whose `kthread_create` has not returned is not past its `schedule`; and a completion
    comes from a world that has got there. -/
structure Te.Fits (done : Nat → Bool) (e : Te) : Prop where
  owned : e.owner = none → e.pc = .none
  stored : e.pc = .none ∨ e.pc = .storePid ∨ e.pid = e.world
  kept : e.kthread = true → e.published = false → e.owner ≠ none →
    e.signal = false ∧ e.resume = false ∧ e.pc ≠ .body ∧ e.pc ≠ .exit
  completed : ∀ n, e.owner = some n → done n = true → e.kthread = true →
    e.pc = .schedule ∨ e.pc = .body ∨ e.pc = .exit

/-- The descriptor is that of the call, which has not given it away. -/
structure Te.Mine (e : Te) (i : Nat) (kthread : Bool) : Prop where
  owner : e.owner = some i
  thread : e.kthread = kthread
  published : e.published = false

/-- What a call knows of its descriptor. -/
def Thread.Fits (s : Shared) (i : Nat) (t : Thread) : Prop :=
  t.me = i ∧
  match t.pc with
  | .construct => s.done i = false ∧ ∀ k, (s.te k).owner ≠ some i
  | .worldCreate => (s.te t.te).Mine i t.kthread ∧ (s.te t.te).pc = .none
  | .readPid => (s.te t.te).owner = some i → (s.te t.te).world = t.world
  | .writeComm | .waitForCompletion =>
      (s.te t.te).Mine i t.kthread ∧ t.kthread = true ∧ (s.te t.te).world = t.world
  | .returnTask =>
      (s.te t.te).Mine i t.kthread ∧ t.kthread = true ∧ (s.te t.te).pid = t.world ∧
        (s.te t.te).world = t.world
  | .done => True

structure Inv (c : Config Shared Thread) : Prop where
  tes : ∀ k, (c.shared.te k).Fits c.shared.done
  single : ∀ j k n, (c.shared.te j).owner = some n → (c.shared.te k).owner = some n → j = k
  nodup : c.shared.taskFreeChain.Nodup
  free : ∀ k ∈ c.shared.taskFreeChain, (c.shared.te k).owner = none
  born : ∀ k n, (c.shared.te k).owner = some n → n < c.pool.length
  unborn : ∀ n, c.pool.length ≤ n → c.shared.done n = false
  callers : Each (fun i t => t.Fits c.shared i) c.pool
  returned : ∀ e ∈ c.shared.returned, e.pid = e.world
  strays : c.shared.strays = []

section Worlds

variable {s s' : Shared} {k : Nat}

/-- What a world, a signal or an event does to a descriptor. -/
structure Te.Evolves (e e' : Te) : Prop where
  kthread : e'.kthread = e.kthread
  published : e'.published = e.published
  world : e'.world = e.world
  pid : e'.pid = e.pid ∨ e'.pid = e.world
  owner : e'.owner = e.owner ∨ e'.owner = none ∧ e.pc = .exit
  pc : e.pc = .none → e'.pc = .none

theorem worldStep_evolves (h : worldStep s k = some s') (j : Nat) :
    (s.te j).Evolves (s'.te j) := by
  unfold worldStep destruct at h
  cases hpc : (s.te k).pc <;> simp only [hpc] at h
  all_goals repeat' split at h
  all_goals simp only [Option.some.injEq, reduceCtorEq] at h
  all_goals obtain rfl := h
  all_goals constructor
  all_goals grind -linarith [Shared.setTe, Shared.setDone, Te.Fits]

theorem worldStep_fits (h : worldStep s k = some s') (hfits : ∀ j, (s.te j).Fits s.done)
    (hsingle : ∀ j k n, (s.te j).owner = some n → (s.te k).owner = some n → j = k) (j : Nat) :
    (s'.te j).Fits s'.done := by
  have hj := hfits j
  have hk := hfits k
  -- a completion is for this descriptor alone
  have hother : j ≠ k → ∀ n, (s.te k).owner = some n → (s.te j).owner ≠ some n :=
    fun hne n hkn hjn => hne (hsingle j k n hjn hkn)
  clear hfits hsingle
  unfold worldStep destruct at h
  cases hpc : (s.te k).pc <;> simp only [hpc] at h
  all_goals repeat' split at h
  all_goals simp only [Option.some.injEq, reduceCtorEq] at h
  all_goals obtain rfl := h
  all_goals simp only [Shared.setTe, Shared.setDone]
  all_goals split
  all_goals constructor
  all_goals grind -linarith [Te.Fits]

/-- The chain grows by the descriptor of a world that exits. -/
theorem worldStep_chain (h : worldStep s k = some s') (hk : (s.te k).Fits s.done)
    (hnodup : s.taskFreeChain.Nodup) (hfree : ∀ j ∈ s.taskFreeChain, (s.te j).owner = none) :
    s'.taskFreeChain.Nodup ∧ ∀ j ∈ s'.taskFreeChain, (s'.te j).owner = none := by
  have hused : (s.te k).pc ≠ .none → k ∉ s.taskFreeChain :=
    fun hpc hmem => hpc (hk.owned (hfree k hmem))
  unfold worldStep destruct at h
  cases hpc : (s.te k).pc <;> simp only [hpc] at h
  all_goals repeat' split at h
  all_goals simp only [Option.some.injEq, reduceCtorEq] at h
  all_goals obtain rfl := h
  all_goals simp only [Shared.setTe, Shared.setDone]
  all_goals grind -linarith

/-- A completion is for the caller of the world, and no log is touched. -/
theorem worldStep_frame (h : worldStep s k = some s') :
    (∀ n, s'.done n = true → s.done n = true ∨ (s.te k).owner = some n) ∧
      s'.returned = s.returned ∧ s'.strays = s.strays := by
  unfold worldStep destruct at h
  cases hpc : (s.te k).pc <;> simp only [hpc] at h
  all_goals repeat' split at h
  all_goals simp only [Option.some.injEq, reduceCtorEq] at h
  all_goals obtain rfl := h
  all_goals simp only [Shared.setTe, Shared.setDone]
  all_goals grind -linarith

end Worlds

/-- A call keeps what it knows while descriptors evolve. -/
theorem Fits.evolve {s s' : Shared} {t : Thread} {i : Nat} (h : t.Fits s i)
    (hev : ∀ k, (s.te k).Evolves (s'.te k))
    (hdone : ∀ n, s'.done n = true → s.done n = true ∨ ∃ k, (s.te k).owner = some n)
    (hfits : ∀ k, (s.te k).Fits s.done) : t.Fits s' i := by
  have hte := hev t.te
  have howner : ∀ k n, (s'.te k).owner = some n → (s.te k).owner = some n := by
    intro k n hk
    rcases (hev k).owner with hsame | ⟨hnone, -⟩
    · exact hsame.symm.trans hk
    · rw [hnone] at hk
      cases hk
  have hmine : (s.te t.te).Mine i t.kthread → (s.te t.te).pc ≠ .exit →
      (s'.te t.te).Mine i t.kthread := by
    rintro ⟨hi, hkthread, hpublished⟩ hexit
    refine ⟨?_, hte.kthread.trans hkthread, hte.published.trans hpublished⟩
    rcases hte.owner with hsame | ⟨-, hpc⟩
    · exact hsame.trans hi
    · exact absurd hpc hexit
  -- a thread that waits for its caller has not exited
  have hwaits : (s.te t.te).Mine i t.kthread → t.kthread = true →
      (s'.te t.te).Mine i t.kthread := by
    intro hm hthread
    refine hmine hm ((hfits t.te).kept (hm.thread.trans hthread) hm.published ?_).2.2.2
    simp [hm.owner]
  obtain ⟨hme, hpc⟩ := h
  refine ⟨hme, ?_⟩
  cases hcase : t.pc <;> simp only [hcase] at hpc ⊢
  case construct =>
    refine ⟨?_, fun k hk => hpc.2 k (howner k i hk)⟩
    by_contra hnot
    rw [Bool.not_eq_false] at hnot
    rcases hdone i hnot with htrue | ⟨k, hk⟩
    · rw [hpc.1] at htrue
      cases htrue
    · exact hpc.2 k hk
  case worldCreate => exact ⟨hmine hpc.1 (by simp [hpc.2]), hte.pc hpc.2⟩
  case readPid => exact fun hi => hte.world.trans (hpc (howner _ _ hi))
  case writeComm | waitForCompletion =>
    exact ⟨hwaits hpc.1 hpc.2.1, hpc.2.1, hte.world.trans hpc.2.2⟩
  case returnTask =>
    obtain ⟨hm, hthread, hpid, hworld⟩ := hpc
    refine ⟨hwaits hm hthread, hthread, ?_, hte.world.trans hworld⟩
    exact hte.pid.elim (fun hsame => hsame.trans hpid) (fun hnew => hnew.trans hworld)

/-- A call starts, and descriptors evolve. -/
theorem inv_start {c : Config Shared Thread} {s' : Shared} {t : Thread} (hI : Inv c)
    (hfits : ∀ k, (s'.te k).Fits s'.done) (hev : ∀ k, (c.shared.te k).Evolves (s'.te k))
    (hdone : ∀ n, s'.done n = true → c.shared.done n = true ∨ ∃ k, (c.shared.te k).owner = some n)
    (hchain : s'.taskFreeChain.Nodup ∧ ∀ k ∈ s'.taskFreeChain, (s'.te k).owner = none)
    (hreturned : s'.returned = c.shared.returned) (hstrays : s'.strays = c.shared.strays)
    (ht : t.Fits s' c.pool.length) : Inv ⟨s', c.pool ++ [t]⟩ := by
  have howner : ∀ k n, (s'.te k).owner = some n → (c.shared.te k).owner = some n := by
    intro k n hk
    rcases (hev k).owner with hsame | ⟨hnone, -⟩
    · exact hsame.symm.trans hk
    · rw [hnone] at hk
      cases hk
  refine ⟨hfits, ?_, hchain.1, hchain.2, ?_, ?_, ?_, ?_, ?_⟩
  · exact fun j k n hj hk => hI.single j k n (howner j n hj) (howner k n hk)
  · intro k n hk
    have hlt := hI.born k n (howner k n hk)
    simp only [List.length_append, List.length_singleton]
    omega
  · intro n hn
    simp only [List.length_append, List.length_singleton] at hn
    by_contra hnot
    rw [Bool.not_eq_false] at hnot
    rcases hdone n hnot with htrue | ⟨k, hk⟩
    · rw [hI.unborn n (by omega)] at htrue
      cases htrue
    · have hlt := hI.born k n hk
      omega
  · exact hI.callers.append (fun _ _ _ hu => Fits.evolve hu hev hdone hI.tes) ht
  · exact hreturned ▸ hI.returned
  · exact hstrays.trans hI.strays

theorem evolves_refl (e : Te) : e.Evolves e :=
  ⟨rfl, rfl, rfl, .inl rfl, .inl rfl, id⟩

/-- A signal or an event is for a task that does not wait for its caller. -/
theorem inv_poke {c : Config Shared Thread} {k : Nat} {e : Te} (hI : Inv c)
    (hpoke : e = { c.shared.te k with signal := true } ∨ e = { c.shared.te k with resume := true })
    (hout : (c.shared.te k).kthread = true → (c.shared.te k).published = true) :
    Inv ⟨c.shared.setTe k e, c.pool ++ [{ pc := .done, me := c.pool.length }]⟩ := by
  have hk := hI.tes k
  have hev : ∀ j, (c.shared.te j).Evolves ((c.shared.setTe k e).te j) := by
    intro j
    simp only [Shared.setTe]
    split
    · rename_i heq
      subst heq
      rcases hpoke with rfl | rfl
      · exact ⟨rfl, rfl, rfl, .inl rfl, .inl rfl, id⟩
      · exact ⟨rfl, rfl, rfl, .inl rfl, .inl rfl, id⟩
    · exact evolves_refl _
  refine inv_start hI (fun j => ?_) hev (fun n hn => .inl hn) ⟨hI.nodup, fun j hj => ?_⟩ rfl rfl
    ⟨rfl, trivial⟩
  · simp only [Shared.setTe]
    split
    · rcases hpoke with rfl | rfl <;> constructor <;> grind -linarith [Te.Fits]
    · exact hI.tes j
  · have hnone := hI.free j hj
    rcases (hev j).owner with hsame | ⟨hnone', -⟩
    · exact hsame.trans hnone
    · exact hnone'

theorem inv_enter {c : Config Shared Thread} {s' : Shared} {t : Thread} {call : Call}
    (hI : Inv c) (h : enter c.pool.length call c.shared = some (s', t))
    (hok : orderly c (.start call) = true) : Inv ⟨s', c.pool ++ [t]⟩ := by
  have hnew : c.shared.done c.pool.length = false := hI.unborn _ (Nat.le_refl _)
  have hnone : ∀ k, (c.shared.te k).owner ≠ some c.pool.length :=
    fun k hk => Nat.lt_irrefl _ (hI.born k _ hk)
  cases call with
  | kernelThread =>
    obtain ⟨rfl, rfl⟩ := Prod.mk.inj (Option.some.inj h)
    exact inv_start hI hI.tes (fun k => evolves_refl _) (fun n hn => .inl hn)
      ⟨hI.nodup, hI.free⟩ rfl rfl ⟨rfl, hnew, hnone⟩
  | kthreadCreate =>
    obtain ⟨rfl, rfl⟩ := Prod.mk.inj (Option.some.inj h)
    have hsame : c.shared.setDone c.pool.length false = c.shared := by
      unfold Shared.setDone
      congr
      funext n
      split
      · rename_i heq
        rw [heq, hnew]
      · rfl
    rw [hsame]
    exact inv_start hI hI.tes (fun k => evolves_refl _) (fun n hn => .inl hn)
      ⟨hI.nodup, hI.free⟩ rfl rfl ⟨rfl, hnew, hnone⟩
  | world k =>
    simp only [enter] at h
    split at h
    · rename_i s₁ hstep
      obtain ⟨rfl, rfl⟩ := Prod.mk.inj (Option.some.inj h)
      obtain ⟨hdone, hreturned, hstrays⟩ := worldStep_frame hstep
      exact inv_start hI (worldStep_fits hstep hI.tes hI.single) (worldStep_evolves hstep)
        (fun n hn => (hdone n hn).imp_right fun hk => ⟨k, hk⟩)
        (worldStep_chain hstep (hI.tes k) hI.nodup hI.free) hreturned hstrays ⟨rfl, trivial⟩
    · cases h
  | signal k =>
    simp only [enter] at h
    split at h
    · obtain ⟨rfl, rfl⟩ := Prod.mk.inj (Option.some.inj h)
      simp only [orderly, Bool.or_eq_true, Bool.not_eq_true'] at hok
      exact inv_poke hI (.inl rfl) fun hthread =>
        hok.resolve_left (by simp [hthread])
    · cases h
  | wakeUpProcess k =>
    simp only [enter] at h
    split at h
    · rename_i hpublished
      obtain ⟨rfl, rfl⟩ := Prod.mk.inj (Option.some.inj h)
      exact inv_poke hI (.inr rfl) fun _ => hpublished
    · cases h

section Callers

variable {s s' : Shared} {t t' u : Thread} {a : Choice} {i j : Nat}

theorem construct_eq {me k : Nat} {kthread : Bool} (h : construct s me kthread = some (s', k)) :
    ∃ chain, s.taskFreeChain = k :: chain ∧ s' = { s with taskFreeChain := chain }.setTe k
      ⟨some me, false, kthread, 0, .none, 0, false, false⟩ := by
  unfold construct at h
  split at h
  · cases h
  · rename_i k' chain hchain
    obtain ⟨rfl, rfl⟩ := Prod.mk.inj (Option.some.inj h)
    exact ⟨chain, hchain, rfl⟩

/-- The step of a caller touches a descriptor that is free or its own. -/
def Touches (s s' : Shared) (i : Nat) : Prop :=
  ∀ k, s'.te k = s.te k ∨ ((s.te k).owner = none ∨ (s.te k).owner = some i) ∧
    ((s'.te k).owner = none ∨ (s'.te k).owner = some i)

theorem step_touches (h : step a s t = some (s', t')) (ht : t.Fits s i)
    (hfree : ∀ k ∈ s.taskFreeChain, (s.te k).owner = none) : Touches s s' i := by
  intro k
  obtain ⟨hme, hpc⟩ := ht
  unfold step destruct touch at h
  cases hcase : t.pc <;> simp only [hcase] at h hpc
  all_goals repeat' split at h
  all_goals simp only [Option.some.injEq, Prod.mk.injEq, reduceCtorEq] at h
  all_goals obtain ⟨rfl, -⟩ := h
  all_goals grind -linarith [Shared.setTe, Shared.setDone, Te.Mine, construct_eq]

theorem step_done (h : step a s t = some (s', t')) (hme : t.me = i) :
    (∀ n, n ≠ i → s'.done n = s.done n) ∧ (s'.done i = true → s.done i = true) := by
  unfold step destruct touch at h
  cases hcase : t.pc <;> simp only [hcase] at h
  all_goals repeat' split at h
  all_goals simp only [Option.some.injEq, Prod.mk.injEq, reduceCtorEq] at h
  all_goals obtain ⟨rfl, -⟩ := h
  all_goals grind -linarith [Shared.setTe, Shared.setDone, construct_eq]

/-- A call keeps what it knows while another one steps. -/
theorem Fits.other (hu : u.Fits s j) (hji : j ≠ i) (htouch : Touches s s' i)
    (hdone : s'.done j = s.done j) : u.Fits s' j := by
  have hmine : ∀ k, (s.te k).owner = some j → s'.te k = s.te k := by
    intro k hk
    rcases htouch k with hsame | ⟨hnone | hi, -⟩
    · exact hsame
    · rw [hnone] at hk
      cases hk
    · rw [hi, Option.some.injEq] at hk
      exact absurd hk.symm hji
  have hback : ∀ k, (s'.te k).owner = some j → s'.te k = s.te k := by
    intro k hk
    rcases htouch k with hsame | ⟨-, hnone | hi⟩
    · exact hsame
    · rw [hnone] at hk
      cases hk
    · rw [hi, Option.some.injEq] at hk
      exact absurd hk.symm hji
  obtain ⟨hme, hpc⟩ := hu
  refine ⟨hme, ?_⟩
  cases hcase : u.pc <;> simp only [hcase] at hpc ⊢
  case construct =>
    refine ⟨hdone.trans hpc.1, fun k hk => hpc.2 k ?_⟩
    rwa [hback k hk] at hk
  case worldCreate | writeComm | waitForCompletion | returnTask =>
    rw [hmine _ hpc.1.owner]
    exact hpc
  case readPid =>
    intro hk
    have hsame := hback _ hk
    rw [hsame] at hk ⊢
    exact hpc hk

theorem step_tes (h : step a s t = some (s', t')) (ht : t.Fits s i)
    (hfits : ∀ k, (s.te k).Fits s.done) (k : Nat) : (s'.te k).Fits s'.done := by
  have hk := hfits k
  have hte := hfits t.te
  obtain ⟨hme, hpc⟩ := ht
  unfold step destruct touch at h
  cases hcase : t.pc <;> simp only [hcase] at h hpc
  case construct =>
    split at h
    · rename_i s₁ k₁ hconstruct
      obtain ⟨rfl, -⟩ := Prod.mk.inj (Option.some.inj h)
      obtain ⟨chain, -, rfl⟩ := construct_eq hconstruct
      simp only [Shared.setTe]
      split
      · refine ⟨by simp, by simp, by simp, fun n hn htrue => ?_⟩
        obtain rfl := Option.some.inj hn
        rw [hme, hpc.1] at htrue
        cases htrue
      · exact hk
    · obtain ⟨rfl, -⟩ := Prod.mk.inj (Option.some.inj h)
      exact hk
  all_goals repeat' split at h
  all_goals simp only [Option.some.injEq, Prod.mk.injEq, reduceCtorEq] at h
  all_goals obtain ⟨rfl, -⟩ := h
  all_goals try simp only [Shared.setTe, Shared.setDone]
  all_goals try split
  all_goals constructor
  all_goals grind -linarith [Te.Fits, Te.Mine]

theorem step_fits (h : step a s t = some (s', t')) (ht : t.Fits s i)
    (hte : (s.te t.te).Fits s.done) : t'.Fits s' i := by
  obtain ⟨hme, hpc⟩ := ht
  unfold step destruct touch at h
  cases hcase : t.pc <;> simp only [hcase] at h hpc
  case construct =>
    split at h
    · rename_i s₁ k₁ hconstruct
      obtain ⟨rfl, rfl⟩ := Prod.mk.inj (Option.some.inj h)
      obtain ⟨chain, -, rfl⟩ := construct_eq hconstruct
      refine ⟨hme, ⟨?_, ?_, ?_⟩, ?_⟩ <;> simp [Shared.setTe, hme]
    · obtain ⟨-, rfl⟩ := Prod.mk.inj (Option.some.inj h)
      exact ⟨hme, trivial⟩
  case worldCreate =>
    obtain ⟨⟨howner, hkthread, hpublished⟩, -⟩ := hpc
    split at h
    · split at h
      · cases h
      · obtain ⟨rfl, rfl⟩ := Prod.mk.inj (Option.some.inj h)
        refine ⟨hme, ?_⟩
        cases hthread : t.kthread with
        | false => simp [Shared.setTe]
        | true =>
          simp only [Shared.setTe, if_true]
          exact ⟨⟨howner, hkthread.trans hthread, hpublished⟩, trivial, trivial⟩
    · obtain ⟨-, rfl⟩ := Prod.mk.inj (Option.some.inj h)
      exact ⟨hme, trivial⟩
  case writeComm =>
    obtain ⟨rfl, rfl⟩ := Prod.mk.inj (Option.some.inj h)
    rw [if_pos (hpc.1.owner.trans (congrArg some hme.symm))]
    exact ⟨hme, hpc⟩
  case waitForCompletion =>
    split at h
    · rename_i htrue
      obtain ⟨rfl, rfl⟩ := Prod.mk.inj (Option.some.inj h)
      obtain ⟨hmine, hthread, hworld⟩ := hpc
      -- the completion comes from a world that has stored its pid
      have hlate := hte.completed i hmine.owner (hme ▸ htrue) (hmine.thread.trans hthread)
      have hpid : (s.te t.te).pid = (s.te t.te).world :=
        (hte.stored.resolve_left (by rcases hlate with h | h | h <;> simp [h])).resolve_left
          (by rcases hlate with h | h | h <;> simp [h])
      exact ⟨hme, hmine, hthread, hpid.trans hworld, hworld⟩
    · cases h
  case readPid | returnTask =>
    obtain ⟨-, rfl⟩ := Prod.mk.inj (Option.some.inj h)
    exact ⟨hme, trivial⟩
  case done => cases h

theorem step_owner (h : step a s t = some (s', t')) (hme : t.me = i) (k n : Nat)
    (hk : (s'.te k).owner = some n) :
    (s.te k).owner = some n ∨ t.pc = .construct ∧ n = i ∧ k = t'.te := by
  unfold step destruct touch at h
  cases hcase : t.pc <;> simp only [hcase] at h
  case construct =>
    split at h
    · rename_i s₁ k₁ hconstruct
      obtain ⟨rfl, rfl⟩ := Prod.mk.inj (Option.some.inj h)
      obtain ⟨chain, -, rfl⟩ := construct_eq hconstruct
      grind -linarith [Shared.setTe]
    · obtain ⟨rfl, -⟩ := Prod.mk.inj (Option.some.inj h)
      exact .inl hk
  all_goals repeat' split at h
  all_goals simp only [Option.some.injEq, Prod.mk.injEq, reduceCtorEq] at h
  all_goals obtain ⟨rfl, -⟩ := h
  all_goals grind -linarith [Shared.setTe, Shared.setDone]

theorem step_chain (h : step a s t = some (s', t')) (ht : t.Fits s i)
    (hnodup : s.taskFreeChain.Nodup) (hfree : ∀ k ∈ s.taskFreeChain, (s.te k).owner = none) :
    s'.taskFreeChain.Nodup ∧ ∀ k ∈ s'.taskFreeChain, (s'.te k).owner = none := by
  obtain ⟨hme, hpc⟩ := ht
  unfold step destruct touch at h
  cases hcase : t.pc <;> simp only [hcase] at h hpc
  case construct =>
    split at h
    · rename_i s₁ k₁ hconstruct
      obtain ⟨rfl, -⟩ := Prod.mk.inj (Option.some.inj h)
      obtain ⟨chain, hchain, rfl⟩ := construct_eq hconstruct
      rw [hchain, List.nodup_cons] at hnodup
      refine ⟨hnodup.2, fun k hk => ?_⟩
      have hne : k ≠ k₁ := fun heq => hnodup.1 (heq ▸ hk)
      simp only [Shared.setTe, if_neg hne]
      exact hfree k (hchain ▸ List.mem_cons_of_mem _ hk)
    · obtain ⟨rfl, -⟩ := Prod.mk.inj (Option.some.inj h)
      exact ⟨hnodup, hfree⟩
  case worldCreate =>
    have hused : t.te ∉ s.taskFreeChain := fun hmem => by
      have hnone := hfree _ hmem
      rw [hpc.1.owner] at hnone
      cases hnone
    repeat' split at h
    all_goals simp only [Option.some.injEq, Prod.mk.injEq, reduceCtorEq] at h
    all_goals obtain ⟨rfl, -⟩ := h
    all_goals simp only [Shared.setTe]
    all_goals grind -linarith
  all_goals repeat' split at h
  all_goals simp only [Option.some.injEq, Prod.mk.injEq, reduceCtorEq] at h
  all_goals obtain ⟨rfl, -⟩ := h
  all_goals refine ⟨hnodup, fun k hk => ?_⟩
  all_goals grind -linarith [Shared.setTe, Shared.setDone]

/-- A pid that is returned is the world's, and no descriptor is touched that is not the call's. -/
theorem step_logs (h : step a s t = some (s', t')) (ht : t.Fits s i)
    (hte : (s.te t.te).Fits s.done)
    (hread : t.pc = .readPid →
      (s.te t.te).owner = some i ∧ (s.te t.te).pc ≠ .none ∧ (s.te t.te).pc ≠ .storePid) :
    s'.strays = s.strays ∧
      ∀ e ∈ s'.returned, e ∈ s.returned ∨ e.pid = e.world := by
  obtain ⟨hme, hpc⟩ := ht
  unfold step destruct touch at h
  cases hcase : t.pc <;> simp only [hcase] at h hpc
  case construct =>
    split at h
    · rename_i s₁ k₁ hconstruct
      obtain ⟨rfl, -⟩ := Prod.mk.inj (Option.some.inj h)
      obtain ⟨chain, -, rfl⟩ := construct_eq hconstruct
      exact ⟨rfl, fun e he => .inl he⟩
    · obtain ⟨rfl, -⟩ := Prod.mk.inj (Option.some.inj h)
      exact ⟨rfl, fun e he => .inl he⟩
  case readPid =>
    obtain ⟨howner, hnone, hstore⟩ := hread hcase
    have hpid := (hte.stored.resolve_left hnone).resolve_left hstore
    obtain ⟨rfl, -⟩ := Prod.mk.inj (Option.some.inj h)
    rw [hme, if_pos howner]
    refine ⟨rfl, fun e he => ?_⟩
    rcases List.mem_cons.mp he with rfl | hold
    · exact .inr (hpid.trans (hpc howner))
    · exact .inl hold
  case writeComm =>
    obtain ⟨rfl, -⟩ := Prod.mk.inj (Option.some.inj h)
    rw [hme, if_pos hpc.1.owner]
    exact ⟨rfl, fun e he => .inl he⟩
  case returnTask =>
    obtain ⟨rfl, -⟩ := Prod.mk.inj (Option.some.inj h)
    refine ⟨rfl, fun e he => ?_⟩
    rcases List.mem_cons.mp he with rfl | hold
    · exact .inr hpc.2.2.1
    · exact .inl hold
  all_goals repeat' split at h
  all_goals simp only [Option.some.injEq, Prod.mk.injEq, reduceCtorEq] at h
  all_goals obtain ⟨rfl, -⟩ := h
  all_goals exact ⟨rfl, fun e he => .inl he⟩

end Callers

/-! ### Whole runs -/

theorem inv_step {c : Config Shared Thread} {s' : Shared} {t t' : Thread} {i : Nat} {a : Choice}
    (hI : Inv c) (hi : c.pool[i]? = some t) (h : step a c.shared t = some (s', t'))
    (hok : orderly c (.act i a) = true) : Inv ⟨s', c.pool.set i t'⟩ := by
  have ht := hI.callers i t hi
  have hlt := (List.getElem?_eq_some_iff.mp hi).1
  simp only [orderly, hi, decide_eq_true_eq] at hok
  obtain ⟨hother, hself⟩ := step_done h ht.1
  obtain ⟨hstrays, hreturned⟩ := step_logs h ht (hI.tes _) hok
  obtain ⟨hnodup, hfree⟩ := step_chain h ht hI.nodup hI.free
  have hnew : t.pc = .construct → ∀ k, (c.shared.te k).owner ≠ some i := by
    intro hpc
    have hfits := ht.2
    simp only [hpc] at hfits
    exact hfits.2
  refine ⟨step_tes h ht hI.tes, ?_, hnodup, hfree, ?_, ?_, ?_, ?_, hstrays.trans hI.strays⟩
  · intro j k n hj hk
    rcases step_owner h ht.1 j n hj with hj' | ⟨hpc, rfl, rfl⟩
    · rcases step_owner h ht.1 k n hk with hk' | ⟨hpc, rfl, rfl⟩
      · exact hI.single j k n hj' hk'
      · exact absurd hj' (hnew hpc j)
    · rcases step_owner h ht.1 k n hk with hk' | ⟨-, -, hkt⟩
      · exact absurd hk' (hnew hpc k)
      · exact hkt.symm
  · intro k n hk
    rw [List.length_set]
    rcases step_owner h ht.1 k n hk with hk' | ⟨-, rfl, -⟩
    · exact hI.born k n hk'
    · exact hlt
  · intro n hn
    rw [List.length_set] at hn
    rw [hother n (by omega)]
    exact hI.unborn n hn
  · refine hI.callers.set (fun j u hji _ hu => ?_) (step_fits h ht (hI.tes _))
    exact Fits.other hu hji (step_touches h ht hI.free) (hother j hji)
  · exact fun e he => (hreturned e he).elim (hI.returned e) id

theorem inv_of_reach {maxWorlds junk : Nat} {c : Config Shared Thread}
    (h : machine.Reach (fun c e => orderly c e = true) (initial maxWorlds junk) c) : Inv c := by
  refine Machine.Reach.invariant Inv ?_ ?_ ?_ h
  · exact ⟨fun k => ⟨fun _ => rfl, .inl rfl, by simp [initial], by simp [initial]⟩,
      by simp [initial], List.pairwise_reverse.mpr (List.nodup_range.imp Ne.symm), fun _ _ => rfl,
      by simp [initial], fun _ _ => rfl, each_nil _, by simp [initial], rfl⟩
  · intro c call s' t _ hI hok hs
    exact inv_enter hI hs hok
  · intro c i a t s' t' _ hI hok hi hs
    exact inv_step hI hi hs hok

/-- **The callers get the worlds that they have made**, `kernel_thread` by its id and
    `kthread_create` by a task with that pid, and touch no descriptor that is free, where the
    tasks wait for them. -/
theorem identity_of_reach {maxWorlds junk : Nat} {c : Config Shared Thread}
    (h : machine.Reach (fun c e => orderly c e = true) (initial maxWorlds junk) c) :
    (∀ e ∈ c.shared.returned, e.pid = e.world) ∧ c.shared.strays = [] :=
  have hI := inv_of_reach h
  ⟨hI.returned, hI.strays⟩

/-- Two threads, the second of which is woken and runs to its end. -/
theorem identity_of_reach_kthread :
    ∃ c, machine.Reach (fun c e => orderly c e = true) (initial 2 5) c ∧
      (c.shared.returned, c.shared.taskFreeChain) = ([⟨12, 12⟩, ⟨11, 11⟩], [0]) ∧
      (∀ e ∈ c.shared.returned, e.pid = e.world) ∧ c.shared.strays = [] := by
  obtain ⟨c, hc, ho⟩ := machine.exists_reach_of_runIf orderly
    [.start .kernelThread, .act 0 none, .act 0 (some 11), .start (.world 1), .start (.world 1),
      .act 0 none, .start .kthreadCreate, .act 3 none, .act 3 (some 12), .start (.world 0),
      .start (.world 0), .start (.world 0), .act 3 none, .act 3 none, .act 3 none,
      .start (.wakeUpProcess 0), .start (.world 0), .start (.world 0), .start (.world 0)]
    (initial 2 5) (fun c => (c.shared.returned, c.shared.taskFreeChain))
    ([⟨12, 12⟩, ⟨11, 11⟩], [0]) (by decide)
  exact ⟨c, hc, ho, identity_of_reach hc⟩

/-- `kernel_thread` returns 0 when the new world has not run; it reads a descriptor whose world is
    gone; and `kthread_create` writes into one, when a signal has ended the thread. -/
theorem identity_lost :
    (∃ c, machine.Reachable (initial 1 5) c ∧ c.shared.returned = [⟨0, 11⟩]) ∧
    (∃ c, machine.Reachable (initial 1 5) c ∧
      (c.shared.returned, c.shared.strays) = ([⟨11, 11⟩], [0])) ∧
    ∃ c, machine.Reachable (initial 1 5) c ∧
      (c.pool[0]?.map fun t => (t.kthread, t.pc), c.shared.strays) =
        (some (true, .waitForCompletion), [0]) := by
  refine ⟨?_, ?_, ?_⟩
  · exact machine.exists_reachable_of_run
      [.start .kernelThread, .act 0 none, .act 0 (some 11), .act 0 none] (initial 1 5) _ _
      (by decide)
  · exact machine.exists_reachable_of_run
      [.start .kernelThread, .act 0 none, .act 0 (some 11), .start (.world 0), .start (.world 0),
        .start (.world 0), .start (.world 0), .act 0 none] (initial 1 5) _ _ (by decide)
  · exact machine.exists_reachable_of_run
      [.start .kthreadCreate, .act 0 none, .act 0 (some 11), .start (.world 0), .start (.world 0),
        .start (.world 0), .start (.signal 0), .start (.world 0), .start (.world 0),
        .start (.world 0), .act 0 none] (initial 1 5) _ _ (by decide)

end VmkLinux.Task.Create
