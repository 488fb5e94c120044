/-
  VmkLinux/Scsi/TaskMgmt.lean
  ===========================
  **The state of a host during task management** (`vmklinux26/vmware/linux_scsi_vmk_if.c`,
  `linux_scsi.c`): `SCSILinuxTaskMgmt`, the tests of `shost_state` in
  `SCSILinuxQueueCommand`, and a removal that sets `SHOST_CANCEL`.

  `tmfFlag` counts the resets; it is changed outside `host_lock`, which guards the state.
  Each operation on the flag and each section of the lock is one step, save the section of
  `SCSILinuxQueueCommand`, which has the driver's `queuecommand` in it.

  The last reset to leave writes `SHOST_RUNNING`, and a reset that came in after its
  decrement has its `SHOST_RECOVERY` overwritten.  No write looks at what is there, so a
  `SHOST_CANCEL` is lost to any reset that has still to write.  `recovery_while_resetting`
  has these as its condition; that a host without resets and removals is running holds in
  every run (`running_of_reach`).
-/
import VmkLinux.Interleave
import VmkLinux.Scsi.States

namespace VmkLinux.Scsi.TaskMgmt

open VmkLinux.Interleave

/-! ### Data -/

/-- `vmkTaskMgmt->type`. -/
inductive TmType where
  | abort
  | lunReset
  | deviceReset
  | busReset
  | virtReset
deriving DecidableEq, Repr

structure Shared where
  state : HostState
  tmfFlag : Int
  hostLock : Bool
deriving DecidableEq, Repr

inductive Pc where
  -- SCSILinuxTaskMgmt
  | taskMgmt
  | setRecovery
  | resetCommand
  | decFlag
  | setRunning
  -- the removal of the host
  | setCancel
  -- SCSILinuxQueueCommand
  | testCancel
  | lock
  | testRecovery
  | queueCommand
  | unlock
  | done
deriving DecidableEq, Repr

inductive Call where
  | taskMgmt (type : TmType)
  | removeHost
  | queueCommand
deriving DecidableEq, Repr

structure Thread where
  pc : Pc
  call : Call
deriving DecidableEq, Repr

/-- `blocked`: one of the other tests of `SCSILinuxQueueCommand` turns the command away. -/
structure Choice where
  blocked : Bool := false
deriving DecidableEq, Repr

/-! ### Steps -/

/-- A destructive reset, of a unit, a target or a bus. -/
def Call.isReset : Call → Bool
  | .taskMgmt .lunReset | .taskMgmt .deviceReset | .taskMgmt .busReset => true
  | _ => false

def enter (call : Call) (s : Shared) : Option (Shared × Thread) :=
  match call with
  | .taskMgmt _ => some (s, { pc := .taskMgmt, call := call })
  | .removeHost => some (s, { pc := .setCancel, call := call })
  | .queueCommand => some (s, { pc := .testCancel, call := call })

def step (a : Choice) (s : Shared) (t : Thread) : Option (Shared × Thread) :=
  match t.pc with
  | .taskMgmt =>
      -- SCSILinuxAbortCommands leaves the state of the host alone
      if t.call.isReset then
        some ({ s with tmfFlag := s.tmfFlag + 1 }, { t with pc := .setRecovery })
      else some (s, { t with pc := .done })
  | .setRecovery =>
      if s.hostLock then none
      else some ({ s with state := .recovery }, { t with pc := .resetCommand })
  | .resetCommand => some (s, { t with pc := .decFlag })
  | .decFlag =>
      if s.tmfFlag - 1 = 0 then
        some ({ s with tmfFlag := s.tmfFlag - 1 }, { t with pc := .setRunning })
      else some ({ s with tmfFlag := s.tmfFlag - 1 }, { t with pc := .done })
  | .setRunning =>
      if s.hostLock then none else some ({ s with state := .running }, { t with pc := .done })
  | .setCancel => some ({ s with state := .cancel }, { t with pc := .done })
  | .testCancel =>
      if s.state = .cancel then some (s, { t with pc := .done })
      else some (s, { t with pc := .lock })
  | .lock =>
      if s.hostLock then none
      else some ({ s with hostLock := true }, { t with pc := .testRecovery })
  | .testRecovery =>
      if a.blocked ∨ s.state = .recovery then some (s, { t with pc := .unlock })
      else some (s, { t with pc := .queueCommand })
  | .queueCommand => some (s, { t with pc := .unlock })
  | .unlock => some ({ s with hostLock := false }, { t with pc := .done })
  | .done => none

def machine : Machine Shared Thread Call Choice where
  start _ := enter
  act := step

def initial : Config Shared Thread where
  shared := { state := .running, tmfFlag := 0, hostLock := false }
  pool := []

/-- Thread `i` takes `k` steps. -/
def acts (i k : Nat) : List (Event Call Choice) := List.replicate k (.act i {})

/-! ### Where a thread is -/

/-- Between `SHOST_RECOVERY` and the decrement of the flag. -/
def Thread.resetting (t : Thread) : Nat :=
  match t.pc with
  | .resetCommand | .decFlag => 1
  | _ => 0

/-- Between the increment and the decrement of the flag. -/
def Thread.flagged (t : Thread) : Nat :=
  match t.pc with
  | .setRecovery | .resetCommand | .decFlag => 1
  | _ => 0

/-- Past the decrement that found zero. -/
def Thread.leaving (t : Thread) : Nat :=
  match t.pc with
  | .setRunning => 1
  | _ => 0

/-- A reset in progress. -/
def Thread.inReset (t : Thread) : Nat :=
  match t.pc with
  | .taskMgmt => if t.call.isReset then 1 else 0
  | .setRecovery | .resetCommand | .decFlag | .setRunning => 1
  | _ => 0

/-- About to hand a command to the driver. -/
def Thread.handing (t : Thread) : Nat :=
  match t.pc with
  | .queueCommand => 1
  | _ => 0

def Thread.locking (t : Thread) : Nat :=
  match t.pc with
  | .testRecovery | .queueCommand | .unlock => 1
  | _ => 0

/-- A removal that has started. -/
def Thread.removal (t : Thread) : Nat :=
  match t.call with
  | .removeHost => 1
  | _ => 0

/-- `SHOST_RUNNING` is written when no reset is between its `SHOST_RECOVERY` and its
    decrement; `SHOST_CANCEL` is set when no reset is in progress; and none begins after
    that. -/
def keptApart (c : Config Shared Thread) : Event Call Choice → Bool
  | .start call => decide (call.isReset = true → c.shared.state ≠ .cancel)
  | .act i _ =>
      match c.pool[i]? with
      | some t =>
          match t.pc with
          | .setRunning => decide (∀ u ∈ c.pool, u.resetting = 0)
          | .setCancel => decide (∀ u ∈ c.pool, u.inReset = 0)
          | _ => true
      | none => true

/-! ### The flag and the lock -/

/-- What holds in every run; `sum` is the sum of a weight over all threads. -/
structure Flagged (s : Shared) (sum : (Thread → Nat) → Nat) : Prop where
  tmfFlag : s.tmfFlag = sum Thread.flagged
  lock : sum Thread.locking = if s.hostLock then 1 else 0
  state : s.state = .running ∨ s.state = .recovery ∨ s.state = .cancel
  recovery : s.state = .recovery → 0 < sum Thread.flagged + sum Thread.leaving
  cancel : s.state = .cancel → 0 < sum Thread.removal

section Step

variable {a : Choice} {s s' : Shared} {t t' : Thread} {rest : (Thread → Nat) → Nat}

theorem step_flagged (h : step a s t = some (s', t'))
    (hcall : t.pc = .setCancel → t.call = .removeHost) (hI : Flagged s fun w => rest w + w t) :
    (t'.pc = .setCancel → t'.call = .removeHost) ∧ Flagged s' fun w => rest w + w t' := by
  obtain ⟨hflag, hlock, hstate, hrecovery, hcancel⟩ := hI
  unfold step at h
  cases hpc : t.pc
  all_goals simp only [hpc] at h
  all_goals repeat' split at h
  all_goals simp only [Option.some.injEq, Prod.mk.injEq, reduceCtorEq] at h
  all_goals obtain ⟨rfl, rfl⟩ := h
  all_goals refine ⟨by simp, ?_⟩
  all_goals constructor
  all_goals simp only [Thread.flagged, Thread.locking, Thread.leaving, Thread.removal, hpc] at *
  all_goals grind -linarith

/-! ### The state -/

/-- What the state of the host stands for. -/
structure Guarded (s : Shared) (sum : (Thread → Nat) → Nat) : Prop where
  resetting : 0 < sum Thread.resetting → s.state = .recovery ∨ s.state = .cancel
  cancel : s.state = .cancel → sum Thread.inReset = 0
  handing : 0 < sum Thread.handing → sum Thread.resetting = 0

theorem step_guarded (h : step a s t = some (s', t')) (hF : Flagged s fun w => rest w + w t)
    (hle : rest Thread.handing ≤ rest Thread.locking)
    (hle' : rest Thread.resetting ≤ rest Thread.inReset)
    (hrunning : t.pc = .setRunning → rest Thread.resetting = 0)
    (hcancel : t.pc = .setCancel → rest Thread.inReset = 0)
    (hI : Guarded s fun w => rest w + w t) : Guarded s' fun w => rest w + w t' := by
  have hlock := hF.lock
  obtain ⟨hresetting, hcanc, hhanding⟩ := hI
  unfold step at h
  cases hpc : t.pc
  all_goals simp only [hpc] at h hrunning hcancel
  all_goals repeat' split at h
  all_goals simp only [Option.some.injEq, Prod.mk.injEq, reduceCtorEq] at h
  all_goals obtain ⟨rfl, rfl⟩ := h
  all_goals constructor
  all_goals simp only [Thread.resetting, Thread.inReset, Thread.handing, Thread.locking,
    hpc] at *
  all_goals grind -linarith

/-- Only a reset takes the host out of `SHOST_CANCEL`. -/
theorem step_cancel (h : step a s t = some (s', t')) (hreset : t.inReset = 0)
    (hs : s.state = .cancel) : s'.state = .cancel := by
  unfold step at h
  cases hpc : t.pc
  all_goals simp only [Thread.inReset, hpc, Nat.one_ne_zero] at hreset
  all_goals simp only [hpc] at h
  all_goals repeat' split at h
  all_goals simp only [Option.some.injEq, Prod.mk.injEq, reduceCtorEq] at h
  all_goals obtain ⟨rfl, rfl⟩ := h
  all_goals first | exact hs | rfl

end Step

/-! ### Whole runs -/

structure Managed (c : Config Shared Thread) : Prop where
  call : Each (fun _ t => t.pc = .setCancel → t.call = .removeHost) c.pool
  flagged : Flagged c.shared fun w => total w c.pool

theorem managed_of_reach {ok : Config Shared Thread → Event Call Choice → Prop}
    {c : Config Shared Thread} (h : machine.Reach ok initial c) : Managed c := by
  refine Machine.Reach.invariant Managed ?_ ?_ ?_ h
  · refine ⟨each_nil _, ?_⟩
    constructor <;> simp [initial]
  · intro c call s t _ ⟨hcall, hI⟩ _ hs
    obtain ⟨hflag, hlock, hstate, hrecovery, hcancel⟩ := hI
    cases call <;> simp only [machine, enter, Option.some.injEq, Prod.mk.injEq] at hs
    all_goals obtain ⟨rfl, rfl⟩ := hs
    all_goals refine ⟨hcall.append (fun _ _ _ hu => hu) (by simp), ?_⟩
    all_goals simp only [total_append]
    all_goals refine ⟨?_, ?_, hstate, ?_, ?_⟩
    all_goals simp only [Thread.flagged, Thread.locking, Thread.leaving, Thread.removal] at *
    all_goals grind -linarith
  · intro c i a t s t' _ ⟨hcall, hI⟩ _ hi hs
    simp only [total_eq_others _ hi] at hI
    obtain ⟨hcall', hI'⟩ := step_flagged hs (hcall i t hi) hI
    refine ⟨hcall.set (fun _ _ _ _ hu => hu) hcall', ?_⟩
    simp only [total_set _ _ hi]
    exact hI'

/-- The zero that the last decrement finds gives what `keptApart` asks of the write after it,
    when nothing comes in between. -/
theorem keptApart_of_zero {ok : Config Shared Thread → Event Call Choice → Prop}
    {c : Config Shared Thread} {i : Nat} {a a' : Choice} {t t' : Thread} {s : Shared}
    (h : machine.Reach ok initial c) (hi : c.pool[i]? = some t) (hpc : t.pc = .decFlag)
    (hzero : c.shared.tmfFlag - 1 = 0) (hstep : step a c.shared t = some (s, t')) :
    keptApart ⟨s, c.pool.set i t'⟩ (.act i a') = true := by
  have hflag := (managed_of_reach h).flagged.tmfFlag
  rw [total_eq_others _ hi] at hflag
  have hmine : t.flagged = 1 := by simp [Thread.flagged, hpc]
  have hle : others Thread.resetting c.pool i ≤ others Thread.flagged c.pool i :=
    mono_others c.pool i _ _ fun u => by
      simp only [Thread.resetting, Thread.flagged]
      cases u.pc <;> simp
  simp only [step, hpc, hzero, if_true, Option.some.injEq, Prod.mk.injEq] at hstep
  obtain ⟨rfl, rfl⟩ := hstep
  have hlt := (List.getElem?_eq_some_iff.mp hi).1
  simp only [keptApart, List.getElem?_set_self hlt, decide_eq_true_eq]
  intro u hu
  rcases eq_or_exists_of_mem_set hu with rfl | ⟨j, hji, hj⟩
  · rfl
  · have hu := le_others Thread.resetting hji hj
    omega

/-- Without resets and removals the host is running, in every run. -/
theorem running_of_reach {ok : Config Shared Thread → Event Call Choice → Prop}
    {c : Config Shared Thread} (h : machine.Reach ok initial c)
    (hreset : total Thread.inReset c.pool = 0) (hremoval : total Thread.removal c.pool = 0) :
    c.shared.state = .running := by
  obtain ⟨-, -, -, hstate, hrecovery, hcancel⟩ := managed_of_reach h
  have hle : total (fun t => t.flagged + t.leaving) c.pool ≤ total Thread.inReset c.pool := by
    apply total_le_total
    intro t _
    simp only [Thread.flagged, Thread.leaving, Thread.inReset]
    cases t.pc <;> simp
  rw [total_add] at hle
  rcases hstate with hs | hs | hs
  · exact hs
  · have hpos := hrecovery hs
    omega
  · have hpos := hcancel hs
    omega

theorem guarded_of_reach {c : Config Shared Thread}
    (h : machine.Reach (fun c e => keptApart c e = true) initial c) :
    Guarded c.shared fun w => total w c.pool := by
  refine Machine.Reach.invariant (fun c => Guarded c.shared fun w => total w c.pool) ?_ ?_ ?_ h
  · constructor <;> simp [initial]
  · intro c call s t _ hI hok hs
    obtain ⟨hresetting, hcancel, hhanding⟩ := hI
    simp only [keptApart, decide_eq_true_eq] at hok
    cases call <;> simp only [machine, enter, Option.some.injEq, Prod.mk.injEq] at hs
    all_goals obtain ⟨rfl, rfl⟩ := hs
    all_goals simp only [total_append]
    all_goals constructor
    all_goals simp only [Thread.resetting, Thread.inReset, Thread.handing] at *
    all_goals grind -linarith
  · intro c i a t s t' hc hI hok hi hs
    have hF := (managed_of_reach hc).flagged
    simp only [total_eq_others _ hi] at hI hF
    simp only [keptApart, hi] at hok
    simp only [total_set _ _ hi]
    have hmono := mono_others c.pool i
    refine step_guarded hs hF (hmono _ _ ?_) (hmono _ _ ?_) ?_ ?_ hI
    · intro u
      simp only [Thread.handing, Thread.locking]
      cases u.pc <;> simp
    · intro u
      simp only [Thread.resetting, Thread.inReset]
      cases u.pc <;> simp
    · intro hpc
      simp only [hpc, decide_eq_true_eq] at hok
      exact others_eq_zero hi hok
    · intro hpc
      simp only [hpc, decide_eq_true_eq] at hok
      exact others_eq_zero hi hok

theorem cancel_of_reach {c c' : Config Shared Thread}
    (h : machine.Reach (fun c e => keptApart c e = true) initial c)
    (hs : c.shared.state = .cancel) (h' : machine.Reach (fun c e => keptApart c e = true) c c') :
    c'.shared.state = .cancel := by
  refine Machine.Reach.invariant (fun c => c.shared.state = .cancel) hs ?_ ?_ h'
  · intro c call s t _ hI _ hstart
    cases call <;> simp only [machine, enter, Option.some.injEq, Prod.mk.injEq] at hstart
    all_goals obtain ⟨rfl, rfl⟩ := hstart
    all_goals exact hI
  · intro c i a t s t' hc hI _ hi hstep
    have hnone := (guarded_of_reach (h.trans hc)).cancel hI
    have hle := le_total Thread.inReset hi
    exact step_cancel hstep (by omega) hI

/-- **The host during resets.**  In every run in which the writes of the state keep apart:
    while a reset is between its `SHOST_RECOVERY` and its decrement, the state is that or
    `SHOST_CANCEL` and no command is being handed to the driver; with no reset in progress
    and no removal the host is running; and `SHOST_CANCEL` stays. -/
theorem recovery_while_resetting {c : Config Shared Thread}
    (h : machine.Reach (fun c e => keptApart c e = true) initial c) :
    (0 < total Thread.resetting c.pool →
      (c.shared.state = .recovery ∨ c.shared.state = .cancel) ∧
        ∀ t ∈ c.pool, t.pc ≠ .queueCommand) ∧
    (total Thread.inReset c.pool = 0 → total Thread.removal c.pool = 0 →
      c.shared.state = .running) ∧
    (c.shared.state = .cancel →
      ∀ c', machine.Reach (fun c e => keptApart c e = true) c c' → c'.shared.state = .cancel) := by
  obtain ⟨hresetting, -, hhanding⟩ := guarded_of_reach h
  refine ⟨fun hpos => ⟨hresetting hpos, fun t ht hpc => ?_⟩, running_of_reach h,
    fun hs _ h' => cancel_of_reach h hs h'⟩
  obtain ⟨i, hi⟩ := List.mem_iff_getElem?.mp ht
  have hmine : t.handing = 1 := by simp [Thread.handing, hpc]
  have hle := le_total Thread.handing hi
  have hnone := hhanding (by omega)
  omega

/-- Two resets overlap, and a command that comes meanwhile is turned away. -/
theorem recovery_while_resetting_two :
    ∃ c, machine.Reach (fun c e => keptApart c e = true) initial c ∧
      0 < total Thread.resetting c.pool ∧
      (c.shared.state = .recovery ∨ c.shared.state = .cancel) ∧
      ∀ t ∈ c.pool, t.pc ≠ .queueCommand := by
  obtain ⟨c, hc, ho⟩ := machine.exists_reach_of_runIf keptApart
    (List.flatten [[.start (.taskMgmt .lunReset)], acts 0 2, [.start (.taskMgmt .busReset)],
      acts 1 2, acts 0 2, [.start .queueCommand], acts 2 3])
    initial (fun c => total Thread.resetting c.pool) 1 (by decide)
  have hpos : 0 < total Thread.resetting c.pool := by omega
  exact ⟨c, hc, hpos, (recovery_while_resetting hc).1 hpos⟩

/-- Three runs.  A reset that begins between another's last decrement and its write has its
    `SHOST_RECOVERY` overwritten, and a command is handed to the driver in the middle of it.
    A reset that is in progress when `SHOST_CANCEL` is set ends with the host running.  A
    command passes the test of `SHOST_CANCEL`, which is set and hides a reset from it. -/
theorem running_while_resetting :
    (∃ c, machine.Reachable initial c ∧ c.shared.state = .running ∧
      0 < total Thread.resetting c.pool ∧ ∃ t ∈ c.pool, t.pc = .queueCommand) ∧
    (∃ c c', machine.Reachable initial c ∧ c.shared.state = .cancel ∧ machine.Reachable c c' ∧
      c'.shared.state = .running) ∧
    ∃ c, machine.Reachable initial c ∧ c.shared.state = .cancel ∧
      0 < total Thread.resetting c.pool ∧ ∃ t ∈ c.pool, t.pc = .queueCommand := by
  refine ⟨?_, ?_, ?_⟩
  · obtain ⟨c, hc, ho⟩ := machine.exists_reachable_of_run
      (List.flatten [[.start (.taskMgmt .lunReset)], acts 0 4, [.start (.taskMgmt .busReset)],
        acts 1 2, acts 0 1, [.start .queueCommand], acts 2 3])
      initial
      (fun c => (c.shared.state, total Thread.resetting c.pool,
        c.pool.any fun t => decide (t.pc = .queueCommand))) (.running, 1, true) (by decide)
    simp only [Prod.mk.injEq, List.any_eq_true, decide_eq_true_eq] at ho
    exact ⟨c, hc, ho.1, by omega, ho.2.2⟩
  · obtain ⟨c, c₁, c', hc, hs, hexec, hc', hs'⟩ := machine.exists_stages
      (List.flatten [[.start (.taskMgmt .lunReset)], acts 0 2, [.start .removeHost], acts 1 1])
      (.act 0 {}) (acts 0 2) initial (fun c => c.shared.state) .cancel
      (fun c => c.shared.state) .running (by decide) (by decide)
    exact ⟨c, c', hc, hs, (Machine.Reach.step .init trivial hexec).trans hc', hs'⟩
  · obtain ⟨c, hc, ho⟩ := machine.exists_reachable_of_run
      (List.flatten [[.start .queueCommand], acts 0 1, [.start (.taskMgmt .lunReset)], acts 1 2,
        [.start .removeHost], acts 2 1, acts 0 2])
      initial
      (fun c => (c.shared.state, total Thread.resetting c.pool,
        c.pool.any fun t => decide (t.pc = .queueCommand))) (.cancel, 1, true) (by decide)
    simp only [Prod.mk.injEq, List.any_eq_true, decide_eq_true_eq] at ho
    exact ⟨c, hc, ho.1, by omega, ho.2.2⟩

end VmkLinux.Scsi.TaskMgmt
