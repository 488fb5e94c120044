/-
  VmkLinux/Scsi/InternalCommand.lean
  ==================================
  **One internal SCSI command** (`vmklinux26/vmware/linux_scsi_lld_if.c` and `linux_scsi.c`):
  `scsi_execute`, the driver, `SCSILinuxInternalCommandDone`, `SCSILinuxBH` with
  `SCSILinuxDVCommandDone`, `SCSILinuxCmdTimedOut`, and `SCSIProcessCmdTimedOut` with
  `SCSILinuxAbortCommand`, in any order.

  Nobody else knows the command before `queuecommand` is called, so `scsi_execute` is one step up
  to there, the start of the timer included.  A section under `vmklock` is one step.  The driver
  may complete a command as often as it likes, also before `queuecommand` returns.
  `scsi_delete_timer` does not wait for a timeout that is under way.

  `VMK_FLAGS_CMDDONE_ATTEMPTED` is set by `SCSILinuxCmdDone` only, never for an internal command.

  Completion and timeout race for `VMK_FLAGS_NEED_CMDDONE`, and the winner calls `up`: unless the
  driver has no `eh_abort_handler` (`internal_command_not_woken`).  After the `up` of the timeout
  the work still uses the command, which `scsi_execute` may have freed
  (`internal_command_used_after_free`).
-/
import VmkLinux.Interleave
import Mathlib.Data.Int.Basic

namespace VmkLinux.Scsi.InternalCommand

open VmkLinux.Interleave

/-! ### Data -/

/-- The command, its timer, its semaphore and the busy counts.  `bhList` and `work` say that the
    command is on a list of completions, and in the queued `linuxSCSIIO_work`; `handed` that the
    driver has it.  `ups`, `completed`, `fired` and `usedAfterFree` are not in the source. -/
structure Shared where
  ehAbortHandler : Bool
  allocated : Bool := false
  freed : Bool := false
  needCmddone : Bool := false
  delayCmddone : Bool := false
  serialNumber : Nat := 0
  result : BitVec 32 := 0
  timer : Bool := false
  handed : Bool := false
  bhList : Bool := false
  work : Bool := false
  sem : Nat := 0
  hostBusy : Int := 0
  deviceBusy : Int := 0
  ups : Nat := 0
  completed : Bool := false
  fired : Bool := false
  usedAfterFree : Bool := false
deriving DecidableEq, Repr

inductive Pc where
  /-- `scsi_execute`. -/
  | queue
  | queued
  | refused
  | deleteTimer
  | down
  | woken
  | unbusy
  | free
  /-- `SCSILinuxInternalCommandDone`. -/
  | done
  | schedule
  /-- `SCSILinuxDVCommandDone`. -/
  | dvDone
  | up
  /-- `SCSILinuxCmdTimedOut`. -/
  | timedOut
  | queueWork
  /-- `SCSIProcessCmdTimedOut`, with `SCSILinuxAbortCommand`. -/
  | abort
  | abortSuccess
  | abortFailed
  | endDelay
  | returned
deriving DecidableEq, Repr

/-- `result` is what the driver completes the command with, `ret` what `scsi_execute` returns. -/
structure Thread where
  pc : Pc
  result : BitVec 32 := 0
  ret : BitVec 32 := 0
deriving DecidableEq, Repr

inductive Call where
  | scsiExecute (serial : Nat)
  | complete (result : BitVec 32)
  | bottomHalf
  | timeout
  | processTimedOut
deriving DecidableEq, Repr

def didOk : BitVec 32 := 0
def didTimeOut : BitVec 32 := 3
def driverError : BitVec 32 := 4

/-! ### The parties -/

/-- An access to the command. -/
def Shared.touch (s : Shared) : Shared := { s with usedAfterFree := s.usedAfterFree || s.freed }

/-- `up` of the semaphore of the command. -/
def Shared.up (s : Shared) : Shared := { s with sem := s.sem + 1, ups := s.ups + 1 }

def enter (_ : Nat) (call : Call) (s : Shared) : Option (Shared × Thread) :=
  match call with
  | .scsiExecute serial =>
      if s.allocated then none
      else
        some
          ({ s with
              allocated := true
              serialNumber := serial
              needCmddone := true
              hostBusy := s.hostBusy + 1
              deviceBusy := s.deviceBusy + 1
              timer := true },
            { pc := .queue, ret := driverError <<< 24 })
  | .complete result =>
      if s.handed then some ({ s with completed := true }, { pc := .done, result := result })
      else none
  | .bottomHalf =>
      if s.bhList then some ({ s.touch with bhList := false }, { pc := .dvDone }) else none
  | .timeout =>
      if s.timer then some ({ s with timer := false, fired := true }, { pc := .timedOut }) else none
  | .processTimedOut =>
      if s.work then some ({ s with work := false }, { pc := .abort }) else none

/-- `accepts` says what `queuecommand` and `eh_abort_handler` return. -/
def step (accepts : Bool) (s : Shared) (t : Thread) : Option (Shared × Thread) :=
  match t.pc with
  | .queue => some ({ s with handed := true }, { t with pc := .queued })
  | .queued =>
      if accepts then some (s, { t with pc := .down })
      else some ({ s with handed := false }, { t with pc := .refused })
  | .refused =>
      if s.needCmddone then some (s, { t with pc := .deleteTimer })
      else some (s, { t with pc := .down })
  | .deleteTimer => some ({ s with timer := false }, { t with pc := .unbusy })
  | .down =>
      if 0 < s.sem then some ({ s with sem := s.sem - 1 }, { t with pc := .woken }) else none
  | .woken => some (s, { t with pc := .unbusy, ret := if s.result = didOk then 0 else t.ret })
  | .unbusy =>
      some ({ s with hostBusy := s.hostBusy - 1, deviceBusy := s.deviceBusy - 1 },
        { t with pc := .free })
  | .free => some ({ s with freed := true }, { t with pc := .returned })
  | .done =>
      if s.needCmddone then
        some ({ s.touch with result := t.result, serialNumber := 0, needCmddone := false },
          { t with pc := .schedule })
      else some ({ s.touch with result := t.result }, { t with pc := .returned })
  | .schedule => some ({ s.touch with bhList := true }, { t with pc := .returned })
  | .dvDone => some ({ s.touch with timer := false }, { t with pc := .up })
  | .up => some (s.touch.up, { t with pc := .returned })
  | .timedOut =>
      if s.needCmddone then
        if s.delayCmddone then some (s.touch, { t with pc := .returned })
        else
          some ({ s.touch with delayCmddone := true, needCmddone := false, serialNumber := 0 },
            { t with pc := .queueWork })
      else some (s.touch, { t with pc := .returned })
  | .queueWork => some ({ s with work := true }, { t with pc := .returned })
  -- `SCSILinuxTryAbortCommand`
  | .abort =>
      if s.ehAbortHandler = false then some (s.touch, { t with pc := .abortFailed })
      else if s.serialNumber = 0 then some (s.touch, { t with pc := .abortSuccess })
      else some (s.touch, { t with pc := if accepts then .abortSuccess else .abortFailed })
  | .abortSuccess =>
      some ({ s.touch.up with result := didTimeOut <<< 16, serialNumber := 0 },
        { t with pc := .endDelay })
  | .abortFailed => some (s.touch, { t with pc := .endDelay })
  | .endDelay => some ({ s.touch with delayCmddone := false }, { t with pc := .returned })
  | .returned => none

def machine : Machine Shared Thread Call Bool := ⟨enter, step⟩

def initial (ehAbortHandler : Bool) : Config Shared Thread :=
  ⟨{ ehAbortHandler := ehAbortHandler }, []⟩

/-! ### The protocol -/

/-- The code of the completion, the timeout or the bottom half has still to access the command. -/
def Thread.accesses (t : Thread) : Nat :=
  match t.pc with
  | .done | .schedule | .dvDone | .up | .timedOut | .queueWork | .abort | .abortSuccess
  | .abortFailed | .endDelay => 1
  | _ => 0

/-- Completion, timeout and bottom half have nothing to do. -/
def quiet (c : Config Shared Thread) : Bool :=
  !c.shared.bhList && !c.shared.work && c.pool.all fun t => t.accesses = 0

/-- `up` is called once for a command that is completed or times out, and wakes `scsi_execute`;
    the counts are balanced when it has returned; and the command is not used after that. -/
structure Protocol (c : Config Shared Thread) : Prop where
  atMostOnce : c.shared.ups ≤ 1
  once : quiet c = true → (c.shared.completed = true ∨ c.shared.fired = true) → c.shared.ups = 1
  wakes : ∀ t ∈ c.pool, t.pc = .down → c.shared.ups = 1 → 0 < c.shared.sem
  balanced : c.shared.freed = true → c.shared.hostBusy = 0 ∧ c.shared.deviceBusy = 0
  safe : c.shared.usedAfterFree = false

/-- `scsi_execute` finds the command that the driver refuses neither completed nor timed out, or
    with its flag cleared; and it does not come through `down` while the work of the timeout, which
    has called `up`, has still to clear `VMK_FLAGS_DELAY_CMDDONE`. -/
def inTurn (c : Config Shared Thread) (t : Thread) : Bool :=
  match t.pc with
  | .refused => !c.shared.needCmddone || (!c.shared.completed && !c.shared.fired)
  | .down => c.pool.all fun u => u.pc ≠ .endDelay
  | _ => true

/-- The driver completes the command at most once, and only before its timer fires.  The timer
    fires only while a driver that can abort has the command and has not completed it. -/
def orderly (c : Config Shared Thread) : Event Call Bool → Bool
  | .start (.complete _) => !c.shared.completed && !c.shared.fired
  | .start .timeout => c.shared.handed && !c.shared.completed && c.shared.ehAbortHandler
  | .start (.scsiExecute _) | .start .bottomHalf | .start .processTimedOut => true
  | .act i _ =>
      match c.pool[i]? with
      | some t => inTurn c t
      | none => true

/-! ### The invariant -/

/-- A call of `up` is still to come. -/
def Thread.willUp (t : Thread) : Nat :=
  match t.pc with
  | .schedule | .dvDone | .up | .queueWork | .abort | .abortSuccess => 1
  | _ => 0

/-- The flag has still to be looked at. -/
def Thread.willTest (t : Thread) : Nat :=
  match t.pc with
  | .done | .timedOut => 1
  | _ => 0

/-- `scsi_execute` has not come through `down`. -/
def Thread.waits (t : Thread) : Nat :=
  match t.pc with
  | .queue | .queued | .refused | .down => 1
  | _ => 0

/-- `scsi_execute` has counted the command as busy. -/
def Thread.busy (t : Thread) : Nat :=
  match t.pc with
  | .queue | .queued | .refused | .deleteTimer | .down | .woken | .unbusy => 1
  | _ => 0

def Thread.frees (t : Thread) : Nat :=
  match t.pc with
  | .free => 1
  | _ => 0

/-- `scsi_execute` is past the point where it needs anybody. -/
def Thread.settled (t : Thread) : Nat :=
  match t.pc with
  | .deleteTimer | .woken | .unbusy => 1
  | _ => 0

/-- The driver has refused the command. -/
def Thread.refused (t : Thread) : Nat :=
  match t.pc with
  | .refused => 1
  | _ => 0

/-- The timeout has taken the command. -/
def Thread.takes (t : Thread) : Nat :=
  match t.pc with
  | .queueWork | .abort => 1
  | _ => 0

def Thread.timesOut (t : Thread) : Nat :=
  match t.pc with
  | .timedOut => 1
  | _ => 0

def Thread.failed (t : Thread) : Nat :=
  match t.pc with
  | .abortFailed => 1
  | _ => 0

/-- Completion and timeout share one turn (`active`, `exclusive`), which ends before `scsi_execute`
    is past `down` (`past`). -/
structure Inv (s : Shared) (sum : (Thread → Nat) → Nat) : Prop where
  once : s.ups + s.bhList.toNat + s.work.toNat + sum Thread.willUp + s.needCmddone.toNat =
    s.allocated.toNat
  sem : 0 < sum Thread.waits → s.sem = s.ups
  timer : 0 < s.timer.toNat → s.fired.toNat = 0
  able : 0 < sum Thread.timesOut → s.ehAbortHandler.toNat = 1
  taken : 0 < s.work.toNat + sum Thread.takes → s.ehAbortHandler.toNat = 1 ∧ s.serialNumber = 0
  failed : sum Thread.failed = 0
  delay : 0 < s.delayCmddone.toNat → s.needCmddone.toNat = 0
  busy : s.hostBusy = sum Thread.busy ∧ s.deviceBusy = sum Thread.busy
  unique : sum Thread.busy + sum Thread.frees + s.freed.toNat = s.allocated.toNat
  fresh : s.allocated.toNat = 0 → s.sem = 0 ∧ s.delayCmddone.toNat = 0
  handed : s.handed.toNat ≤ s.allocated.toNat
  refused : 0 < sum Thread.refused → s.handed.toNat = 0
  active : sum Thread.accesses + s.bhList.toNat + s.work.toNat ≤
    s.completed.toNat + s.fired.toNat
  exclusive : s.completed.toNat + s.fired.toNat ≤ 1
  untested : 0 < sum Thread.willTest → s.needCmddone.toNat = 1
  pristine : s.completed.toNat + s.fired.toNat = 0 → s.needCmddone.toNat = s.allocated.toNat
  answered : 0 < s.completed.toNat + s.fired.toNat →
    s.allocated.toNat = 1 ∧ (0 < s.needCmddone.toNat → 0 < sum Thread.willTest)
  past : 0 < sum Thread.settled + sum Thread.frees + s.freed.toNat →
    s.bhList.toNat = 0 ∧ s.work.toNat = 0 ∧ sum Thread.accesses = 0 ∧
      (s.handed.toNat = 0 ∨ s.completed.toNat + s.fired.toNat = 1)
  safe : s.usedAfterFree = false

section Step

variable {s s' : Shared} {t t' : Thread} {accepts : Bool} {rest : (Thread → Nat) → Nat}

theorem touch_of_live (h : s.freed.toNat = 0) : s.touch = s := by
  have hsame : (s.usedAfterFree || s.freed) = s.usedAfterFree := by
    rw [Bool.toNat_eq_zero.mp h, Bool.or_false]
  unfold Shared.touch
  rw [hsame]

theorem waits_le_busy (t : Thread) : t.waits ≤ t.busy := by
  cases hpc : t.pc <;> simp [Thread.waits, Thread.busy, hpc]

theorem refused_le_busy (t : Thread) : t.refused ≤ t.busy := by
  cases hpc : t.pc <;> simp [Thread.refused, Thread.busy, hpc]

theorem settled_le_busy (t : Thread) : t.settled ≤ t.busy := by
  cases hpc : t.pc <;> simp [Thread.settled, Thread.busy, hpc]

theorem takes_le_willUp (t : Thread) : t.takes ≤ t.willUp := by
  cases hpc : t.pc <;> simp [Thread.takes, Thread.willUp, hpc]

theorem willUp_le (t : Thread) : t.willUp ≤ t.accesses := by
  cases hpc : t.pc <;> simp [Thread.willUp, Thread.accesses, hpc]

theorem willTest_le (t : Thread) : t.willTest ≤ t.accesses := by
  cases hpc : t.pc <;> simp [Thread.willTest, Thread.accesses, hpc]

/-- What a thread that uses the command has still to do, unless it ends the work of the timeout. -/
theorem accesses_le {t : Thread} (h : t.pc ≠ .endDelay) :
    t.accesses ≤ t.willUp + (t.willTest + t.failed) := by
  cases hpc : t.pc
  case endDelay => exact absurd hpc h
  all_goals simp [Thread.accesses, Thread.willUp, Thread.willTest, Thread.failed, hpc]

section Fields

variable (hI : Inv s fun w => rest w + w t) (h : step accepts s t = some (s', t'))
include hI h

/-- A call of `up` that is to come is made, or passed on. -/
theorem step_once : s'.ups + s'.bhList.toNat + s'.work.toNat + (rest Thread.willUp + t'.willUp) +
    s'.needCmddone.toNat = s'.allocated.toNat := by
  have honce := hI.once
  have htaken := hI.taken
  have hone := Bool.toNat_le s.allocated
  obtain ⟨pc, result, ret⟩ := t
  cases pc
  all_goals dsimp only [step] at h
  all_goals repeat' split at h
  all_goals cases h
  all_goals try exact honce
  all_goals dsimp only [Thread.willUp, Thread.takes, Shared.touch, Shared.up, Bool.toNat_true,
    Bool.toNat_false] at honce htaken ⊢
  case done.isTrue.refl hneed | timedOut.isTrue.isFalse.refl hneed _ =>
    rw [hneed, Bool.toNat_true] at honce
    omega
  case abort.isTrue.refl hno =>
    rw [hno] at htaken
    exact absurd (htaken (Nat.succ_pos _)).1 (by decide)
  case abort.isFalse.isFalse.isFalse.refl hserial _ =>
    exact absurd (htaken (Nat.succ_pos _)).2 hserial
  all_goals clear htaken; omega

/-- The busy counts, and who frees the command. -/
theorem step_counts : (s'.hostBusy = (rest Thread.busy + t'.busy : Nat) ∧
      s'.deviceBusy = (rest Thread.busy + t'.busy : Nat)) ∧
    rest Thread.busy + t'.busy + (rest Thread.frees + t'.frees) + s'.freed.toNat =
      s'.allocated.toNat ∧ s'.handed.toNat ≤ s'.allocated.toNat := by
  have hbusy := hI.busy
  have hunique := hI.unique
  have hhanded := hI.handed
  have hone := Bool.toNat_le s.allocated
  obtain ⟨pc, result, ret⟩ := t
  cases pc
  all_goals dsimp only [step] at h
  all_goals repeat' split at h
  all_goals cases h
  all_goals try exact ⟨hbusy, hunique, hhanded⟩
  all_goals dsimp only [Thread.busy, Thread.frees, Bool.toNat_true, Bool.toNat_false]
    at hbusy hunique ⊢
  all_goals omega

theorem step_sem (hrest : Mono rest) :
    0 < rest Thread.waits + t'.waits → s'.sem = s'.ups := by
  have hsem := hI.sem
  have hunique := hI.unique
  have hwaits := hrest _ _ waits_le_busy
  have hone := Bool.toNat_le s.allocated
  obtain ⟨pc, result, ret⟩ := t
  cases pc
  all_goals dsimp only [step] at h
  all_goals repeat' split at h
  all_goals cases h
  all_goals try exact hsem
  all_goals dsimp only [Thread.waits, Thread.busy, Shared.touch, Shared.up] at hsem hunique ⊢
  all_goals omega

/-- The timer goes off in a call of its own. -/
theorem step_timer : 0 < s'.timer.toNat → s'.fired.toNat = 0 := by
  have htimer := hI.timer
  clear hI
  obtain ⟨pc, result, ret⟩ := t
  cases pc
  all_goals dsimp only [step] at h
  all_goals repeat' split at h
  all_goals cases h
  all_goals try exact htimer
  all_goals exact fun h => absurd h (Nat.lt_irrefl 0)

theorem step_fresh : s'.allocated.toNat = 0 → s'.sem = 0 ∧ s'.delayCmddone.toNat = 0 := by
  have hactive := hI.active
  have hanswered := hI.answered
  have hunique := hI.unique
  have hset : 0 < t.accesses + t.busy + t.frees → s.allocated.toNat ≠ 0 := by omega
  clear hI hactive hanswered hunique
  obtain ⟨pc, result, ret⟩ := t
  cases pc
  all_goals dsimp only [step] at h
  all_goals repeat' split at h
  all_goals cases h
  all_goals exact fun hnone => absurd hnone (hset (Nat.succ_pos _))

/-- The timeout takes the command of a driver that can abort, so that the abort succeeds. -/
theorem step_taken : (0 < rest Thread.timesOut + t'.timesOut → s'.ehAbortHandler.toNat = 1) ∧
    (0 < s'.work.toNat + (rest Thread.takes + t'.takes) →
      s'.ehAbortHandler.toNat = 1 ∧ s'.serialNumber = 0) ∧
    rest Thread.failed + t'.failed = 0 := by
  have hable := hI.able
  have htaken := hI.taken
  have hfailed := hI.failed
  clear hI
  obtain ⟨pc, result, ret⟩ := t
  cases pc
  all_goals dsimp only [step] at h
  all_goals repeat' split at h
  all_goals cases h
  all_goals try exact ⟨hable, htaken, hfailed⟩
  all_goals dsimp only [Thread.timesOut, Thread.takes, Thread.failed, Shared.touch, Shared.up,
    Bool.toNat_true] at hable htaken hfailed ⊢
  case timedOut.isTrue.isFalse.refl =>
    have heh := hable (Nat.succ_pos _)
    exact ⟨fun _ => heh, fun _ => ⟨heh, rfl⟩, hfailed⟩
  case queueWork.refl => exact ⟨hable, fun _ => htaken (Nat.succ_pos _), hfailed⟩
  case done.isTrue.refl | abortSuccess.refl =>
    exact ⟨hable, fun hpos => ⟨(htaken hpos).1, rfl⟩, hfailed⟩
  case abort.isTrue.refl hno =>
    rw [hno] at htaken
    exact absurd (htaken (Nat.succ_pos _)).1 (by decide)
  case abort.isFalse.isFalse.isFalse.refl hserial _ =>
    exact absurd (htaken (Nat.succ_pos _)).2 hserial
  case abort.isFalse.isTrue.refl | abort.isFalse.isFalse.isTrue.refl =>
    exact ⟨hable, fun _ => htaken (Nat.succ_pos _), hfailed⟩
  case abortFailed.refl => exact absurd hfailed (Nat.succ_ne_zero _)
  all_goals exact ⟨fun _ => hable (Nat.succ_pos _), htaken, hfailed⟩

theorem step_delay : 0 < s'.delayCmddone.toNat → s'.needCmddone.toNat = 0 := by
  have hdelay := hI.delay
  clear hI
  obtain ⟨pc, result, ret⟩ := t
  cases pc
  all_goals dsimp only [step] at h
  all_goals repeat' split at h
  all_goals cases h
  all_goals try exact hdelay
  case done.isTrue.refl | timedOut.isTrue.isFalse.refl => exact fun _ => rfl
  case endDelay.refl => exact fun hpos => absurd hpos (Nat.lt_irrefl 0)

/-- Completion and timeout have one turn between them, in which the flag is cleared. -/
theorem step_active (hrest : Mono rest) :
    rest Thread.accesses + t'.accesses + s'.bhList.toNat + s'.work.toNat ≤
      s'.completed.toNat + s'.fired.toNat ∧ s'.completed.toNat + s'.fired.toNat ≤ 1 ∧
    (0 < rest Thread.willTest + t'.willTest → s'.needCmddone.toNat = 1) := by
  have hactive := hI.active
  have hexclusive := hI.exclusive
  have huntested := hI.untested
  have htests := hrest _ _ willTest_le
  clear hI
  obtain ⟨pc, result, ret⟩ := t
  cases pc
  all_goals dsimp only [step] at h
  all_goals repeat' split at h
  all_goals cases h
  all_goals try exact ⟨hactive, hexclusive, huntested⟩
  all_goals dsimp only [Thread.accesses, Thread.willTest, Shared.touch, Shared.up,
    Bool.toNat_true, Bool.toNat_false] at hactive huntested ⊢
  all_goals omega

/-- Only `scsi_execute` sees the flag as it set it; a completion or a timeout clears it. -/
theorem step_pristine :
    (s'.completed.toNat + s'.fired.toNat = 0 → s'.needCmddone.toNat = s'.allocated.toNat) ∧
    (0 < s'.completed.toNat + s'.fired.toNat → s'.allocated.toNat = 1 ∧
      (0 < s'.needCmddone.toNat → 0 < rest Thread.willTest + t'.willTest)) := by
  have hpristine := hI.pristine
  have hanswered := hI.answered
  have hdelay := hI.delay
  have huse : 0 < t.accesses → s.completed.toNat + s.fired.toNat ≠ 0 := by
    have hactive := hI.active
    omega
  clear hI
  obtain ⟨pc, result, ret⟩ := t
  cases pc
  all_goals dsimp only [step] at h
  all_goals repeat' split at h
  all_goals cases h
  all_goals try exact ⟨hpristine, hanswered⟩
  all_goals refine ⟨fun hnone => absurd hnone (huse (Nat.succ_pos _)), fun hdone =>
    ⟨(hanswered hdone).1, fun hpos => ?_⟩⟩
  case timedOut.isTrue.isTrue.refl hneed hdelayed =>
    rw [hneed, hdelayed] at hdelay
    exact absurd (hdelay Nat.one_pos) Nat.one_ne_zero
  case done.isTrue.refl | timedOut.isTrue.isFalse.refl => exact absurd hpos (Nat.lt_irrefl 0)
  case done.isFalse.refl hneed | timedOut.isFalse.refl hneed =>
    have hzero : s.needCmddone.toNat = 0 := Bool.toNat_eq_zero.mpr (eq_false_of_ne_true hneed)
    exact absurd hpos (Nat.not_lt.mpr (Nat.le_of_eq hzero))

theorem step_refused (hrest : Mono rest) :
    0 < rest Thread.refused + t'.refused → s'.handed.toNat = 0 := by
  have hrefused := hI.refused
  have hunique := hI.unique
  have hbusy := hrest _ _ refused_le_busy
  have hone := Bool.toNat_le s.allocated
  clear hI
  obtain ⟨pc, result, ret⟩ := t
  cases pc
  all_goals dsimp only [step] at h
  all_goals repeat' split at h
  all_goals cases h
  all_goals try exact hrefused
  case queued.isFalse.refl => exact fun _ => rfl
  all_goals dsimp only [Thread.refused, Thread.busy] at hrefused hunique ⊢
  all_goals omega

/-- The command is not used after it was freed: `scsi_execute` comes to that point when completion
    and timeout have had their turn. -/
theorem step_past (hrest : Mono rest)
    (hrefuse : t.pc = .refused → s.needCmddone = true →
      s.completed.toNat + s.fired.toNat = 0)
    (hdown : t.pc = .down →
      rest Thread.accesses ≤ rest Thread.willUp + (rest Thread.willTest + rest Thread.failed)) :
    (0 < rest Thread.settled + t'.settled + (rest Thread.frees + t'.frees) + s'.freed.toNat →
      s'.bhList.toNat = 0 ∧ s'.work.toNat = 0 ∧ rest Thread.accesses + t'.accesses = 0 ∧
        (s'.handed.toNat = 0 ∨ s'.completed.toNat + s'.fired.toNat = 1)) ∧
    s'.usedAfterFree = false := by
  obtain ⟨honce, hsem, -, -, -, hfailed, -, -, hunique, -, -, hrefused, hactive, hexclusive,
    huntested, hpristine, -, hpast, hsafe⟩ := hI
  have hsettled := hrest _ _ settled_le_busy
  have hone := Bool.toNat_le s.allocated
  have hlive : 0 < t.accesses → s.freed = false := by
    intro haccess
    rw [← Bool.toNat_eq_zero]
    omega
  obtain ⟨pc, result, ret⟩ := t
  cases pc
  all_goals dsimp only [step] at h
  all_goals repeat' split at h
  all_goals cases h
  all_goals try exact ⟨hpast, hsafe⟩
  all_goals dsimp only [Thread.settled, Thread.busy, Thread.frees, Thread.refused, Thread.waits,
    Thread.willUp, Thread.willTest, Thread.failed, Thread.accesses, Bool.toNat_false,
    Bool.toNat_true] at hsem honce hunique hrefused hactive hpast hlive hfailed ⊢
  case queue.refl =>
    refine ⟨fun hpos => ?_, hsafe⟩
    omega
  case queued.isFalse.refl =>
    refine ⟨fun hpos => ?_, hsafe⟩
    exact ⟨(hpast hpos).1, (hpast hpos).2.1, (hpast hpos).2.2.1, .inl rfl⟩
  case refused.isTrue.refl hneed =>
    specialize hrefuse rfl hneed
    specialize hrefused (Nat.succ_pos _)
    refine ⟨fun _ => ?_, hsafe⟩
    omega
  case down.isTrue.refl hup =>
    specialize hdown rfl
    specialize hsem (Nat.succ_pos _)
    refine ⟨fun _ => ?_, hsafe⟩
    omega
  case unbusy.refl | free.refl =>
    refine ⟨fun _ => ?_, hsafe⟩
    exact hpast (by omega)
  all_goals
    have hfalse := hlive Nat.one_pos
    refine ⟨fun hpos => ?_, ?_⟩
    · have hzero := hpast hpos
      exact absurd hzero.2.2.1 (Nat.succ_ne_zero _)
    · simp only [Shared.touch, Shared.up, hsafe, hfalse, Bool.or_false]

end Fields

theorem inv_step (hI : Inv s fun w => rest w + w t) (hrest : Mono rest)
    (hrefuse : t.pc = .refused → s.needCmddone = true →
      s.completed.toNat + s.fired.toNat = 0)
    (hdown : t.pc = .down →
      rest Thread.accesses ≤ rest Thread.willUp + (rest Thread.willTest + rest Thread.failed))
    (h : step accepts s t = some (s', t')) : Inv s' fun w => rest w + w t' := by
  obtain ⟨hbusy, hunique, hhanded⟩ := step_counts hI h
  obtain ⟨hable, htaken, hfailed⟩ := step_taken hI h
  obtain ⟨hactive, hexclusive, huntested⟩ := step_active hI h hrest
  obtain ⟨hpristine, hanswered⟩ := step_pristine hI h
  obtain ⟨hpast, hsafe⟩ := step_past hI h hrest hrefuse hdown
  exact
    { once := step_once hI h
      sem := step_sem hI h hrest
      timer := step_timer hI h
      able := hable
      taken := htaken
      failed := hfailed
      delay := step_delay hI h
      busy := hbusy
      unique := hunique
      fresh := step_fresh hI h
      handed := hhanded
      refused := step_refused hI h hrest
      active := hactive
      exclusive := hexclusive
      untested := huntested
      pristine := hpristine
      answered := hanswered
      past := hpast
      safe := hsafe }

theorem inv_enter (me : Nat) {call : Call} {sum : (Thread → Nat) → Nat} (hI : Inv s sum)
    (hsum : Mono sum)
    (hcomplete : ∀ result, call = .complete result → s.completed.toNat + s.fired.toNat = 0)
    (htimeout : call = .timeout → s.handed.toNat = 1 ∧ s.completed.toNat = 0 ∧
      s.ehAbortHandler.toNat = 1)
    (h : enter me call s = some (s', t')) : Inv s' fun w => sum w + w t' := by
  have htakes := hsum _ _ takes_le_willUp
  have hsettled := hsum _ _ settled_le_busy
  have hrefuses := hsum _ _ refused_le_busy
  have hone := Bool.toNat_le s.allocated
  obtain ⟨honce, hsem, htimer, hable, htaken, hfailed, hdelay, hbusy, hunique, hfresh, hhanded,
    hrefused, hactive, hexclusive, huntested, hpristine, hanswered, hpast, hsafe⟩ := hI
  cases call
  all_goals dsimp only [enter] at h
  all_goals split at h
  all_goals cases h
  case' scsiExecute.isFalse.refl serial hnot =>
    have hnone : s.allocated.toNat = 0 := Bool.toNat_eq_zero.mpr (eq_false_of_ne_true hnot)
    obtain ⟨hsem, hdelay⟩ := hfresh hnone
  case' complete.isTrue.refl result hhand =>
    have hnot := hcomplete result rfl
    have hhas : s.handed.toNat = 1 := Bool.toNat_eq_one.mpr hhand
  case' bottomHalf.isTrue.refl hlist =>
    rw [hlist, Bool.toNat_true] at honce hactive hpast
    have hlive : s.freed.toNat = 0 := by omega
    rw [touch_of_live hlive]
  case' timeout.isTrue.refl htime =>
    obtain ⟨hhand, hnot, heh⟩ := htimeout rfl
    rw [htime, Bool.toNat_true] at htimer
    specialize htimer Nat.one_pos
  case' processTimedOut.isTrue.refl hwork =>
    rw [hwork, Bool.toNat_true] at honce hactive htaken hpast
  all_goals constructor
  all_goals try assumption
  all_goals dsimp only [Thread.waits, Thread.willUp, Thread.willTest, Thread.busy, Thread.frees,
    Thread.settled, Thread.refused, Thread.timesOut, Thread.failed, Thread.takes, Thread.accesses,
    Bool.toNat_true, Bool.toNat_false]
  all_goals omega

end Step

/-! ### Whole runs -/

theorem inv_of_reach {eh : Bool} {c : Config Shared Thread}
    (h : machine.Reach (fun c e => orderly c e = true) (initial eh) c) :
    Inv c.shared fun w => total w c.pool := by
  refine h.invariant (fun c => Inv c.shared fun w => total w c.pool) ?_ ?_ ?_
  · constructor
    all_goals simp [initial]
  · intro c call g t _ hI hok hs
    have hcomplete : ∀ result, call = .complete result →
        c.shared.completed.toNat + c.shared.fired.toNat = 0 := by
      rintro result rfl
      simp only [orderly, Bool.and_eq_true, Bool.not_eq_true'] at hok
      rw [hok.1, hok.2]
      rfl
    have htimeout : call = .timeout → c.shared.handed.toNat = 1 ∧
        c.shared.completed.toNat = 0 ∧ c.shared.ehAbortHandler.toNat = 1 := by
      rintro rfl
      simp only [orderly, Bool.and_eq_true, Bool.not_eq_true'] at hok
      rw [hok.1.1, hok.1.2, hok.2]
      exact ⟨rfl, rfl, rfl⟩
    simpa only [total_append] using
      inv_enter c.pool.length hI (mono_total c.pool) hcomplete htimeout hs
  · intro c i a t g t' _ hI hok ht hs
    have hI' : Inv c.shared fun w => others w c.pool i + w t := by
      simpa only [total_eq_others _ ht] using hI
    have hrefuse : t.pc = .refused → c.shared.needCmddone = true →
        c.shared.completed.toNat + c.shared.fired.toNat = 0 := by
      intro hpc hneed
      simp only [orderly, inTurn, ht, hpc, hneed, Bool.not_true, Bool.false_or, Bool.and_eq_true,
        Bool.not_eq_true'] at hok
      rw [hok.1, hok.2]
      rfl
    have hdown : t.pc = .down → others Thread.accesses c.pool i ≤
        others Thread.willUp c.pool i +
          (others Thread.willTest c.pool i + others Thread.failed c.pool i) := by
      intro hpc
      simp only [orderly, inTurn, ht, hpc, List.all_eq_true, decide_eq_true_eq] at hok
      rw [← others_add, ← others_add]
      exact others_le_others fun j u _ hj => accesses_le (hok u (List.mem_of_getElem? hj))
    have hstep := inv_step hI' (mono_others c.pool i) hrefuse hdown hs
    simpa only [total_set _ t' ht] using hstep

/-- **The protocol of an internal command** in a run whose steps are orderly. -/
theorem internal_command_protocol {eh : Bool} {c : Config Shared Thread}
    (h : machine.Reach (fun c e => orderly c e = true) (initial eh) c) : Protocol c := by
  obtain ⟨honce, hsem, -, -, -, -, -, hbusy, hunique, -, -, -, -, -, -, -, hanswered, -, hsafe⟩ :=
    inv_of_reach h
  have hone := Bool.toNat_le c.shared.allocated
  refine ⟨by omega, fun hquiet hdone => ?_, fun t ht hpc hup => ?_, fun hfreed => ?_, hsafe⟩
  · simp only [quiet, Bool.and_eq_true, Bool.not_eq_true', List.all_eq_true, decide_eq_true_eq]
      at hquiet
    obtain ⟨⟨hlist, hwork⟩, hall⟩ := hquiet
    have hup : total Thread.willUp c.pool = 0 := by
      exact total_eq_zero fun t ht => Nat.le_zero.mp (hall t ht ▸ willUp_le t)
    have htest : total Thread.willTest c.pool = 0 := by
      exact total_eq_zero fun t ht => Nat.le_zero.mp (hall t ht ▸ willTest_le t)
    have hpos : 0 < c.shared.completed.toNat + c.shared.fired.toNat := by
      rcases hdone with hdone | hdone
      · rw [hdone, Bool.toNat_true]
        omega
      · rw [hdone, Bool.toNat_true]
        omega
    rw [hlist, hwork, Bool.toNat_false] at honce
    omega
  · obtain ⟨i, hi⟩ := List.mem_iff_getElem?.mp ht
    have hle := le_total Thread.waits hi
    simp only [Thread.waits, hpc] at hle
    omega
  · rw [hfreed, Bool.toNat_true] at hunique
    omega

/-- The command times out; the driver can abort, and the work is done before `scsi_execute` goes
    on. -/
theorem internal_command_protocol_timed_out :
    ∃ c, machine.Reach (fun c e => orderly c e = true) (initial true) c ∧
      (c.shared.freed, c.shared.fired, c.shared.ups, c.shared.hostBusy) = (true, true, 1, 0) ∧
      Protocol c := by
  obtain ⟨c, hc, ho⟩ := machine.exists_reach_of_runIf orderly
    [.start (.scsiExecute 7), .act 0 true, .act 0 true, .start .timeout, .act 1 true, .act 1 true,
      .start .processTimedOut, .act 2 true, .act 2 true, .act 2 true,
      .act 0 true, .act 0 true, .act 0 true, .act 0 true]
    (initial true) (fun c => (c.shared.freed, c.shared.fired, c.shared.ups, c.shared.hostBusy))
    (true, true, 1, 0) (by decide)
  exact ⟨c, hc, ho, internal_command_protocol hc⟩

/-- A driver without `eh_abort_handler` loses the command: its timer fires, and nobody calls
    `up`. -/
theorem internal_command_not_woken :
    ∃ c, machine.Reachable (initial false) c ∧ ¬ Protocol c := by
  obtain ⟨c, hc, ho⟩ := machine.exists_reachable_of_run
    [.start (.scsiExecute 7), .act 0 true, .act 0 true, .start .timeout, .act 1 true, .act 1 true,
      .start .processTimedOut, .act 2 true, .act 2 true, .act 2 true]
    (initial false) (fun c => (quiet c, c.shared.fired, c.shared.ups)) (true, true, 0)
    (by decide)
  simp only [Prod.mk.injEq] at ho
  obtain ⟨hquiet, hfired, hups⟩ := ho
  refine ⟨c, hc, fun hprotocol => ?_⟩
  have hone := hprotocol.once hquiet (Or.inr hfired)
  rw [hups] at hone
  exact Nat.zero_ne_one hone

/-- After the `up` of the timeout `scsi_execute` frees the command before the work is done. -/
theorem internal_command_used_after_free :
    ∃ c, machine.Reachable (initial true) c ∧ c.shared.usedAfterFree = true :=
  machine.exists_reachable_of_run
    [.start (.scsiExecute 7), .act 0 true, .act 0 true, .start .timeout, .act 1 true, .act 1 true,
      .start .processTimedOut, .act 2 true, .act 2 true,
      .act 0 true, .act 0 true, .act 0 true, .act 0 true, .act 2 true]
    (initial true) _ _ (by decide)

end VmkLinux.Scsi.InternalCommand
