/-
  VmkLinux/Time/Timers.lean
  =========================
  **Timers, delayed work and timeouts** (`vmklinux26/vmware/linux_time.c`, `linux_workqueue.c`,
  `linux_task.c`): `__add_timer`, `__mod_timer`, `del_timer`, `queue_delayed_work` and
  `__schedule_timeout`.

  Time passes in microseconds, between any two steps; `jiffies` is a 64-bit counter that advances
  once in `JIFFIES_TO_USEC(1)` of them.  The VMkernel runs the handler of a timer at any time from
  its timeout on.  A task in `__schedule_timeout` is uninterruptible, and nobody but its timer
  wakes it.

  A timeout is a product that wraps at 64 bits and is then cut to `INT_MAX` microseconds, a little
  less than 214749 jiffies.  Only `__schedule_timeout` looks at `jiffies` again and goes on
  waiting.  Where a timer is set no further than that (`orderly`), nothing is early
  (`not_early`).

  `ticks`, which is `jiffies` without the wrapping, `Arming.due` and the lists `ran`, `queued` and
  `returned` are not in the source: they say what is to be waited for, and what there was when the
  waiting was over.
-/
import Mathlib.Algebra.Group.Int.Defs
import Mathlib.Algebra.Group.Nat.Defs
import VmkLinux.Interleave

namespace VmkLinux.Time

open VmkLinux.Interleave

/-! ### Jiffies and microseconds -/

def jiffiesToUsec (j : Nat) : Nat := j * 10000 % 2 ^ 64

def intMax : Nat := 2 ^ 31 - 1

def longMax : Nat := 2 ^ 63 - 1

/-- The jiffies of a time in microseconds. -/
def ticks (time : Nat) : Nat := time / 10000

def jiffies (time : Nat) : Nat := ticks time % 2 ^ 64

/-- The timeout that `__add_timer` and `__mod_timer` ask for. -/
def timeoutUsec (expires now : Nat) : Nat :=
  min (if expires ≤ now then jiffiesToUsec 1 else jiffiesToUsec (expires - now)) intMax

/-- `timeout - jiffies` in `unsigned long`. -/
def wrappingSub (x y : Nat) : Nat := (x + (2 ^ 64 - y)) % 2 ^ 64

/-- The difference is not positive as a `signed long`. -/
def notPositive (diff : Nat) : Bool := decide (diff = 0 ∨ 2 ^ 63 ≤ diff)

/-! ### Data -/

/-- Whose timer it is: a driver's, that of a delayed work, or that of a task which waits. -/
inductive Owner where
  | driver (timer : Nat)
  | work (dwork : Nat)
  | task (pid : Nat)
deriving DecidableEq, Repr

/-- A pending timer of the VMkernel: `due` is the jiffy that it is set for. -/
structure Arming where
  deadline : Nat
  due : Nat
deriving DecidableEq, Repr

/-- What was waited for, and the jiffy in which the waiting was over. -/
structure Entry where
  due : Nat
  ended : Nat
deriving DecidableEq, Repr

structure Shared where
  time : Nat
  timer : Owner → Option Arming
  /-- `__WORK_PENDING`. -/
  pending : Nat → Bool
  /-- `LTE_RESUME` in the events of a task. -/
  resume : Nat → Bool
  ran : List Entry
  queued : List Entry
  returned : List Entry

def Shared.setTimer (s : Shared) (o : Owner) (a : Option Arming) : Shared :=
  { s with timer := fun p => if p = o then a else s.timer p }

def Shared.setPending (s : Shared) (w : Nat) (b : Bool) : Shared :=
  { s with pending := fun v => if v = w then b else s.pending v }

def Shared.setResume (s : Shared) (pid : Nat) (b : Bool) : Shared :=
  { s with resume := fun q => if q = pid then b else s.resume q }

inductive Pc where
  /-- `__add_timer` and `__mod_timer`: `jiffies` is read, and the timer set. -/
  | timerRead
  | timerSet
  /-- `queue_delayed_work`, before it calls `add_timer`. -/
  | delayRead
  /-- `__schedule_timeout`. -/
  | waitRead
  | waitSleep
  | waitDelete
  /-- `schedule`, for `MAX_SCHEDULE_TIMEOUT`. -/
  | schedule
  | done
deriving DecidableEq, Repr

/-- A call, with its arguments and variables; `due` is the jiffy that the caller has asked for. -/
structure Thread where
  pc : Pc
  owner : Owner := .driver 0
  expires : Nat := 0
  timeout : Nat := 0
  due : Nat := 0
  delay : Nat := 0
deriving DecidableEq, Repr

inductive Call where
  /-- Microseconds pass. -/
  | pass (usec : Nat)
  /-- The VMkernel runs the handler of a timer. -/
  | fire (o : Owner)
  /-- `add_timer` and `mod_timer`. -/
  | modTimer (timer expires : Nat)
  | delTimer (o : Owner)
  | queueDelayedWork (dwork delay : Nat)
  /-- The work is run, which clears the pending bit. -/
  | runWork (dwork : Nat)
  | scheduleTimeout (wait : Int)
deriving DecidableEq, Repr

/-! ### Calls -/

/-- What the function of a timer does. -/
def expire (o : Owner) (due : Nat) (s : Shared) : Shared :=
  match o with
  | .driver _ => { s with ran := ⟨due, ticks s.time⟩ :: s.ran }
  -- `delayed_work_timer_fn`
  | .work _ => { s with queued := ⟨due, ticks s.time⟩ :: s.queued }
  -- `__wait_timeout`
  | .task pid => s.setResume pid true

def enter (me : Nat) (call : Call) (s : Shared) : Option (Shared × Thread) :=
  match call with
  | .pass usec => some ({ s with time := s.time + usec }, { pc := .done })
  | .fire o =>
      match s.timer o with
      | some a =>
          if a.deadline ≤ s.time then some (expire o a.due (s.setTimer o none), { pc := .done })
          else none
      | none => none
  | .modTimer timer expires =>
      if expires < 2 ^ 64 then
        some (s, { pc := .timerRead, owner := .driver timer, expires := expires })
      else none
  | .delTimer o =>
      match o with
      | .task _ => none
      | o => some (s.setTimer o none, { pc := .done })
  | .queueDelayedWork dwork delay =>
      if delay < 2 ^ 64 then
        if s.pending dwork then some (s, { pc := .done })
        else if delay = 0 then
          some ({ s.setPending dwork true with
            queued := ⟨ticks s.time, ticks s.time⟩ :: s.queued }, { pc := .done })
        else
          some (s.setPending dwork true, { pc := .delayRead, owner := .work dwork, delay := delay })
      else none
  | .runWork dwork => some (s.setPending dwork false, { pc := .done })
  | .scheduleTimeout wait =>
      if -2 ^ 63 ≤ wait ∧ wait < 2 ^ 63 then
        if wait = longMax then
          some (s, { pc := .schedule, owner := .task me, due := ticks s.time + longMax })
        else if wait < 0 then
          some ({ s with returned := ⟨ticks s.time, ticks s.time⟩ :: s.returned }, { pc := .done })
        else some (s, { pc := .waitRead, owner := .task me, delay := wait.toNat })
      else none

/-- The jiffy in which `jiffies` will have come from `now` to `expires`. -/
def dueAt (expires time : Nat) : Nat := ticks time + (expires - jiffies time)

def step (_a : Unit) (s : Shared) (t : Thread) : Option (Shared × Thread) :=
  match t.pc with
  | .timerRead =>
      some (s, { t with
        pc := .timerSet
        timeout := timeoutUsec t.expires (jiffies s.time)
        due := match t.owner with
          | .driver _ => dueAt t.expires s.time
          | _ => t.due })
  | .timerSet =>
      some (s.setTimer t.owner (some ⟨s.time + t.timeout, t.due⟩),
        { t with pc := match t.owner with | .task _ => .waitSleep | _ => .done })
  | .delayRead =>
      some (s, { t with
        pc := .timerRead
        expires := (jiffies s.time + t.delay) % 2 ^ 64
        due := ticks s.time + t.delay })
  | .waitRead =>
      some (s, { t with
        pc := .timerRead
        expires := (t.delay + jiffies s.time) % 2 ^ 64
        due := ticks s.time + t.delay })
  | .waitSleep =>
      match t.owner with
      | .task pid =>
          if s.resume pid then some (s.setResume pid false, { t with pc := .waitDelete }) else none
      | _ => none
  | .waitDelete =>
      -- `del_timer_sync` returns whether the timer was pending
      if notPositive (wrappingSub t.expires (jiffies s.time)) ∨ (s.timer t.owner).isSome then
        some ({ s.setTimer t.owner none with returned := ⟨t.due, ticks s.time⟩ :: s.returned },
          { t with pc := .done })
      else some (s, { t with pc := .timerRead })
  | .schedule =>
      match t.owner with
      | .task pid =>
          if s.resume pid then
            some ({ s with returned := ⟨t.due, ticks s.time⟩ :: s.returned },
              { t with pc := .done })
          else none
      | _ => none
  | .done => none

def machine : Machine Shared Thread Call Unit := ⟨enter, step⟩

def initial (time : Nat) : Config Shared Thread :=
  ⟨⟨time, fun _ => none, fun _ => false, fun _ => false, [], [], []⟩, []⟩

/-! ### Timers within reach -/

/-- A timer is set for a jiffy that comes within `INT_MAX` microseconds, or for the one after it;
    the jiffy of a delayed work comes within that time, and is not beyond the last 64-bit one. -/
def orderly (c : Config Shared Thread) : Event Call Unit → Bool
  | .start _ => true
  | .act i _ =>
      match c.pool[i]? with
      | some t =>
          match t.pc, t.owner with
          | .timerRead, .driver _ =>
              decide (dueAt t.expires c.shared.time ≤ ticks (c.shared.time + intMax) + 1)
          | .delayRead, _ =>
              decide (jiffies c.shared.time + t.delay < 2 ^ 64 ∧
                ticks c.shared.time + t.delay ≤ ticks (c.shared.time + intMax))
          | _, _ => true
      | none => true

/-! ### Arithmetic -/

theorem ticks_mono {a b : Nat} (h : a ≤ b) : ticks a ≤ ticks b := Nat.div_le_div_right h

/-- A timeout is long enough, or it is cut. -/
theorem ticks_timeoutUsec {expires time k : Nat} (hk : k ≤ 1)
    (h : dueAt expires time ≤ ticks (time + intMax) + k) :
    dueAt expires time ≤ ticks (time + timeoutUsec expires (jiffies time)) + k := by
  unfold dueAt timeoutUsec jiffiesToUsec ticks intMax jiffies at *
  split
  · omega
  · unfold ticks at *
    omega

/-- A jiffy that is still to come is ahead of the counter as a `signed long`. -/
theorem due_of_notPositive {due time : Nat} (hdue : due < ticks time + 2 ^ 63)
    (h : notPositive (wrappingSub (due % 2 ^ 64) (jiffies time)) = true) : due ≤ ticks time := by
  unfold notPositive wrappingSub jiffies at h
  simp only [decide_eq_true_eq] at h
  omega

/-! ### The invariant -/

/-- The jiffy that a pending timer was set for has come at its deadline; the task looks again. -/
def Arming.InTime (o : Owner) (a : Arming) : Prop :=
  match o with
  | .driver _ => a.due ≤ ticks a.deadline + 1
  | .work _ => a.due ≤ ticks a.deadline
  | .task _ => True

/-- What a call knows of its times. -/
def Thread.InTime (time : Nat) (t : Thread) : Prop :=
  match t.pc, t.owner with
  | .timerSet, o => Arming.InTime o ⟨time + t.timeout, t.due⟩
  | .timerRead, .work _ => t.expires < 2 ^ 64 ∧ t.due ≤ ticks (time + intMax) ∧
      ∃ q, t.due = q * 2 ^ 64 + t.expires ∧ q * 2 ^ 64 ≤ ticks time
  | _, _ => True

/-- The task that waits: its timer and its event are its own. -/
structure Thread.Waits (s : Shared) (pid : Nat) (t : Thread) : Prop where
  owner : t.owner = .task pid
  pc : t.pc ≠ .delayRead
  due : t.pc ≠ .waitRead → t.pc ≠ .schedule →
    t.expires = t.due % 2 ^ 64 ∧ t.due < ticks s.time + 2 ^ 63
  delay : t.delay < 2 ^ 63
  quiet : t.pc ≠ .waitSleep → s.timer (.task pid) = none ∧ s.resume pid = false
  woken : s.resume pid = true → s.timer (.task pid) = none

/-- The call is that of a task that waits, or it belongs to a driver or a work. -/
def Thread.Fits (s : Shared) (me : Nat) (t : Thread) : Prop :=
  t.pc = .done ∨ t.Waits s me ∨
    (t.pc = .timerRead ∨ t.pc = .timerSet ∨ t.pc = .delayRead) ∧ ∀ pid, t.owner ≠ .task pid

structure Inv (c : Config Shared Thread) : Prop where
  timers : ∀ o a, c.shared.timer o = some a → a.InTime o
  times : Each (fun _ t => t.InTime c.shared.time) c.pool
  fits : Each (fun i t => t.Fits c.shared i) c.pool
  unborn : ∀ pid, c.pool.length ≤ pid →
    c.shared.timer (.task pid) = none ∧ c.shared.resume pid = false
  ran : ∀ e ∈ c.shared.ran, e.due ≤ e.ended + 1
  queued : ∀ e ∈ c.shared.queued, e.due ≤ e.ended
  returned : ∀ e ∈ c.shared.returned, e.due ≤ e.ended

theorem InTime.later {t : Thread} {time time' : Nat} (h : t.InTime time) (hle : time ≤ time') :
    t.InTime time' := by
  have hticks := ticks_mono hle
  have hcut : ticks (time + intMax) ≤ ticks (time' + intMax) := ticks_mono (by omega)
  have hset : ticks (time + t.timeout) ≤ ticks (time' + t.timeout) := ticks_mono (by omega)
  unfold Thread.InTime at *
  split
  · simp only [*] at h
    unfold Arming.InTime at *
    split <;> simp_all <;> omega
  · simp only [*] at h
    obtain ⟨hlt, hdue, q, heq, hq⟩ := h
    exact ⟨hlt, by omega, q, heq, by omega⟩
  · trivial

theorem Fits.later {s s' : Shared} {pid : Nat} {t : Thread} (h : t.Fits s pid)
    (htime : s.time ≤ s'.time) (htimer : s'.timer (.task pid) = s.timer (.task pid))
    (hresume : s'.resume pid = s.resume pid) : t.Fits s' pid := by
  rcases h with hdone | ⟨howner, hdelayRead, hdue, hdelay, hquiet, hwoken⟩ | hother
  · exact .inl hdone
  · refine .inr (.inl ⟨howner, hdelayRead, fun hread hschedule => ?_, hdelay, ?_, ?_⟩)
    · have hle := ticks_mono htime
      obtain ⟨hexpires, hlt⟩ := hdue hread hschedule
      exact ⟨hexpires, by omega⟩
    · rw [htimer, hresume]
      exact hquiet
    · rw [htimer, hresume]
      exact hwoken
  · exact .inr (.inr hother)

section Step

variable {s s' : Shared} {t t' u : Thread} {a : Unit} {i j : Nat}

theorem step_time (h : step a s t = some (s', t')) : s'.time = s.time := by
  unfold step at h
  repeat' split at h
  all_goals simp only [Option.some.injEq, Prod.mk.injEq, reduceCtorEq] at h
  all_goals obtain ⟨rfl, -⟩ := h
  all_goals rfl

/-- A delayed work gets a timeout that is long enough. -/
theorem work_timeout {due expires time q : Nat} (hexpires : expires < 2 ^ 64)
    (hcut : due ≤ ticks (time + intMax)) (hdue : due = q * 2 ^ 64 + expires)
    (hq : q * 2 ^ 64 ≤ ticks time) :
    due ≤ ticks (time + timeoutUsec expires (jiffies time)) := by
  have hmono : ticks time ≤ ticks (time + timeoutUsec expires (jiffies time)) :=
    ticks_mono (by omega)
  by_cases hpast : due ≤ ticks time
  · omega
  · have heq : dueAt expires time = due := by
      unfold dueAt jiffies
      omega
    have hlong := @ticks_timeoutUsec expires time 0 (by omega) (by omega)
    omega

theorem inTime_of_task {pid time : Nat} (howner : t.owner = .task pid) (hpc : t.pc ≠ .timerSet) :
    t.InTime time := by
  unfold Thread.InTime
  rw [howner]
  cases h : t.pc <;> simp_all

/-- A call that is past the reading of `jiffies` for a driver or a work is a task's. -/
theorem Fits.waits (h : t.Fits s i) (hdone : t.pc ≠ .done) (hread : t.pc ≠ .timerRead)
    (hset : t.pc ≠ .timerSet) (hdelay : t.pc ≠ .delayRead) : t.Waits s i := by
  rcases h with h | h | ⟨h | h | h, -⟩
  · exact absurd h hdone
  · exact h
  · exact absurd h hread
  · exact absurd h hset
  · exact absurd h hdelay

theorem step_inTime (h : step a s t = some (s', t')) (ht : t.InTime s.time) (hfits : t.Fits s i)
    (hdriver : ∀ n, t.pc = .timerRead → t.owner = .driver n →
      dueAt t.expires s.time ≤ ticks (s.time + intMax) + 1)
    (hwork : t.pc = .delayRead → jiffies s.time + t.delay < 2 ^ 64 ∧
      ticks s.time + t.delay ≤ ticks (s.time + intMax)) : t'.InTime s.time := by
  unfold step at h
  cases hpc : t.pc <;> simp only [hpc] at h
  case timerRead =>
    simp only [Option.some.injEq, Prod.mk.injEq] at h
    obtain ⟨-, rfl⟩ := h
    simp only [Thread.InTime, Arming.InTime]
    cases howner : t.owner with
    | driver n => exact ticks_timeoutUsec (by omega) (hdriver n hpc howner)
    | work n =>
      simp only [Thread.InTime, hpc, howner] at ht
      obtain ⟨hexpires, hcut, q, hdue, hq⟩ := ht
      exact work_timeout hexpires hcut hdue hq
    | task pid => trivial
  case delayRead =>
    simp only [Option.some.injEq, Prod.mk.injEq] at h
    obtain ⟨-, rfl⟩ := h
    obtain ⟨hwrap, hcut⟩ := hwork hpc
    simp only [Thread.InTime]
    split
    · rename_i hread
      cases hread
    · refine ⟨Nat.mod_lt _ (by decide), hcut, ticks s.time / 2 ^ 64, ?_, ?_⟩
      · rw [Nat.mod_eq_of_lt hwrap]
        unfold jiffies
        omega
      · exact Nat.div_mul_le_self _ _
    · trivial
  case timerSet =>
    simp only [Option.some.injEq, Prod.mk.injEq] at h
    obtain ⟨-, rfl⟩ := h
    simp only [Thread.InTime]
    cases t.owner <;> trivial
  case done => cases h
  all_goals
    have howner := (Fits.waits hfits (by simp [hpc]) (by simp [hpc]) (by simp [hpc])
      (by simp [hpc])).owner
    repeat' split at h
    all_goals simp only [Option.some.injEq, Prod.mk.injEq, reduceCtorEq] at h
    all_goals obtain ⟨-, rfl⟩ := h
    all_goals exact inTime_of_task howner (by simp)

theorem step_timers (h : step a s t = some (s', t')) (ht : t.InTime s.time)
    (htimers : ∀ o a, s.timer o = some a → a.InTime o) :
    ∀ o a, s'.timer o = some a → a.InTime o := by
  intro o a ha
  unfold step at h
  cases hpc : t.pc <;> simp only [hpc] at h
  case timerSet =>
    simp only [Option.some.injEq, Prod.mk.injEq] at h
    obtain ⟨rfl, -⟩ := h
    simp only [Shared.setTimer] at ha
    split at ha
    · rename_i howner
      obtain rfl := Option.some.inj ha
      simp only [Thread.InTime, hpc] at ht
      exact howner ▸ ht
    · exact htimers o a ha
  all_goals
    repeat' split at h
    all_goals simp only [Option.some.injEq, Prod.mk.injEq, reduceCtorEq] at h
    all_goals obtain ⟨rfl, -⟩ := h
    all_goals grind -linarith [Shared.setTimer, Shared.setResume]

/-- The timer and the event of a task are touched by the task only. -/
theorem step_frame (h : step a s t = some (s', t')) (hfits : t.Fits s i) (hji : j ≠ i) :
    s'.timer (.task j) = s.timer (.task j) ∧ s'.resume j = s.resume j := by
  have howner : t.pc ≠ .done → t.owner ≠ .task j := by
    rintro hdone heq
    rcases hfits with hd | hwaits | ⟨-, hnot⟩
    · exact hdone hd
    · rw [hwaits.owner] at heq
      exact hji (Owner.task.inj heq).symm
    · exact hnot j heq
  unfold step at h
  cases hpc : t.pc <;> simp only [hpc] at h
  all_goals
    repeat' split at h
    all_goals simp only [Option.some.injEq, Prod.mk.injEq, reduceCtorEq] at h
    all_goals obtain ⟨rfl, -⟩ := h
    all_goals grind -linarith [Shared.setTimer, Shared.setResume]

theorem step_fits (h : step a s t = some (s', t')) (hfits : t.Fits s i) : t'.Fits s' i := by
  unfold step at h
  rcases hfits with hdone | ⟨howner, hdelayRead, hdue, hdelay, hquiet, hwoken⟩ | ⟨hpcs, hnot⟩
  · simp only [hdone, reduceCtorEq] at h
  · cases hpc : t.pc <;> simp only [hpc, howner] at h
    case timerRead =>
      obtain ⟨rfl, rfl⟩ := Prod.mk.inj (Option.some.inj h)
      obtain ⟨htimer, hresume⟩ := hquiet (by simp [hpc])
      exact .inr (.inl ⟨rfl, by simp, fun _ _ => hdue (by simp [hpc]) (by simp [hpc]), hdelay,
        fun _ => ⟨htimer, hresume⟩, fun _ => htimer⟩)
    case timerSet =>
      obtain ⟨rfl, rfl⟩ := Prod.mk.inj (Option.some.inj h)
      obtain ⟨-, hresume⟩ := hquiet (by simp [hpc])
      refine .inr (.inl ⟨rfl, by simp, fun _ _ => hdue (by simp [hpc]) (by simp [hpc]), hdelay,
        fun hne => absurd rfl hne, fun htrue => ?_⟩)
      exact absurd (hresume.symm.trans htrue) (by simp)
    case waitRead =>
      obtain ⟨rfl, rfl⟩ := Prod.mk.inj (Option.some.inj h)
      obtain ⟨htimer, hresume⟩ := hquiet (by simp [hpc])
      refine .inr (.inl ⟨rfl, by simp, fun _ _ => ⟨?_, Nat.add_lt_add_left hdelay _⟩, hdelay,
        fun _ => ⟨htimer, hresume⟩, fun _ => htimer⟩)
      simp only [jiffies]
      omega
    case waitSleep =>
      split at h
      · rename_i htrue
        obtain ⟨rfl, rfl⟩ := Prod.mk.inj (Option.some.inj h)
        have htimer := hwoken htrue
        exact .inr (.inl ⟨rfl, by simp, fun _ _ => hdue (by simp [hpc]) (by simp [hpc]), hdelay,
          fun _ => ⟨htimer, if_pos rfl⟩, fun _ => htimer⟩)
      · cases h
    case waitDelete =>
      split at h
      · obtain ⟨rfl, rfl⟩ := Prod.mk.inj (Option.some.inj h)
        exact .inl rfl
      · obtain ⟨rfl, rfl⟩ := Prod.mk.inj (Option.some.inj h)
        obtain ⟨htimer, hresume⟩ := hquiet (by simp [hpc])
        exact .inr (.inl ⟨rfl, by simp, fun _ _ => hdue (by simp [hpc]) (by simp [hpc]), hdelay,
          fun _ => ⟨htimer, hresume⟩, fun _ => htimer⟩)
    case schedule =>
      split at h
      · obtain ⟨rfl, rfl⟩ := Prod.mk.inj (Option.some.inj h)
        exact .inl rfl
      · cases h
    case delayRead => exact absurd hpc hdelayRead
    case done => cases h
  · rcases hpcs with hpc | hpc | hpc <;> simp only [hpc] at h
    all_goals simp only [Option.some.injEq, Prod.mk.injEq] at h
    all_goals obtain ⟨rfl, rfl⟩ := h
    · exact .inr (.inr ⟨.inr (.inl rfl), hnot⟩)
    · refine .inl ?_
      cases howner : t.owner with
      | driver n => rfl
      | work n => rfl
      | task pid => exact absurd howner (hnot pid)
    · exact .inr (.inr ⟨.inl rfl, hnot⟩)

/-- What comes to its end in a step was waited for. -/
theorem step_logs (h : step a s t = some (s', t')) (hfits : t.Fits s i) :
    s'.ran = s.ran ∧ s'.queued = s.queued ∧
      (s'.returned = s.returned ∨
        ∃ e : Entry, e.due ≤ e.ended ∧ s'.returned = e :: s.returned) := by
  unfold step at h
  cases hpc : t.pc <;> simp only [hpc] at h
  case waitDelete =>
    have hwaits := Fits.waits hfits (by simp [hpc]) (by simp [hpc]) (by simp [hpc]) (by simp [hpc])
    have htimer := (hwaits.quiet (by simp [hpc])).1
    obtain ⟨hexpires, hlt⟩ := hwaits.due (by simp [hpc]) (by simp [hpc])
    split at h
    · rename_i hover
      obtain ⟨rfl, -⟩ := Prod.mk.inj (Option.some.inj h)
      rw [hwaits.owner, htimer, hexpires] at hover
      refine ⟨rfl, rfl, .inr ⟨_, due_of_notPositive hlt ?_, rfl⟩⟩
      simpa using hover
    · obtain ⟨rfl, -⟩ := Prod.mk.inj (Option.some.inj h)
      exact ⟨rfl, rfl, .inl rfl⟩
  case schedule =>
    have hwaits := Fits.waits hfits (by simp [hpc]) (by simp [hpc]) (by simp [hpc]) (by simp [hpc])
    have hresume := (hwaits.quiet (by simp [hpc])).2
    simp only [hwaits.owner, hresume, Bool.false_eq_true, if_false, reduceCtorEq] at h
  all_goals
    repeat' split at h
    all_goals simp only [Option.some.injEq, Prod.mk.injEq, reduceCtorEq] at h
    all_goals obtain ⟨rfl, -⟩ := h
    all_goals exact ⟨rfl, rfl, .inl rfl⟩

end Step

/-! ### Whole runs -/

/-- What the start of a call does: time passes, timers are removed, handlers run, and a task may be
    woken whose timer was set. -/
theorem enter_cases {me : Nat} {call : Call} {s s' : Shared} {t : Thread}
    (h : enter me call s = some (s', t)) (htimers : ∀ o a, s.timer o = some a → a.InTime o) :
    s.time ≤ s'.time ∧ (∀ o a, s'.timer o = some a → s.timer o = some a) ∧
      (∀ pid, (s'.timer (.task pid) = s.timer (.task pid) ∧ s'.resume pid = s.resume pid) ∨
        (s.timer (.task pid)).isSome ∧ s'.timer (.task pid) = none) ∧
      (∀ e ∈ s'.ran, e ∈ s.ran ∨ e.due ≤ e.ended + 1) ∧
      (∀ e ∈ s'.queued, e ∈ s.queued ∨ e.due ≤ e.ended) ∧
      ∀ e ∈ s'.returned, e ∈ s.returned ∨ e.due ≤ e.ended := by
  have hdriver : ∀ n a, s.timer (.driver n) = some a → a.deadline ≤ s.time →
      a.due ≤ ticks s.time + 1 := by
    intro n a ha hle
    have hdue : a.due ≤ ticks a.deadline + 1 := htimers _ a ha
    have hmono := ticks_mono hle
    omega
  have hwork : ∀ n a, s.timer (.work n) = some a → a.deadline ≤ s.time →
      a.due ≤ ticks s.time := by
    intro n a ha hle
    have hdue : a.due ≤ ticks a.deadline := htimers _ a ha
    have hmono := ticks_mono hle
    omega
  clear htimers
  unfold enter expire at h
  repeat' split at h
  all_goals simp only [Option.some.injEq, Prod.mk.injEq, reduceCtorEq] at h
  all_goals obtain ⟨rfl, rfl⟩ := h
  all_goals refine ⟨?_, ?_, fun pid => ?_, ?_, ?_, ?_⟩
  -- the handler of a task's timer is the one that touches an event
  all_goals try simp only [Shared.setTimer, Shared.setResume, Shared.setPending]
  all_goals grind -linarith

theorem enter_fits {me : Nat} {call : Call} {s s' : Shared} {t : Thread}
    (h : enter me call s = some (s', t))
    (hnew : s.timer (.task me) = none ∧ s.resume me = false) :
    t.Fits s' me ∧ t.InTime s'.time := by
  obtain ⟨htimer, hresume⟩ := hnew
  cases call with
  | pass usec =>
    obtain ⟨rfl, rfl⟩ := Prod.mk.inj (Option.some.inj h)
    exact ⟨.inl rfl, trivial⟩
  | fire o =>
    simp only [enter] at h
    repeat' split at h
    all_goals simp only [Option.some.injEq, Prod.mk.injEq, reduceCtorEq] at h
    obtain ⟨-, rfl⟩ := h
    exact ⟨.inl rfl, trivial⟩
  | modTimer timer expires =>
    simp only [enter] at h
    split at h
    · obtain ⟨-, rfl⟩ := Prod.mk.inj (Option.some.inj h)
      exact ⟨.inr (.inr ⟨.inl rfl, by simp⟩), trivial⟩
    · cases h
  | delTimer o =>
    simp only [enter] at h
    split at h
    · cases h
    · obtain ⟨-, rfl⟩ := Prod.mk.inj (Option.some.inj h)
      exact ⟨.inl rfl, trivial⟩
  | queueDelayedWork dwork delay =>
    simp only [enter] at h
    repeat' split at h
    · obtain ⟨-, rfl⟩ := Prod.mk.inj (Option.some.inj h)
      exact ⟨.inl rfl, trivial⟩
    · obtain ⟨-, rfl⟩ := Prod.mk.inj (Option.some.inj h)
      exact ⟨.inl rfl, trivial⟩
    · obtain ⟨-, rfl⟩ := Prod.mk.inj (Option.some.inj h)
      exact ⟨.inr (.inr ⟨.inr (.inr rfl), by simp⟩), trivial⟩
    · cases h
  | runWork dwork =>
    obtain ⟨-, rfl⟩ := Prod.mk.inj (Option.some.inj h)
    exact ⟨.inl rfl, trivial⟩
  | scheduleTimeout wait =>
    simp only [enter] at h
    repeat' split at h
    · obtain ⟨rfl, rfl⟩ := Prod.mk.inj (Option.some.inj h)
      exact ⟨.inr (.inl ⟨rfl, by simp, fun _ hne => absurd rfl hne, by simp,
        fun _ => ⟨htimer, hresume⟩, fun _ => htimer⟩), trivial⟩
    · obtain ⟨-, rfl⟩ := Prod.mk.inj (Option.some.inj h)
      exact ⟨.inl rfl, trivial⟩
    · obtain ⟨rfl, rfl⟩ := Prod.mk.inj (Option.some.inj h)
      refine ⟨.inr (.inl ⟨rfl, by simp, fun hne => absurd rfl hne, ?_,
        fun _ => ⟨htimer, hresume⟩, fun _ => htimer⟩), trivial⟩
      simp only
      omega
    · cases h

/-- A call survives the start of another. -/
theorem Fits.enter {me : Nat} {call : Call} {s s' : Shared} {t u : Thread} {i : Nat}
    (h : enter me call s = some (s', t)) (htimers : ∀ o a, s.timer o = some a → a.InTime o)
    (hu : u.Fits s i) : u.Fits s' i := by
  obtain ⟨htime, -, htask, -⟩ := enter_cases h htimers
  rcases htask i with ⟨htimer, hresume⟩ | ⟨hset, hnone⟩
  · exact Fits.later hu htime htimer hresume
  · rcases hu with hdone | ⟨howner, hdelayRead, hdue, hdelay, hquiet, hwoken⟩ | hother
    · exact .inl hdone
    · -- the timer is set, and so the task sleeps
      have hsleep : u.pc = .waitSleep := by
        by_contra hne
        rw [(hquiet hne).1] at hset
        cases hset
      refine .inr (.inl ⟨howner, hdelayRead, fun hread hschedule => ?_, hdelay,
        fun hne => absurd hsleep hne, fun _ => hnone⟩)
      have hle := ticks_mono htime
      obtain ⟨hexpires, hlt⟩ := hdue hread hschedule
      exact ⟨hexpires, by omega⟩
    · exact .inr (.inr hother)

theorem inv_of_reach {time : Nat} {c : Config Shared Thread}
    (h : machine.Reach (fun c e => orderly c e = true) (initial time) c) : Inv c := by
  refine Machine.Reach.invariant Inv ?_ ?_ ?_ h
  · exact ⟨by simp [initial], each_nil _, each_nil _, fun _ _ => ⟨rfl, rfl⟩, by simp [initial],
      by simp [initial], by simp [initial]⟩
  · intro c call s' t _ hI _ hs
    obtain ⟨htime, hkeep, htask, hran, hqueued, hreturned⟩ := enter_cases hs hI.timers
    obtain ⟨hfits, hin⟩ := enter_fits hs (hI.unborn _ (Nat.le_refl _))
    refine ⟨fun o a ha => hI.timers o a (hkeep o a ha), ?_, ?_, fun pid hpid => ?_, ?_, ?_, ?_⟩
    · exact hI.times.append (fun _ _ _ hu => InTime.later hu htime) hin
    · exact hI.fits.append (fun _ _ _ hu => Fits.enter hs hI.timers hu) hfits
    · simp only [List.length_append, List.length_singleton] at hpid
      obtain ⟨htimer, hresume⟩ := hI.unborn pid (by omega)
      rcases htask pid with ⟨htimer', hresume'⟩ | ⟨hset, -⟩
      · exact ⟨htimer'.trans htimer, hresume'.trans hresume⟩
      · rw [htimer] at hset
        cases hset
    · exact fun e he => (hran e he).elim (hI.ran e) id
    · exact fun e he => (hqueued e he).elim (hI.queued e) id
    · exact fun e he => (hreturned e he).elim (hI.returned e) id
  · intro c i a t s' t' _ hI hok hi hs
    have hfits := hI.fits i t hi
    have hin := hI.times i t hi
    replace hs : step a c.shared t = some (s', t') := hs
    have htime := step_time hs
    simp only [orderly, hi] at hok
    have hdriver : ∀ n, t.pc = .timerRead → t.owner = .driver n →
        dueAt t.expires c.shared.time ≤ ticks (c.shared.time + intMax) + 1 := by
      intro n hpc howner
      simpa [hpc, howner] using hok
    have hwork : t.pc = .delayRead → jiffies c.shared.time + t.delay < 2 ^ 64 ∧
        ticks c.shared.time + t.delay ≤ ticks (c.shared.time + intMax) := by
      intro hpc
      simpa [hpc] using hok
    have hlt := (List.getElem?_eq_some_iff.mp hi).1
    obtain ⟨hran, hqueued, hreturned⟩ := step_logs hs hfits
    refine ⟨step_timers hs hin hI.timers, ?_, ?_, fun pid hpid => ?_, ?_, ?_, ?_⟩
    · refine hI.times.set (fun _ _ _ _ hu => ?_) ?_
      · simpa only [htime] using hu
      · simpa only [htime] using step_inTime hs hin hfits hdriver hwork
    · refine hI.fits.set (fun j u hji _ hu => ?_) (step_fits hs hfits)
      obtain ⟨htimer, hresume⟩ := step_frame hs hfits hji
      exact Fits.later hu (Nat.le_of_eq htime.symm) htimer hresume
    · rw [List.length_set] at hpid
      obtain ⟨htimer, hresume⟩ := step_frame hs hfits (j := pid) (by omega)
      obtain ⟨hnone, hfalse⟩ := hI.unborn pid hpid
      exact ⟨htimer.trans hnone, hresume.trans hfalse⟩
    · exact hran ▸ hI.ran
    · exact hqueued ▸ hI.queued
    · rcases hreturned with hsame | ⟨e, hle, hcons⟩
      · exact hsame ▸ hI.returned
      · intro e' he'
        rw [hcons] at he'
        rcases List.mem_cons.mp he' with rfl | hold
        · exact hle
        · exact hI.returned e' hold

/-- **Nothing is early.**  Where each timer is set within reach, a handler runs when its jiffy has
    come but for one, a work is queued when its delay has passed, and a task returns from
    `schedule_timeout` when its timeout has. -/
theorem not_early {time : Nat} {c : Config Shared Thread}
    (h : machine.Reach (fun c e => orderly c e = true) (initial time) c) :
    (∀ e ∈ c.shared.ran, e.due ≤ e.ended + 1) ∧ (∀ e ∈ c.shared.queued, e.due ≤ e.ended) ∧
      ∀ e ∈ c.shared.returned, e.due ≤ e.ended :=
  have hI := inv_of_reach h
  ⟨hI.ran, hI.queued, hI.returned⟩

/-- A timer, a delayed work, and a task that waits for longer than one timer can. -/
theorem not_early_waiting :
    ∃ c, machine.Reach (fun c e => orderly c e = true) (initial 0) c ∧
      (c.shared.ran, c.shared.queued, c.shared.returned) =
        ([⟨10, 214748⟩], [⟨100, 214748⟩], [⟨300000, 300000⟩]) ∧
      (∀ e ∈ c.shared.ran, e.due ≤ e.ended + 1) ∧ (∀ e ∈ c.shared.queued, e.due ≤ e.ended) ∧
      ∀ e ∈ c.shared.returned, e.due ≤ e.ended := by
  obtain ⟨c, hc, ho⟩ := machine.exists_reach_of_runIf orderly
    [.start (.modTimer 7 10), .act 0 (), .act 0 (),
      .start (.queueDelayedWork 2 100), .act 1 (), .act 1 (), .act 1 (),
      .start (.scheduleTimeout 300000), .act 2 (), .act 2 (), .act 2 (),
      .start (.pass 2147483647), .start (.fire (.driver 7)), .start (.fire (.work 2)),
      .start (.fire (.task 2)), .act 2 (), .act 2 (), .act 2 (), .act 2 (),
      .start (.pass 852520000), .start (.fire (.task 2)), .act 2 (), .act 2 ()] (initial 0)
    (fun c => (c.shared.ran, c.shared.queued, c.shared.returned))
    ([⟨10, 214748⟩], [⟨100, 214748⟩], [⟨300000, 300000⟩]) (by decide)
  exact ⟨c, hc, ho, not_early hc⟩

/-- A timer for jiffy 300000 runs in jiffy 214748, one whose product wraps in the first jiffy, and
    a work is queued more than 85000 jiffies before its delay has passed. -/
theorem early_handlers :
    (∃ c, machine.Reachable (initial 0) c ∧ c.shared.ran = [⟨300000, 214748⟩]) ∧
    (∃ c, machine.Reachable (initial 0) c ∧ c.shared.ran = [⟨1844674407370956, 0⟩]) ∧
    ∃ c, machine.Reachable (initial 0) c ∧ c.shared.queued = [⟨300000, 214748⟩] := by
  refine ⟨?_, ?_, ?_⟩
  · exact machine.exists_reachable_of_run
      [.start (.modTimer 0 300000), .act 0 (), .act 0 (), .start (.pass 2147483647),
        .start (.fire (.driver 0))] (initial 0) _ _ (by decide)
  · exact machine.exists_reachable_of_run
      [.start (.modTimer 0 1844674407370956), .act 0 (), .act 0 (), .start (.pass 8384),
        .start (.fire (.driver 0))] (initial 0) _ _ (by decide)
  · exact machine.exists_reachable_of_run
      [.start (.queueDelayedWork 0 300000), .act 0 (), .act 0 (), .act 0 (),
        .start (.pass 2147483647), .start (.fire (.work 0))] (initial 0) _ _ (by decide)

end VmkLinux.Time
