/-
  VmkLinux/Scsi/BottomHalf.lean
  =============================
  **The completion bottom half** of `vmklinux26/vmware/linux_scsi.c` on one PCPU:
  `SCSILinuxScheduleCompletion`, `SCSILinuxSignalBH` and `SCSILinuxBH`, with the
  interrupt flag and the timer that `ExactlyOnce` does not look at.

  While interrupts are off on the PCPU only the code that turned them off runs there.
  A completion runs with interrupts off from its first step to its last, whether it
  found them off or turned them off itself, so that `Pc.addTail` to `Pc.leave` is one
  section; the bottom half has a section around its splice, one around its exit test,
  and one for `host_lock` in every iteration.

  The bottom half should keep `runningBH` set as long as a completion waits on either
  list.  Its loop goes on while `now < yield` and its exit test reschedules it when
  `now > yield`: a timer reading that is `yield` itself ends the loop and is taken for
  a drained list.  `completions_not_stranded` proves that nothing else strands a
  completion, and `completion_stranded` is the run with that reading.
-/
import Mathlib.Algebra.Group.Nat.Defs
import VmkLinux.Interleave

namespace VmkLinux.Scsi.BottomHalf

open VmkLinux.Interleave

/-! ### Model -/

/-- What the bottom half reads of a command: its name and `INTERNAL_COMMAND`. -/
structure ScsiCmnd where
  name : Nat
  internal : Bool
deriving DecidableEq, Repr

/-- `scsiLinuxTLS_t` of the PCPU with the state of the PCPU itself.  `timer` is the
    last reading of `vmk_GetTimerCycles`; `hostBusy` counts the commands of the host
    that are still to be completed. -/
structure Pcpu where
  isrDoneCmds : List ScsiCmnd
  bhDoneCmds : List ScsiCmnd
  runningBH : Bool
  scheduled : Bool
  executing : Bool
  intsEnabled : Bool
  timer : Nat
  hostBusy : Int
deriving DecidableEq, Repr

/-- Where a completion or the bottom half is. -/
inductive Pc where
  -- SCSILinuxScheduleCompletion
  | addTail (scmd : ScsiCmnd)
  | signalBH
  | leave
  -- SCSILinuxBH
  | entry
  | disable (yield : Nat)
  | replenish (now yield : Nat)
  | spliced (now yield : Nat)
  | loop (now yield : Nat)
  | iteration (scmd : ScsiCmnd) (yield : Nat)
  | hostLock (yield : Nat)
  | putCommand (yield : Nat)
  | readTimer (yield : Nat)
  | drained (now yield : Nat)
  | exitTest (now yield : Nat)
  | cleared
  | yielding
  | reschedule
  | returned
deriving DecidableEq, Repr

/-- A completion for a command arrives, or the PCPU gets to its bottom halves. -/
inductive Call where
  | completion (scmd : ScsiCmnd)
  | bottomHalf
deriving DecidableEq, Repr

def enter (_me : Nat) (call : Call) (s : Pcpu) : Option (Pcpu × Pc) :=
  match call with
  | .completion scmd =>
      if s.intsEnabled then some ({ s with intsEnabled := false }, .addTail scmd) else none
  | .bottomHalf =>
      if s.intsEnabled ∧ s.scheduled ∧ s.executing = false then
        some ({ s with scheduled := false, executing := true }, .entry)
      else none

/-- A reading of the timer: cycles of 64 bits that do not run backwards. -/
def Pcpu.mayRead (s : Pcpu) (t : Nat) : Prop := s.timer ≤ t ∧ t < 2 ^ 64

instance (s : Pcpu) (t : Nat) : Decidable (s.mayRead t) :=
  inferInstanceAs (Decidable (_ ∧ _))

/-- One step; `t` is what the timer reads, if the step reads it, and `quantum` is
    `vmk_TimerUSToTC(5000)`.  A step of the bottom half outside its own sections waits
    until interrupts are on. -/
def step (quantum t : Nat) (s : Pcpu) : Pc → Option (Pcpu × Pc)
  | .addTail scmd => some ({ s with isrDoneCmds := s.isrDoneCmds ++ [scmd] }, .signalBH)
  | .signalBH =>
      if s.runningBH = false then some ({ s with runningBH := true, scheduled := true }, .leave)
      else some (s, .leave)
  | .leave => some ({ s with intsEnabled := true }, .returned)
  | .entry =>
      if s.intsEnabled ∧ s.mayRead t then
        some ({ s with timer := t }, .disable ((t + quantum) % 2 ^ 64))
      else none
  | .disable yield =>
      if s.intsEnabled then some ({ s with intsEnabled := false }, .replenish 0 yield) else none
  | .replenish now yield =>
      some ({ s with bhDoneCmds := s.isrDoneCmds ++ s.bhDoneCmds, isrDoneCmds := [] },
        .spliced now yield)
  | .spliced now yield => some ({ s with intsEnabled := true }, .loop now yield)
  | .loop now yield =>
      if s.intsEnabled then
        match s.bhDoneCmds with
        | [] => some (s, .drained now yield)
        | scmd :: rest =>
            if now < yield then some ({ s with bhDoneCmds := rest }, .iteration scmd yield)
            else some (s, .drained now yield)
      else none
  | .iteration scmd yield =>
      if s.intsEnabled then
        if scmd.internal then some (s, .readTimer yield)
        else some ({ s with intsEnabled := false }, .hostLock yield)
      else none
  | .hostLock yield =>
      some ({ s with intsEnabled := true, hostBusy := s.hostBusy - 1 }, .putCommand yield)
  | .putCommand yield => if s.intsEnabled then some (s, .readTimer yield) else none
  | .readTimer yield =>
      if s.intsEnabled ∧ s.mayRead t then some ({ s with timer := t }, .loop t yield) else none
  | .drained now yield =>
      if s.intsEnabled then some ({ s with intsEnabled := false }, .exitTest now yield) else none
  | .exitTest now yield =>
      if yield < now then
        if s.bhDoneCmds ≠ [] ∨ s.isrDoneCmds ≠ [] then some (s, .yielding)
        else some ({ s with runningBH := false }, .cleared)
      else if s.isrDoneCmds ≠ [] then some (s, .replenish now yield)
      else some ({ s with runningBH := false }, .cleared)
  | .cleared => some ({ s with intsEnabled := true, executing := false }, .returned)
  | .yielding => some ({ s with intsEnabled := true }, .reschedule)
  | .reschedule =>
      if s.intsEnabled then some ({ s with scheduled := true, executing := false }, .returned)
      else none
  | .returned => none

def machine (quantum : Nat) : Machine Pcpu Pc Call Nat where
  start := enter
  act t s pc := step quantum t s pc

/-- The PCPU with nothing completed; the timer may stand anywhere. -/
def initial (timer : Nat) : Config Pcpu Pc where
  shared :=
    { isrDoneCmds := [], bhDoneCmds := [], runningBH := false, scheduled := false,
      executing := false, intsEnabled := true, timer := timer, hostBusy := 0 }
  pool := []

/-- The loop test is not made on a deadline just reached with commands left. -/
def offDeadline (c : Config Pcpu Pc) : Event Call Nat → Bool
  | .act i _ =>
      match c.pool[i]? with
      | some (.loop now yield) => decide (c.shared.bhDoneCmds = [] ∨ now ≠ yield)
      | _ => true
  | .start _ => true

/-! ### The sections and the flag -/

/-- A thread that has interrupts turned off. -/
def Pc.masks : Pc → Nat
  | .addTail _ | .signalBH | .leave | .replenish _ _ | .spliced _ _ | .hostLock _
  | .exitTest _ _ | .cleared | .yielding => 1
  | _ => 0

/-- The bottom half while it executes, and while it answers for the lists. -/
def Pc.executes : Pc → Nat
  | .addTail _ | .signalBH | .leave | .returned => 0
  | _ => 1

def Pc.answers : Pc → Nat
  | .addTail _ | .signalBH | .leave | .cleared | .returned => 0
  | _ => 1

/-- A command has been added that the bottom half was not told of. -/
def Pc.unsignalled : Pc → Nat
  | .signalBH => 1
  | _ => 0

theorem answers_le_executes (pc : Pc) : pc.answers ≤ pc.executes := by
  cases pc <;> simp [Pc.answers, Pc.executes]

theorem unsignalled_le_masks (pc : Pc) : pc.unsignalled ≤ pc.masks := by
  cases pc <;> simp [Pc.unsignalled, Pc.masks]

def Pcpu.waiting (s : Pcpu) : Prop := s.isrDoneCmds ≠ [] ∨ s.bhDoneCmds ≠ []

/-- What a thread knows of the lists: the bottom half starts and reschedules itself
    with a command waiting, and leaves its loop with its own list drained or with
    its time used up. -/
def Pc.Knows (s : Pcpu) : Pc → Prop
  | .signalBH => s.isrDoneCmds ≠ []
  | .entry | .yielding | .reschedule => s.waiting
  | .drained now yield | .exitTest now yield => s.bhDoneCmds = [] ∨ yield < now
  | _ => True

/-- The books of the PCPU: who has interrupts off, who answers for the lists. -/
structure Books (c : Config Pcpu Pc) : Prop where
  ints : total Pc.masks c.pool + c.shared.intsEnabled.toNat = 1
  executing : total Pc.executes c.pool = c.shared.executing.toNat
  running : c.shared.scheduled.toNat + total Pc.answers c.pool = c.shared.runningBH.toNat
  waits : c.shared.waiting → 0 < c.shared.runningBH.toNat + total Pc.unsignalled c.pool
  scheduled : c.shared.scheduled → c.shared.waiting
  knows : Each (fun _ pc => pc.Knows c.shared) c.pool

theorem knows_of_grows {s s' : Pcpu} {pc : Pc} (hbh : s'.bhDoneCmds = s.bhDoneCmds)
    (hisr : s.isrDoneCmds ≠ [] → s'.isrDoneCmds ≠ []) (h : pc.Knows s) : pc.Knows s' := by
  have hwaiting : s.waiting → s'.waiting := by
    rintro (hne | hne)
    · exact .inl (hisr hne)
    · exact .inr (by rw [hbh]; exact hne)
  cases pc <;> simp only [Pc.Knows] at h ⊢
  case signalBH => exact hisr h
  case entry => exact hwaiting h
  case yielding => exact hwaiting h
  case reschedule => exact hwaiting h
  case drained => rw [hbh]; exact h
  case exitTest => rw [hbh]; exact h

/-- The bottom half takes from the lists: a completion in its section minds only if
    its own list is emptied, and there is no second bottom half. -/
theorem knows_of_takes {s s' : Pcpu} {pc : Pc} (hexec : pc.executes = 0)
    (hisr : pc.masks = 0 ∨ s'.isrDoneCmds = s.isrDoneCmds) (h : pc.Knows s) : pc.Knows s' := by
  cases pc with
  | signalBH =>
    rcases hisr with hmasks | heq
    · exact absurd hmasks (by decide)
    · show s'.isrDoneCmds ≠ []
      rw [heq]
      exact h
  | addTail | leave | returned => exact trivial
  | _ => exact absurd hexec (by simp [Pc.executes])

/-! ### One step -/

section Step

variable {quantum t : Nat} {s s' : Pcpu} {pc pc' : Pc}

/-- A step moves the interrupt flag, `executing` and `runningBH` with the thread. -/
theorem step_flags (h : step quantum t s pc = some (s', pc'))
    (hints : pc.masks + s.intsEnabled.toNat ≤ 1) (hexec : pc.executes ≤ s.executing.toNat)
    (hrun : s.scheduled.toNat + pc.answers ≤ s.runningBH.toNat) :
    pc'.masks + s'.intsEnabled.toNat = pc.masks + s.intsEnabled.toNat ∧
      pc'.executes + s.executing.toNat = pc.executes + s'.executing.toNat ∧
      s'.scheduled.toNat + pc'.answers + s.runningBH.toNat =
        s.scheduled.toNat + pc.answers + s'.runningBH.toNat := by
  cases pc <;> simp only [step] at h
  all_goals repeat' split at h
  all_goals simp only [Option.some.injEq, Prod.mk.injEq, reduceCtorEq] at h
  all_goals obtain ⟨rfl, rfl⟩ := h
  all_goals simp only [Pc.masks, Pc.executes, Pc.answers] at hints hexec hrun ⊢
  all_goals grind -linarith [Bool.toNat_le]

/-- What a step does to the lists.  Commands are added by a completion, spliced by
    the bottom half in its section, and taken one by one by its loop. -/
theorem step_lists (h : step quantum t s pc = some (s', pc')) :
    (s'.isrDoneCmds = s.isrDoneCmds ∧ s'.bhDoneCmds = s.bhDoneCmds) ∨
    (∃ scmd, pc = .addTail scmd ∧ s'.isrDoneCmds = s.isrDoneCmds ++ [scmd] ∧
      s'.bhDoneCmds = s.bhDoneCmds ∧ pc' = .signalBH) ∨
    (pc.masks = 1 ∧ pc.answers = 1 ∧ s'.isrDoneCmds = [] ∧
      s'.bhDoneCmds = s.isrDoneCmds ++ s.bhDoneCmds ∧ s'.runningBH = s.runningBH ∧
      ∃ now yield, pc' = .spliced now yield) ∨
    (pc.answers = 1 ∧ s'.isrDoneCmds = s.isrDoneCmds ∧ s'.runningBH = s.runningBH ∧
      ∃ scmd yield, s.bhDoneCmds = scmd :: s'.bhDoneCmds ∧ pc' = .iteration scmd yield) := by
  cases pc with
  | addTail scmd =>
    simp only [step, Option.some.injEq, Prod.mk.injEq] at h
    obtain ⟨rfl, rfl⟩ := h
    exact .inr (.inl ⟨scmd, rfl, rfl, rfl, rfl⟩)
  | replenish now yield =>
    simp only [step, Option.some.injEq, Prod.mk.injEq] at h
    obtain ⟨rfl, rfl⟩ := h
    exact .inr (.inr (.inl ⟨rfl, rfl, rfl, rfl, rfl, now, yield, rfl⟩))
  | loop now yield =>
    simp only [step] at h
    repeat' split at h
    all_goals simp only [Option.some.injEq, Prod.mk.injEq, reduceCtorEq] at h
    all_goals obtain ⟨rfl, rfl⟩ := h
    · exact .inl ⟨rfl, rfl⟩
    · rename_i scmd rest hbh _
      exact .inr (.inr (.inr ⟨rfl, rfl, rfl, scmd, yield, hbh, rfl⟩))
    · exact .inl ⟨rfl, rfl⟩
  | _ =>
    simp only [step] at h
    repeat' split at h
    all_goals simp only [Option.some.injEq, Prod.mk.injEq, reduceCtorEq] at h
    all_goals obtain ⟨rfl, rfl⟩ := h
    all_goals exact .inl ⟨rfl, rfl⟩

/-- The thread itself keeps what it knows; at the loop test it needs the condition. -/
theorem step_knows (h : step quantum t s pc = some (s', pc'))
    (hok : ∀ now yield, pc = .loop now yield → s.bhDoneCmds = [] ∨ now ≠ yield)
    (hI : pc.Knows s) : pc'.Knows s' := by
  cases pc with
  | addTail scmd =>
    simp only [step, Option.some.injEq, Prod.mk.injEq] at h
    obtain ⟨rfl, rfl⟩ := h
    simp [Pc.Knows]
  | loop now yield =>
    have hdead := hok now yield rfl
    simp only [step] at h
    repeat' split at h
    all_goals simp only [Option.some.injEq, Prod.mk.injEq, reduceCtorEq] at h
    all_goals obtain ⟨rfl, rfl⟩ := h
    · rename_i hbh
      exact .inl hbh
    · exact trivial
    · rename_i hbh hlate
      rcases hdead with hnil | hne
      · exact .inl hnil
      · exact .inr (by omega)
  | drained now yield =>
    simp only [step] at h
    split at h
    · simp only [Option.some.injEq, Prod.mk.injEq] at h
      obtain ⟨rfl, rfl⟩ := h
      exact hI
    · cases h
  | exitTest now yield =>
    simp only [step] at h
    repeat' split at h
    all_goals simp only [Option.some.injEq, Prod.mk.injEq] at h
    all_goals obtain ⟨rfl, rfl⟩ := h
    · rename_i hleft
      exact hleft.symm
    all_goals exact trivial
  | yielding =>
    simp only [step, Option.some.injEq, Prod.mk.injEq] at h
    obtain ⟨rfl, rfl⟩ := h
    exact hI
  | _ =>
    simp only [step] at h
    repeat' split at h
    all_goals simp only [Option.some.injEq, Prod.mk.injEq, reduceCtorEq] at h
    all_goals obtain ⟨rfl, rfl⟩ := h
    all_goals exact trivial

/-- `runningBH` is cleared with both lists empty. -/
theorem step_clears (h : step quantum t s pc = some (s', pc')) (hI : pc.Knows s)
    (hset : s.runningBH = true) (hclear : s'.runningBH = false) : ¬ s.waiting := by
  cases pc with
  | exitTest now yield =>
    simp only [step] at h
    repeat' split at h
    all_goals simp only [Option.some.injEq, Prod.mk.injEq] at h
    all_goals obtain ⟨rfl, rfl⟩ := h
    · rw [hset] at hclear
      cases hclear
    · rename_i hnone
      rintro (hisr | hbh)
      · exact hnone (.inr hisr)
      · exact hnone (.inl hbh)
    · rw [hset] at hclear
      cases hclear
    · rename_i hearly hisr
      rintro (hne | hne)
      · exact hisr hne
      · rcases hI with hnil | hlate
        · exact hne hnil
        · exact hearly hlate
  | _ =>
    simp only [step] at h
    repeat' split at h
    all_goals simp only [Option.some.injEq, Prod.mk.injEq, reduceCtorEq] at h
    all_goals obtain ⟨rfl, rfl⟩ := h
    all_goals simp_all

theorem waiting_congr (hisr : s'.isrDoneCmds = s.isrDoneCmds)
    (hbh : s'.bhDoneCmds = s.bhDoneCmds) : s'.waiting ↔ s.waiting := by
  unfold Pcpu.waiting
  rw [hisr, hbh]

/-- The bottom half is told of a command in the section that added it. -/
theorem step_signals (h : step quantum t s pc = some (s', pc'))
    (hoff : s'.runningBH = false) : pc.unsignalled = 0 := by
  cases pc with
  | signalBH =>
    simp only [step] at h
    split at h
    all_goals simp only [Option.some.injEq, Prod.mk.injEq] at h
    all_goals obtain ⟨rfl, rfl⟩ := h
    · cases hoff
    · rename_i hon
      exact absurd hoff hon
  | _ => rfl

theorem step_schedules (h : step quantum t s pc = some (s', pc')) (hon : s'.scheduled = true) :
    s.scheduled = true ∨ pc = .signalBH ∨ pc = .reschedule := by
  cases pc with
  | signalBH => exact .inr (.inl rfl)
  | reschedule => exact .inr (.inr rfl)
  | _ =>
    simp only [step] at h
    repeat' split at h
    all_goals simp only [Option.some.injEq, Prod.mk.injEq, reduceCtorEq] at h
    all_goals obtain ⟨rfl, rfl⟩ := h
    all_goals exact .inl hon

theorem step_waits {others : Nat} (h : step quantum t s pc = some (s', pc')) (hI : pc.Knows s)
    (hrun : s.scheduled.toNat + pc.answers ≤ s.runningBH.toNat)
    (hwaits : s.waiting → 0 < s.runningBH.toNat + (others + pc.unsignalled))
    (hw : s'.waiting) : 0 < s'.runningBH.toNat + (others + pc'.unsignalled) := by
  cases hon : s'.runningBH with
  | true =>
    rw [Bool.toNat_true]
    omega
  | false =>
    have hold : s.runningBH = true → ¬ s.waiting := fun hset => step_clears h hI hset hon
    have hzero := step_signals h hon
    rcases step_lists h with ⟨hisr, hbh⟩ | ⟨scmd, -, -, -, rfl⟩ | ⟨-, hans, -, -, hsame, -⟩ |
      ⟨hans, -, hsame, -⟩
    · have hws := (waiting_congr hisr hbh).mp hw
      have hoff : s.runningBH = false := by
        cases hb : s.runningBH with
        | true => exact absurd hws (hold hb)
        | false => rfl
      have hpos := hwaits hws
      simp only [hoff, hzero, Bool.toNat_false] at hpos ⊢
      omega
    · simp [Pc.unsignalled]
    · rw [hans, ← hsame, hon, Bool.toNat_false] at hrun
      omega
    · rw [hans, ← hsame, hon, Bool.toNat_false] at hrun
      omega

theorem step_scheduled (h : step quantum t s pc = some (s', pc')) (hI : pc.Knows s)
    (hrun : s.scheduled.toNat + pc.answers ≤ s.runningBH.toNat)
    (hsched : s.scheduled → s.waiting) (hon : s'.scheduled = true) : s'.waiting := by
  have hws : s.waiting := by
    rcases step_schedules h hon with hs | rfl | rfl
    · exact hsched hs
    · exact .inl hI
    · exact hI
  have hbound := Bool.toNat_le s.runningBH
  rcases step_lists h with ⟨hisr, hbh⟩ | ⟨scmd, -, hisr, -⟩ | ⟨-, hans, -, -, -, now, yield, hpc⟩ |
    ⟨hans, -, -, scmd, yield, -, hpc⟩
  · exact (waiting_congr hisr hbh).mpr hws
  · exact .inl (by simp [hisr])
  all_goals
    rcases step_schedules h hon with hs | rfl | rfl
    · rw [hs, Bool.toNat_true, hans] at hrun
      omega
    · exact absurd hans (by decide)
    · simp only [step] at h
      split at h
      · simp only [Option.some.injEq, Prod.mk.injEq] at h
        rw [← h.2] at hpc
        cases hpc
      · cases h

end Step

/-! ### Runs -/

theorem books_initial (timer : Nat) : Books (initial timer) where
  ints := rfl
  executing := rfl
  running := rfl
  waits := by simp [initial, Pcpu.waiting]
  scheduled := by simp [initial]
  knows := each_nil _

theorem books_enter {c : Config Pcpu Pc} {call : Call} {s : Pcpu} {pc : Pc}
    (h : enter c.pool.length call c.shared = some (s, pc)) (hI : Books c) :
    Books ⟨s, c.pool ++ [pc]⟩ := by
  obtain ⟨hints, hexec, hrun, hwaits, hsched, hknows⟩ := hI
  cases call with
  | completion scmd =>
    simp only [enter] at h
    split at h
    · rename_i hon
      simp only [Option.some.injEq, Prod.mk.injEq] at h
      obtain ⟨rfl, rfl⟩ := h
      rw [hon] at hints
      refine ⟨?_, ?_, ?_, ?_, hsched, hknows.append (fun _ _ _ hk => hk) trivial⟩
      · simpa [Pc.masks] using hints
      · simpa [Pc.executes] using hexec
      · simpa [Pc.answers] using hrun
      · intro hw
        simpa [Pc.unsignalled] using hwaits hw
    · cases h
  | bottomHalf =>
    simp only [enter] at h
    split at h
    · rename_i hon
      obtain ⟨-, hs, hidle⟩ := hon
      simp only [Option.some.injEq, Prod.mk.injEq] at h
      obtain ⟨rfl, rfl⟩ := h
      rw [hidle] at hexec
      rw [hs] at hrun
      refine ⟨?_, ?_, ?_, ?_, ?_, hknows.append (fun _ _ _ hk => hk) (hsched hs)⟩
      · simpa [Pc.masks] using hints
      · simpa [Pc.executes] using hexec
      · simp only [total_append, Pc.answers, Bool.toNat_false, Bool.toNat_true] at hrun ⊢
        omega
      · intro hw
        simpa [Pc.unsignalled] using hwaits hw
      · simp
    · cases h

theorem books_step {quantum t i : Nat} {c : Config Pcpu Pc} {s : Pcpu} {pc pc' : Pc}
    (hi : c.pool[i]? = some pc) (h : step quantum t c.shared pc = some (s, pc'))
    (hok : ∀ now yield, pc = .loop now yield → c.shared.bhDoneCmds = [] ∨ now ≠ yield)
    (hI : Books c) : Books ⟨s, c.pool.set i pc'⟩ := by
  obtain ⟨hints, hexec, hrun, hwaits, hsched, hknows⟩ := hI
  rw [total_eq_others _ hi] at hints hexec hrun
  have hmine : pc.Knows c.shared := hknows i pc hi
  have hanswers : c.shared.scheduled.toNat + pc.answers ≤ c.shared.runningBH.toNat := by omega
  obtain ⟨hmasks, hexecutes, hrunning⟩ := step_flags h (by omega) (by omega) hanswers
  refine ⟨?_, ?_, ?_, ?_, step_scheduled h hmine hanswers hsched, ?_⟩
  · rw [total_set _ _ hi]
    show _ + s.intsEnabled.toNat = 1
    omega
  · rw [total_set _ _ hi]
    show _ = s.executing.toNat
    omega
  · rw [total_set _ _ hi]
    show s.scheduled.toNat + _ = s.runningBH.toNat
    omega
  · rw [total_eq_others _ hi] at hwaits
    rw [total_set _ _ hi]
    exact step_waits h hmine hanswers hwaits
  · refine hknows.set (fun j u hji hj hk => ?_) (step_knows h hok hmine)
    -- the other threads: a second bottom half, or a second section, would show in the books
    have hexecOther : u.executes ≤ others Pc.executes c.pool i := le_others Pc.executes hji hj
    have hmasksOther : u.masks ≤ others Pc.masks c.pool i := le_others Pc.masks hji hj
    have hle := answers_le_executes pc
    have hboundE := Bool.toNat_le c.shared.executing
    rcases step_lists h with ⟨hisr, hbh⟩ | ⟨scmd, -, hisr, hbh, -⟩ | ⟨hm, hans, -⟩ |
      ⟨hans, hisr, -⟩
    · exact knows_of_grows hbh (fun hne => by rw [hisr]; exact hne) hk
    · exact knows_of_grows hbh (fun _ => by simp [hisr]) hk
    · exact knows_of_takes (by omega) (.inl (by omega)) hk
    · exact knows_of_takes (by omega) (.inr hisr) hk

theorem books_of_reach {quantum timer : Nat} {c : Config Pcpu Pc}
    (h : (machine quantum).Reach (fun c e => offDeadline c e = true) (initial timer) c) :
    Books c := by
  refine Machine.Reach.invariant Books (books_initial timer) ?_ ?_ h
  · intro c call s pc _ hI _ hs
    exact books_enter hs hI
  · intro c i t pc s pc' _ hI hok hi hs
    refine books_step hi hs (fun now yield hpc => ?_) hI
    subst hpc
    simpa [offDeadline, hi] using hok

/-- Outside the sections somebody is going to see to a waiting command. -/
theorem Books.served {c : Config Pcpu Pc} (hI : Books c) (hon : c.shared.intsEnabled = true)
    (hw : c.shared.waiting) :
    c.shared.runningBH = true ∧ (c.shared.scheduled = true ∨ c.shared.executing = true) := by
  obtain ⟨hints, hexec, hrun, hwaits, -, -⟩ := hI
  have hanswers : total Pc.answers c.pool ≤ total Pc.executes c.pool :=
    total_le_total fun pc _ => answers_le_executes pc
  have hunsignalled : total Pc.unsignalled c.pool ≤ total Pc.masks c.pool :=
    total_le_total fun pc _ => unsignalled_le_masks pc
  have hpos := hwaits hw
  rw [hon, Bool.toNat_true] at hints
  cases hr : c.shared.runningBH with
  | false =>
    rw [hr, Bool.toNat_false] at hpos
    omega
  | true =>
    refine ⟨rfl, ?_⟩
    cases hs : c.shared.scheduled with
    | true => exact .inl rfl
    | false =>
      right
      cases he : c.shared.executing with
      | true => rfl
      | false =>
        rw [he, Bool.toNat_false] at hexec
        rw [hs, hr, Bool.toNat_false, Bool.toNat_true] at hrun
        omega

/-- The bottom half starts with a command waiting. -/
theorem Books.entry {c : Config Pcpu Pc} (hI : Books c) {i : Nat}
    (hi : c.pool[i]? = some Pc.entry) : c.shared.runningBH = true ∧ c.shared.waiting := by
  refine ⟨?_, hI.knows i _ hi⟩
  have hrun := hI.running
  have hmine := total_eq_others Pc.answers hi
  simp only [Pc.answers] at hmine
  cases hr : c.shared.runningBH with
  | true => rfl
  | false =>
    rw [hr, Bool.toNat_false] at hrun
    omega

theorem enter_runningBH {me : Nat} {call : Call} {s s' : Pcpu} {pc : Pc}
    (h : enter me call s = some (s', pc)) : s'.runningBH = s.runningBH := by
  cases call <;> simp only [enter] at h <;> split at h
  all_goals simp only [Option.some.injEq, Prod.mk.injEq, reduceCtorEq] at h
  all_goals obtain ⟨rfl, rfl⟩ := h
  all_goals rfl

/-- `runningBH` is cleared with both lists empty. -/
theorem Books.cleared {quantum : Nat} {c c' : Config Pcpu Pc} (hI : Books c)
    {e : Event Call Nat} (hexec : (machine quantum).exec c e = some c')
    (hset : c.shared.runningBH = true) (hclear : c'.shared.runningBH = false) :
    ¬ c.shared.waiting := by
  cases e with
  | start call =>
    simp only [Machine.exec, machine] at hexec
    split at hexec
    · rename_i s pc hs
      simp only [Option.some.injEq] at hexec
      subst hexec
      rw [enter_runningBH hs, hset] at hclear
      cases hclear
    · cases hexec
  | act i t =>
    simp only [Machine.exec, machine] at hexec
    split at hexec
    · rename_i pc hi
      split at hexec
      · rename_i s pc' hs
        simp only [Option.some.injEq] at hexec
        subst hexec
        exact step_clears hs (hI.knows i pc hi) hset hclear
      · cases hexec
    · cases hexec

/-- **Nothing is stranded.**  In every run in which the loop test never meets a deadline
    just reached: outside the sections, a waiting command has `runningBH` set and a
    bottom half that is scheduled or executing; the bottom half starts with a command
    waiting; and `runningBH` is cleared only with both lists empty. -/
theorem completions_not_stranded {quantum timer : Nat} {c : Config Pcpu Pc}
    (h : (machine quantum).Reach (fun c e => offDeadline c e = true) (initial timer) c) :
    (c.shared.intsEnabled = true → c.shared.waiting →
      c.shared.runningBH = true ∧ (c.shared.scheduled = true ∨ c.shared.executing = true)) ∧
    (∀ i : Nat, c.pool[i]? = some Pc.entry → c.shared.runningBH = true ∧ c.shared.waiting) ∧
    ∀ e c', (machine quantum).exec c e = some c' →
      c.shared.runningBH = true → c'.shared.runningBH = false → ¬ c.shared.waiting := by
  have hI := books_of_reach h
  refine ⟨?_, ?_, ?_⟩
  · intro hon hw
    exact hI.served hon hw
  · intro i hi
    exact hI.entry hi
  · intro e c' hexec hset hclear
    exact hI.cleared hexec hset hclear

/-- A completion that arrives while the bottom half is in its loop. -/
theorem completions_not_stranded_in_loop :
    ∃ c, (machine 5000000).Reach (fun c e => offDeadline c e = true) (initial 0) c ∧
      c.shared.waiting ∧ c.shared.runningBH = true ∧
      (c.shared.scheduled = true ∨ c.shared.executing = true) := by
  obtain ⟨c, hc, ho⟩ := (machine 5000000).exists_reach_of_runIf offDeadline
    [.start (.completion ⟨0, false⟩), .act 0 0, .act 0 0, .act 0 0, .start .bottomHalf,
     .act 1 7, .act 1 0, .act 1 0, .act 1 0, .act 1 0, .start (.completion ⟨1, true⟩),
     .act 2 0, .act 2 0, .act 2 0]
    (initial 0) (fun c => (c.shared.intsEnabled, c.shared.isrDoneCmds)) (true, [⟨1, true⟩])
    (by decide)
  simp only [Prod.mk.injEq] at ho
  obtain ⟨hon, hisr⟩ := ho
  have hw : c.shared.waiting := .inl (by simp [hisr])
  exact ⟨c, hc, hw, (completions_not_stranded hc).1 hon hw⟩

/-- Two commands complete, and the timer reads `yield` after the first of them: the
    second is left on `bhDoneCmds` with no bottom half to come. -/
theorem completion_stranded :
    ∃ c, (machine 5000000).Reachable (initial 0) c ∧ c.shared.intsEnabled = true ∧
      c.shared.waiting ∧ c.shared.runningBH = false ∧ c.shared.scheduled = false ∧
      c.shared.executing = false := by
  obtain ⟨c, hc, ho⟩ := (machine 5000000).exists_reachable_of_run
    [.start (.completion ⟨0, true⟩), .act 0 0, .act 0 0, .act 0 0,
     .start (.completion ⟨1, true⟩), .act 1 0, .act 1 0, .act 1 0, .start .bottomHalf,
     .act 2 1000, .act 2 0, .act 2 0, .act 2 0, .act 2 0, .act 2 0, .act 2 5001000,
     .act 2 0, .act 2 0, .act 2 0, .act 2 0]
    (initial 0)
    (fun c => (c.shared.intsEnabled, c.shared.bhDoneCmds, c.shared.runningBH,
      c.shared.scheduled, c.shared.executing))
    (true, [⟨1, true⟩], false, false, false) (by decide)
  simp only [Prod.mk.injEq] at ho
  obtain ⟨hon, hbh, hoff, hs, he⟩ := ho
  exact ⟨c, hc, hon, .inr (by simp [hbh]), hoff, hs, he⟩

end VmkLinux.Scsi.BottomHalf
