/-
  VmkLinux/Scsi/ExactlyOnce.lean
  ==============================
  **Commands complete exactly once**, where no timeout comes into the gap of an aborter.
  Both `SCSILinuxAbortCommands` and `SCSIProcessCmdTimedOut` clear `DELAY_CMDDONE` and
  call `scsi_done` for a command whose completion was attempted, and drop `vmklock` in
  between.

  The gap of `SCSIProcessCmdTimedOut` is harmless: an aborter does not touch a command
  whose completion was attempted, and the timer of the command has run already.  Into
  the gap of an aborter comes `SCSILinuxCmdTimedOut`, which does not look at
  `CMDDONE_ATTEMPTED`: it delays the command once more, and its work item completes it
  beside the aborter (`command_completed_twice`).  `outsideGap` says of a step that it
  does not; then every step of the machine is one of the moves of `Invariant.lean` for
  the command it is about, and does nothing for the others, so that the invariant holds
  for every command along the run (`inv_of_reach`).
-/
import VmkLinux.Scsi.Invariant

namespace VmkLinux.Scsi

open VmkLinux.Interleave

/-! ### Steps -/

section Steps

variable {H : Host} {a : Choice} {s s' : Shared} {r : Load} {x y p : Nat} {k : Caller}
  {pc pc' : Pc}

theorem scheduleCompletion_cmd (s : Shared) (y p : Nat) (k : Caller) :
    ((scheduleCompletion s y p).setCmd y (((scheduleCompletion s y p).cmd y).doneReturn k)).cmd
      = (s.setCmd y ((s.cmd y).put.doneReturn k)).cmd := by
  simp [scheduleCompletion, Shared.setCmd]

theorem next_load (k : Caller) (x : Nat) : k.next.load x = k.load x := by
  cases k
  all_goals rfl

/-- A step about command `y`: it must keep the invariant of `y`. -/
theorem CmdInv.set (c : ScsiCmnd) (l l' : Load)
    (hI : CmdInv (s.cmd x) (r.add (if y = x then l else .none)))
    (h : CmdInv (s.cmd y) (r.add l) → CmdInv c (r.add l')) :
    CmdInv ((s.setCmd y c).cmd x) (r.add (if y = x then l' else .none)) := by
  by_cases hyx : y = x
  · subst hyx
    simp only [if_true, Shared.setCmd_cmd_self] at hI ⊢
    exact h hI
  · have hxy : x ≠ y := fun heq => hyx heq.symm
    simp only [hyx, if_false] at hI ⊢
    rw [Shared.setCmd_cmd_ne _ _ hxy]
    exact hI

/-- A step about `y` after which its call has nothing more to do with `y`. -/
theorem CmdInv.set_none (c : ScsiCmnd) (l : Load)
    (hI : CmdInv (s.cmd x) (r.add (if y = x then l else .none)))
    (h : CmdInv (s.cmd y) (r.add l) → CmdInv c (r.add .none)) :
    CmdInv ((s.setCmd y c).cmd x) (r.add .none) := by
  have hset := hI.set c l .none h
  rwa [ite_self] at hset

/-- A step about `y` of a call that had nothing to do with `y` before. -/
theorem CmdInv.set_of_none (c : ScsiCmnd) (l : Load) (hI : CmdInv (s.cmd x) (r.add .none))
    (h : CmdInv (s.cmd y) (r.add .none) → CmdInv c (r.add l)) :
    CmdInv ((s.setCmd y c).cmd x) (r.add (if y = x then l else .none)) := by
  refine CmdInv.set c .none l ?_ h
  rwa [ite_self]

theorem cmdDone_inv (h : cmdDone s y k = (s', pc'))
    (hI : CmdInv (s.cmd x) (r.add (Pc.load x (.doneLock y k)))) :
    CmdInv (s'.cmd x) (r.add (pc'.load x)) := by
  rw [Pc.load, Load.add_right_comm] at hI
  unfold cmdDone doneReturn at h
  split at h
  · rename_i hneed
    simp only [Prod.mk.injEq] at h
    obtain ⟨rfl, rfl⟩ := h
    refine hI.set_none _ _ fun hy => ?_
    simp [hy.need_of_decide.1] at hneed
  · split at h
    · rename_i hdelay
      simp only [Prod.mk.injEq, Shared.setCmd_setCmd, Shared.setCmd_cmd_self] at h
      obtain ⟨rfl, rfl⟩ := h
      rw [next_load]
      exact hI.set_none _ _ fun hy => hy.park hdelay
    · rename_i hdelay
      simp only [Prod.mk.injEq] at h
      obtain ⟨rfl, rfl⟩ := h
      rw [Pc.load, Load.add_right_comm]
      exact hI.set _ _ _ fun hy => hy.take (by simpa using hdelay)

/-! ### The loops of `SCSILinuxAbortCommands` -/

theorem collectOne_inv {targets : List Nat} {sl : Shared × List Nat}
    (hI : CmdInv (sl.1.cmd x) (r.add (.own (sl.2.count x)))) :
    CmdInv ((collectOne targets sl y).1.cmd x)
      (r.add (.own ((collectOne targets sl y).2.count x))) := by
  unfold collectOne
  split
  · rename_i htake
    simp only [Bool.and_eq_true, Bool.not_eq_true', decide_eq_true_eq] at htake
    obtain ⟨⟨⟨hneed, hattempted⟩, -⟩, hdelay⟩ := htake
    by_cases hyx : y = x
    · subst hyx
      simp only [List.count_append, List.count_singleton_self]
      show CmdInv ((sl.1.setCmd y _).cmd y) _
      rw [Shared.setCmd_cmd_self]
      exact hI.collect hneed hattempted hdelay
    · have hxy : x ≠ y := fun heq => hyx heq.symm
      simp only [List.count_append, List.count_singleton, beq_iff_eq, hyx, if_false, Nat.add_zero]
      show CmdInv ((sl.1.setCmd y _).cmd x) _
      rw [Shared.setCmd_cmd_ne _ _ hxy]
      exact hI
  · exact hI

theorem collect_inv {b : Abort} (hI : CmdInv (s.cmd x) (r.add .none)) :
    CmdInv ((collect b s).1.cmd x) (r.add (.own ((collect b s).2.count x))) := by
  unfold collect
  have hfold : ∀ (l : List Nat) (sl : Shared × List Nat),
      CmdInv (sl.1.cmd x) (r.add (.own (sl.2.count x))) →
      CmdInv ((l.foldl (collectOne b.targets) sl).1.cmd x)
        (r.add (.own ((l.foldl (collectOne b.targets) sl).2.count x))) := by
    intro l
    induction l with
    | nil => exact fun _ h => h
    | cons y l ih => exact fun sl h => ih _ (collectOne_inv h)
  exact hfold _ (s, []) hI

/-- One round of the last loop. -/
theorem finishOne_inv {b : Abort} {todo : List Nat}
    (hI : CmdInv (s.cmd x) (r.add (.own ((y :: todo).count x)))) :
    CmdInv ((finishOne b.sdev s y).cmd x)
      (r.add (Pc.load x (if (s.cmd y).cmddoneAttempted then
        .doneLock y (.abort { b with todo := todo })
      else .finishLoop { b with todo := todo }))) := by
  show CmdInv ((s.setCmd y _).cmd x) _
  by_cases hyx : y = x
  · subst hyx
    rw [List.count_cons_self] at hI
    rw [Shared.setCmd_cmd_self]
    have hfinish := hI.finish
    cases hattempted : (s.cmd y).cmddoneAttempted with
    | false =>
      simp only [hattempted, Bool.false_eq_true, if_false] at hfinish ⊢
      exact hfinish
    | true =>
      simp only [hattempted, if_true] at hfinish ⊢
      rw [Pc.load, Load.add_right_comm, if_pos rfl]
      exact hfinish
  · rw [Shared.setCmd_cmd_ne _ _ fun heq => hyx heq.symm]
    rw [List.count_cons_of_ne hyx] at hI
    split
    · rw [Pc.load, Load.add_right_comm, if_neg hyx]
      exact hI
    · exact hI

/-! ### Fresh commands -/

/-- The command that a call of `SCSILinuxQueueCommand` has still to make ready. -/
def Pc.yet : Pc → Option Nat
  | .queueSetup x | .queueFail x | .queueLock x => some x
  | _ => none

theorem setCmd_given {c : ScsiCmnd} (h : c.given = (s.cmd y).given) (m : Nat) :
    ((s.setCmd y c).cmd m).given = (s.cmd m).given := by
  by_cases hmy : m = y
  · subst hmy
    rw [Shared.setCmd_cmd_self, h]
  · rw [Shared.setCmd_cmd_ne _ _ hmy]

theorem doneReturn_given (c : ScsiCmnd) (k : Caller) : (c.doneReturn k).given = c.given := by
  cases k
  all_goals rfl

theorem next_yet (k : Caller) : k.next.yet = none := by
  cases k
  all_goals rfl

theorem scheduleCompletion_given (s : Shared) (y p m : Nat) :
    ((scheduleCompletion s y p).cmd m).given = (s.cmd m).given :=
  setCmd_given (c := (s.cmd y).put) rfl m

theorem cmdDone_given (h : cmdDone s y k = (s', pc')) (m : Nat) :
    (s'.cmd m).given = (s.cmd m).given ∧ pc'.yet = none := by
  unfold cmdDone doneReturn at h
  split at h
  · simp only [Prod.mk.injEq] at h
    obtain ⟨rfl, rfl⟩ := h
    exact ⟨setCmd_given (by rfl) m, rfl⟩
  · split at h
    · simp only [Prod.mk.injEq, Shared.setCmd_setCmd, Shared.setCmd_cmd_self] at h
      obtain ⟨rfl, rfl⟩ := h
      exact ⟨setCmd_given (by rw [doneReturn_given]) m, next_yet k⟩
    · simp only [Prod.mk.injEq] at h
      obtain ⟨rfl, rfl⟩ := h
      exact ⟨setCmd_given (by rfl) m, rfl⟩

theorem collect_given (b : Abort) (s : Shared) (m : Nat) :
    ((collect b s).1.cmd m).given = (s.cmd m).given := by
  have hone : ∀ (sl : Shared × List Nat) (y : Nat),
      ((collectOne b.targets sl y).1.cmd m).given = (sl.1.cmd m).given := by
    intro sl y
    unfold collectOne
    split
    · exact setCmd_given (by rfl) m
    · rfl
  have hfold : ∀ (l : List Nat) (sl : Shared × List Nat),
      ((l.foldl (collectOne b.targets) sl).1.cmd m).given = (sl.1.cmd m).given := by
    intro l
    induction l with
    | nil => exact fun _ => rfl
    | cons y l ih => exact fun sl => (ih _).trans (hone sl y)
  exact hfold _ (s, [])

theorem queueCommand_given (h : queueCommand H a s y = (s', pc')) :
    pc'.yet = none ∧ ∀ m, (s'.cmd m).given = true → (s.cmd m).given = true ∨ m = y := by
  have hset : ∀ (c : ScsiCmnd) (m : Nat), ((s.setCmd y c).cmd m).given = true →
      (s.cmd m).given = true ∨ m = y := by
    intro c m hm
    by_cases hmy : m = y
    · exact Or.inr hmy
    · rw [Shared.setCmd_cmd_ne _ _ hmy] at hm
      exact Or.inl hm
  unfold queueCommand at h
  repeat' split at h
  all_goals simp only [Prod.mk.injEq] at h
  all_goals obtain ⟨rfl, rfl⟩ := h
  · exact ⟨rfl, fun m hm => Or.inl hm⟩
  · exact ⟨rfl, hset _⟩
  · exact ⟨rfl, hset _⟩
  · exact ⟨rfl, hset _⟩

/-- A command is made ready only by the call it is named after. -/
theorem step_given (h : step H a s pc = some (s', pc')) :
    (pc'.yet = none ∨ pc'.yet = pc.yet) ∧
    ∀ m, (s'.cmd m).given = true → (s.cmd m).given = true ∨ (pc.yet = some m ∧ pc'.yet = none) := by
  cases pc with
  | queueFail x =>
    simp only [step, Option.some.injEq, Prod.mk.injEq] at h
    obtain ⟨rfl, rfl⟩ := h
    refine ⟨Or.inl rfl, fun m hm => ?_⟩
    by_cases hmx : m = x
    · exact Or.inr ⟨congrArg some hmx.symm, rfl⟩
    · refine Or.inl ?_
      have hm' : ((s.setCmd x (s.cmd x).need).cmd m).given = true := hm
      rwa [Shared.setCmd_cmd_ne _ _ hmx] at hm'
  | queueLock x =>
    obtain ⟨hyet, hgiven⟩ := queueCommand_given (Option.some.inj h)
    refine ⟨Or.inl hyet, fun m hm => ?_⟩
    rcases hgiven m hm with hold | heq
    · exact Or.inl hold
    · exact Or.inr ⟨congrArg some heq.symm, hyet⟩
  | doneLock x k =>
    simp only [step] at h
    split at h
    · simp only [Option.some.injEq, Prod.mk.injEq] at h
      obtain ⟨rfl, rfl⟩ := h
      exact ⟨Or.inl rfl, fun m hm => Or.inl hm⟩
    · have hcmd := cmdDone_given (Option.some.inj h)
      exact ⟨Or.inl (hcmd 0).2, fun m hm => Or.inl (by rw [← (hcmd m).1]; exact hm)⟩
  | doneRelock x k =>
    have hcmd := cmdDone_given (Option.some.inj h)
    exact ⟨Or.inl (hcmd 0).2, fun m hm => Or.inl (by rw [← (hcmd m).1]; exact hm)⟩
  | doneSchedule x k =>
    simp only [step, doneReturn, Option.some.injEq, Prod.mk.injEq] at h
    obtain ⟨rfl, rfl⟩ := h
    refine ⟨Or.inl (next_yet k), fun m hm => Or.inl ?_⟩
    rw [setCmd_given (by rw [doneReturn_given]), scheduleCompletion_given] at hm
    exact hm
  | abortCollect b =>
    simp only [step] at h
    split at h
    · cases h
    · simp only [Option.some.injEq, Prod.mk.injEq] at h
      obtain ⟨rfl, rfl⟩ := h
      refine ⟨Or.inl rfl, fun m hm => Or.inl ?_⟩
      rw [← collect_given b s m]
      exact hm
  | finishLoop b =>
    simp only [step] at h
    split at h
    · simp only [Option.some.injEq, Prod.mk.injEq] at h
      obtain ⟨rfl, rfl⟩ := h
      exact ⟨Or.inl rfl, fun m hm => Or.inl hm⟩
    · simp only [Option.some.injEq, Prod.mk.injEq] at h
      obtain ⟨rfl, rfl⟩ := h
      refine ⟨Or.inl ?_, fun m hm => Or.inl ?_⟩
      · split <;> rfl
      · rw [← setCmd_given (s := s) (c := { s.cmd _ with delayCmddone := false }) rfl m]
        exact hm
  | abortStatus h' x success =>
    simp only [step, Option.some.injEq, Prod.mk.injEq] at h
    obtain ⟨rfl, rfl⟩ := h
    refine ⟨Or.inl ?_, fun m hm => Or.inl hm⟩
    cases h'
    all_goals rfl
  | _ =>
    simp only [step, deleteIoTimer] at h
    repeat' split at h
    all_goals simp only [Option.some.injEq, Prod.mk.injEq, reduceCtorEq] at h
    all_goals obtain ⟨rfl, rfl⟩ := h
    all_goals refine ⟨by first | exact Or.inl rfl | exact Or.inr rfl, fun m hm => Or.inl ?_⟩
    all_goals first | exact hm | (rw [setCmd_given (by rfl)] at hm; exact hm)

/-! ### The invariant along a run -/

theorem queueCommand_inv (h : queueCommand H a s y = (s', pc')) (hfresh : (s.cmd y).given = false)
    (hI : CmdInv (s.cmd x) (r.add .none)) : CmdInv (s'.cmd x) (r.add (pc'.load x)) := by
  unfold queueCommand at h
  split at h
  · simp only [Prod.mk.injEq] at h
    obtain ⟨rfl, rfl⟩ := h
    exact hI
  · split at h
    · simp only [Prod.mk.injEq] at h
      obtain ⟨rfl, rfl⟩ := h
      exact hI.set_of_none _ _ fun hy => hy.fail hfresh
    · simp only [Prod.mk.injEq] at h
      obtain ⟨rfl, rfl⟩ := h
      have hset : CmdInv ((s.setCmd y ((s.cmd y).submit H a.refused)).cmd x)
          (r.add (if y = x then (if a.refused then .decide .queue else .none) else .none)) :=
        hI.set_of_none _ _ fun hy => hy.submit H hfresh
      cases hrefused : a.refused with
      | false =>
        simp only [hrefused, Bool.false_eq_true, if_false, ite_self] at hset
        exact hset
      | true =>
        simp only [hrefused, if_true] at hset
        exact hset

theorem handlerReturn_load (st : Status) (h : Handler) :
    (handlerReturn y st h).load x = h.load x y := by
  cases h
  all_goals rfl

/-- The section of `SCSILinuxCmdTimedOut`, outside of the gap of an aborter. -/
theorem timedOut_inv (h : step H a s (.timedOut y) = some (s', pc'))
    (hgap : y = x → r.deciding .abort = 0)
    (hI : CmdInv (s.cmd x) (r.add (Pc.load x (.timedOut y)))) :
    CmdInv (s'.cmd x) (r.add (pc'.load x)) := by
  simp only [step] at h
  split at h
  · rename_i hneed
    simp only [Bool.and_eq_true, Bool.not_eq_true'] at hneed
    simp only [Option.some.injEq, Prod.mk.injEq] at h
    obtain ⟨rfl, rfl⟩ := h
    by_cases hyx : y = x
    · subst hyx
      exact hI.set _ _ _ fun hy => (hy.delay hneed.1 hneed.2 (hgap rfl)).congr
    · have hxy : x ≠ y := fun heq => hyx heq.symm
      simp only [Pc.load, Handler.load, hyx, if_false] at hI ⊢
      rw [Shared.setCmd_cmd_ne _ _ hxy]
      exact hI
  · simp only [Option.some.injEq, Prod.mk.injEq] at h
    obtain ⟨rfl, rfl⟩ := h
    exact hI.set_none _ _ fun hy => hy.timeout_none.congr

/-- The last section of `SCSIProcessCmdTimedOut`. -/
theorem workFinish_inv (h : step H a s (.workFinish y) = some (s', pc'))
    (hI : CmdInv (s.cmd x) (r.add (Pc.load x (.workFinish y)))) :
    CmdInv (s'.cmd x) (r.add (pc'.load x)) := by
  simp only [step, Option.some.injEq, Prod.mk.injEq] at h
  obtain ⟨rfl, rfl⟩ := h
  have hset := hI.set _ _ _ fun hy => hy.workFinish
  cases hattempted : (s.cmd y).cmddoneAttempted with
  | false =>
    simp only [hattempted, Bool.false_eq_true, if_false, ite_self] at hset ⊢
    exact hset
  | true =>
    simp only [hattempted, if_true] at hset ⊢
    exact hset

/-- **One step** keeps the invariant of every command. -/
theorem step_inv (h : step H a s pc = some (s', pc'))
    (hfresh : ∀ m, pc.yet = some m → (s.cmd m).given = false)
    (hgap : pc = .timedOut x → r.deciding .abort = 0)
    (hI : CmdInv (s.cmd x) (r.add (pc.load x))) : CmdInv (s'.cmd x) (r.add (pc'.load x)) := by
  cases pc with
  | queueSetup y =>
    simp only [step] at h
    repeat' split at h
    all_goals simp only [Option.some.injEq, Prod.mk.injEq] at h
    all_goals obtain ⟨rfl, rfl⟩ := h
    all_goals exact hI
  | queueFail y =>
    simp only [step, Option.some.injEq, Prod.mk.injEq] at h
    obtain ⟨rfl, rfl⟩ := h
    exact hI.set_of_none _ _ fun hy => hy.fail (hfresh y rfl)
  | queueLock y => exact queueCommand_inv (Option.some.inj h) (hfresh y rfl) hI
  | refusedTimer y =>
    simp only [step, deleteIoTimer, Option.some.injEq, Prod.mk.injEq] at h
    obtain ⟨rfl, rfl⟩ := h
    split
    · exact hI.set _ _ _ fun hy => hy.deleteTimer
    · exact hI
  | refusedTest y =>
    simp only [step, Option.some.injEq, Prod.mk.injEq] at h
    obtain ⟨rfl, rfl⟩ := h
    split
    · exact hI
    · rename_i hneed
      by_cases hyx : y = x
      · subst hyx
        simp only [Pc.load, if_true] at hI
        exact absurd hI.need_of_decide.1 hneed
      · simp only [Pc.load, hyx, if_false] at hI ⊢
        exact hI
  | doneLock y k =>
    simp only [step] at h
    split at h
    · simp only [Option.some.injEq, Prod.mk.injEq] at h
      obtain ⟨rfl, rfl⟩ := h
      exact hI
    · exact cmdDone_inv (Option.some.inj h) hI
  | doneTimer y k =>
    simp only [step, Option.some.injEq, Prod.mk.injEq] at h
    obtain ⟨rfl, rfl⟩ := h
    have hlock : CmdInv (s.cmd x) (r.add (Pc.load x (.doneLock y k))) := hI
    show CmdInv _ (r.add (Pc.load x (.doneLock y k)))
    rw [Pc.load, Load.add_right_comm] at hlock ⊢
    exact hlock.set _ _ _ fun hy => hy.deleteTimer
  | doneRelock y k => exact cmdDone_inv (Option.some.inj h) hI
  | doneSchedule y k =>
    simp only [step, doneReturn, Option.some.injEq, Prod.mk.injEq] at h
    obtain ⟨rfl, rfl⟩ := h
    rw [next_load, scheduleCompletion_cmd]
    rw [Pc.load, Load.add_right_comm] at hI
    exact hI.set_none _ _ fun hy => hy.put
  | abortCollect b =>
    simp only [step] at h
    split at h
    · cases h
    · simp only [Option.some.injEq, Prod.mk.injEq] at h
      obtain ⟨rfl, rfl⟩ := h
      exact collect_inv hI
  | abortLoop b =>
    simp only [step, Option.some.injEq, Prod.mk.injEq] at h
    obtain ⟨rfl, rfl⟩ := h
    split
    · exact hI
    · exact hI
  | finishLoop b =>
    simp only [step] at h
    split at h
    · rename_i hnil
      simp only [Option.some.injEq, Prod.mk.injEq] at h
      obtain ⟨rfl, rfl⟩ := h
      rw [Pc.load, hnil] at hI
      exact hI
    · rename_i y todo hcons
      simp only [Option.some.injEq, Prod.mk.injEq] at h
      obtain ⟨rfl, rfl⟩ := h
      rw [Pc.load, hcons] at hI
      exact finishOne_inv hI
  | tryAbort h' y =>
    simp only [step, Option.some.injEq, Prod.mk.injEq] at h
    obtain ⟨rfl, rfl⟩ := h
    exact hI
  | abortStatus h' y success =>
    simp only [step, Option.some.injEq, Prod.mk.injEq] at h
    obtain ⟨rfl, rfl⟩ := h
    rw [handlerReturn_load]
    exact hI
  | timedOut y => exact timedOut_inv h (fun hyx => hgap (hyx ▸ rfl)) hI
  | workFinish y => exact workFinish_inv h hI
  | _ =>
    simp only [step] at h
    repeat' split at h
    all_goals simp only [Option.some.injEq, Prod.mk.injEq, reduceCtorEq] at h
    all_goals obtain ⟨rfl, rfl⟩ := h
    all_goals exact hI

/-- **The start of a call** keeps the invariant of every command. -/
theorem enter_inv {me : Nat} {call : Call} {l : Load} (h : enter me s call = some (s', pc'))
    (hfresh : (s.cmd me).given = false) (hI : CmdInv (s.cmd x) l) :
    CmdInv (s'.cmd x) (l.add (pc'.load x)) := by
  have hnone : CmdInv (s.cmd x) (l.add .none) := hI
  cases call with
  | queueCommand sdev noMemory =>
    simp only [enter] at h
    split at h
    · simp only [Option.some.injEq, Prod.mk.injEq] at h
      obtain ⟨rfl, rfl⟩ := h
      exact hnone
    · split at h
      · cases h
      · simp only [Option.some.injEq, Prod.mk.injEq] at h
        obtain ⟨rfl, rfl⟩ := h
        have hset := hnone.set_of_none (.get sdev) .none fun hy => hy.get hfresh sdev
        rw [ite_self] at hset
        exact hset
  | abortCommands sdev targets =>
    simp only [enter, Option.some.injEq, Prod.mk.injEq] at h
    obtain ⟨rfl, rfl⟩ := h
    exact hnone
  | scsiDone y =>
    simp only [enter] at h
    split at h
    · rename_i hholds
      simp only [Option.some.injEq, Prod.mk.injEq] at h
      obtain ⟨rfl, rfl⟩ := h
      exact hnone.set_of_none _ _ fun hy => CmdInv.scsiDone hy hholds
    · cases h
  | cmdTimedOut y =>
    simp only [enter] at h
    split at h
    · rename_i harmed
      simp only [Option.some.injEq, Prod.mk.injEq] at h
      obtain ⟨rfl, rfl⟩ := h
      exact hnone.set_of_none _ _ fun hy => CmdInv.cmdTimedOut hy harmed
    · cases h
  | bh p =>
    simp only [enter] at h
    split at h
    · simp only [Option.some.injEq, Prod.mk.injEq] at h
      obtain ⟨rfl, rfl⟩ := h
      exact hnone
    · cases h

end Steps

/-- The names of the commands are fresh until they are made ready. -/
theorem fresh_of_reach {H : Host} {ok : Config Shared Pc → Event Call Choice → Prop}
    {c : Config Shared Pc} (h : (machine H).Reach ok initial c) :
    Fresh Pc.yet (fun s m => (s.cmd m).given = true) c := by
  refine Machine.Reach.fresh ?_ ?_ ?_ h
  · exact ⟨each_nil _, fun m _ hm => by cases hm⟩
  · intro me call s s' pc hs
    cases call with
    | queueCommand sdev noMemory =>
      simp only [machine, enter] at hs
      split at hs
      · simp only [Option.some.injEq, Prod.mk.injEq] at hs
        obtain ⟨rfl, rfl⟩ := hs
        exact ⟨fun m hm => (by cases hm), fun m hm => hm⟩
      · split at hs
        · cases hs
        · simp only [Option.some.injEq, Prod.mk.injEq] at hs
          obtain ⟨rfl, rfl⟩ := hs
          refine ⟨fun m hm => (Option.some.inj hm).symm, fun m hm => ?_⟩
          by_cases hme : m = me
          · subst hme
            have hget : ((s.setCmd m (.get sdev)).cmd m).given = true := hm
            rw [Shared.setCmd_cmd_self] at hget
            cases hget
          · have hget : ((s.setCmd me (.get sdev)).cmd m).given = true := hm
            rwa [Shared.setCmd_cmd_ne _ _ hme] at hget
    | _ =>
      simp only [machine, enter] at hs
      repeat' split at hs
      all_goals simp only [Option.some.injEq, Prod.mk.injEq, reduceCtorEq] at hs
      all_goals obtain ⟨rfl, rfl⟩ := hs
      all_goals refine ⟨fun m hm => (by cases hm), fun m hm => ?_⟩
      all_goals first | exact hm | (rw [setCmd_given (by rfl)] at hm; exact hm)
  · intro a s pc s' pc' hs
    exact step_given hs

/-- An aborter has cleared `DELAY_CMDDONE` of the command, and its call of `scsi_done` has
    still to decide. -/
def Pc.inGap (x : Nat) : Pc → Bool
  | .doneLock y (.abort _) | .doneTimer y (.abort _) | .doneRelock y (.abort _) => decide (y = x)
  | _ => false

/-- `SCSILinuxCmdTimedOut` does not look at a command while an aborter is in its gap. -/
def outsideGap (c : Config Shared Pc) : Event Call Choice → Bool
  | .start _ => true
  | .act i _ =>
      match c.pool[i]? with
      | some (.timedOut x) => c.pool.all fun pc => !pc.inGap x
      | _ => true

theorem Pc.deciding_of_not_inGap {x : Nat} {pc : Pc} (h : pc.inGap x = false) :
    (pc.load x).deciding .abort = 0 := by
  cases pc with
  | doneLock y k | doneTimer y k | doneRelock y k =>
    cases k
    all_goals simp [Pc.inGap] at h
    all_goals simp [Pc.load, Load.add, Caller.load, Caller.party, Load.own, Load.none, Load.decide]
    all_goals grind
  | doneSchedule y k =>
    cases k
    all_goals simp [Pc.load, Load.add, Caller.load, Load.own, Load.none, Load.put]
    all_goals grind
  | tryAbort h' y | abortStatus h' y success =>
    cases h'
    all_goals simp [Pc.load, Handler.load, Load.own, Load.none, Load.work]
    all_goals grind
  | notReached y k =>
    cases k
    all_goals simp [Pc.load, Caller.load, Load.own, Load.none]
  | _ =>
    simp [Pc.load, Load.own, Load.none, Load.decide, Load.timeout, Load.work]
    try grind

/-- **The invariant of every command** holds along every run outside the gap. -/
theorem inv_of_reach {H : Host} {c : Config Shared Pc}
    (h : (machine H).Reach (fun c e => outsideGap c e = true) initial c) (x : Nat) :
    CmdInv (c.shared.cmd x) (loadOf x c.pool) := by
  refine Machine.Reach.invariant (fun c => CmdInv (c.shared.cmd x) (loadOf x c.pool)) ?_ ?_ ?_ h
  · constructor
    all_goals simp [initial, initShared, ScsiCmnd.get, loadOf, tokens, puttings]
  · intro c call s pc hc hI _ hs
    have hnew := (fresh_of_reach hc).new c.pool.length (Nat.le_refl _)
    rw [loadOf_append]
    exact enter_inv hs (by simpa using hnew) hI
  · intro c i a pc s pc' hc hI hok hi hs
    rw [loadOf_eq_others x hi] at hI
    rw [loadOf_set x pc' hi]
    refine step_inv hs (fun m hm => ?_) (fun hpc => ?_) hI
    · have hown := ((fresh_of_reach hc).own i pc hi m hm).2
      simpa using hown
    · simp only [outsideGap, hi, hpc, List.all_eq_true, Bool.not_eq_true'] at hok
      exact others_eq_zero_of fun j u _ hj =>
        Pc.deciding_of_not_inGap (hok u (List.mem_of_getElem? hj))

/-! ### Exactly once -/

/-- An abort or timeout handler for command `x` is in progress. -/
def Pc.handles (x : Nat) : Pc → Bool
  | .abortLoop a | .abortFinish a => decide (x ∈ a.list)
  | .finishLoop a | .notReached _ (.abort a) => decide (x ∈ a.todo)
  | .tryAbort (.abort a) _ | .abortStatus (.abort a) _ _ => decide (x ∈ a.list)
  | .tryAbort .work y | .abortStatus .work y _ | .timedOut y | .workFinish y => decide (y = x)
  | .doneLock y .work | .doneTimer y .work | .doneRelock y .work | .doneSchedule y .work =>
      decide (y = x)
  | .doneLock y (.abort a) | .doneTimer y (.abort a) | .doneRelock y (.abort a)
  | .doneSchedule y (.abort a) => decide (y = x ∨ x ∈ a.todo)
  | _ => false

theorem Pc.load_of_not_handles {x : Nat} {pc : Pc} (h : pc.handles x = false) :
    (pc.load x).owns = 0 ∧
    ((pc.load x).deciding .work = 0 ∧ (pc.load x).putting .work = 0) ∧
    (pc.load x).deciding .abort = 0 ∧ (pc.load x).putting .abort = 0 := by
  cases pc with
  | tryAbort h' y | abortStatus h' y success =>
    cases h'
    all_goals simp [Pc.handles] at h
    all_goals simp [Pc.load, Handler.load, Load.own, Load.none, List.count_eq_zero, h]
  | doneLock y k | doneTimer y k | doneRelock y k | doneSchedule y k =>
    cases k
    all_goals simp [Pc.handles] at h
    all_goals simp only [Pc.load, Caller.load, Caller.party]
    all_goals split
    all_goals simp_all [Load.add, Load.decide, Load.put, Load.own, Load.none, List.count_eq_zero]
  | notReached y k =>
    cases k
    all_goals simp [Pc.handles] at h
    all_goals simp [Pc.load, Caller.load, Load.own, Load.none, List.count_eq_zero, h]
  | refusedTimer y | refusedTest y =>
    simp only [Pc.load]
    split
    all_goals simp [Load.decide, Load.none]
  | _ =>
    simp [Pc.handles] at h
    simp [Pc.load, Load.own, Load.none, List.count_eq_zero, h]

/-- A command that the driver has called back for, with no handler in progress, has
    been completed. -/
theorem CmdInv.put_of_called {c : ScsiCmnd} {l : Load} (hI : CmdInv c l)
    (hcalled : c.driver = .called) (howns : l.owns = 0)
    (hwork : l.deciding .work = 0 ∧ l.putting .work = 0)
    (habort : l.deciding .abort = 0 ∧ l.putting .abort = 0) : c.puts = 1 := by
  have hgiven : c.given = true := by
    by_contra hnot
    simp only [Bool.not_eq_true] at hnot
    rw [(hI.fresh hnot).2.2.2.2.1] at hcalled
    cases hcalled
  have hdriver := hI.driver
  have hqueue := hI.queue (by simp [hcalled])
  simp only [hcalled, reduceCtorEq, if_false] at hdriver
  have htokens : tokens c l = 0 := by
    simp only [tokens, hcalled, reduceCtorEq, if_false]
    omega
  have hdelay : c.delayCmddone = false := by
    by_contra hnot
    have howned := hI.owned
    simp [hnot, howns] at howned
  have hneed : c.needCmddone = false := by
    by_contra hnot
    simp only [Bool.not_eq_false] at hnot
    obtain ⟨-, hheld, -, hgap⟩ := hI.needed hnot
    cases hattempted : c.cmddoneAttempted with
    | false =>
      have hone := hheld hattempted
      omega
    | true =>
      have hone := (hgap hattempted hdelay).1
      omega
  have hputs := (hI.completed hgiven hneed).2.2
  unfold puttings at hputs
  omega

/-- **Commands complete exactly once.**  In every state that a host reaches with no
    timeout in the gap of an aborter, a command was put on a completion list at most
    once, and never with `DELAY_CMDDONE` set; "Attempted double completion" was not
    reached; and a command that the driver has called back for, with no handler in
    progress, was put on a completion list. -/
theorem commands_complete_once {H : Host} {c : Config Shared Pc}
    (h : (machine H).Reach (fun c e => outsideGap c e = true) initial c) (x : Nat) :
    (c.shared.cmd x).puts ≤ 1 ∧ (c.shared.cmd x).delayedPuts = 0 ∧
    (c.shared.cmd x).doubled = false ∧
    ((c.shared.cmd x).driver = .called → (∀ pc ∈ c.pool, pc.handles x = false) →
      (c.shared.cmd x).puts = 1) := by
  have hI := inv_of_reach h x
  refine ⟨?_, hI.clean.1, hI.clean.2, ?_⟩
  · cases hgiven : (c.shared.cmd x).given with
    | false =>
      have hputs := (hI.fresh hgiven).2.2.2.2.2.2.1
      omega
    | true =>
      cases hneed : (c.shared.cmd x).needCmddone with
      | false =>
        have hputs := (hI.completed hgiven hneed).2.2
        omega
      | true =>
        have hputs := (hI.needed hneed).1
        omega
  · intro hcalled hidle
    refine hI.put_of_called hcalled ?_ ⟨?_, ?_⟩ ⟨?_, ?_⟩
    · exact total_eq_zero fun pc hpc => (Pc.load_of_not_handles (hidle pc hpc)).1
    · exact total_eq_zero fun pc hpc => (Pc.load_of_not_handles (hidle pc hpc)).2.1.1
    · exact total_eq_zero fun pc hpc => (Pc.load_of_not_handles (hidle pc hpc)).2.1.2
    · exact total_eq_zero fun pc hpc => (Pc.load_of_not_handles (hidle pc hpc)).2.2.1
    · exact total_eq_zero fun pc hpc => (Pc.load_of_not_handles (hidle pc hpc)).2.2.2

/-- A Fibre Channel host with one device. -/
def fcHost : Host := ⟨8, fun _ => 8, true, true⟩

/-- A command times out; while the work item aborts it the driver calls `scsi_done`,
    an aborter passes by, and the work item completes the command. -/
theorem timed_out_command_completes_once : ∃ c,
    (machine fcHost).Reach (fun c e => outsideGap c e = true) initial c ∧
    ((c.shared.cmd 0).driver, c.pool.all fun pc => !pc.handles 0) = (.called, true) ∧
    (c.shared.cmd 0).puts = 1 := by
  obtain ⟨c, hc, hobs⟩ := (machine fcHost).exists_reach_of_runIf outsideGap
    [.start (.queueCommand 0 false), .act 0 {}, .act 0 {},
      .start (.cmdTimedOut 0), .act 1 {}, .act 1 {},
      .start (.scsiDone 0), .act 2 {},
      .start (.abortCommands 0 [0]), .act 3 {}, .act 3 {}, .act 3 {}, .act 3 {},
      .act 1 {}, .act 1 {}, .act 1 {}, .act 1 {}]
    initial (fun c => ((c.shared.cmd 0).driver, c.pool.all fun pc => !pc.handles 0))
    (.called, true) (by decide)
  obtain ⟨hcalled, hidle⟩ := Prod.mk.inj hobs
  obtain ⟨-, -, -, hcompleted⟩ := commands_complete_once hc 0
  refine ⟨c, hc, hobs, hcompleted hcalled fun pc hpc => ?_⟩
  simpa using List.all_eq_true.mp hidle pc hpc

/-- The timer of a command expires while an aborter has the command, for which the driver
    calls `scsi_done`.  The aborter clears `DELAY_CMDDONE`; before it calls `scsi_done` the
    timeout sets it again, and its work item comes to the same place. -/
theorem command_completed_twice : ∃ c,
    (machine fcHost).Reachable initial c ∧ (c.shared.cmd 0).doubled = true :=
  (machine fcHost).exists_reachable_of_run
    [.start (.queueCommand 0 false), .act 0 {}, .act 0 {},
      .start (.abortCommands 0 [0]), .act 1 {}, .act 1 {},
      .start (.cmdTimedOut 0), .start (.scsiDone 0), .act 3 {}, .act 3 {}, .act 3 {},
      .act 1 {}, .act 1 {}, .act 1 {}, .act 1 {}, .act 1 {},
      .act 2 {}, .act 2 {}, .act 2 {}, .act 2 {},
      .act 1 {}, .act 1 {}, .act 2 {}]
    initial _ _ (by decide)

end VmkLinux.Scsi
