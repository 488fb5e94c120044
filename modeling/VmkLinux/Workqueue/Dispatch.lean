/-
  VmkLinux/Workqueue/Dispatch.lean
  ================================
  **No work is stranded.**

  `vmklnx_workqueue_dispatch` submits requests to the helper worlds as long as
  there is a free tracker and an entry that no posted request will serve, and it
  drops the lock around each submission.  `Covered` says what is left when it
  returns: an entry on `head` has a posted request, a running callout or the delay
  timer to look after it.  Destroying the queue kills the timer, so the runs here
  are those in which nobody destroys the queue.
-/
import VmkLinux.Workqueue.Accounting

namespace VmkLinux.Workqueue

open VmkLinux.Interleave

/-! ### Who destroys the queue -/

def Ret.destroying : Ret → Bool
  | .done _ => false
  | .flush f _ => f.destroying

/-- The points of a call of `destroy_workqueue`, the flush inside it included. -/
def Pc.destroying : Pc → Bool
  | .submit k | .submitFailed k | .armDelay k | .relock k => k.destroying
  | .flushMutexLock f | .flushInit f | .flushQueue f | .flushWait f _ | .flushLock f _
  | .flushSleep f _ | .flushMutexUnlock f _ => f.destroying
  | .destroyExitFlag _ | .destroyLock _ | .destroyCheck _ | .destroyDelTimer _ | .destroyFree _
  | .destroyed _ => true
  | _ => false

@[simp] theorem Ret.destroying_pc (k : Ret) : k.pc.destroying = k.destroying := by
  cases k <;> rfl

@[simp] theorem Cancel.destroying_next (c : Cancel) : c.next.destroying = false := by
  unfold Cancel.next
  split <;> rfl

theorem dispatchLoop_destroying {s s' : Wq} {k : Ret} {pc : Pc}
    (h : dispatchLoop s k = (s', pc)) : pc.destroying = k.destroying := by
  obtain ⟨-, rfl, -⟩ | ⟨-, rfl, -⟩ := dispatchLoop_cases h
  · rfl
  · exact Ret.destroying_pc k

/-- No step leads into a `destroy_workqueue`. -/
theorem step_destroying {b : Bool} {s s' : Wq} {pc pc' : Pc}
    (h : step b s pc = some (s', pc')) (hpc : pc.destroying = false) :
    pc'.destroying = false := by
  cases pc with
  | queueLock | flushQueue | relock | calloutLock =>
    simp only [step, Option.some.injEq] at h
    rw [dispatchLoop_destroying h]
    exact hpc
  | callback w slot ticket =>
    cases w <;>
    · simp only [step, Option.some.injEq, Prod.mk.injEq] at h
      obtain ⟨rfl, rfl⟩ := h
      rfl
  | flushMutexUnlock f p =>
    have hf : f.destroying = false := hpc
    simp only [step, hf, Bool.false_eq_true, if_false, Option.some.injEq, Prod.mk.injEq] at h
    obtain ⟨rfl, rfl⟩ := h
    rfl
  | destroyExitFlag | destroyLock | destroyCheck | destroyDelTimer | destroyFree => cases hpc
  | _ =>
    simp only [step, flushTest, cancelScan] at h
    repeat' split at h
    all_goals simp only [Option.some.injEq, Prod.mk.injEq, reduceCtorEq] at h
    all_goals obtain ⟨rfl, rfl⟩ := h
    all_goals first
      | exact hpc
      | exact (Ret.destroying_pc _).trans hpc
      | exact Cancel.destroying_next _

theorem enter_destroying {me : Nat} {s s' : Wq} {call : Call} {pc : Pc}
    (h : enter me s call = some (s', pc)) (hcall : call ≠ .destroy) : pc.destroying = false := by
  cases call with
  | destroy => exact absurd rfl hcall
  | callout =>
    simp only [enter] at h
    split at h
    · cases h
    · simp only [Option.some.injEq] at h
      obtain ⟨ok, -, rfl, -⟩ | ⟨e, head, wt, free, ok, -, -, -, -, rfl⟩ :=
        vmklnxWorkqueueCallout_cases h <;> rfl
  | timeout =>
    simp only [enter] at h
    split at h
    · simp only [Option.some.injEq] at h
      exact dispatchLoop_destroying h
    · cases h
  | _ =>
    simp only [enter] at h
    repeat' split at h
    all_goals simp only [Option.some.injEq, Prod.mk.injEq, reduceCtorEq] at h
    all_goals obtain ⟨rfl, rfl⟩ := h
    all_goals rfl

/-- Runs in which nobody calls `destroy_workqueue`. -/
def noDestroy (_ : Config Wq Pc) (e : Event Call Bool) : Prop := e ≠ .start .destroy

variable {maxDispatch : Nat} {c : Config Wq Pc}

theorem noDestroyer_of_reach (h : machine.Reach noDestroy (initial maxDispatch) c) :
    Each (fun _ pc => pc.destroying = false) c.pool := by
  refine Machine.Reach.invariant (fun c => Each (fun _ pc => pc.destroying = false) c.pool)
    (each_nil _) ?_ ?_ h
  · intro c call s' pc _ hI hok hs
    refine hI.append (fun i u _ hu => hu) (enter_destroying (machine_start hs).2 ?_)
    rintro rfl
    exact hok rfl
  · intro c i b pc s' pc' _ hI _ hi hs
    exact hI.set (fun j u _ _ hu => hu) (step_destroying (machine_act hs).2 (hI i pc hi))

/-! ### Coverage -/

/-- Calls inside `vmklnx_workqueue_dispatch`, with the lock dropped. -/
def Pc.inDispatch : Pc → Nat
  | .submit _ | .submitFailed _ | .armDelay _ | .relock _ => 1
  | _ => 0

@[simp] theorem Ret.inDispatch_pc (k : Ret) : k.pc.inDispatch = 0 := by
  cases k <;> rfl

@[simp] theorem Cancel.inDispatch_next (c : Cancel) : c.next.inDispatch = 0 := by
  unfold Cancel.next
  split <;> rfl

/-- What looks after the entries on `head`, with `d` calls inside the dispatcher. -/
def Covered (s : Wq) (d : Nat) : Prop :=
  (0 < s.qLen → 0 < s.curPosted ∨ 0 < s.curDispatch ∨ s.delayTimer = true ∨ 0 < d) ∧
  (1 < s.maxDispatch → s.delayTimer = false → d = 0 →
    min (s.maxDispatch - s.curDispatch) (s.qLen - s.curPosted) ≤ 0)

/-- The loop test of the dispatcher establishes coverage, whatever went before. -/
theorem covered_dispatchLoop {s s' : Wq} {k : Ret} {pc : Pc} {d : Nat}
    (hmax : 1 ≤ s.maxDispatch) (hposted : 0 ≤ s.curPosted)
    (h : dispatchLoop s k = (s', pc)) : Covered s' (d + pc.inDispatch) := by
  obtain ⟨rfl, rfl, hmin⟩ | ⟨rfl, rfl, hmin⟩ := dispatchLoop_cases h
  · refine ⟨?_, ?_⟩
    · intro hq
      exact Or.inr (Or.inr (Or.inr (Nat.succ_pos d)))
    · intro _ _ hd
      exact absurd hd (Nat.succ_ne_zero d)
  · refine ⟨?_, fun _ _ _ => hmin⟩
    intro hq
    by_cases hcur : 0 < s'.curDispatch
    · exact Or.inr (Or.inl hcur)
    · exact Or.inl (by omega)

theorem covered_vmklnxWorkqueueDispatch {s s' : Wq} {k : Ret} {pc : Pc} {d : Nat}
    (hmax : 1 ≤ s.maxDispatch) (hposted : 0 ≤ s.curPosted)
    (h : vmklnxWorkqueueDispatch s k = (s', pc)) : Covered s' (d + pc.inDispatch) := by
  unfold vmklnxWorkqueueDispatch at h
  refine covered_dispatchLoop ?_ ?_ h
  · exact hmax
  · exact hposted

/-- A callout that gives up or takes an entry leaves the rest covered. -/
theorem Covered.callout {n : Nat} {s s' : Wq} {pc : Pc} {r : Share} {d : Nat} (hn : 1 ≤ n)
    (hA : Accounts n s r) (hreq : s.requests ≠ 0) (hI : Covered s d)
    (h : vmklnxWorkqueueCallout { s with requests := s.requests - 1 } = (s', pc)) :
    Covered s' (d + pc.inDispatch) := by
  have hmax := hA.maxDispatch
  have hlen := hA.qLen
  have hposted := hA.curPosted
  have hfree := hA.trackFree_length
  obtain ⟨ok, rfl, rfl, hwhy⟩ | ⟨e, head, wt, free, ok, hhead, -, -, rfl, rfl⟩ :=
    vmklnxWorkqueueCallout_cases h
  · -- it gave up: nothing is queued, or every tracker is in use
    have hwhy : s.qLen = 0 ∨ s.maxDispatch ≤ s.curDispatch := by
      rcases hwhy with hnil | hfull | hnone
      · left
        have hnil : s.head = [] := hnil
        rw [hlen, hnil]
        rfl
      · exact Or.inr hfull
      · right
        have hnone : s.trackFree = [] := hnone
        rw [hnone, List.length_nil] at hfree
        omega
    refine ⟨fun hq => ?_, fun _ _ _ => ?_⟩
    · change 0 < s.qLen at hq
      have hcur : 0 < s.curDispatch := by omega
      exact Or.inr (Or.inl hcur)
    · change min (s.maxDispatch - s.curDispatch) (s.qLen - (s.curPosted - 1)) ≤ 0
      omega
  · have hcur := hA.curDispatch
    refine ⟨fun _ => ?_, fun hmulti htimer hd => ?_⟩
    · have hpos : 0 < s.curDispatch + 1 := by omega
      exact Or.inr (Or.inl hpos)
    · have hmin := hI.2 hmulti htimer hd
      change min (s.maxDispatch - (s.curDispatch + 1)) (s.qLen - 1 - (s.curPosted - 1)) ≤ 0
      omega

theorem Covered.cancelRemove {s : Wq} {cl : Cancel} {d : Nat} (hI : Covered s d) :
    Covered (cancelRemove s cl).1 d := by
  rcases cancelRemove_cases s cl with hr | ⟨-, -, ok, hr⟩
  · rw [hr]
    exact hI
  · rw [hr]
    refine ⟨fun hq => ?_, fun hmulti htimer hd => ?_⟩
    · change 0 < s.qLen - 1 at hq
      exact hI.1 (by omega)
    · have hmin := hI.2 hmulti htimer hd
      change min (s.maxDispatch - s.curDispatch) (s.qLen - 1 - s.curPosted) ≤ 0
      omega

theorem Covered.cancelScan {s s' : Wq} {cl : Cancel} {pc : Pc} {d : Nat} (hI : Covered s d)
    (h : cancelScan s cl = (s', pc)) : Covered s' (d + pc.inDispatch) := by
  obtain ⟨rfl, rfl, -⟩ | ⟨rfl, rfl, -⟩ := cancelScan_cases h
  · exact hI
  · rw [Cancel.inDispatch_next]
    exact hI

/-! ### Steps and runs -/

theorem step_covered {n : Nat} {b : Bool} {s s' : Wq} {pc pc' : Pc} {r : Share} {d : Nat}
    (h : step b s pc = some (s', pc')) (hn : 1 ≤ n) (hA : Accounts n s (r.add pc))
    (hpc : pc.destroying = false) (hI : Covered s (d + pc.inDispatch)) :
    Covered s' (d + pc'.inDispatch) := by
  have hmax : 1 ≤ s.maxDispatch := by
    have := hA.maxDispatch
    omega
  have hposted : 0 ≤ s.curPosted := by
    have := hA.curPosted
    omega
  cases pc with
  | queueLock | flushQueue =>
    simp only [step, Option.some.injEq] at h
    exact covered_vmklnxWorkqueueDispatch (s := queueWork s _) hmax hposted h
  | relock k =>
    simp only [step, Option.some.injEq] at h
    exact covered_dispatchLoop hmax hposted h
  | calloutLock slot ticket =>
    simp only [step, Option.some.injEq] at h
    exact covered_vmklnxWorkqueueDispatch (s := calloutDone s slot) hmax hposted h
  | submit k =>
    -- the request is still counted, so `curPosted` is positive
    have hpos := hA.curPosted
    change s.curPosted = s.requests + ((r.posting + 1 : Nat) : Int) at hpos
    simp only [step] at h
    repeat' split at h
    all_goals simp only [Option.some.injEq, Prod.mk.injEq] at h
    all_goals obtain ⟨rfl, rfl⟩ := h
    · rename_i hone
      refine ⟨fun _ => Or.inl ?_, fun hmulti => ?_⟩
      · change 0 < s.curPosted
        omega
      · have hmulti : 1 < s.maxDispatch := hmulti
        omega
    · exact hI
    · exact hI
  | armDelay k =>
    simp only [step, Option.some.injEq, Prod.mk.injEq] at h
    obtain ⟨rfl, rfl⟩ := h
    refine ⟨fun _ => Or.inr (Or.inr (Or.inl rfl)), fun _ htimer => ?_⟩
    cases htimer
  | submitFailed k =>
    simp only [step, Option.some.injEq, Prod.mk.injEq] at h
    obtain ⟨rfl, rfl⟩ := h
    refine ⟨fun _ => Or.inr (Or.inr (Or.inr (Nat.succ_pos d))), fun _ _ hd => ?_⟩
    exact absurd hd (Nat.succ_ne_zero d)
  | callback w slot ticket =>
    cases w <;>
    · simp only [step, Option.some.injEq, Prod.mk.injEq] at h
      obtain ⟨rfl, rfl⟩ := h
      exact hI
  | cancelLock cl =>
    simp only [step] at h
    split at h
    · simp only [Option.some.injEq] at h
      exact (Covered.cancelRemove hI).cancelScan h
    · simp only [Option.some.injEq, Prod.mk.injEq] at h
      obtain ⟨rfl, rfl⟩ := h
      rw [Cancel.inDispatch_next]
      exact hI
  | cancelSleep cl =>
    simp only [step, Option.some.injEq] at h
    exact Covered.cancelScan (s := { s with waiting := s.waiting - 1 }) hI h
  | destroyDelTimer p => cases hpc
  | _ =>
    simp only [step, flushTest] at h
    repeat' split at h
    all_goals simp only [Option.some.injEq, Prod.mk.injEq, reduceCtorEq] at h
    all_goals obtain ⟨rfl, rfl⟩ := h
    all_goals first
      | exact hI
      | (rw [Cancel.inDispatch_next]; exact hI)

theorem enter_covered {n me : Nat} {s s' : Wq} {call : Call} {pc : Pc} {r : Share} {d : Nat}
    (h : enter me s call = some (s', pc)) (hn : 1 ≤ n) (hA : Accounts n s r)
    (hI : Covered s d) : Covered s' (d + pc.inDispatch) := by
  cases call with
  | callout =>
    simp only [enter] at h
    split at h
    · cases h
    · rename_i hreq
      simp only [Option.some.injEq] at h
      exact Covered.callout hn hA hreq hI h
  | timeout =>
    simp only [enter] at h
    split at h
    · simp only [Option.some.injEq] at h
      have hmax := hA.maxDispatch
      have hposted := hA.curPosted
      refine covered_vmklnxWorkqueueDispatch ?_ ?_ h
      · change 1 ≤ s.maxDispatch
        omega
      · change 0 ≤ s.curPosted
        omega
    · cases h
  | _ =>
    simp only [enter] at h
    repeat' split at h
    all_goals simp only [Option.some.injEq, Prod.mk.injEq, reduceCtorEq] at h
    all_goals obtain ⟨rfl, rfl⟩ := h
    all_goals exact hI

theorem covered_of_reach (hmax : 1 ≤ maxDispatch)
    (h : machine.Reach noDestroy (initial maxDispatch) c) :
    Covered c.shared (total Pc.inDispatch c.pool) := by
  refine Machine.Reach.invariant
    (fun c => Covered c.shared (total Pc.inDispatch c.pool)) ?_ ?_ ?_ h
  · refine ⟨fun hq => ?_, fun _ _ _ => ?_⟩
    · cases hq
    · change min ((maxDispatch : Int) - 0) (0 - 0) ≤ 0
      omega
  · intro c call s' pc hc hI _ hs
    simp only [total_append]
    exact enter_covered (machine_start hs).2 hmax (accounts_of_reach hc) hI
  · intro c i b pc s' pc' hc hI _ hi hs
    have haccounts := accounts_of_reach hc
    rw [Share.of_eq_others hi] at haccounts
    rw [total_eq_others _ hi] at hI
    simp only [total_set _ pc' hi]
    exact step_covered (machine_act hs).2 hmax haccounts (noDestroyer_of_reach hc i pc hi) hI

/-- **No stranded work.**  Where no call is inside the dispatcher, a queued entry has
    a posted request, a running callout or the delay timer to look after it; and a
    queue of several worlds without an armed timer has no entry that a free tracker
    could serve and no request covers. -/
theorem queued_work_is_covered (hmax : 1 ≤ maxDispatch)
    (h : machine.Reach noDestroy (initial maxDispatch) c)
    (hidle : ∀ pc ∈ c.pool, pc.inDispatch = 0) :
    (0 < c.shared.qLen → 0 < c.shared.curPosted ∨ 0 < c.shared.curDispatch ∨
      c.shared.delayTimer = true) ∧
    (1 < c.shared.maxDispatch → c.shared.delayTimer = false →
      min (c.shared.maxDispatch - c.shared.curDispatch) (c.shared.qLen - c.shared.curPosted)
        ≤ 0) := by
  have hzero : total Pc.inDispatch c.pool = 0 := total_eq_zero hidle
  obtain ⟨hsome, hmulti⟩ := covered_of_reach hmax h
  rw [hzero] at hsome hmulti
  refine ⟨fun hq => ?_, fun hm htimer => hmulti hm htimer rfl⟩
  rcases hsome hq with hposted | hcur | htimer | hlt
  · exact Or.inl hposted
  · exact Or.inr (Or.inl hcur)
  · exact Or.inr (Or.inr htimer)
  · omega

/-- The helper worlds refuse the only request of a queue of two worlds: the entry is
    left to the delay timer. -/
def refusedRun : List (Event Call Bool) :=
  [.start (.queueWork 0), .act 0 true, .act 0 true, .act 0 true, .act 0 false, .act 0 false,
    .act 0 false]

theorem refused_work_is_covered : ∃ c, machine.Reach noDestroy (initial 2) c ∧
    (∀ pc ∈ c.pool, pc.inDispatch = 0) ∧ 0 < c.shared.qLen ∧
    (0 < c.shared.curPosted ∨ 0 < c.shared.curDispatch ∨ c.shared.delayTimer = true) := by
  obtain ⟨c, hc, hobs⟩ := machine.exists_reach_of_runIf
    (fun _ e => decide (e ≠ .start .destroy)) refusedRun (initial 2)
    (fun c => (c.pool, c.shared.qLen)) ([.done 1], 1) (by decide)
  simp only [Prod.mk.injEq] at hobs
  have hreach : machine.Reach noDestroy (initial 2) c :=
    hc.mono fun _ _ he => by simpa [noDestroy] using he
  have hidle : ∀ pc ∈ c.pool, pc.inDispatch = 0 := by
    rw [hobs.1]
    decide
  have hq : 0 < c.shared.qLen := by
    rw [hobs.2]
    decide
  exact ⟨c, hreach, hidle, hq, (queued_work_is_covered (by decide) hreach hidle).1 hq⟩

end VmkLinux.Workqueue
