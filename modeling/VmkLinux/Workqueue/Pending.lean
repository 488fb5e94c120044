/-
  VmkLinux/Workqueue/Pending.lean
  ===============================
  **Who holds the pending bit.**

  The `__WORK_PENDING` bit of a work item is set and cleared without `wqLock`.
  What keeps the queue sane is that a set bit always has exactly one holder: the
  entry on `head`, the armed delay timer, the call that set the bit and has not
  yet queued the item or armed its timer, the callout that took the entry off
  `head` and has not yet cleared the bit, or the cancel that grabbed it.  `Owned`
  says so by counting, and `owned_of_reach` shows that every run keeps it.
-/
import VmkLinux.Workqueue.Model

namespace VmkLinux.Workqueue

open VmkLinux.Interleave

/-! ### Plungers are fresh -/

/-- The call whose plunger this point has yet to initialise. -/
def Pc.unbornPlunger : Pc → Option Nat
  | .flushMutexLock f | .flushInit f => some f.me
  | .destroyExitFlag me => some me
  | _ => none

@[simp] theorem Ret.unbornPlunger_pc (k : Ret) : k.pc.unbornPlunger = none := by
  cases k <;> rfl

@[simp] theorem Cancel.unbornPlunger_next (c : Cancel) : c.next.unbornPlunger = none := by
  unfold Cancel.next
  split <;> rfl

theorem dispatchLoop_unbornPlunger {s s' : Wq} {k : Ret} {pc : Pc}
    (h : dispatchLoop s k = (s', pc)) : pc.unbornPlunger = none := by
  obtain ⟨-, rfl, -⟩ | ⟨-, rfl, -⟩ := dispatchLoop_cases h
  · rfl
  · simp

theorem dispatchLoop_pending {s s' : Wq} {k : Ret} {pc : Pc}
    (h : dispatchLoop s k = (s', pc)) : s'.pending = s.pending := by
  obtain ⟨rfl, -, -⟩ | ⟨rfl, -, -⟩ := dispatchLoop_cases h <;> rfl

/-- Only the start of a flush makes a plunger unborn; from there on the call
    carries its own name until the plunger is initialised. -/
theorem step_unbornPlunger {b : Bool} {s s' : Wq} {pc pc' : Pc}
    (h : step b s pc = some (s', pc')) :
    pc'.unbornPlunger = none ∨ pc'.unbornPlunger = pc.unbornPlunger := by
  cases pc with
  | queueLock | flushQueue | relock | calloutLock =>
    simp only [step, Option.some.injEq] at h
    exact Or.inl (dispatchLoop_unbornPlunger h)
  | callback w slot ticket =>
    cases w <;>
    · simp only [step, Option.some.injEq, Prod.mk.injEq] at h
      obtain ⟨rfl, rfl⟩ := h
      exact Or.inl rfl
  | _ =>
    simp only [step, flushTest, cancelScan] at h
    repeat' split at h
    all_goals simp only [Option.some.injEq, Prod.mk.injEq, reduceCtorEq] at h
    all_goals obtain ⟨rfl, rfl⟩ := h
    all_goals first | exact Or.inl rfl | exact Or.inr rfl | simp

/-- Only the initialisation of a plunger sets its pending bit. -/
theorem step_pending_plunger {b : Bool} {s s' : Wq} {pc pc' : Pc} {m : Nat}
    (h : step b s pc = some (s', pc')) (hm : s'.pending (.plunger m) = true) :
    s.pending (.plunger m) = true ∨ (pc.unbornPlunger = some m ∧ pc'.unbornPlunger = none) := by
  cases pc with
  | queueLock | flushQueue | relock | calloutLock =>
    simp only [step, Option.some.injEq] at h
    rw [dispatchLoop_pending h] at hm
    exact Or.inl hm
  | callback w slot ticket =>
    cases w <;>
    · simp only [step, Option.some.injEq, Prod.mk.injEq] at h
      obtain ⟨rfl, rfl⟩ := h
      exact Or.inl hm
  | cancelLock c =>
    simp only [step] at h
    split at h
    · simp only [Option.some.injEq] at h
      rcases cancelRemove_cases s c with hr | ⟨-, -, ok, hr⟩ <;>
        rw [hr] at h <;>
        obtain ⟨rfl, -, -⟩ | ⟨rfl, -, -⟩ := cancelScan_cases h <;>
        exact Or.inl hm
    · simp only [Option.some.injEq, Prod.mk.injEq] at h
      obtain ⟨rfl, rfl⟩ := h
      exact Or.inl hm
  | clearPending w slot ticket =>
    simp only [step, Option.some.injEq, Prod.mk.injEq] at h
    obtain ⟨rfl, rfl⟩ := h
    simp only [Function.update_apply] at hm
    split at hm
    · cases hm
    · exact Or.inl hm
  | flushInit f =>
    simp only [step, Option.some.injEq, Prod.mk.injEq] at h
    obtain ⟨rfl, rfl⟩ := h
    simp only [Function.update_apply] at hm
    split at hm
    · rename_i heq
      simp only [Work.plunger.injEq] at heq
      exact Or.inr ⟨by rw [heq]; rfl, rfl⟩
    · exact Or.inl hm
  | _ =>
    simp only [step, flushTest, cancelScan] at h
    repeat' split at h
    all_goals simp only [Option.some.injEq, Prod.mk.injEq, reduceCtorEq] at h
    all_goals obtain ⟨rfl, rfl⟩ := h
    all_goals exact Or.inl hm

theorem enter_unbornPlunger {me m : Nat} {s s' : Wq} {call : Call} {pc : Pc}
    (h : enter me s call = some (s', pc)) (hm : pc.unbornPlunger = some m) : m = me := by
  cases call with
  | callout =>
    simp only [enter] at h
    split at h
    · cases h
    · simp only [Option.some.injEq] at h
      obtain ⟨ok, -, rfl, -⟩ | ⟨e, head, wt, free, ok, -, -, -, -, rfl⟩ :=
        vmklnxWorkqueueCallout_cases h <;> cases hm
  | timeout =>
    simp only [enter] at h
    split at h
    · simp only [Option.some.injEq] at h
      rw [dispatchLoop_unbornPlunger h] at hm
      cases hm
    · cases h
  | _ =>
    simp only [enter] at h
    repeat' split at h
    all_goals simp only [Option.some.injEq, Prod.mk.injEq, reduceCtorEq] at h
    all_goals obtain ⟨rfl, rfl⟩ := h
    all_goals simp only [Pc.unbornPlunger, Option.some.injEq, reduceCtorEq] at hm
    all_goals exact hm.symm

theorem enter_pending {me : Nat} {s s' : Wq} {call : Call} {pc : Pc}
    (h : enter me s call = some (s', pc)) : s'.pending = s.pending := by
  cases call with
  | callout =>
    simp only [enter] at h
    split at h
    · cases h
    · simp only [Option.some.injEq] at h
      obtain ⟨ok, rfl, -, -⟩ | ⟨e, head, wt, free, ok, -, -, -, rfl, -⟩ :=
        vmklnxWorkqueueCallout_cases h <;> rfl
  | timeout =>
    simp only [enter] at h
    split at h
    · simp only [Option.some.injEq] at h
      rw [dispatchLoop_pending h]
    · cases h
  | _ =>
    simp only [enter] at h
    repeat' split at h
    all_goals simp only [Option.some.injEq, Prod.mk.injEq, reduceCtorEq] at h
    all_goals obtain ⟨rfl, rfl⟩ := h
    all_goals rfl

theorem machine_start {me : Nat} {call : Call} {s s' : Wq} {pc : Pc}
    (h : machine.start me call s = some (s', pc)) :
    s.freed = false ∧ enter me s call = some (s', pc) := by
  simp only [machine] at h
  split at h
  · cases h
  · rename_i hf
    exact ⟨by simpa using hf, h⟩

theorem machine_act {b : Bool} {s s' : Wq} {pc pc' : Pc}
    (h : machine.act b s pc = some (s', pc')) :
    s.freed = false ∧ step b s pc = some (s', pc') := by
  simp only [machine] at h
  split at h
  · cases h
  · rename_i hf
    exact ⟨by simpa using hf, h⟩

variable {ok : Config Wq Pc → Event Call Bool → Prop} {maxDispatch : Nat} {c : Config Wq Pc}

/-- A call that has yet to initialise its plunger goes by its own name, and its
    plunger's bit is clear. -/
theorem unborn_of_reach (h : machine.Reach ok (initial maxDispatch) c) :
    Fresh Pc.unbornPlunger (fun s m => s.pending (.plunger m) = true) c := by
  refine h.fresh ⟨each_nil _, fun m _ => Bool.false_ne_true⟩ ?_ ?_
  · intro me call s s' pc hs
    obtain ⟨-, hs⟩ := machine_start hs
    refine ⟨fun m hm => enter_unbornPlunger hs hm, fun m hm => ?_⟩
    rw [enter_pending hs] at hm
    exact hm
  · intro b s pc s' pc' hs
    obtain ⟨-, hs⟩ := machine_act hs
    exact ⟨step_unbornPlunger hs, fun m hm => step_pending_plunger hs hm⟩

/-! ### Ownership -/

/-- The bit of `c.work` is counted for a cancel once it has grabbed it. -/
def Cancel.holds (c : Cancel) (w : Work) : Nat :=
  if c.didGrabPending = true ∧ Work.item c.work = w then 1 else 0

/-- How often a call holds the pending bit of `w`. -/
def Pc.owns (w : Work) : Pc → Nat
  | .queueLock i _ | .delayedSetData i | .delayedAddTimer i
  | .cancelClear i _ => if Work.item i = w then 1 else 0
  | .clearPending v _ _ => if v = w then 1 else 0
  | .flushQueue f => if Work.plunger f.me = w then 1 else 0
  | .cancelGrab c | .cancelTimer c | .cancelData c | .cancelLock c
  | .cancelSleep c => c.holds w
  | _ => 0

@[simp] theorem Ret.owns_pc (k : Ret) (w : Work) : k.pc.owns w = 0 := by
  cases k <;> rfl

@[simp] theorem Cancel.owns_next (c : Cancel) (w : Work) : c.next.owns w = c.holds w := by
  unfold Cancel.next
  split
  · rename_i hgrab
    simp [Pc.owns, Cancel.holds, hgrab]
  · rfl

/-- Whether the delay timer holds the pending bit of `w`. -/
def Wq.armed (s : Wq) : Work → Nat
  | .item i => if s.timer i then 1 else 0
  | .plunger _ => 0

/-- A set bit has exactly one holder, a clear one has none. -/
def Owned (s : Wq) (owners : Work → Nat) : Prop :=
  ∀ w, (s.head.map Entry.work).count w + s.armed w + owners w = if s.pending w then 1 else 0

/-- A bit that a call holds is set, and neither `head` nor the timer holds it. -/
theorem Owned.held {s : Wq} {owners : Work → Nat} {w : Work} (hI : Owned s owners)
    (hw : 0 < owners w) :
    w ∉ s.head.map Entry.work ∧ s.armed w = 0 ∧ s.pending w = true := by
  have hsum := hI w
  by_cases hpend : s.pending w = true
  · simp only [hpend, if_true] at hsum
    refine ⟨List.count_eq_zero.mp (by omega), by omega, hpend⟩
  · simp only [hpend, if_false, Bool.false_eq_true] at hsum
    omega

theorem Owned.armed_pending {s : Wq} {owners : Work → Nat} {i : Nat} (hI : Owned s owners)
    (hi : s.timer i = true) : s.pending (.item i) = true := by
  have hsum := hI (.item i)
  have harm : s.armed (.item i) = 1 := by simp [Wq.armed, hi]
  by_contra hclear
  simp only [harm, hclear, if_false] at hsum
  omega

/-- An entry on `head` is there once, and its bit is set. -/
theorem Owned.onHead {s : Wq} {owners : Work → Nat} {w : Work} (hI : Owned s owners)
    (hw : w ∈ s.head.map Entry.work) :
    (s.head.map Entry.work).count w = 1 ∧ s.pending w = true := by
  have hsum := hI w
  have hpos := List.count_pos_iff.mpr hw
  by_cases hpend : s.pending w = true
  · simp only [hpend, if_true] at hsum
    exact ⟨by omega, hpend⟩
  · simp only [hpend, if_false, Bool.false_eq_true] at hsum
    omega

theorem Owned.dispatchLoop {s s' : Wq} {k : Ret} {pc : Pc} {r : Work → Nat}
    (hI : Owned s r) (h : dispatchLoop s k = (s', pc)) :
    Owned s' fun w => r w + pc.owns w := by
  obtain ⟨rfl, rfl, -⟩ | ⟨rfl, rfl, -⟩ := dispatchLoop_cases h
  · exact hI
  · simp only [Ret.owns_pc]
    exact hI

theorem Owned.vmklnxWorkqueueDispatch {s s' : Wq} {k : Ret} {pc : Pc} {r : Work → Nat}
    (hI : Owned s r) (h : vmklnxWorkqueueDispatch s k = (s', pc)) :
    Owned s' fun w => r w + pc.owns w := by
  unfold Workqueue.vmklnxWorkqueueDispatch at h
  refine Owned.dispatchLoop ?_ h
  exact hI

theorem Owned.queueWork {s : Wq} {w : Work} {r : Work → Nat}
    (hI : Owned s fun v => r v + if w = v then 1 else 0) : Owned (queueWork s w) r := by
  intro v
  have hv : (s.head.map Entry.work).count v + s.armed v + (r v + if w = v then 1 else 0) =
    if s.pending v then 1 else 0 := hI v
  have hcount : ((Workqueue.queueWork s w).head.map Entry.work).count v =
      (s.head.map Entry.work).count v + if w = v then 1 else 0 := by
    simp [Workqueue.queueWork, List.count_singleton, beq_iff_eq]
  have harmed : (Workqueue.queueWork s w).armed v = s.armed v := by cases v <;> rfl
  rw [hcount, harmed]
  change _ = if s.pending v then 1 else 0
  omega

theorem Owned.setPending {s : Wq} {r r' : Work → Nat} (w : Work) (b : Bool) (hI : Owned s r)
    (hr : ∀ v, v ≠ w → r' v = r v)
    (hw : (s.head.map Entry.work).count w + s.armed w + r' w = if b then 1 else 0) :
    Owned { s with pending := Function.update s.pending w b } r' := by
  intro v
  change (s.head.map Entry.work).count v + s.armed v + r' v =
    if Function.update s.pending w b v then 1 else 0
  by_cases hv : v = w
  · subst hv
    rw [Function.update_self]
    exact hw
  · rw [Function.update_of_ne hv, hr v hv]
    exact hI v

theorem Owned.setTimer {s : Wq} {r r' : Work → Nat} (i : Nat) (b : Bool) (hI : Owned s r)
    (hr : ∀ v, v ≠ .item i → r' v = r v)
    (hi : (if b then 1 else 0) + r' (.item i) = s.armed (.item i) + r (.item i)) :
    Owned { s with timer := Function.update s.timer i b } r' := by
  intro v
  have hIv := hI v
  change (s.head.map Entry.work).count v +
    Wq.armed { s with timer := Function.update s.timer i b } v + r' v =
    if s.pending v then 1 else 0
  by_cases hv : v = .item i
  · subst hv
    have harmed : Wq.armed { s with timer := Function.update s.timer i b } (.item i) =
        if b then 1 else 0 := by
      simp only [Wq.armed, Function.update_self]
    omega
  · have harmed : Wq.armed { s with timer := Function.update s.timer i b } v = s.armed v := by
      cases v with
      | item j =>
        have hj : j ≠ i := fun h => hv (by rw [h])
        simp only [Wq.armed, Function.update_of_ne hj]
      | plunger f => rfl
    rw [harmed, hr v hv]
    exact hIv

/-- A call takes a clear bit. -/
theorem Owned.take {s : Wq} {w : Work} {r : Work → Nat} (hI : Owned s r)
    (hclear : s.pending w = false) :
    Owned { s with pending := Function.update s.pending w true }
      fun v => r v + if w = v then 1 else 0 := by
  have hw := hI w
  rw [hclear] at hw
  refine hI.setPending w true (fun v hv => by simp [hv.symm]) ?_
  simp only [if_true, Bool.false_eq_true, if_false] at hw ⊢
  omega

/-- The call that holds a bit clears it. -/
theorem Owned.drop {s : Wq} {w : Work} {r : Work → Nat}
    (hI : Owned s fun v => r v + if w = v then 1 else 0) :
    Owned { s with pending := Function.update s.pending w false } r := by
  have hw := hI w
  refine hI.setPending w false (fun v hv => by simp [hv.symm]) ?_
  simp only [if_true, Bool.false_eq_true, if_false] at hw ⊢
  split at hw <;> omega

/-- The call that holds the bit of an item leaves it to the timer. -/
theorem Owned.arm {s : Wq} {i : Nat} {r : Work → Nat}
    (hI : Owned s fun v => r v + if Work.item i = v then 1 else 0) :
    Owned { s with timer := Function.update s.timer i true } r := by
  have hi := hI (.item i)
  refine hI.setTimer i true (fun v hv => by simp [hv.symm]) ?_
  simp only [if_true] at hi ⊢
  split at hi <;> omega

/-- A call takes the bit of an item over from the timer. -/
theorem Owned.disarm {s : Wq} {i : Nat} {r : Work → Nat} (hI : Owned s r)
    (harmed : s.timer i = true) :
    Owned { s with timer := Function.update s.timer i false }
      fun v => r v + if Work.item i = v then 1 else 0 := by
  refine hI.setTimer i false (fun v hv => by simp [hv.symm]) ?_
  simp only [Wq.armed, harmed, if_true, Bool.false_eq_true, if_false]
  omega

/-- A cancel that finds the bit clear, or with another holder, does not hold it. -/
theorem Owned.notGrabbed {s : Wq} {cl : Cancel} {r : Work → Nat}
    (hI : Owned s fun w => r w + cl.holds w)
    (h : s.pending (.item cl.work) = true →
      0 < (s.head.map Entry.work).count (.item cl.work) + s.armed (.item cl.work)) :
    Owned s r := by
  have hzero : cl.holds (.item cl.work) = 0 := by
    have hi := hI (.item cl.work)
    by_cases hpend : s.pending (.item cl.work) = true
    · have hpos := h hpend
      simp only [hpend, if_true] at hi
      omega
    · simp only [hpend, Bool.false_eq_true, if_false] at hi
      omega
  intro w
  have hnone : cl.holds w = 0 := by
    by_cases hcw : Work.item cl.work = w
    · rw [← hcw, hzero]
    · simp [Cancel.holds, hcw]
  have hw := hI w
  simp only [hnone, Nat.add_zero] at hw
  exact hw

/-- Once it has grabbed the bit, a cancel holds it. -/
theorem Cancel.holds_grabbed (cl : Cancel) (ret : Nat) :
    Cancel.holds { cl with didGrabPending := true, ret := ret } =
      fun w => if Work.item cl.work = w then 1 else 0 := by
  funext w
  simp [Cancel.holds]

/-- A cancel that takes the item off `head` takes the bit over from it; it cannot
    have had the bit before. -/
theorem Owned.cancelRemove {s : Wq} {cl : Cancel} {r : Work → Nat}
    (hI : Owned s fun w => r w + cl.holds w) :
    Owned (cancelRemove s cl).1 fun w => r w + (cancelRemove s cl).2.holds w := by
  rcases cancelRemove_cases s cl with hr | ⟨hmem, hpend, ok, hr⟩
  · rw [hr]
    exact hI
  · have hI' := hI.notGrabbed fun _ =>
      Nat.lt_of_lt_of_le (List.count_pos_iff.mpr hmem) (Nat.le_add_right _ _)
    simp only [hr, Cancel.holds_grabbed]
    intro w
    have hw := hI' w
    have hfilter : (s.head.filter fun e => e.work ≠ .item cl.work).map Entry.work =
        (s.head.map Entry.work).filter (· ≠ .item cl.work) := by
      rw [List.filter_map]
      rfl
    change ((s.head.filter fun e => e.work ≠ .item cl.work).map Entry.work).count w +
      s.armed w + (r w + if Work.item cl.work = w then 1 else 0) = if s.pending w then 1 else 0
    rw [hfilter]
    by_cases hcw : Work.item cl.work = w
    · subst hcw
      have hone := (hI'.onHead hmem).1
      have hzero : ((s.head.map Entry.work).filter (· ≠ .item cl.work)).count
          (.item cl.work) = 0 := by
        simp [List.count_eq_zero]
      rw [hzero, if_pos rfl]
      omega
    · have hkeep : ((s.head.map Entry.work).filter (· ≠ .item cl.work)).count w =
          (s.head.map Entry.work).count w :=
        List.count_filter (by simpa using fun h => hcw h.symm)
      rw [hkeep, if_neg hcw]
      exact hw

theorem Owned.cancelScan {s s' : Wq} {cl : Cancel} {pc : Pc} {r : Work → Nat}
    (hI : Owned s fun w => r w + cl.holds w) (h : cancelScan s cl = (s', pc)) :
    Owned s' fun w => r w + pc.owns w := by
  obtain ⟨rfl, rfl, -⟩ | ⟨rfl, rfl, -⟩ := cancelScan_cases h
  · exact hI
  · simp only [Cancel.owns_next]
    exact hI

/-- One step moves the bit between holders and never duplicates it; `r` counts the
    other calls. -/
theorem step_owned {b : Bool} {s s' : Wq} {pc pc' : Pc} {r : Work → Nat}
    (h : step b s pc = some (s', pc')) (hI : Owned s fun w => r w + pc.owns w)
    (hfresh : ∀ f, pc = .flushInit f → s.pending (.plunger f.me) = false) :
    Owned s' fun w => r w + pc'.owns w := by
  cases pc with
  | queueLock | flushQueue =>
    simp only [step, Option.some.injEq] at h
    exact (Owned.queueWork hI).vmklnxWorkqueueDispatch h
  | relock k =>
    simp only [step, Option.some.injEq] at h
    exact Owned.dispatchLoop hI h
  | calloutLock slot ticket =>
    simp only [step, Option.some.injEq] at h
    exact Owned.vmklnxWorkqueueDispatch (s := calloutDone s slot) hI h
  | callback w slot ticket =>
    cases w <;>
    · simp only [step, Option.some.injEq, Prod.mk.injEq] at h
      obtain ⟨rfl, rfl⟩ := h
      exact hI
  | cancelLock cl =>
    simp only [step] at h
    split at h
    · simp only [Option.some.injEq] at h
      exact Owned.cancelScan (Owned.cancelRemove hI) h
    · simp only [Option.some.injEq, Prod.mk.injEq] at h
      obtain ⟨rfl, rfl⟩ := h
      simp only [Cancel.owns_next]
      exact hI
  | cancelSleep cl =>
    simp only [step, Option.some.injEq] at h
    exact Owned.cancelScan (s := { s with waiting := s.waiting - 1 }) hI h
  | queueTestPending i | delayedTestPending i =>
    simp only [step] at h
    split at h
    · simp only [Option.some.injEq, Prod.mk.injEq] at h
      obtain ⟨rfl, rfl⟩ := h
      exact hI
    · rename_i hclear
      simp only [Option.some.injEq, Prod.mk.injEq] at h
      obtain ⟨rfl, rfl⟩ := h
      exact Owned.take hI (Bool.eq_false_iff.mpr hclear)
  | delayedAddTimer i =>
    simp only [step, Option.some.injEq, Prod.mk.injEq] at h
    obtain ⟨rfl, rfl⟩ := h
    exact Owned.arm hI
  | clearPending w slot ticket =>
    simp only [step, Option.some.injEq, Prod.mk.injEq] at h
    obtain ⟨rfl, rfl⟩ := h
    exact Owned.drop hI
  | cancelClear i ret =>
    simp only [step, Option.some.injEq, Prod.mk.injEq] at h
    obtain ⟨rfl, rfl⟩ := h
    exact Owned.drop hI
  | flushInit f =>
    simp only [step, Option.some.injEq, Prod.mk.injEq] at h
    obtain ⟨rfl, rfl⟩ := h
    exact Owned.take (s := { s with completion := _, wqData := _ }) hI (hfresh f rfl)
  | cancelGrab cl =>
    simp only [step] at h
    split at h
    · split at h <;>
      · simp only [Option.some.injEq, Prod.mk.injEq] at h
        obtain ⟨rfl, rfl⟩ := h
        exact hI
    · rename_i hclear
      simp only [Option.some.injEq, Prod.mk.injEq] at h
      obtain ⟨rfl, rfl⟩ := h
      have hI' := Owned.notGrabbed hI fun hpend => absurd hpend hclear
      simp only [Pc.owns, Cancel.holds_grabbed]
      exact hI'.take (Bool.eq_false_iff.mpr hclear)
  | cancelTimer cl =>
    simp only [step] at h
    split at h
    · rename_i harmed
      simp only [Option.some.injEq, Prod.mk.injEq] at h
      obtain ⟨rfl, rfl⟩ := h
      have harm : s.armed (.item cl.work) = 1 := by simp [Wq.armed, harmed]
      have hI' := Owned.notGrabbed hI fun _ => by omega
      simp only [Pc.owns, Cancel.holds_grabbed]
      exact Owned.disarm (s := { s with asserts := _ }) hI' harmed
    · simp only [Option.some.injEq, Prod.mk.injEq] at h
      obtain ⟨rfl, rfl⟩ := h
      exact hI
  | _ =>
    simp only [step, flushTest] at h
    repeat' split at h
    all_goals simp only [Option.some.injEq, Prod.mk.injEq, reduceCtorEq] at h
    all_goals obtain ⟨rfl, rfl⟩ := h
    all_goals first
      | exact hI
      | (simp only [Ret.owns_pc, Cancel.owns_next]; exact hI)

/-- A new call takes over the bit of an expired timer or of the entry it dequeues. -/
theorem enter_owned {me : Nat} {s s' : Wq} {call : Call} {pc : Pc} {r : Work → Nat}
    (h : enter me s call = some (s', pc)) (hI : Owned s r) :
    Owned s' fun w => r w + pc.owns w := by
  cases call with
  | delayedWorkTimerFn i =>
    simp only [enter] at h
    split at h
    · rename_i harmed
      simp only [Option.some.injEq, Prod.mk.injEq] at h
      obtain ⟨rfl, rfl⟩ := h
      exact hI.disarm harmed
    · cases h
  | callout =>
    simp only [enter] at h
    split at h
    · cases h
    · simp only [Option.some.injEq] at h
      obtain ⟨ok, rfl, rfl, -⟩ | ⟨e, head, wt, free, ok, hhead, -, -, rfl, rfl⟩ :=
        vmklnxWorkqueueCallout_cases h
      · exact hI
      · intro w
        have hw : (s.head.map Entry.work).count w + s.armed w + r w =
          if s.pending w then 1 else 0 := hI w
        have hhead : s.head = e :: head := hhead
        rw [hhead, List.map_cons, List.count_cons] at hw
        simp only [beq_iff_eq] at hw
        change (head.map Entry.work).count w + s.armed w +
          (r w + if e.work = w then 1 else 0) = if s.pending w then 1 else 0
        omega
  | timeout =>
    simp only [enter] at h
    split at h
    · simp only [Option.some.injEq] at h
      exact Owned.vmklnxWorkqueueDispatch (s := { s with delayTimer := false }) hI h
    · cases h
  | _ =>
    simp only [enter] at h
    repeat' split at h
    all_goals simp only [Option.some.injEq, Prod.mk.injEq] at h
    all_goals obtain ⟨rfl, rfl⟩ := h
    all_goals exact hI

/-- In every run a set pending bit has exactly one holder. -/
theorem owned_of_reach (h : machine.Reach ok (initial maxDispatch) c) :
    Owned c.shared fun w => total (Pc.owns w) c.pool := by
  refine Machine.Reach.invariant
    (fun c => Owned c.shared fun w => total (Pc.owns w) c.pool) ?_ ?_ ?_ h
  · intro w
    cases w <;> rfl
  · intro c call s' pc _ hI _ hs
    simp only [total_append]
    exact enter_owned (machine_start hs).2 hI
  · intro c i b pc s' pc' hc hI _ hi hs
    simp only [total_eq_others _ hi] at hI
    simp only [total_set _ pc' hi]
    refine step_owned (machine_act hs).2 hI fun f hf => ?_
    have hfresh := ((unborn_of_reach hc).own i pc hi f.me (by rw [hf]; rfl)).2
    exact Bool.eq_false_iff.mpr hfresh

end VmkLinux.Workqueue
