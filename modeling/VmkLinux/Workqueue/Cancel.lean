/-
  VmkLinux/Workqueue/Cancel.lean
  ==============================
  **What a cancel leaves behind.**

  `vmklnx_cancel_work_sync` loops until it holds the pending bit of its item, which
  it gets from a free item, from the delay timer or from `head`.  Holding the bit
  keeps every other call from queueing the item or arming its timer
  (`Owned.held`); what is left to show is that no callout is still running the
  item when the cancel clears the bit.  The scan of the tracker lists shows that,
  or the item was never queued at all, and from then on no callout can pick it up.
-/
import VmkLinux.Workqueue.Flush

namespace VmkLinux.Workqueue

open VmkLinux.Interleave

/-! ### Items that were never queued -/

/-- An item whose `wq_data` is `NULL` was never put on `head`. -/
def Wq.Known (s : Wq) : Prop :=
  ∀ i, Work.item i ∈ s.queued → s.wqData (.item i) = true

theorem Wq.Known.queueWork {s : Wq} {w : Work} (hI : s.Known) : (queueWork s w).Known := by
  intro i hi
  change Function.update s.wqData w true (.item i) = true
  by_cases hw : Work.item i = w
  · subst hw
    exact Function.update_self ..
  · rw [Function.update_of_ne hw]
    refine hI i ?_
    rcases List.mem_append.mp hi with hi | hi
    · exact hi
    · exact absurd (List.mem_singleton.mp hi) hw

theorem Wq.Known.vmklnxWorkqueueDispatch {s s' : Wq} {k : Ret} {pc : Pc} (hI : s.Known)
    (h : vmklnxWorkqueueDispatch s k = (s', pc)) : s'.Known := by
  obtain ⟨ok, ⟨rfl, -, -⟩ | ⟨rfl, -, -⟩⟩ := vmklnxWorkqueueDispatch_cases h <;> exact hI

theorem step_known {b : Bool} {s s' : Wq} {pc pc' : Pc} (h : step b s pc = some (s', pc'))
    (hI : s.Known) : s'.Known := by
  cases pc with
  | queueLock | flushQueue =>
    simp only [step, Option.some.injEq] at h
    exact hI.queueWork.vmklnxWorkqueueDispatch h
  | calloutLock slot ticket =>
    simp only [step, Option.some.injEq] at h
    exact Wq.Known.vmklnxWorkqueueDispatch (s := calloutDone s slot) hI h
  | relock k =>
    simp only [step, Option.some.injEq] at h
    obtain ⟨rfl, -, -⟩ | ⟨rfl, -, -⟩ := dispatchLoop_cases h <;> exact hI
  | callback w slot ticket =>
    cases w <;>
    · simp only [step, Option.some.injEq, Prod.mk.injEq] at h
      obtain ⟨rfl, rfl⟩ := h
      exact hI
  | delayedSetData j =>
    simp only [step, Option.some.injEq, Prod.mk.injEq] at h
    obtain ⟨rfl, rfl⟩ := h
    intro i hi
    change Function.update s.wqData (.item j) true (.item i) = true
    by_cases hij : Work.item i = .item j
    · rw [hij, Function.update_self]
    · rw [Function.update_of_ne hij]
      exact hI i hi
  | flushInit f =>
    simp only [step, Option.some.injEq, Prod.mk.injEq] at h
    obtain ⟨rfl, rfl⟩ := h
    intro i hi
    change Function.update s.wqData (.plunger f.me) false (.item i) = true
    rw [Function.update_of_ne (by simp)]
    exact hI i hi
  | cancelLock cl =>
    simp only [step] at h
    split at h
    · simp only [Option.some.injEq] at h
      rcases cancelRemove_cases s cl with hr | ⟨-, -, ok, hr⟩ <;>
        rw [hr] at h <;>
        obtain ⟨rfl, -, -⟩ | ⟨rfl, -, -⟩ := cancelScan_cases h <;>
        exact hI
    · simp only [Option.some.injEq, Prod.mk.injEq] at h
      obtain ⟨rfl, rfl⟩ := h
      exact hI
  | _ =>
    simp only [step, flushTest, cancelScan] at h
    repeat' split at h
    all_goals simp only [Option.some.injEq, Prod.mk.injEq, reduceCtorEq] at h
    all_goals obtain ⟨rfl, rfl⟩ := h
    all_goals exact hI

theorem enter_known {me : Nat} {s s' : Wq} {call : Call} {pc : Pc}
    (h : enter me s call = some (s', pc)) (hI : s.Known) : s'.Known := by
  cases call with
  | callout =>
    simp only [enter] at h
    split at h
    · cases h
    · simp only [Option.some.injEq] at h
      obtain ⟨ok, rfl, -, -⟩ | ⟨e, head, wt, free, ok, -, -, -, rfl, -⟩ :=
        vmklnxWorkqueueCallout_cases h <;> exact hI
  | timeout =>
    simp only [enter] at h
    split at h
    · simp only [Option.some.injEq] at h
      exact Wq.Known.vmklnxWorkqueueDispatch (s := { s with delayTimer := false }) hI h
    · cases h
  | _ =>
    simp only [enter] at h
    repeat' split at h
    all_goals simp only [Option.some.injEq, Prod.mk.injEq, reduceCtorEq] at h
    all_goals obtain ⟨rfl, rfl⟩ := h
    all_goals exact hI

variable {ok : Config Wq Pc → Event Call Bool → Prop} {maxDispatch : Nat} {c : Config Wq Pc}

theorem known_of_reach (h : machine.Reach ok (initial maxDispatch) c) : c.shared.Known := by
  refine Machine.Reach.invariant (fun c => c.shared.Known) ?_ ?_ ?_ h
  · intro i hi
    cases hi
  · intro c call s' pc _ hI _ hs
    exact enter_known (machine_start hs).2 hI
  · intro c i b pc s' pc' _ hI _ _ hs
    exact step_known (machine_act hs).2 hI

/-! ### Items that are not running -/

/-- No tracker in use is for `w`. -/
def Wq.Idle (s : Wq) (w : Work) : Prop := ∀ t ∈ s.busy, t.executing ≠ some w

theorem Wq.idle_of_running {s : Wq} {w : Work} (h : s.running w = false) : s.Idle w := by
  intro t ht hexec
  simp only [Wq.running, Bool.or_eq_false_iff, List.any_eq_false, decide_eq_true_eq] at h
  rcases List.mem_append.mp ht with ht | ht
  · exact h.1 t ht hexec
  · exact h.2 t ht hexec

/-- An item with a `NULL` `wq_data` is not running. -/
theorem Wq.Known.idle {s : Wq} {i : Nat} (hI : s.Known) (hT : Tickets s)
    (hdata : s.wqData (.item i) = false) : s.Idle (.item i) := by
  intro t ht hexec
  obtain ⟨⟨w, hw, hqueued⟩, -⟩ := hT.started t ht
  rw [hw, Option.some.injEq] at hexec
  subst hexec
  have htrue := hI i (List.mem_of_getElem? hqueued)
  rw [hdata] at htrue
  cases htrue

/-- An item that is neither running nor on `head` does not start running. -/
theorem Wq.Idle.later {s s' : Wq} {w : Work} (hI : s.Idle w) (hL : Later s s')
    (hoff : w ∉ s.head.map Entry.work) : s'.Idle w := by
  intro t ht hexec
  rcases hL.busy t ht with ht | ⟨e, he, -, hwork⟩
  · exact hI t ht hexec
  · rw [hwork, Option.some.injEq] at hexec
    exact hoff (hexec ▸ List.mem_map_of_mem he)

/-- A cancel that is about to clear the bit has found its item idle. -/
def Pc.Cancelled (s : Wq) : Pc → Prop
  | .cancelClear i _ => s.Idle (.item i)
  | _ => True

@[simp] theorem Ret.cancelled_pc (s : Wq) (k : Ret) : k.pc.Cancelled s := by
  cases k <;> trivial

theorem Cancel.cancelled_next {s : Wq} {cl : Cancel} (h : s.Idle (.item cl.work)) :
    cl.next.Cancelled s := by
  unfold Cancel.next
  split
  · exact h
  · trivial

theorem dispatchLoop_cancelled {s s' : Wq} {k : Ret} {pc : Pc}
    (h : dispatchLoop s k = (s', pc)) : pc.Cancelled s' := by
  obtain ⟨rfl, rfl, -⟩ | ⟨rfl, rfl, -⟩ := dispatchLoop_cases h
  · trivial
  · exact Ret.cancelled_pc _ k

theorem cancelScan_cancelled {s s' : Wq} {cl : Cancel} {pc : Pc}
    (h : cancelScan s cl = (s', pc)) : pc.Cancelled s' := by
  obtain ⟨rfl, rfl, -⟩ | ⟨rfl, rfl, hidle⟩ := cancelScan_cases h
  · trivial
  · exact Cancel.cancelled_next (Wq.idle_of_running hidle)

/-- The three ways out of the loop of a cancel all find the item idle. -/
theorem step_cancelled {b : Bool} {s s' : Wq} {pc pc' : Pc} (h : step b s pc = some (s', pc'))
    (hK : s.Known) (hT : Tickets s) : pc'.Cancelled s' := by
  cases pc with
  | queueLock | flushQueue | relock | calloutLock =>
    simp only [step, Option.some.injEq] at h
    exact dispatchLoop_cancelled h
  | callback w slot ticket =>
    cases w <;>
    · simp only [step, Option.some.injEq, Prod.mk.injEq] at h
      obtain ⟨rfl, rfl⟩ := h
      trivial
  | cancelData cl =>
    simp only [step] at h
    split at h
    · simp only [Option.some.injEq, Prod.mk.injEq] at h
      obtain ⟨rfl, rfl⟩ := h
      trivial
    · rename_i hdata
      simp only [Option.some.injEq, Prod.mk.injEq] at h
      obtain ⟨rfl, rfl⟩ := h
      exact Cancel.cancelled_next (hK.idle hT (by simpa using hdata))
  | cancelLock cl =>
    simp only [step] at h
    split at h
    · simp only [Option.some.injEq] at h
      exact cancelScan_cancelled h
    · rename_i hdata
      simp only [Option.some.injEq, Prod.mk.injEq] at h
      obtain ⟨rfl, rfl⟩ := h
      exact Cancel.cancelled_next (hK.idle hT (by simpa using hdata))
  | cancelSleep cl =>
    simp only [step, Option.some.injEq] at h
    exact cancelScan_cancelled h
  | _ =>
    simp only [step, flushTest] at h
    repeat' split at h
    all_goals simp only [Option.some.injEq, Prod.mk.injEq, reduceCtorEq] at h
    all_goals obtain ⟨rfl, rfl⟩ := h
    all_goals first
      | trivial
      | exact Ret.cancelled_pc _ _

theorem enter_cancelled {me : Nat} {s s' : Wq} {call : Call} {pc : Pc}
    (h : enter me s call = some (s', pc)) : pc.Cancelled s' := by
  cases call with
  | callout =>
    simp only [enter] at h
    split at h
    · cases h
    · simp only [Option.some.injEq] at h
      obtain ⟨ok, -, rfl, -⟩ | ⟨e, head, wt, free, ok, -, -, -, -, rfl⟩ :=
        vmklnxWorkqueueCallout_cases h <;> trivial
  | timeout =>
    simp only [enter] at h
    split at h
    · simp only [Option.some.injEq] at h
      exact dispatchLoop_cancelled h
    · cases h
  | _ =>
    simp only [enter] at h
    repeat' split at h
    all_goals simp only [Option.some.injEq, Prod.mk.injEq, reduceCtorEq] at h
    all_goals obtain ⟨rfl, rfl⟩ := h
    all_goals trivial

/-- Nothing but the owner of the bit can put the item back on `head`. -/
theorem not_onHead_of_cancelClear (h : machine.Reach ok (initial maxDispatch) c) {j i ret : Nat}
    (hj : c.pool[j]? = some (.cancelClear i ret)) :
    Work.item i ∉ c.shared.head.map Entry.work ∧ c.shared.timer i = false := by
  have hmine := le_total (Pc.owns (.item i)) hj
  simp only [Pc.owns, if_true] at hmine
  obtain ⟨hoff, harmed, -⟩ := (owned_of_reach h).held (w := .item i) (by omega)
  exact ⟨hoff, by simpa [Wq.armed] using harmed⟩

theorem Pc.Cancelled.later {s' : Wq} {j : Nat} {pc : Pc}
    (h : machine.Reach ok (initial maxDispatch) c) (hj : c.pool[j]? = some pc)
    (hI : pc.Cancelled c.shared) (hL : Later c.shared s') :
    pc.Cancelled s' := by
  cases pc with
  | cancelClear i ret => exact Wq.Idle.later hI hL (not_onHead_of_cancelClear h hj).1
  | _ => trivial

theorem cancelled_of_reach (h : machine.Reach ok (initial maxDispatch) c) :
    Each (fun _ pc => pc.Cancelled c.shared) c.pool := by
  refine Machine.Reach.invariant
    (fun c => Each (fun _ pc => pc.Cancelled c.shared) c.pool) (each_nil _) ?_ ?_ h
  · intro c call s' pc hc hI _ hs
    have hL := later_of_start hc hs
    exact hI.append (fun j u hj hu => hu.later hc hj hL) (enter_cancelled (machine_start hs).2)
  · intro c i b pc s' pc' hc hI _ hi hs
    have hL := later_of_act hc hi hs
    refine hI.set (fun j u _ hj hu => hu.later hc hj hL) ?_
    exact step_cancelled (machine_act hs).2 (known_of_reach hc) (flushing_of_reach hc).tickets

/-- **Postcondition of a cancel.**  Where a call of `vmklnx_cancel_work_sync` is about
    to clear the pending bit of its item and return, the item is not on `head`, its
    timer is not armed, and no tracker in use is for it. -/
theorem cancel_leaves_item_idle (h : machine.Reachable (initial maxDispatch) c) {j i ret : Nat}
    (hj : c.pool[j]? = some (.cancelClear i ret)) :
    Work.item i ∉ c.shared.head.map Entry.work ∧ c.shared.timer i = false ∧
    ∀ t ∈ c.shared.trackList ++ c.shared.trackFlushList, t.executing ≠ some (.item i) := by
  obtain ⟨hoff, htimer⟩ := not_onHead_of_cancelClear h hj
  exact ⟨hoff, htimer, cancelled_of_reach h j _ hj⟩

/-- Call 0 queues the item, call 1 is its callout, call 2 queues the item again while
    the callback runs, and the cancel, call 3, takes it off `head` and waits for the
    callback. -/
def cancelRun : List (Event Call Bool) :=
  [.start (.queueWork 0), .act 0 true, .act 0 true, .act 0 true, .act 0 true,
    .start .callout, .act 1 true,
    .start (.queueWork 0), .act 2 true, .act 2 true, .act 2 true,
    .start (.cancel 0 false), .act 3 true, .act 3 true, .act 3 true,
    .act 1 true, .act 1 true, .act 3 true]

theorem cancel_leaves_requeued_item_idle : ∃ c, machine.Reachable (initial 1) c ∧
    c.pool[3]? = some (.cancelClear 0 1) ∧ c.shared.queued = [.item 0, .item 0] ∧
    Work.item 0 ∉ c.shared.head.map Entry.work := by
  obtain ⟨c, hc, hobs⟩ := machine.exists_reachable_of_run cancelRun (initial 1)
    (fun c => (c.pool[3]?, c.shared.queued)) (some (.cancelClear 0 1), [.item 0, .item 0])
    (by decide)
  simp only [Prod.mk.injEq] at hobs
  exact ⟨c, hc, hobs.1, hobs.2, (cancel_leaves_item_idle hc hobs.1).1⟩

end VmkLinux.Workqueue
