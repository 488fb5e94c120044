/-
  VmkLinux/Workqueue/Accounting.lean
  ==================================
  **The counters of the queue.**

  `qLen`, `curPosted`, `curDispatch` and `waiting` are changed in six functions,
  some of which drop `wqLock` between counting a request and submitting it.
  `Accounts` says what each counter counts: entries, requests, trackers in use
  and sleeping calls.  `accounts_of_reach` shows that every run keeps it, and
  `asserts_of_reach` that no `VMK_ASSERT` outside `destroy_workqueue` ever fails.

  A tracker is identified by its place in the array behind the queue, so that
  "the three lists are disjoint and make up the array" is a permutation of the
  range of places.
-/
import VmkLinux.Workqueue.Pending
import Mathlib.Data.List.Nodup
import Mathlib.Data.List.Perm.Basic

namespace VmkLinux.Workqueue

open VmkLinux.Interleave

/-! ### What the calls contribute -/

/-- Requests that a call has counted in `curPosted` and is still submitting. -/
def Pc.posting : Pc → Nat
  | .submit _ | .submitFailed _ => 1
  | _ => 0

/-- Callouts between their two critical sections: these are the ones that run a
    callback. -/
def Pc.executing : Pc → Nat
  | .clearPending _ _ _ | .callback _ _ _ | .plungerComplete _ _ _ | .calloutLock _ _ => 1
  | _ => 0

/-- Whether a callout holds the tracker at place `key.1` for the ticket `key.2`. -/
def Pc.tracks (key : Nat × Nat) : Pc → Nat
  | .clearPending _ slot ticket | .callback _ slot ticket | .plungerComplete _ slot ticket
  | .calloutLock slot ticket => if (slot, ticket) = key then 1 else 0
  | _ => 0

/-- Calls asleep on `waiting`. -/
def Pc.sleeping : Pc → Nat
  | .flushSleep _ _ | .cancelSleep _ => 1
  | _ => 0

/-- What a set of calls contributes. -/
structure Share where
  posting : Nat
  executing : Nat
  tracks : Nat × Nat → Nat
  sleeping : Nat

/-- The contribution of all calls. -/
def Share.of (pool : List Pc) : Share :=
  ⟨total Pc.posting pool, total Pc.executing pool, fun key => total (Pc.tracks key) pool,
    total Pc.sleeping pool⟩

/-- A contribution with one more call. -/
def Share.add (r : Share) (pc : Pc) : Share :=
  ⟨r.posting + pc.posting, r.executing + pc.executing, fun key => r.tracks key + pc.tracks key,
    r.sleeping + pc.sleeping⟩

/-- The contribution of all calls but call `i`. -/
def Share.others (pool : List Pc) (i : Nat) : Share :=
  ⟨Interleave.others Pc.posting pool i, Interleave.others Pc.executing pool i,
    fun key => Interleave.others (Pc.tracks key) pool i, Interleave.others Pc.sleeping pool i⟩

@[simp] theorem Share.add_pc (r : Share) (k : Ret) : r.add k.pc = r := by
  cases k <;> rfl

@[simp] theorem Share.add_next (r : Share) (c : Cancel) : r.add c.next = r := by
  unfold Cancel.next
  split <;> rfl

theorem Share.of_eq_others {pool : List Pc} {i : Nat} {pc : Pc} (h : pool[i]? = some pc) :
    Share.of pool = (Share.others pool i).add pc := by
  simp only [Share.of, Share.others, Share.add, total_eq_others _ h]

theorem Share.of_set {pool : List Pc} {i : Nat} {pc : Pc} (pc' : Pc) (h : pool[i]? = some pc) :
    Share.of (pool.set i pc') = (Share.others pool i).add pc' := by
  simp only [Share.of, Share.others, Share.add, total_set _ pc' h]

theorem Share.of_append (pool : List Pc) (pc : Pc) :
    Share.of (pool ++ [pc]) = (Share.of pool).add pc := by
  simp only [Share.of, Share.add, total_append]

/-! ### The invariant -/

/-- The trackers in use. -/
def Wq.busy (s : Wq) : List Tracker := s.trackList ++ s.trackFlushList

/-- What identifies the use of a tracker. -/
def Tracker.key (t : Tracker) : Nat × Nat := (t.slot, t.ticket)

/-- What the counters count, with `r` the contribution of the calls and `n` the
    number of trackers. -/
structure Accounts (n : Nat) (s : Wq) (r : Share) : Prop where
  maxDispatch : s.maxDispatch = n
  qLen : s.qLen = s.head.length
  curPosted : s.curPosted = s.requests + r.posting
  curDispatch : s.curDispatch = s.busy.length
  executing : s.curDispatch = r.executing
  slots : ((s.busy ++ s.trackFree).map Tracker.slot).Perm (List.range n)
  tracks : ∀ key, (s.busy.map Tracker.key).count key = r.tracks key
  free : ∀ t ∈ s.trackFree, t.executing = none
  waiting : s.waiting = r.sleeping

/-- `trackFree` holds what is not in use. -/
theorem Accounts.trackFree_length {n : Nat} {s : Wq} {r : Share} (hI : Accounts n s r) :
    (s.trackFree.length : Int) = s.maxDispatch - s.curDispatch := by
  have hlen := hI.slots.length_eq
  simp only [List.length_map, List.length_append, List.length_range] at hlen
  have hmax := hI.maxDispatch
  have hcur := hI.curDispatch
  omega

/-- Removing the one tracker with a given place. -/
theorem perm_filter_slot {l : List Tracker} {t : Tracker} (hnodup : (l.map Tracker.slot).Nodup)
    (ht : t ∈ l) : l.Perm (t :: l.filter (·.slot ≠ t.slot)) := by
  induction l with
  | nil => cases ht
  | cons u l ih =>
    simp only [List.map_cons, List.nodup_cons] at hnodup
    rcases List.mem_cons.mp ht with rfl | ht
    · have hkeep : l.filter (·.slot ≠ t.slot) = l := by
        refine List.filter_eq_self.mpr fun v hv => ?_
        have hne : v.slot ≠ t.slot := fun heq =>
          hnodup.1 (heq ▸ List.mem_map_of_mem hv)
        simpa using hne
      simp only [List.filter_cons, ne_eq, not_true_eq_false, decide_false, Bool.false_eq_true,
        if_false] at hkeep ⊢
      rw [hkeep]
    · have hne : u.slot ≠ t.slot := fun heq =>
        hnodup.1 (heq ▸ List.mem_map_of_mem ht)
      simp only [List.filter_cons, ne_eq, hne, not_false_eq_true, decide_true, if_true]
      exact ((ih hnodup.2 ht).cons u).trans (List.Perm.swap t u _)

/-- The tracker of a callout is in use. -/
theorem Accounts.mem_busy {n : Nat} {s : Wq} {r : Share} {pc : Pc}
    (hI : Accounts n s (r.add pc)) (slot ticket : Nat) (hpc : pc.tracks (slot, ticket) = 1) :
    ∃ t ∈ s.busy, t.slot = slot ∧ t.ticket = ticket := by
  have hmine := hI.tracks (slot, ticket)
  simp only [Share.add, hpc] at hmine
  have hmem : (slot, ticket) ∈ s.busy.map Tracker.key := List.count_pos_iff.mp (by omega)
  obtain ⟨t, ht, hkey⟩ := List.mem_map.mp hmem
  exact ⟨t, ht, congrArg Prod.fst hkey, congrArg Prod.snd hkey⟩

theorem Accounts.busy_nodup {n : Nat} {s : Wq} {r : Share} (hI : Accounts n s r) :
    (s.busy.map Tracker.slot).Nodup := by
  have hall := hI.slots.nodup_iff.mpr List.nodup_range
  rw [List.map_append] at hall
  exact (List.nodup_append.mp hall).1

/-- The tracker at the place of a callout is the tracker of that callout. -/
theorem Accounts.ticket_unique {n slot ticket : Nat} {s : Wq} {r : Share} {t : Tracker}
    (hI : Accounts n s (r.add (.calloutLock slot ticket))) (ht : t ∈ s.busy)
    (hslot : t.slot = slot) : t.ticket = ticket := by
  obtain ⟨u, hu, huslot, hutick⟩ := hI.mem_busy slot ticket (by simp [Pc.tracks])
  have htu : t = u := List.inj_on_of_nodup_map hI.busy_nodup ht hu (by rw [hslot, huslot])
  rw [htu, hutick]

/-! ### The critical sections -/

theorem Accounts.dispatchLoop {n : Nat} {s s' : Wq} {k : Ret} {pc : Pc} {r : Share}
    (hI : Accounts n s r) (h : dispatchLoop s k = (s', pc)) : Accounts n s' (r.add pc) := by
  obtain ⟨rfl, rfl, -⟩ | ⟨rfl, rfl, -⟩ := dispatchLoop_cases h
  · have hposted := hI.curPosted
    refine { hI with curPosted := ?_ }
    change s.curPosted + 1 = s.requests + ((r.posting + 1 : Nat) : Int)
    omega
  · rw [Share.add_pc]
    exact hI

theorem Accounts.vmklnxWorkqueueDispatch {n : Nat} {s s' : Wq} {k : Ret} {pc : Pc} {r : Share}
    (hI : Accounts n s r) (h : vmklnxWorkqueueDispatch s k = (s', pc)) :
    Accounts n s' (r.add pc) := by
  unfold Workqueue.vmklnxWorkqueueDispatch at h
  refine Accounts.dispatchLoop ?_ h
  exact { hI with }

theorem Accounts.queueWork {n : Nat} {s : Wq} {w : Work} {r : Share} (hI : Accounts n s r) :
    Accounts n (queueWork s w) r := by
  refine { hI with qLen := ?_ }
  simp only [Workqueue.queueWork, hI.qLen, List.length_append, List.length_singleton]
  omega

/-- The callout takes a tracker off `trackFree` for the entry it takes off `head`. -/
theorem Accounts.vmklnxWorkqueueCallout {n : Nat} {s s' : Wq} {pc : Pc} {r : Share}
    (hI : Accounts n s r) (hreq : s.requests ≠ 0)
    (h : vmklnxWorkqueueCallout { s with requests := s.requests - 1 } = (s', pc)) :
    Accounts n s' (r.add pc) := by
  have hposted := hI.curPosted
  obtain ⟨ok, rfl, rfl, -⟩ | ⟨e, head, wt, free, ok, hhead, hfree, -, rfl, rfl⟩ :=
    vmklnxWorkqueueCallout_cases h
  · refine { hI with curPosted := ?_ }
    change s.curPosted - 1 = ((s.requests - 1 : Nat) : Int) + (r.posting : Int)
    omega
  · have hhead : s.head = e :: head := hhead
    have hfree : s.trackFree = wt :: free := hfree
    have hlen := hI.qLen
    have hcur := hI.curDispatch
    have hexec := hI.executing
    have hslots := hI.slots
    rw [hhead, List.length_cons] at hlen
    refine ⟨hI.maxDispatch, ?_, ?_, ?_, ?_, ?_, ?_, ?_, hI.waiting⟩
    · change s.qLen - 1 = head.length
      omega
    · change s.curPosted - 1 = ((s.requests - 1 : Nat) : Int) + (r.posting : Int)
      omega
    · change s.curDispatch + 1 = (s.busy.length + 1 : Nat)
      omega
    · change s.curDispatch + 1 = (r.executing + 1 : Nat)
      omega
    · rw [hfree] at hslots
      refine List.Perm.trans ?_ hslots
      change (wt.slot :: (s.busy ++ free).map Tracker.slot).Perm _
      simp only [List.map_append, List.map_cons]
      exact List.perm_middle.symm
    · intro key
      have hkey := hI.tracks key
      change (((wt.slot, e.ticket) :: s.busy.map Tracker.key).count key) =
        r.tracks key + if (wt.slot, e.ticket) = key then 1 else 0
      rw [List.count_cons, hkey]
      simp only [beq_iff_eq]
    · intro t ht
      exact hI.free t (by rw [hfree]; exact List.mem_cons_of_mem wt ht)

/-- The splice only moves trackers between the two lists in use. -/
theorem Accounts.vmklnxPlungerComplete {n : Nat} {s : Wq} {r : Share} (hI : Accounts n s r) :
    Accounts n (vmklnxPlungerComplete s) r :=
  { hI with }

/-- The callout returns its tracker. -/
theorem Accounts.calloutDone {n slot ticket : Nat} {s : Wq} {r : Share}
    (hI : Accounts n s (r.add (.calloutLock slot ticket))) :
    Accounts n (calloutDone s slot) r := by
  obtain ⟨t, ht, hslot, htick⟩ := hI.mem_busy slot ticket (by simp [Pc.tracks])
  have hkey : t.key = (slot, ticket) := by rw [Tracker.key, hslot, htick]
  have hslots := hI.slots
  have hperm := perm_filter_slot hI.busy_nodup ht
  have hbusy : (Workqueue.calloutDone s slot).busy = s.busy.filter (·.slot ≠ t.slot) := by
    simp [Workqueue.calloutDone, Wq.busy, hslot]
  have hlen := hperm.length_eq
  rw [← hbusy, List.length_cons] at hlen
  have hcur := hI.curDispatch
  have hexec := hI.executing
  change s.curDispatch = ((r.executing + 1 : Nat) : Int) at hexec
  refine ⟨hI.maxDispatch, hI.qLen, hI.curPosted, ?_, ?_, ?_, ?_, ?_, hI.waiting⟩
  · change s.curDispatch - 1 = _
    omega
  · change s.curDispatch - 1 = _
    omega
  · refine List.Perm.trans ?_ hslots
    have hfront : ((s.busy ++ s.trackFree).map Tracker.slot).Perm
        (t.slot :: ((Workqueue.calloutDone s slot).busy ++ s.trackFree).map Tracker.slot) := by
      rw [hbusy]
      exact (hperm.append_right s.trackFree).map Tracker.slot
    refine List.Perm.trans ?_ hfront.symm
    rw [hslot]
    change (((Workqueue.calloutDone s slot).busy ++ ⟨slot, none, 0⟩ :: s.trackFree).map
      Tracker.slot).Perm _
    simp only [List.map_append, List.map_cons]
    exact List.perm_middle
  · intro key
    have hkeyI := hI.tracks key
    rw [(hperm.map Tracker.key).count_eq, List.map_cons, List.count_cons, ← hbusy, hkey] at hkeyI
    simp only [Share.add, Pc.tracks, beq_iff_eq] at hkeyI
    omega
  · intro u hu
    rcases List.mem_cons.mp hu with rfl | hu
    · rfl
    · exact hI.free u hu

/-- A cancel that finds its item on `head` finds it once, so one entry goes. -/
theorem length_cancelRemove {s : Wq} {cl : Cancel} {owners : Work → Nat} (hO : Owned s owners)
    (hmem : Work.item cl.work ∈ s.head.map Entry.work) :
    (s.head.filter fun e => e.work ≠ .item cl.work).length + 1 = s.head.length := by
  have hone := (hO.onHead hmem).1
  rw [List.count_eq_countP, List.countP_map] at hone
  have hsplit := List.length_eq_countP_add_countP
    (fun e : Entry => e.work == .item cl.work) (l := s.head)
  have hrest : (s.head.filter fun e => e.work ≠ .item cl.work).length =
      s.head.countP fun e => !(e.work == .item cl.work) := by
    rw [List.countP_eq_length_filter]
    congr 1
    refine List.filter_congr fun e _ => ?_
    by_cases he : e.work = .item cl.work <;> simp [he]
  have hsame : s.head.countP ((fun w => w == Work.item cl.work) ∘ Entry.work) =
      s.head.countP fun e => e.work == .item cl.work := rfl
  simp only [Bool.not_eq_true, Bool.decide_eq_false] at hsplit
  omega

theorem Accounts.cancelRemove {n : Nat} {s : Wq} {cl : Cancel} {r : Share}
    {owners : Work → Nat} (hI : Accounts n s r) (hO : Owned s owners) :
    Accounts n (cancelRemove s cl).1 r := by
  rcases cancelRemove_cases s cl with hr | ⟨hmem, -, ok, hr⟩
  · rw [hr]
    exact hI
  · rw [hr]
    have hlen := length_cancelRemove hO hmem
    have hq := hI.qLen
    refine { hI with qLen := ?_ }
    change s.qLen - 1 = ((s.head.filter fun e => e.work ≠ .item cl.work).length : Int)
    omega

theorem Accounts.cancelScan {n : Nat} {s s' : Wq} {cl : Cancel} {pc : Pc} {r : Share}
    (hI : Accounts n s r) (h : cancelScan s cl = (s', pc)) : Accounts n s' (r.add pc) := by
  obtain ⟨rfl, rfl, -⟩ | ⟨rfl, rfl, -⟩ := cancelScan_cases h
  · have hwait := hI.waiting
    refine { hI with waiting := ?_ }
    change s.waiting + 1 = ((r.sleeping + 1 : Nat) : Int)
    omega
  · rw [Share.add_next]
    exact hI

/-! ### Steps and runs -/

/-- One step of a call keeps the accounts; `r` is the contribution of the others. -/
theorem step_accounts {n : Nat} {b : Bool} {s s' : Wq} {pc pc' : Pc} {r : Share}
    {owners : Work → Nat} (h : step b s pc = some (s', pc')) (hO : Owned s owners)
    (hI : Accounts n s (r.add pc)) : Accounts n s' (r.add pc') := by
  cases pc with
  | queueLock | flushQueue =>
    simp only [step, Option.some.injEq] at h
    exact (Accounts.queueWork hI).vmklnxWorkqueueDispatch h
  | relock k =>
    simp only [step, Option.some.injEq] at h
    exact Accounts.dispatchLoop hI h
  | submit k =>
    have hposted := hI.curPosted
    change s.curPosted = s.requests + ((r.posting + 1 : Nat) : Int) at hposted
    have hnow : s.curPosted = ((s.requests + 1 : Nat) : Int) + (r.posting : Int) := by omega
    simp only [step] at h
    repeat' split at h
    all_goals simp only [Option.some.injEq, Prod.mk.injEq] at h
    all_goals obtain ⟨rfl, rfl⟩ := h
    · rw [Share.add_pc]
      exact { hI with curPosted := hnow }
    · exact { hI with curPosted := hnow }
    · exact { hI with }
  | submitFailed k =>
    simp only [step, Option.some.injEq, Prod.mk.injEq] at h
    obtain ⟨rfl, rfl⟩ := h
    have hposted := hI.curPosted
    change s.curPosted = s.requests + ((r.posting + 1 : Nat) : Int) at hposted
    refine { hI with curPosted := ?_ }
    change s.curPosted - 1 = s.requests + (r.posting : Int)
    omega
  | callback w slot ticket =>
    cases w with
    | item i =>
      simp only [step, Option.some.injEq, Prod.mk.injEq] at h
      obtain ⟨rfl, rfl⟩ := h
      exact { hI with }
    | plunger owner =>
      simp only [step, Option.some.injEq, Prod.mk.injEq] at h
      obtain ⟨rfl, rfl⟩ := h
      exact { Accounts.vmklnxPlungerComplete hI with }
  | calloutLock slot ticket =>
    simp only [step, Option.some.injEq] at h
    exact (Accounts.calloutDone hI).vmklnxWorkqueueDispatch h
  | flushLock f p =>
    have hwait := hI.waiting
    change s.waiting = (r.sleeping : Int) at hwait
    simp only [step, flushTest] at h
    split at h
    all_goals simp only [Option.some.injEq, Prod.mk.injEq] at h
    all_goals obtain ⟨rfl, rfl⟩ := h
    · exact { hI with }
    · refine { hI with waiting := ?_ }
      change s.waiting + 1 = ((r.sleeping + 1 : Nat) : Int)
      omega
  | flushSleep f p =>
    have hwait := hI.waiting
    change s.waiting = ((r.sleeping + 1 : Nat) : Int) at hwait
    simp only [step, flushTest] at h
    split at h
    all_goals simp only [Option.some.injEq, Prod.mk.injEq] at h
    all_goals obtain ⟨rfl, rfl⟩ := h
    · refine { hI with waiting := ?_ }
      change s.waiting - 1 = (r.sleeping : Int)
      omega
    · refine { hI with waiting := ?_ }
      change s.waiting - 1 + 1 = ((r.sleeping + 1 : Nat) : Int)
      omega
  | cancelLock cl =>
    simp only [step] at h
    split at h
    · simp only [Option.some.injEq] at h
      exact (Accounts.cancelRemove hI hO).cancelScan h
    · simp only [Option.some.injEq, Prod.mk.injEq] at h
      obtain ⟨rfl, rfl⟩ := h
      rw [Share.add_next]
      exact hI
  | cancelSleep cl =>
    simp only [step, Option.some.injEq] at h
    have hwait := hI.waiting
    change s.waiting = ((r.sleeping + 1 : Nat) : Int) at hwait
    refine Accounts.cancelScan (r := r) ?_ h
    refine { hI with waiting := ?_ }
    change s.waiting - 1 = (r.sleeping : Int)
    omega
  | _ =>
    simp only [step] at h
    repeat' split at h
    all_goals simp only [Option.some.injEq, Prod.mk.injEq, reduceCtorEq] at h
    all_goals obtain ⟨rfl, rfl⟩ := h
    all_goals first
      | exact { hI with }
      | (rw [Share.add_pc]; exact { hI with })
      | (rw [Share.add_next]; exact { hI with })

theorem enter_accounts {n me : Nat} {s s' : Wq} {call : Call} {pc : Pc} {r : Share}
    (h : enter me s call = some (s', pc)) (hI : Accounts n s r) : Accounts n s' (r.add pc) := by
  cases call with
  | callout =>
    simp only [enter] at h
    split at h
    · cases h
    · rename_i hreq
      simp only [Option.some.injEq] at h
      exact Accounts.vmklnxWorkqueueCallout hI hreq h
  | timeout =>
    simp only [enter] at h
    split at h
    · simp only [Option.some.injEq] at h
      refine Accounts.vmklnxWorkqueueDispatch ?_ h
      exact { hI with }
    · cases h
  | _ =>
    simp only [enter] at h
    repeat' split at h
    all_goals simp only [Option.some.injEq, Prod.mk.injEq, reduceCtorEq] at h
    all_goals obtain ⟨rfl, rfl⟩ := h
    all_goals exact { hI with }

variable {ok : Config Wq Pc → Event Call Bool → Prop} {maxDispatch : Nat} {c : Config Wq Pc}

theorem accounts_initial (n : Nat) : Accounts n (createWorkqueue n) (Share.of []) := by
  refine ⟨rfl, rfl, rfl, rfl, rfl, ?_, fun key => rfl, ?_, rfl⟩
  · simp only [createWorkqueue, Wq.busy, List.nil_append, List.map_map]
    have hid : (Tracker.slot ∘ fun slot => (⟨slot, none, 0⟩ : Tracker)) = id := rfl
    rw [hid, List.map_id]
    exact List.reverse_perm _
  · intro t ht
    simp only [createWorkqueue, List.mem_map] at ht
    obtain ⟨slot, -, rfl⟩ := ht
    rfl

/-- In every run the counters count what they should. -/
theorem accounts_of_reach (h : machine.Reach ok (initial maxDispatch) c) :
    Accounts maxDispatch c.shared (Share.of c.pool) := by
  refine Machine.Reach.invariant
    (fun c => Accounts maxDispatch c.shared (Share.of c.pool)) ?_ ?_ ?_ h
  · exact accounts_initial maxDispatch
  · intro c call s' pc _ hI _ hs
    rw [Share.of_append]
    exact enter_accounts (machine_start hs).2 hI
  · intro c i b pc s' pc' hc hI _ hi hs
    rw [Share.of_eq_others hi] at hI
    rw [Share.of_set pc' hi]
    exact step_accounts (machine_act hs).2 (owned_of_reach hc) hI

/-! ### Assertions -/

theorem vmklnxWorkqueueDispatch_asserts {s s' : Wq} {k : Ret} {pc : Pc}
    (h : vmklnxWorkqueueDispatch s k = (s', pc)) (hlen : s.qLen = s.head.length)
    (ha : s.asserts = true) : s'.asserts = true := by
  unfold vmklnxWorkqueueDispatch at h
  obtain ⟨rfl, -, -⟩ | ⟨rfl, -, -⟩ := dispatchLoop_cases h <;> simp [ha, hlen]

theorem queueWork_asserts {s : Wq} {w : Work} {owners : Work → Nat}
    (hlen : s.qLen = s.head.length) (hO : Owned s owners) (hw : 0 < owners w)
    (ha : s.asserts = true) : (queueWork s w).asserts = true := by
  obtain ⟨hoff, -, hpend⟩ := hO.held hw
  simp only [queueWork, ha, Bool.true_and, decide_eq_true_eq]
  exact ⟨hoff, hpend, hlen.symm, by omega⟩

theorem vmklnxWorkqueueCallout_asserts {n : Nat} {s : Wq} {r : Share} {owners : Work → Nat}
    (hI : Accounts n s r) (hO : Owned s owners) (hreq : s.requests ≠ 0) (ha : s.asserts = true) :
    (vmklnxWorkqueueCallout { s with requests := s.requests - 1 }).1.asserts = true := by
  have hposted := hI.curPosted
  have hlen := hI.qLen
  have hcur := hI.curDispatch
  have hfree := hI.trackFree_length
  have hentered : (s.head.length : Int) = s.qLen ∧ s.curPosted > 0 := ⟨hlen.symm, by omega⟩
  unfold vmklnxWorkqueueCallout
  cases hh : s.head with
  | nil => simp [ha, ← hentered.1, hentered.2, hh]
  | cons e head =>
    by_cases hmax : s.curDispatch ≥ s.maxDispatch
    · simp [ha, hmax, ← hentered.1, hentered.2, hh]
    · have hpend : s.pending e.work = true := (hO.onHead (by simp [hh])).2
      rw [hh, List.length_cons] at hlen
      cases hf : s.trackFree with
      | nil =>
        rw [hf] at hfree
        simp at hfree
        omega
      | cons wt free =>
        have hnone : wt.executing = none := hI.free wt (by simp [hf])
        rw [hf, List.length_cons] at hfree
        simp only [Wq.busy, List.length_append] at hcur
        simp only [hmax, if_false, ha, Bool.true_and, Bool.and_eq_true, decide_eq_true_eq,
          List.length_cons]
        refine ⟨⟨by omega, by omega⟩, hpend, by omega, by omega, hnone, by omega, by omega⟩

/-- Every assertion of the calls other than `destroy_workqueue` holds. -/
theorem step_asserts {n : Nat} {b : Bool} {s s' : Wq} {pc pc' : Pc} {r : Share}
    {ro : Work → Nat} (h : step b s pc = some (s', pc')) (hI : Accounts n s (r.add pc))
    (hO : Owned s fun w => ro w + pc.owns w) (ha : s.asserts = true) : s'.asserts = true := by
  cases pc with
  | queueLock | flushQueue =>
    simp only [step, Option.some.injEq] at h
    refine vmklnxWorkqueueDispatch_asserts h (Accounts.queueWork hI).qLen ?_
    exact queueWork_asserts hI.qLen hO (by simp [Pc.owns]) ha
  | relock k =>
    simp only [step, Option.some.injEq] at h
    obtain ⟨rfl, -, -⟩ | ⟨rfl, -, -⟩ := dispatchLoop_cases h <;> exact ha
  | delayedSetData i =>
    simp only [step, Option.some.injEq, Prod.mk.injEq] at h
    obtain ⟨rfl, rfl⟩ := h
    obtain ⟨hoff, harmed, -⟩ := hO.held (w := .item i) (by simp [Pc.owns])
    have htimer : s.timer i = false := by simpa [Wq.armed] using harmed
    simp only [ha, Bool.true_and, decide_eq_true_eq]
    exact ⟨htimer, hoff⟩
  | callback w slot ticket =>
    cases w with
    | item i =>
      simp only [step, Option.some.injEq, Prod.mk.injEq] at h
      obtain ⟨rfl, rfl⟩ := h
      exact ha
    | plunger owner =>
      simp only [step, Option.some.injEq, Prod.mk.injEq] at h
      obtain ⟨rfl, rfl⟩ := h
      have hcur := hI.curDispatch
      have hexec := hI.executing
      change s.curDispatch = ((r.executing + 1 : Nat) : Int) at hexec
      have hbusy : s.trackList ++ s.trackFlushList ≠ [] := by
        intro hnil
        rw [Wq.busy, hnil] at hcur
        simp at hcur
        omega
      simp only [vmklnxPlungerComplete, ha, Bool.true_and, decide_eq_true_eq]
      exact hbusy
  | calloutLock slot ticket =>
    simp only [step, Option.some.injEq] at h
    exact vmklnxWorkqueueDispatch_asserts h hI.qLen ha
  | cancelTimer cl =>
    simp only [step] at h
    split at h
    · rename_i harmed
      simp only [Option.some.injEq, Prod.mk.injEq] at h
      obtain ⟨rfl, rfl⟩ := h
      simp only [ha, hO.armed_pending harmed, Bool.true_and]
    · simp only [Option.some.injEq, Prod.mk.injEq] at h
      obtain ⟨rfl, rfl⟩ := h
      exact ha
  | cancelLock cl =>
    have hremove : (cancelRemove s cl).1.asserts = true := by
      unfold cancelRemove
      split
      · rename_i hon
        have hfree : cl.didGrabPending = false := by
          by_contra hgrab
          have hholds : Pc.owns (.item cl.work) (.cancelLock cl) = 1 := by
            simp [Pc.owns, Cancel.holds, hgrab]
          exact (hO.held (w := .item cl.work) (by omega)).1 hon.1
        have hlen := length_cancelRemove hO hon.1
        have hq := hI.qLen
        simp only [ha, Bool.true_and, decide_eq_true_eq]
        exact ⟨hfree, by omega⟩
      · exact ha
    simp only [step] at h
    split at h
    · simp only [Option.some.injEq] at h
      obtain ⟨rfl, -, -⟩ | ⟨rfl, -, -⟩ := cancelScan_cases h <;> exact hremove
    · simp only [Option.some.injEq, Prod.mk.injEq] at h
      obtain ⟨rfl, rfl⟩ := h
      exact ha
  | _ =>
    simp only [step, flushTest, cancelScan] at h
    repeat' split at h
    all_goals simp only [Option.some.injEq, Prod.mk.injEq, reduceCtorEq] at h
    all_goals obtain ⟨rfl, rfl⟩ := h
    all_goals exact ha

theorem enter_asserts {n me : Nat} {s s' : Wq} {call : Call} {pc : Pc} {r : Share}
    {owners : Work → Nat} (h : enter me s call = some (s', pc)) (hI : Accounts n s r)
    (hO : Owned s owners) (ha : s.asserts = true) : s'.asserts = true := by
  cases call with
  | callout =>
    simp only [enter] at h
    split at h
    · cases h
    · rename_i hreq
      simp only [Option.some.injEq] at h
      have hcallout := vmklnxWorkqueueCallout_asserts hI hO hreq ha
      rw [h] at hcallout
      exact hcallout
  | timeout =>
    simp only [enter] at h
    split at h
    · simp only [Option.some.injEq] at h
      exact vmklnxWorkqueueDispatch_asserts h hI.qLen ha
    · cases h
  | _ =>
    simp only [enter] at h
    repeat' split at h
    all_goals simp only [Option.some.injEq, Prod.mk.injEq, reduceCtorEq] at h
    all_goals obtain ⟨rfl, rfl⟩ := h
    all_goals exact ha

/-- In no run does an assertion outside `destroy_workqueue` fail. -/
theorem asserts_of_reach (h : machine.Reach ok (initial maxDispatch) c) :
    c.shared.asserts = true := by
  refine Machine.Reach.invariant (fun c => c.shared.asserts = true) rfl ?_ ?_ h
  · intro c call s' pc hc hI _ hs
    exact enter_asserts (machine_start hs).2 (accounts_of_reach hc) (owned_of_reach hc) hI
  · intro c i b pc s' pc' hc hI _ hi hs
    have haccounts := accounts_of_reach hc
    have howned := owned_of_reach hc
    rw [Share.of_eq_others hi] at haccounts
    simp only [total_eq_others _ hi] at howned
    exact step_asserts (machine_act hs).2 haccounts howned hI

end VmkLinux.Workqueue
