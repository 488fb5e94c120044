/-
  VmkLinux/Scsi/FcWork.lean
  =========================
  **Work of a port.**  Only a port that was given a target id is scanned, blocked or torn down,
  so one that has none has no work outstanding (`targeted_of_reachable`, `noWork_of_targetId`).
  What is made sure of for a port (`Shared.Clear`: its timer is not armed, and what of its work
  is queued or executes has a ticket below a mark) stays so under every step of a call that
  queues nothing for it.
-/
import VmkLinux.Scsi.FcQueues

namespace VmkLinux.Scsi.Fc

open VmkLinux.Interleave

/-- The call goes on to queue or to arm work of the port. -/
def Thread.queues (r : Nat) (t : Thread) : Bool :=
  match t.pc with
  | .addDevice => decide (t.target = true ∧ t.rport = r)
  | .addScanFlag | .addScanInc | .addScanQueue | .addRestart
  | .delBlock | .delArmFail | .delArmLoss
  | .roleClear | .roleFlush | .roleFlushWait | .roleScan | .tmoQueue => decide (t.rport = r)
  | .cancelFail | .cancelFailFlush | .cancelFailWait | .cancelLoss | .cancelLossFlush
  | .cancelLossWait => decide (t.caller ≠ .stgtDelete ∧ t.rport = r)
  | _ => false

/-- The timer of a delayed work is armed. -/
def Shared.armed (s : Shared) (k : Kind) (r : Nat) : Bool :=
  match k with
  | .devLoss => (s.rport r).devLossArmed
  | .failIo => (s.rport r).failIoArmed
  | .scan | .stgtDelete | .rportDelete => false

/-- The port was given a target id. -/
structure Shared.Targets (s : Shared) (r : Nat) : Prop where
  known : r < s.nextRport
  targetId : (s.rport r).targetId ≠ none

/-- A port with work has been a target. -/
structure Targeted (c : Config Shared Thread) : Prop where
  state : ∀ r, (c.shared.rport r).state = .blocked ∨ (c.shared.rport r).state = .notPresent →
    c.shared.Targets r
  bindings : ∀ r ∈ c.shared.bindings, c.shared.Targets r
  armed : ∀ k r, c.shared.armed k r = true → c.shared.Targets r
  entries : ∀ n, (c.shared.queue n).All fun e => e.kind ≠ .rportDelete → c.shared.Targets e.rport
  calls : ∀ t ∈ c.pool, ∀ r, t.queues r = true → c.shared.Targets r

section Step

variable {a : Choice} {s s' : Shared} {t t' : Thread} {r : Nat}

theorem step_targetId (h : step a s t = some (s', t')) (hr : (s.rport r).targetId ≠ none) :
    (s'.rport r).targetId ≠ none ∨ r = s.nextRport := by
  obtain ⟨_, hpc, hs⟩ := stepped h
  clear h
  cases hs
  all_goals try exact .inl hr
  all_goals simp only [Shared.upd, Shared.startScan, Shared.delete, Shared.endAdd,
    Shared.endRolechg, foldl_delete_rport]
  all_goals grind -linarith

theorem step_state (h : step a s t = some (s', t'))
    (hr : (s'.rport r).state = .blocked ∨ (s'.rport r).state = .notPresent) :
    (s.rport r).state = .blocked ∨ (s.rport r).state = .notPresent ∨
      (t.rport = r ∧ t.pc = .delSection ∧ (s.rport r).targetId ≠ none) := by
  obtain ⟨_, hpc, hs⟩ := stepped h
  clear h
  cases hs
  all_goals try exact hr.imp_right .inl
  all_goals simp only [Shared.upd, Shared.startScan, Shared.delete, Shared.endAdd,
    Shared.endRolechg, foldl_delete_rport] at hr
  all_goals grind -linarith

theorem step_queues (h : step a s t = some (s', t')) (hr : t'.queues r = true) :
    t.queues r = true ∨ (s'.rport r).targetId ≠ none ∨ (s.rport r).state = .blocked ∨
      (t.pc = .tmoSection ∧ t.rport = r) := by
  obtain ⟨_, hpc, hs⟩ := stepped h
  clear h
  cases hs
  all_goals try exact absurd hr Bool.false_ne_true
  all_goals simp only [Thread.queues, hpc] at hr ⊢
  all_goals try simp only [Shared.upd]
  all_goals grind -linarith [→ Shared.mem_of_findBlocked, → Shared.mem_of_findBinding, Caller.next]

theorem step_bindings (h : step a s t = some (s', t')) (hr : r ∈ s'.bindings) :
    r ∈ s.bindings ∨ (s.rport r).state = .blocked := by
  obtain ⟨_, hpc, hs⟩ := stepped h
  clear h
  cases hs
  case rmSection => exact .inl ((foldl_delete_lists _ s).2.2 r hr)
  all_goals try exact .inl hr
  all_goals simp only [Shared.upd, Shared.startScan, Shared.delete] at hr
  all_goals grind -linarith [List.mem_of_mem_erase]

theorem step_arms (h : step a s t = some (s', t')) {k : Kind} (hr : s'.armed k r = true) :
    s.armed k r = true ∨ t.queues r = true := by
  obtain ⟨_, hpc, hs⟩ := stepped h
  clear h
  cases hs
  all_goals try exact .inl hr
  all_goals simp only [Thread.queues, hpc]
  all_goals cases k
  all_goals simp only [Shared.armed, Bool.false_eq_true, or_false] at hr ⊢
  all_goals try simp only [Shared.upd, Shared.startScan, Shared.delete, Shared.endAdd,
    Shared.endRolechg, foldl_delete_rport] at hr
  all_goals grind -linarith

end Step

section Runs

variable {c : Config Shared Thread} {call : Call} {i : Nat} {a : Choice} {s : Shared}
  {t t' : Thread} {r : Nat}

theorem queues_names (h : t.queues r = true) : t.names = true ∧ t.rport = r := by
  unfold Thread.queues at h
  unfold Thread.names
  cases hpc : t.pc
  all_goals simp [hpc] at h ⊢
  all_goals simp [h]

theorem targeted_step (hI : Targeted c) (hk : Known c.shared) (hW : Workers c)
    (hnames : Each (fun _ t => t.names = true → t.rport < c.shared.nextRport) c.pool)
    (hi : c.pool[i]? = some t) (h : step a c.shared t = some (s, t')) :
    Targeted ⟨s, c.pool.set i t'⟩ := by
  have ht := List.mem_of_getElem? hi
  have hnew := (step_known hk (hnames i t hi) h).2
  have hstays : ∀ r, c.shared.Targets r → s.Targets r := by
    intro r hr
    refine ⟨Nat.lt_of_lt_of_le hr.known (step_nextRport h), ?_⟩
    rcases step_targetId h hr.targetId with hid | rfl
    · exact hid
    · exact absurd hr.known (Nat.lt_irrefl _)
  have hown : ∀ r, t.queues r = true → s.Targets r := fun r hr => hstays r (hI.calls t ht r hr)
  have hentries : ∀ n, (c.shared.queue n).All fun e => e.kind ≠ .rportDelete → s.Targets e.rport :=
    fun n e he hkind => hstays _ (hI.entries n e he hkind)
  refine ⟨fun r hr => ?_, fun r hr => ?_, fun k r hr => ?_, fun n => ?_, fun u hu r hr => ?_⟩
  · rcases step_state h hr with hold | hold | ⟨rfl, hpc, hid⟩
    · exact hstays r (hI.state r (.inl hold))
    · exact hstays r (hI.state r (.inr hold))
    · exact hstays _ ⟨hnames i t hi (by simp only [Thread.names, hpc]), hid⟩
  · rcases step_bindings h hr with hold | hold
    · exact hstays r (hI.bindings r hold)
    · exact hstays r (hI.state r (.inl hold))
  · rcases step_arms h hr with hold | hold
    · exact hstays r (hI.armed k r hold)
    · exact hown r hold
  · cases n with
    | work =>
      refine step_workQ_all (hentries .work) h (fun hpc _ => ?_) (fun _ _ hkind => ?_)
        fun _ _ _ _ hkind => ?_
      · exact hown _ (by simp [Thread.queues, hpc])
      · exact absurd rfl hkind
      · exact absurd rfl hkind
    | devloss =>
      refine step_devlossQ_all (hentries .devloss) h (fun hpc _ => ?_) fun hpc _ => ?_
      · exact hown _ (by simp [Thread.queues, hpc])
      · exact hown _ (by simp [Thread.queues, hpc])
    | scsi =>
      refine step_scsiQ_all (hentries .scsi) h (fun hpc _ => ?_) fun r _ hfind _ => ?_
      · refine hown _ ?_
        rcases hpc with hpc | hpc | hpc <;> simp [Thread.queues, hpc]
      · exact hstays r (hI.bindings r (Shared.mem_of_findBinding hfind).1)
  · rcases List.mem_or_eq_of_mem_set hu with hu | rfl
    · exact hstays r (hI.calls u hu r hr)
    · rcases step_queues h hr with hold | hid | hold | ⟨hpc, rfl⟩
      · exact hown r hold
      · obtain ⟨hn, rfl⟩ := queues_names hr
        exact ⟨hnew hn, hid⟩
      · exact hstays r (hI.state r (.inl hold))
      · -- the loss timer executes, and was queued
        obtain ⟨n, hrun⟩ := hW.item i t hi .devLoss (by simp [Thread.work, hpc])
        refine hstays _ (hI.entries .devloss ⟨.devLoss, t.rport, n⟩ ?_ (by simp))
        have hrun' : c.shared.devlossQ.running = some ⟨.devLoss, t.rport, n⟩ := hrun
        simp [Shared.queue, Queue.entries, hrun']

/-- A call that begins leaves the state and the flags of the ports alone. -/
theorem enter_port (h : enter call c.shared = some (s, t)) (r : Nat) :
    (s.rport r).targetId = (c.shared.rport r).targetId ∧
      (s.rport r).state = (c.shared.rport r).state ∧ (s.rport r).live = (c.shared.rport r).live ∧
      (s.rport r).deletes = (c.shared.rport r).deletes ∧
      (s.rport r).devlossPending = (c.shared.rport r).devlossPending ∧
      (s.rport r).scanPending = (c.shared.rport r).scanPending := by
  cases call
  all_goals simp only [enter] at h
  all_goals split at h
  all_goals simp only [Option.some.injEq, Prod.mk.injEq, reduceCtorEq] at h
  all_goals obtain ⟨rfl, -⟩ := h
  all_goals simp only [Shared.upd]
  all_goals grind -linarith

theorem enter_armed (h : enter call c.shared = some (s, t)) {k : Kind}
    (hr : s.armed k r = true) : c.shared.armed k r = true := by
  cases call
  all_goals simp only [enter] at h
  all_goals split at h
  all_goals simp only [Option.some.injEq, Prod.mk.injEq, reduceCtorEq] at h
  all_goals obtain ⟨rfl, -⟩ := h
  all_goals cases k
  all_goals simp only [Shared.armed, Shared.upd] at hr ⊢
  all_goals grind -linarith

theorem enter_queues (h : enter call c.shared = some (s, t)) (r : Nat) : t.queues r = false := by
  rcases enter_item h with ⟨e, -, rfl⟩ | hpc | hpc | hpc | hpc | ⟨-, hpc⟩
  · cases hkind : e.kind
    all_goals simp [Thread.queues, Kind.entry]
  all_goals simp [Thread.queues, hpc]

theorem targeted_enter (hI : Targeted c) (h : enter call c.shared = some (s, t)) :
    Targeted ⟨s, c.pool ++ [t]⟩ := by
  obtain ⟨hnext, -, hbindings, -⟩ := enter_ports h
  have hstays : ∀ r, c.shared.Targets r → s.Targets r := by
    intro r hr
    exact ⟨hnext ▸ hr.known, (enter_port h r).1 ▸ hr.targetId⟩
  have hentries : ∀ n, (c.shared.queue n).All fun e => e.kind ≠ .rportDelete → s.Targets e.rport :=
    fun n e he hkind => hstays _ (hI.entries n e he hkind)
  refine ⟨fun r hr => ?_, fun r hr => ?_, fun k r hr => ?_, fun n => ?_, fun u hu r hr => ?_⟩
  · rw [(enter_port h r).2.1] at hr
    exact hstays r (hI.state r hr)
  · exact hstays r (hI.bindings r (hbindings ▸ hr))
  · exact hstays r (hI.armed k r (enter_armed h hr))
  · cases n with
    | work => exact enter_workQ_all (hentries .work) h
    | devloss =>
      exact enter_devlossQ_all (hentries .devloss) h
        (fun r hr _ => hstays r (hI.armed .failIo r hr))
        fun r hr _ => hstays r (hI.armed .devLoss r hr)
    | scsi => exact enter_scsiQ_all (hentries .scsi) h
  · rcases List.mem_append.mp hu with hu | hu
    · exact hstays r (hI.calls u hu r hr)
    · rw [List.mem_singleton.mp hu, enter_queues h r] at hr
      cases hr

theorem targeted_of_reachable (h : machine.Reachable initial c) : Targeted c := by
  refine Machine.Reach.invariant Targeted ?_ ?_ ?_ h
  · constructor
    case armed =>
      intro k r harmed
      cases k <;> cases harmed
    case entries =>
      intro n e he
      cases n <;> cases he
    all_goals simp [initial]
  · intro c call s t _ hI _ hs
    exact targeted_enter hI hs
  · intro c i a t s t' hc hI _ hi hs
    obtain ⟨hk, hnames⟩ := reachable_known hc.reachable
    exact targeted_step hI hk (reachable_workers hc.reachable) hnames hi hs

/-! ### What is outstanding -/

/-- Of this work of the port nothing is armed, and what is queued or executes has a ticket in
    `P`. -/
structure Shared.Clear (s : Shared) (k : Kind) (r : Nat) (P : Nat → Prop) : Prop where
  armed : s.armed k r = false
  entries : (s.queue k.queue).All fun e => e.kind = k → e.rport = r → P e.ticket

/-- No work of the port is armed, queued or executing, the final delete apart. -/
def Shared.NoWork (s : Shared) (r : Nat) : Prop :=
  ∀ k, k ≠ .rportDelete → s.Clear k r fun _ => False

theorem noWork_of_targetId (hI : Targeted c) (hr : (c.shared.rport r).targetId = none) :
    c.shared.NoWork r := by
  intro k hk
  constructor
  · by_contra harmed
    rw [Bool.not_eq_false] at harmed
    exact (hI.armed k r harmed).targetId hr
  · rintro e he rfl rfl
    exact (hI.entries _ e he hk).targetId hr

/-- Nothing is added to the work of a port but by those who go on to it. -/
theorem clear_step {k : Kind} {P : Nat → Prop} (hk : k ≠ .rportDelete) (ht : t.queues r = false)
    (hr : t.pc = .addSearch → r ∉ c.shared.bindings)
    (h : step a c.shared t = some (s, t')) (hC : c.shared.Clear k r P) : s.Clear k r P := by
  have hown : t.queues t.rport = true → t.rport ≠ r := by
    rintro hq rfl
    rw [hq] at ht
    cases ht
  constructor
  · by_contra harmed
    rw [Bool.not_eq_false] at harmed
    rcases step_arms h harmed with hold | hq
    · rw [hC.armed] at hold
      cases hold
    · rw [ht] at hq
      cases hq
  · have hentries := hC.entries
    cases k with
    | devLoss | failIo =>
      refine step_devlossQ_all hentries h (fun hpc _ heq => ?_) fun hpc _ heq => ?_
      · exact absurd heq (hown (by simp [Thread.queues, hpc]))
      · exact absurd heq (hown (by simp [Thread.queues, hpc]))
    | scan =>
      refine step_scsiQ_all hentries h (fun hpc _ heq => ?_) fun r' hpc hfind _ heq => ?_
      · refine absurd heq (hown ?_)
        rcases hpc with hpc | hpc | hpc <;> simp [Thread.queues, hpc]
      · obtain rfl : r' = r := heq
        exact absurd (Shared.mem_of_findBinding hfind).1 (hr hpc)
    | stgtDelete =>
      refine step_workQ_all hentries h (fun hpc _ heq => ?_) (fun _ _ hkind => ?_)
        fun _ _ _ _ hkind => ?_
      · exact absurd heq (hown (by simp [Thread.queues, hpc]))
      · cases hkind
      · cases hkind
    | rportDelete => exact absurd rfl hk

theorem clear_enter {k : Kind} {P : Nat → Prop} (h : enter call c.shared = some (s, t))
    (hC : c.shared.Clear k r P) : s.Clear k r P := by
  constructor
  · by_contra harmed
    rw [Bool.not_eq_false] at harmed
    have hold := enter_armed h harmed
    rw [hC.armed] at hold
    cases hold
  · have hentries := hC.entries
    cases k with
    | devLoss =>
      refine enter_devlossQ_all hentries h (fun _ _ hkind => ?_) fun r' harmed _ heq => ?_
      · cases hkind
      · obtain rfl : r' = r := heq
        exact absurd (harmed.symm.trans hC.armed) (by simp)
    | failIo =>
      refine enter_devlossQ_all hentries h (fun r' harmed _ heq => ?_) fun _ _ hkind => ?_
      · obtain rfl : r' = r := heq
        exact absurd (harmed.symm.trans hC.armed) (by simp)
      · cases hkind
    | scan => exact enter_scsiQ_all hentries h
    | stgtDelete | rportDelete => exact enter_workQ_all hentries h

/-- After a flush nothing is left that was queued before. -/
theorem clear_of_flushed {k : Kind} {mark : Nat} (hC : c.shared.Clear k r (· < mark))
    (h : (c.shared.queue k.queue).flushed mark = true) : c.shared.Clear k r fun _ => False := by
  refine ⟨hC.armed, fun e he hkind hr => ?_⟩
  have hlt := hC.entries e he hkind hr
  simp only [Queue.flushed, Bool.and_eq_true, List.all_eq_true, decide_eq_true_eq,
    Option.all_eq_true] at h
  simp only [Queue.entries, List.mem_append, Option.mem_toList] at he
  rcases he with he | he
  · have hle := h.2 e he
    omega
  · have hle := h.1 e he
    omega

/-- What is queued when a flush begins is before it. -/
theorem clear_of_ticketed {k : Kind} (hC : c.shared.armed k r = false)
    (h : (c.shared.queue k.queue).Ticketed) :
    c.shared.Clear k r (· < (c.shared.queue k.queue).enq) :=
  ⟨hC, fun e he _ _ => h e he⟩

end Runs

end VmkLinux.Scsi.Fc
