/-
  VmkLinux/Scsi/FcFlags.lean
  ==========================
  **The flags of a port.**  `FC_RPORT_DEVLOSS_PENDING` tells the truth while it is set whenever
  a timer of the port is outstanding (`Timers`), `FC_RPORT_SCAN_PENDING` while it is set
  whenever the scan is queued or executes (`Scans`).  Neither is an invariant of the code: a
  timer that is armed after its port was deleted, and a second scan, break them.  Both are kept
  by every step of a call that queues nothing for the port, and so is the order of the work
  queue, in which the final delete comes behind the teardowns (`Last`).
-/
import VmkLinux.Scsi.FcPhases

namespace VmkLinux.Scsi.Fc

open VmkLinux.Interleave

/-! ### Items of a port -/

/-- How often the work of the port is queued or executes. -/
def Queue.has (q : Queue) (k : Kind) (r : Nat) : Nat :=
  q.entries.countP fun e => decide (e.kind = k ∧ e.rport = r)

section Items

variable {q q' : Queue} {k k' : Kind} {r r' : Nat} {R : Entry → Entry → Prop}

theorem Queue.entries_push (q : Queue) (k : Kind) (r : Nat) :
    (q.push k r).entries = q.entries ∨ (q.push k r).entries = q.entries ++ [⟨k, r, q.enq⟩] := by
  unfold Queue.push
  split
  · exact .inl rfl
  · exact .inr (by simp [Queue.entries])

theorem Queue.sublist_finish (q : Queue) : q.finish.entries.Sublist q.entries :=
  List.sublist_append_right ..

theorem Queue.has_push_le (q : Queue) (k : Kind) (r : Nat) :
    (q.push k r).has k r ≤ q.has k r + 1 := by
  unfold Queue.has
  rcases q.entries_push k r with heq | heq
  · rw [heq]
    omega
  · rw [heq, List.countP_append]
    simp

theorem Queue.has_push_ne (q : Queue) (h : ¬ (k' = k ∧ r' = r)) :
    (q.push k' r').has k r = q.has k r := by
  unfold Queue.has
  rcases q.entries_push k' r' with heq | heq
  · rw [heq]
  · rw [heq, List.countP_append]
    simp [h]

theorem Queue.has_finish_le (q : Queue) (k : Kind) (r : Nat) : q.finish.has k r ≤ q.has k r :=
  q.sublist_finish.countP_le

theorem Queue.has_eq_zero (h : q.has k r = 0) : q.All fun e => e.kind = k → e.rport ≠ r := by
  intro e he hkind hr
  have hnone := List.countP_eq_zero.mp h e he
  simp [hkind, hr] at hnone

theorem Queue.has_of_all (h : q.All fun e => e.kind = k → e.rport ≠ r) : q.has k r = 0 := by
  refine List.countP_eq_zero.mpr fun e he => ?_
  simp only [decide_eq_true_eq, not_and]
  exact h e he

theorem Queue.pending_iff : q.pending k r = true ↔ ∃ e ∈ q.items, e.kind = k ∧ e.rport = r := by
  simp [Queue.pending]

theorem Queue.pending_of_push (hne : r' ≠ r) (h : (q.push k' r').pending k r = true) :
    q.pending k r = true := by
  rw [Queue.pending_iff] at h ⊢
  obtain ⟨e, he, hkind, hr⟩ := h
  refine ⟨e, ?_, hkind, hr⟩
  unfold Queue.push at he
  split at he
  · exact he
  · rcases List.mem_append.mp he with he | he
    · exact he
    · rw [List.mem_singleton.mp he] at hr
      exact absurd hr hne

/-- What executes is counted. -/
theorem Queue.has_of_running {n : Nat} (h : q.running = some ⟨k, r, n⟩) :
    0 < q.has k r ∧ (q.has k r ≤ 1 → q.pending k r = false ∧ q.finish.has k r = 0) := by
  have hentries : q.entries = ⟨k, r, n⟩ :: q.items := by simp [Queue.entries, h]
  have hfinish : q.finish.entries = q.items := by simp [Queue.entries, Queue.finish]
  have hhas : q.has k r = q.finish.has k r + 1 := by
    simp [Queue.has, hentries, hfinish]
  refine ⟨by omega, fun hle => ?_⟩
  have hzero : q.finish.has k r = 0 := by omega
  refine ⟨?_, hzero⟩
  by_contra hpending
  rw [Bool.not_eq_false, Queue.pending_iff] at hpending
  obtain ⟨e, he, hkind, hr⟩ := hpending
  exact Queue.has_eq_zero hzero e (hfinish ▸ he) hkind hr

theorem Queue.pairwise_push (h : q.entries.Pairwise R)
    (hnew : ∀ e ∈ q.entries, R e ⟨k, r, q.enq⟩) : (q.push k r).entries.Pairwise R := by
  rcases q.entries_push k r with heq | heq
  · rw [heq]
    exact h
  · rw [heq, List.pairwise_append]
    exact ⟨h, List.pairwise_singleton _ _, by simpa using hnew⟩

end Items

/-! ### The flags of a port -/

/-- The loss timer is queued behind the fast-fail timer. -/
def Late (r : Nat) (e e' : Entry) : Prop :=
  ¬ (e.kind = .devLoss ∧ e.rport = r ∧ e'.kind = .failIo ∧ e'.rport = r)

/-- The final delete is queued behind the teardowns. -/
def Last (r : Nat) (e e' : Entry) : Prop :=
  ¬ (e.kind = .rportDelete ∧ e.rport = r ∧ e'.kind = .stgtDelete ∧ e'.rport = r)

/-- A timer of the port is armed or queued, or the fast-fail timer executes. -/
def Shared.Outstanding (s : Shared) (r : Nat) : Prop :=
  s.armed .devLoss r = true ∨ s.armed .failIo r = true ∨ 0 < s.devlossQ.has .failIo r ∨
    s.devlossQ.pending .devLoss r = true

/-- `FC_RPORT_DEVLOSS_PENDING` is set while a timer is outstanding, and the loss timer comes
    last. -/
structure Timers (s : Shared) (r : Nat) : Prop where
  loss : (s.armed .devLoss r).toNat + s.devlossQ.has .devLoss r ≤ 1
  fail : (s.armed .failIo r).toNat + s.devlossQ.has .failIo r ≤ 1
  order : 0 < s.devlossQ.has .devLoss r → s.armed .failIo r = false
  late : s.devlossQ.entries.Pairwise (Late r)
  flagged : s.Outstanding r → (s.rport r).devlossPending = true

/-- `FC_RPORT_SCAN_PENDING` is set while the scan is queued or executes. -/
structure Scans (s : Shared) (r : Nat) : Prop where
  once : s.scsiQ.has .scan r ≤ 1
  flagged : 0 < s.scsiQ.has .scan r → (s.rport r).scanPending = true

section Flags

variable {s s' : Shared} {r : Nat}

/-- Nothing is added. -/
theorem Timers.mono (h : Timers s r) (harmed : ∀ k, s'.armed k r = true → s.armed k r = true)
    (hhas : ∀ k, s'.devlossQ.has k r ≤ s.devlossQ.has k r)
    (hlate : s'.devlossQ.entries.Pairwise (Late r))
    (hpending : s'.devlossQ.pending .devLoss r = true → s.devlossQ.pending .devLoss r = true)
    (hflag : s.Outstanding r → (s.rport r).devlossPending = true →
      (s'.rport r).devlossPending = true) : Timers s' r := by
  have hle : ∀ k, (s'.armed k r).toNat ≤ (s.armed k r).toNat := by
    intro k
    have hk := harmed k
    cases hnew : s'.armed k r with
    | false => exact Nat.zero_le _
    | true =>
      exact Nat.le_of_eq (congrArg Bool.toNat (hk hnew).symm)
  have hloss := h.loss
  have hfail := h.fail
  have hhas₁ := hhas .devLoss
  have hhas₂ := hhas .failIo
  have hle₁ := hle .devLoss
  have hle₂ := hle .failIo
  refine ⟨by omega, by omega, fun hpos => ?_, hlate, fun hout => ?_⟩
  · by_contra hnew
    rw [Bool.not_eq_false] at hnew
    have hold := harmed .failIo hnew
    rw [h.order (by omega)] at hold
    cases hold
  · have hold : s.Outstanding r := by
      rcases hout with hout | hout | hout | hout
      · exact .inl (harmed _ hout)
      · exact .inr (.inl (harmed _ hout))
      · exact .inr (.inr (.inl (by omega)))
      · exact .inr (.inr (.inr (hpending hout)))
    exact hflag hold (h.flagged hold)

/-- While the loss timer executes no timer of the port is outstanding. -/
theorem Timers.not_outstanding (h : Timers s r) {n : Nat}
    (hrun : s.devlossQ.running = some ⟨.devLoss, r, n⟩) : ¬ s.Outstanding r := by
  obtain ⟨hpos, honce⟩ := Queue.has_of_running hrun
  have hloss := h.loss
  obtain ⟨hpending, -⟩ := honce (by omega)
  have hentries : s.devlossQ.entries = ⟨.devLoss, r, n⟩ :: s.devlossQ.items := by
    simp [Queue.entries, hrun]
  rintro (hout | hout | hout | hout)
  · rw [hout, Bool.toNat_true] at hloss
    omega
  · rw [h.order hpos] at hout
    cases hout
  · have hlate := h.late
    rw [hentries, List.pairwise_cons] at hlate
    have hnone : s.devlossQ.has .failIo r = 0 := by
      refine Queue.has_of_all fun e he hkind hr => ?_
      rw [hentries, List.mem_cons] at he
      rcases he with rfl | he
      · cases hkind
      · exact hlate.1 e he ⟨rfl, rfl, hkind, hr⟩
    omega
  · rw [hpending] at hout
    cases hout

theorem not_outstanding_of_clear (hfail : s.Clear .failIo r fun _ => False)
    (hloss : s.Clear .devLoss r fun _ => False) : ¬ s.Outstanding r := by
  rintro (hout | hout | hout | hout)
  · rw [hloss.armed] at hout
    cases hout
  · rw [hfail.armed] at hout
    cases hout
  · have hzero : s.devlossQ.has .failIo r = 0 := Queue.has_of_all hfail.entries
    omega
  · obtain ⟨e, he, hkind, hr⟩ := Queue.pending_iff.mp hout
    exact hloss.entries e (Queue.mem_entries he) hkind hr

theorem timers_of_clear (hfail : s.Clear .failIo r fun _ => False)
    (hloss : s.Clear .devLoss r fun _ => False) : Timers s r := by
  have hzero : s.devlossQ.has .devLoss r = 0 := Queue.has_of_all hloss.entries
  have hzero' : s.devlossQ.has .failIo r = 0 := Queue.has_of_all hfail.entries
  have harmed := hloss.armed
  have harmed' := hfail.armed
  refine ⟨?_, ?_, fun _ => harmed', ?_, fun hout =>
    absurd hout (not_outstanding_of_clear hfail hloss)⟩
  · rw [harmed, hzero]
    exact Nat.zero_le _
  · rw [harmed', hzero']
    exact Nat.zero_le _
  · refine List.pairwise_iff_forall_sublist.mpr fun {e e'} hsub hboth => ?_
    exact hloss.entries e (hsub.subset List.mem_cons_self) hboth.1 hboth.2.1

end Flags

/-! ### Steps -/

section Steps

variable {c : Config Shared Thread} {call : Call} {i n : Nat} {a : Choice} {s s' : Shared}
  {t t' : Thread} {r : Nat}

theorem step_flags (h : step a s t = some (s', t')) (ht : t.active r = false)
    (hnew : r ≠ s.nextRport) (hbindings : r ∉ s.bindings) :
    ((s'.rport r).devlossPending = (s.rport r).devlossPending ∨
        t.rport = r ∧ (t.pc = .tmoSection ∨ t.pc = .sdClear)) ∧
      ((s'.rport r).scanPending = (s.rport r).scanPending ∨ t.rport = r ∧ t.pc = .scanSection) := by
  obtain ⟨_, hpc, hs⟩ := stepped h
  clear h
  cases hs
  all_goals try exact ⟨.inl rfl, .inl rfl⟩
  all_goals simp only [Thread.active, hpc] at ht
  all_goals simp only [Shared.upd, Shared.startScan, Shared.delete, Shared.endAdd,
    Shared.endRolechg, foldl_delete_rport]
  all_goals grind -linarith [→ Shared.mem_of_findBinding]

theorem queues_cases (h : t.queues r = true) :
    t.active r = true ∨ (t.pc = .tmoQueue ∧ t.rport = r) := by
  unfold Thread.queues at h
  unfold Thread.active
  cases hpc : t.pc
  all_goals simp [hpc] at h ⊢
  all_goals simp [h]

theorem timers_step (hW : Workers c) (hT : Timers c.shared r) (ht : t.queues r = false)
    (hactive : t.active r = false) (hnew : r ≠ c.shared.nextRport)
    (hbindings : r ∉ c.shared.bindings)
    (hclear : t.pc = .sdClear → t.rport = r →
      c.shared.Clear .failIo r (fun _ => False) ∧ c.shared.Clear .devLoss r fun _ => False)
    (hi : c.pool[i]? = some t) (h : step a c.shared t = some (s, t')) : Timers s r := by
  have hown : t.queues t.rport = true → t.rport ≠ r := by
    rintro hq rfl
    rw [hq] at ht
    cases ht
  have harmed : ∀ k, s.armed k r = true → c.shared.armed k r = true := by
    intro k hk
    refine (step_arms h hk).resolve_right fun hq => ?_
    rw [ht] at hq
    cases hq
  have hflag : c.shared.Outstanding r → (c.shared.rport r).devlossPending = true →
      (s.rport r).devlossPending = true := by
    intro hout hold
    rcases (step_flags h hactive hnew hbindings).1 with hsame | ⟨rfl, hpc | hpc⟩
    · exact hsame.trans hold
    · obtain ⟨m, hrun⟩ := hW.item i t hi .devLoss (by simp [Thread.work, hpc])
      exact absurd hout (hT.not_outstanding hrun)
    · obtain ⟨hfail, hloss⟩ := hclear hpc rfl
      exact absurd hout (not_outstanding_of_clear hfail hloss)
  have hpush : ∀ k', t.queues t.rport = true →
      s.devlossQ = c.shared.devlossQ.push k' t.rport → Timers s r := by
    intro k' hq heq
    have hne := hown hq
    refine hT.mono harmed (fun k => ?_) ?_ (fun hpending => ?_) hflag
    · exact Nat.le_of_eq (heq ▸ Queue.has_push_ne _ fun hboth => hne hboth.2)
    · rw [heq]
      exact Queue.pairwise_push hT.late fun e _ hboth => hne hboth.2.2.2
    · exact Queue.pending_of_push hne (heq ▸ hpending)
  rcases step_devlossQ h with heq | ⟨hpc, heq⟩ | ⟨hpc, heq⟩ | ⟨-, heq⟩
  · exact hT.mono harmed (fun k => Nat.le_of_eq (by rw [heq])) (heq ▸ hT.late)
      (fun hpending => heq ▸ hpending) hflag
  · exact hpush .failIo (by simp [Thread.queues, hpc]) heq
  · exact hpush .devLoss (by simp [Thread.queues, hpc]) heq
  · refine hT.mono harmed (fun k => ?_) ?_ (fun hpending => ?_) hflag
    · rw [heq]
      exact Queue.has_finish_le ..
    · rw [heq]
      exact hT.late.sublist (Queue.sublist_finish _)
    · rw [heq] at hpending
      exact hpending

/-- Timers fire, or the queue of the timers is left alone. -/
theorem enter_timers (h : enter call s = some (s', t)) :
    ((∀ k r, s'.armed k r = s.armed k r) ∧
      (s'.devlossQ = s.devlossQ ∨ s.devlossQ.run = some (s'.devlossQ, t))) ∨
    ∃ k r', (k = .failIo ∧ call = .fireFailIo r' ∨ k = .devLoss ∧ call = .fireDevLoss r') ∧
      s.armed k r' = true ∧ s'.armed k r' = false ∧
      (∀ k' r, ¬ (k' = k ∧ r = r') → s'.armed k' r = s.armed k' r) ∧
      s'.devlossQ = s.devlossQ.push k r' := by
  cases call
  case fireFailIo r' =>
    simp only [enter] at h
    split at h
    · rename_i harmed
      obtain ⟨rfl, rfl⟩ := Prod.mk.inj (Option.some.inj h)
      refine .inr ⟨.failIo, r', .inl ⟨rfl, rfl⟩, harmed, ?_, fun k r hne => ?_, rfl⟩
      · simp [Shared.armed, Shared.upd]
      · cases k <;> simp only [Shared.armed, Shared.upd]
        all_goals grind -linarith
    · cases h
  case fireDevLoss r' =>
    simp only [enter] at h
    split at h
    · rename_i harmed
      obtain ⟨rfl, rfl⟩ := Prod.mk.inj (Option.some.inj h)
      refine .inr ⟨.devLoss, r', .inr ⟨rfl, rfl⟩, harmed, ?_, fun k r hne => ?_, rfl⟩
      · simp [Shared.armed, Shared.upd]
      · cases k <;> simp only [Shared.armed, Shared.upd]
        all_goals grind -linarith
    · cases h
  case runDevloss =>
    simp only [enter] at h
    split at h
    · rename_i hrun
      obtain ⟨rfl, rfl⟩ := Prod.mk.inj (Option.some.inj h)
      exact .inl ⟨fun _ _ => rfl, .inr hrun⟩
    · cases h
  all_goals
    simp only [enter] at h
    split at h
    all_goals simp only [Option.some.injEq, Prod.mk.injEq, reduceCtorEq] at h
    all_goals obtain ⟨rfl, rfl⟩ := h
    all_goals refine .inl ⟨fun k r => ?_, .inl rfl⟩
    all_goals cases k <;> simp only [Shared.armed, Shared.upd]
    all_goals grind -linarith

theorem has_of_armed (hT : Timers s r) {k : Kind} (hk : k = .devLoss ∨ k = .failIo)
    (harmed : s.armed k r = true) : s.devlossQ.has k r = 0 := by
  rcases hk with rfl | rfl
  · have hle := hT.loss
    rw [harmed, Bool.toNat_true] at hle
    omega
  · have hle := hT.fail
    rw [harmed, Bool.toNat_true] at hle
    omega

theorem timers_enter (hT : Timers s r)
    (hok : call = .fireDevLoss r → s.armed .failIo r = false)
    (hflag : (s'.rport r).devlossPending = (s.rport r).devlossPending)
    (h : enter call s = some (s', t)) : Timers s' r := by
  rcases enter_timers h with ⟨harmed, heq | hrun⟩ | ⟨k, r', hk, hset, hclear, hothers, heq⟩
  · exact hT.mono (fun k hnew => harmed k r ▸ hnew) (fun k => Nat.le_of_eq (by rw [heq]))
      (heq ▸ hT.late) (fun hpending => heq ▸ hpending) fun _ hold => hflag.trans hold
  · have hentries := Queue.entries_run hrun
    refine hT.mono (fun k hnew => harmed k r ▸ hnew) (fun k => ?_) (hentries ▸ hT.late)
      (fun hpending => ?_) fun _ hold => hflag.trans hold
    · exact Nat.le_of_eq (by rw [Queue.has, hentries, Queue.has])
    · obtain ⟨e, -, hitems, -⟩ := run_eq hrun
      rw [Queue.pending_iff] at hpending ⊢
      obtain ⟨e', he', hboth⟩ := hpending
      exact ⟨e', hitems ▸ List.mem_cons_of_mem _ he', hboth⟩
  · by_cases hr : r' = r
    · subst hr
      have hkind : k = .devLoss ∨ k = .failIo := by
        rcases hk with ⟨rfl, -⟩ | ⟨rfl, -⟩
        · exact .inr rfl
        · exact .inl rfl
      have hzero := has_of_armed hT hkind hset
      have hle := Queue.has_push_le s.devlossQ k r'
      have hpending : (s.rport r').devlossPending = true := by
        refine hT.flagged ?_
        rcases hkind with rfl | rfl
        · exact .inl hset
        · exact .inr (.inl hset)
      have hloss := hT.loss
      have hfail := hT.fail
      rcases hk with ⟨rfl, -⟩ | ⟨rfl, hcall⟩
      · have hsame := hothers .devLoss r' (by simp)
        have hhas : s'.devlossQ.has .devLoss r' = s.devlossQ.has .devLoss r' := by
          rw [heq, Queue.has_push_ne _ (by simp)]
        refine ⟨?_, ?_, fun _ => hclear, ?_, fun _ => hflag.trans hpending⟩
        · rw [hsame, hhas]
          exact hloss
        · rw [hclear, heq, Bool.toNat_false]
          omega
        · rw [heq]
          refine Queue.pairwise_push hT.late fun e he hboth => ?_
          -- the loss timer is not queued while the fast-fail timer is armed
          have hpos : s.devlossQ.has .devLoss r' = 0 := by
            by_contra hne
            rw [hT.order (Nat.pos_of_ne_zero hne)] at hset
            cases hset
          exact Queue.has_eq_zero hpos e he hboth.1 hboth.2.1
      · have hsame := hothers .failIo r' (by simp)
        have hhas : s'.devlossQ.has .failIo r' = s.devlossQ.has .failIo r' := by
          rw [heq, Queue.has_push_ne _ (by simp)]
        refine ⟨?_, ?_, fun _ => ?_, ?_, fun _ => hflag.trans hpending⟩
        · rw [hclear, heq, Bool.toNat_false]
          omega
        · rw [hsame, hhas]
          exact hfail
        · exact hsame.trans (hok hcall)
        · rw [heq]
          exact Queue.pairwise_push hT.late fun e _ hboth => by cases hboth.2.2.1
    · have hrr : ¬ r = r' := fun heq => hr heq.symm
      refine hT.mono (fun k' hnew => ?_) (fun k' => ?_) ?_ (fun hpending => ?_)
        fun _ hold => hflag.trans hold
      · rw [← hothers k' r fun hboth => hrr hboth.2]
        exact hnew
      · exact Nat.le_of_eq (heq ▸ Queue.has_push_ne _ fun hboth => hr hboth.2)
      · rw [heq]
        exact Queue.pairwise_push hT.late fun e _ hboth => hr hboth.2.2.2
      · exact Queue.pending_of_push hr (heq ▸ hpending)

theorem scans_step (hW : Workers c) (hS : Scans c.shared r) (ht : t.queues r = false)
    (hactive : t.active r = false) (hnew : r ≠ c.shared.nextRport)
    (hbindings : r ∉ c.shared.bindings) (hi : c.pool[i]? = some t)
    (h : step a c.shared t = some (s, t')) : Scans s r := by
  have hown : t.queues t.rport = true → t.rport ≠ r := by
    rintro hq rfl
    rw [hq] at ht
    cases ht
  have hflag := (step_flags h hactive hnew hbindings).2
  have honce := hS.once
  by_cases hpc : t.pc = .scanSection
  · have heq : s.scsiQ = c.shared.scsiQ.finish := by
      simp only [step, stepTimer, hpc] at h
      obtain ⟨rfl, -⟩ := Prod.mk.inj (Option.some.inj h)
      rfl
    have hle := Queue.has_finish_le c.shared.scsiQ .scan r
    refine ⟨heq ▸ Nat.le_trans hle honce, fun hpos => ?_⟩
    rw [heq] at hpos
    rcases hflag with hsame | ⟨rfl, -⟩
    · exact hsame.trans (hS.flagged (by omega))
    · obtain ⟨m, hrun⟩ := hW.item i t hi .scan (by simp [Thread.work, hpc])
      have hzero : c.shared.scsiQ.finish.has .scan t.rport = 0 :=
        ((Queue.has_of_running hrun).2 honce).2
      omega
  · have hsame : s.scsiQ.has .scan r = c.shared.scsiQ.has .scan r := by
      rcases step_scsiQ h with heq | ⟨hpc, heq⟩ | ⟨r', -, -, -, hfind, heq⟩ | ⟨hpc', -⟩
      · rw [heq]
      · refine heq ▸ Queue.has_push_ne _ fun hboth => hown ?_ hboth.2
        rcases hpc with hpc | hpc | hpc <;> simp [Thread.queues, hpc]
      · refine heq ▸ Queue.has_push_ne _ fun hboth => hbindings ?_
        exact hboth.2 ▸ (Shared.mem_of_findBinding hfind).1
      · exact absurd hpc' hpc
    refine ⟨hsame ▸ honce, fun hpos => ?_⟩
    have hkeep := hflag.resolve_right fun hboth => hpc hboth.2
    exact hkeep.trans (hS.flagged (hsame ▸ hpos))

theorem scans_enter (hS : Scans s r)
    (hflag : (s'.rport r).scanPending = (s.rport r).scanPending)
    (h : enter call s = some (s', t)) : Scans s' r := by
  have hhas : s'.scsiQ.has .scan r = s.scsiQ.has .scan r := by
    rcases enter_scsiQ h with heq | ⟨-, hrun⟩
    · rw [heq]
    · rw [Queue.has, Queue.entries_run hrun, Queue.has]
  exact ⟨hhas ▸ hS.once, fun hpos => hflag.trans (hS.flagged (hhas ▸ hpos))⟩

theorem last_step (hL : c.shared.workQ.entries.Pairwise (Last r)) (ht : t.queues r = false)
    (hsection : t.pc ≠ .rmSection) (h : step a c.shared t = some (s, t')) :
    s.workQ.entries.Pairwise (Last r) := by
  rcases step_workQ h with heq | ⟨hpc, heq⟩ | ⟨-, -, heq⟩ | ⟨-, heq⟩ | ⟨hpc, -⟩
  · exact heq ▸ hL
  · rw [heq]
    refine Queue.pairwise_push hL fun e _ hboth => ?_
    have hq : t.queues r = true := by simpa [Thread.queues, hpc] using hboth.2.2.2
    rw [ht] at hq
    cases hq
  · rw [heq]
    exact Queue.pairwise_push hL fun e _ hboth => by cases hboth.2.2.1
  · rw [heq]
    exact hL.sublist (Queue.sublist_finish _)
  · exact absurd hpc hsection

theorem last_enter (hL : s.workQ.entries.Pairwise (Last r)) (h : enter call s = some (s', t)) :
    s'.workQ.entries.Pairwise (Last r) := by
  rcases enter_workQ h with heq | ⟨-, hrun⟩
  · exact heq ▸ hL
  · exact Queue.entries_run hrun ▸ hL

end Steps

end VmkLinux.Scsi.Fc
