/-
  VmkLinux/Scsi/FcTeardown.lean
  =============================
  **Teardowns of a target that came back.**  The loss timeout moves a port to the bindings under
  the lock and queues the teardown of its target after dropping it; `fc_remote_port_add` flushes
  the teardowns before it takes the lock.  Where the add comes between the two, it returns a
  target that is torn down afterwards (`stale_teardown`).

  The runs without this are those in which no teardown of a port is outstanding when
  `fc_remote_port_add` takes the port up: from there to the next delete or change of roles the
  port is online and a target, and the loss timeout leaves such a port alone.  No port is deleted
  while its roles are being changed; a change of roles that was left over would take the role away
  from the port that comes back.
-/
import Mathlib.Data.Bool.Basic
import VmkLinux.Scsi.FcBindings

namespace VmkLinux.Scsi.Fc

open VmkLinux.Interleave

/-- In `fc_starget_delete` for the port. -/
def Thread.tears (r : Nat) (t : Thread) : Bool :=
  match t.pc with
  | .sdCallback | .sdTest | .sdClear | .sdRemove => decide (t.rport = r)
  | .cancelFail | .cancelFailFlush | .cancelFailWait | .cancelLoss | .cancelLossFlush
  | .cancelLossWait => decide (t.caller = .stgtDelete ∧ t.rport = r)
  | _ => false

/-- The loss timeout of the port is about to queue the teardown, or the teardown executes. -/
def Thread.teardown (r : Nat) (t : Thread) : Bool :=
  (decide (t.pc = .tmoQueue) && decide (t.rport = r)) || t.tears r

/-- `fc_remote_port_add` has taken the port up as a target. -/
def Thread.raises (r : Nat) (t : Thread) : Bool :=
  match t.pc with
  | .addRestart | .addDevice | .addScanFlag | .addScanInc | .addScanQueue | .addReturn =>
      t.target && decide (t.rport = r)
  | .cancelFail | .cancelFailFlush | .cancelFailWait | .cancelLoss | .cancelLossFlush
  | .cancelLossWait => t.target && decide (t.caller = .add ∧ t.rport = r)
  | _ => false

/-- No teardown of the port is outstanding. -/
def settled (c : Config Shared Thread) (r : Nat) : Bool :=
  (c.shared.workQ.entries.all fun e => decide (e.kind = .stgtDelete → e.rport ≠ r)) &&
    c.pool.all fun u => !u.teardown r

/-- The host stays attached, a port is deleted when nobody changes its roles, and it is taken up as
    a target when no teardown of it is outstanding. -/
def takesSettled (c : Config Shared Thread) : Event Call Choice → Bool
  | .start .removeHost => false
  | .start (.delete r) => decide ((c.shared.rport r).changing = 0)
  | .start _ => true
  | .act i _ =>
      match c.pool[i]? with
      | some t =>
          if t.pc = .addSearch ∧ t.target then
            ((c.shared.findBlocked t.key).or (c.shared.findBinding t.key)).all fun r =>
              settled c r
          else true
      | none => true

/-! ### The invariant -/

/-- The port is a target, and no teardown of it is outstanding. -/
structure Quiet (c : Config Shared Thread) (r : Nat) : Prop where
  target : (c.shared.rport r).target = true
  entries : c.shared.workQ.All fun e => e.kind = .stgtDelete → e.rport ≠ r
  threads : ∀ u ∈ c.pool, u.teardown r = false

structure Teardowns (c : Config Shared Thread) : Prop where
  up : ∀ r, (c.shared.rport r).up = true →
    Quiet c r ∧ (c.shared.rport r).hands = true ∧ (c.shared.rport r).changing = 0
  raised : ∀ r, ∀ t ∈ c.pool, t.raises r = true → Quiet c r
  changers : ∀ r, 0 < (c.shared.rport r).changing → (c.shared.rport r).hands = true

/-! ### What a step does to teardowns -/

section Step

variable {a : Choice} {s s' : Shared} {t t' : Thread} {r : Nat}

/-- To stop the timers is part of the call that does it. -/
theorem step_teardown (h : step a s t = some (s', t')) (hr : t'.teardown r = true) :
    t.teardown r = true ∨ (t.pc = .fdTarget ∧ t.rport = r) ∨
      (t.pc = .tmoSection ∧ t.rport = r ∧
        ((s.rport r).state = .online ∧ (s.rport r).target = false ∨
          (s.rport r).state = .blocked)) := by
  obtain ⟨_, hpc, hs⟩ := stepped h
  clear h
  cases hs
  all_goals try exact absurd hr Bool.false_ne_true
  case cancelLoss_armed | cancelLossWait =>
    cases hcaller : t.caller
    all_goals simp_all [Thread.teardown, Thread.tears, Caller.next]
  all_goals simp only [Thread.teardown, Thread.tears, hpc] at hr ⊢
  all_goals grind -linarith

theorem step_target (h : step a s t = some (s', t')) (hr : (s.rport r).target = true) :
    (s'.rport r).target = true ∨ (t.pc = .roleSection ∧ t.rport = r) ∨
      (s.rport r).state = .blocked ∨ r ∈ s.bindings ∨ r = s.nextRport := by
  obtain ⟨_, hpc, hs⟩ := stepped h
  clear h
  cases hs
  all_goals try exact .inl hr
  all_goals simp only [Shared.upd, Shared.startScan, Shared.delete, Shared.endAdd,
    Shared.endRolechg, foldl_delete_rport]
  all_goals grind -linarith [→ Shared.mem_of_findBlocked, → Shared.mem_of_findBinding]

theorem step_raises (h : step a s t = some (s', t')) (hr : t'.raises r = true) :
    t.raises r = true ∨ ((s'.rport r).target = true ∧ t.target = true ∧
      ((t.pc = .addSearch ∧ (s.findBlocked t.key).or (s.findBinding t.key) = some r) ∨
        (t.pc = .addCreate ∧ r = s.nextRport))) := by
  obtain ⟨_, hpc, hs⟩ := stepped h
  clear h
  cases hs
  all_goals try exact absurd hr Bool.false_ne_true
  case cancelLoss_armed | cancelLossWait =>
    cases hcaller : t.caller
    all_goals simp_all [Thread.raises, Caller.next]
  all_goals simp only [Thread.raises, hpc, Shared.upd, Shared.startScan] at hr ⊢
  all_goals grind -linarith

theorem step_hands (h : step a s t = some (s', t'))
    (hr : (s.rport r).hands = true ∨ (t.pc = .addReturn ∧ t.rport = r)) :
    (s'.rport r).hands = true ∨ r = s.nextRport := by
  obtain ⟨_, hpc, hs⟩ := stepped h
  clear h
  cases hs
  all_goals simp only [hpc, reduceCtorEq, false_and, or_false] at hr
  all_goals try exact .inl hr
  all_goals simp only [Shared.upd, Shared.startScan, Shared.delete, Shared.endAdd,
    Shared.endRolechg, foldl_delete_rport]
  all_goals grind -linarith

theorem step_up (h : step a s t = some (s', t')) (hr : (s'.rport r).up = true) :
    (s.rport r).up = true ∨ (t.pc = .addReturn ∧ t.rport = r ∧ t.target = true) := by
  obtain ⟨_, hpc, hs⟩ := stepped h
  clear h
  cases hs
  all_goals try exact .inl hr
  all_goals simp only [Shared.upd, Shared.startScan, Shared.delete, Shared.endAdd,
    Shared.endRolechg, foldl_delete_rport] at hr
  all_goals grind -linarith

end Step

/-! ### Runs -/

section Run

variable {c : Config Shared Thread} {call : Call} {i : Nat} {a : Choice} {s : Shared}
  {t t' : Thread} {r : Nat}

theorem entries_of_settled (h : settled c r = true) :
    (c.shared.workQ.All fun e => e.kind = .stgtDelete → e.rport ≠ r) ∧
      ∀ u ∈ c.pool, u.teardown r = false := by
  simp only [settled, Bool.and_eq_true, List.all_eq_true, decide_eq_true_eq,
    Bool.not_eq_true'] at h
  exact h

/-- A flush of everything that was queued leaves no teardown, but one that a loss timeout is about
    to queue. -/
theorem settled_of_flushed {mark : Nat} (hc : machine.Reachable initial c)
    (hflushed : c.shared.workQ.flushed mark = true) (hmark : c.shared.workQ.enq = mark)
    (hlost : ∀ u ∈ c.pool, ¬ (u.pc = .tmoQueue ∧ u.rport = r)) : settled c r = true := by
  have hempty : ∀ e, e ∉ c.shared.workQ.entries := by
    intro e he
    have hlt : e.ticket < c.shared.workQ.enq := reachable_ticketed hc .work e he
    simp only [Queue.flushed, Bool.and_eq_true, List.all_eq_true, Option.all_eq_true,
      decide_eq_true_eq] at hflushed
    rcases List.mem_append.mp he with he | he
    · have hle := hflushed.2 e (Option.mem_toList.mp he)
      omega
    · have hle := hflushed.1 e he
      omega
  have hidle : ∀ u ∈ c.pool, ∀ k, u.work = some k → k.queue ≠ .work := by
    intro u hu k hk hwork
    obtain ⟨j, hj⟩ := List.mem_iff_getElem?.mp hu
    obtain ⟨n, hn⟩ := (reachable_workers hc).item j u hj k hk
    rw [hwork] at hn
    refine hempty ⟨k, u.rport, n⟩ (List.mem_append_left _ (Option.mem_toList.mpr ?_))
    exact hn
  simp only [settled, Bool.and_eq_true, List.all_eq_true, Bool.not_eq_true']
  refine ⟨fun e he => absurd he (hempty e), fun u hu => ?_⟩
  by_contra htear
  rw [Bool.not_eq_false] at htear
  have hwork := hidle u hu
  have hqueue := hlost u hu
  unfold Thread.teardown Thread.tears at htear
  unfold Thread.work at hwork
  cases hpc : u.pc
  all_goals simp only [hpc] at htear hwork hqueue
  all_goals grind -linarith [Kind.queue]

/-- The flush of `fc_remote_port_add` gives what `takesSettled` asks of its search, when nothing
    comes in between: nothing was queued after the flush began, and no loss timeout is about to
    queue a teardown. -/
theorem takesSettled_of_flush {a' : Choice} (hc : machine.Reachable initial c)
    (hi : c.pool[i]? = some t) (hpc : t.pc = .addFlushWait)
    (hmark : c.shared.workQ.enq = t.mark) (hlost : ∀ u ∈ c.pool, u.pc ≠ .tmoQueue)
    (h : step a c.shared t = some (s, t')) :
    takesSettled ⟨s, c.pool.set i t'⟩ (.act i a') = true := by
  have hlt := (List.getElem?_eq_some_iff.mp hi).1
  simp only [step, stepAdd, hpc] at h
  split at h
  · rename_i hflushed
    simp only [Option.some.injEq, Prod.mk.injEq] at h
    obtain ⟨rfl, rfl⟩ := h
    simp only [takesSettled, List.getElem?_set_self hlt]
    split
    · refine (Option.all_eq_true _ _).mpr fun r _ => ?_
      have hsettled := settled_of_flushed (r := r) hc hflushed hmark fun u hu hu' =>
        hlost u hu hu'.1
      simp only [settled, Bool.and_eq_true, List.all_eq_true, Bool.not_eq_true'] at hsettled ⊢
      refine ⟨hsettled.1, fun u hu => ?_⟩
      rcases List.mem_or_eq_of_mem_set hu with hu | rfl
      · exact hsettled.2 u hu
      · rfl
    · rfl
  · cases h

/-- A port that the driver has is online. -/
theorem Bindings.online_of_hands (hI : Bindings c) (hr : (c.shared.rport r).hands = true) :
    r ∈ c.shared.rports ∧ (c.shared.rport r).state = .online := by
  have hhands : (c.shared.view.port r).hands = true := hr
  exact hI.bound.calls.held r (by simp only [hhands]; simp)

/-- A port that is coming up is online, and the driver does not have it. -/
theorem Bindings.online_of_raises (hI : Bindings c) (hi : c.pool[i]? = some t)
    (hr : t.raises r = true) :
    (r ∈ c.shared.rports ∧ (c.shared.rport r).state = .online) ∧
      (c.shared.rport r).hands = false := by
  have hone : t.role.holds r = 1 := by
    unfold Thread.raises at hr
    unfold Role.holds Role.port Thread.role
    split at hr
    all_goals simp_all
  have hcalls := (hI.bound_at hi).calls
  refine ⟨hcalls.held r (by simp only [hone]; omega), ?_⟩
  have hle := hcalls.holds r
  simp only [hone] at hle
  show (c.shared.view.port r).hands = false
  cases hhands : (c.shared.view.port r).hands
  · rfl
  · simp only [hhands, Bool.toNat_true] at hle
    omega

/-- While the port is online and nobody changes its roles, it stays quiet. -/
theorem quiet_step (hB : Bindings c) (hW : Workers c) (hk : Known c.shared) (hq : Quiet c r)
    (hon : r ∈ c.shared.rports ∧ (c.shared.rport r).state = .online)
    (hrole : (c.shared.rport r).changing = 0) (hi : c.pool[i]? = some t)
    (h : step a c.shared t = some (s, t')) : Quiet ⟨s, c.pool.set i t'⟩ r := by
  have hidle := hq.threads t (List.mem_of_getElem? hi)
  constructor
  · rcases step_target h hq.target with htarget | ⟨hpc, rfl⟩ | hblocked | hbinding | hnew
    · exact htarget
    · -- a change of roles is counted
      have hcount := hB.changing t.rport
      rw [total_eq_others _ hi] at hcount
      simp only [Thread.changes, hpc, if_true] at hcount
      omega
    · rw [hon.2] at hblocked
      cases hblocked
    · have hsaved : (c.shared.rport r).state = .notPresent :=
        (hB.bound.lists.saved r hbinding).2
      rw [hon.2] at hsaved
      cases hsaved
    · have hlt := hk.listed r (.inl hon.1)
      omega
  · refine step_workQ_all hq.entries h (fun hpc _ => ?_) (fun _ _ hkind => by cases hkind)
      (fun _ _ _ _ hkind => by cases hkind)
    rintro rfl
    simp [Thread.teardown, hpc] at hidle
  · intro u hu
    rcases List.mem_or_eq_of_mem_set hu with hu | rfl
    · exact hq.threads u hu
    · by_contra hnew
      rw [Bool.not_eq_false] at hnew
      rcases step_teardown h hnew with hold | ⟨hpc, rfl⟩ | ⟨-, rfl, hlost | hlost⟩
      · rw [hidle] at hold
        cases hold
      · -- the final delete is of a deleted port
        have hgone := (hB.gone_of_work hW (List.mem_of_getElem? hi)
          (by simp only [Thread.work, hpc])).2
        rw [hon.2] at hgone
        cases hgone
      · rw [hq.target] at hlost
        cases hlost.2
      · rw [hon.2] at hlost
        cases hlost

/-- A port that was settled is quiet when it is taken up as a target. -/
theorem quiet_taken (hpc : t.pc = .addSearch ∨ t.pc = .addCreate)
    (htarget : (s.rport r).target = true)
    (hentries : c.shared.workQ.All fun e => e.kind = .stgtDelete → e.rport ≠ r)
    (hthreads : ∀ u ∈ c.pool, u.teardown r = false) (hi : c.pool[i]? = some t)
    (h : step a c.shared t = some (s, t')) : Quiet ⟨s, c.pool.set i t'⟩ r := by
  refine ⟨htarget, ?_, fun u hu => ?_⟩
  · refine step_workQ_all hentries h (fun hpc' => ?_) (fun _ _ hkind => by cases hkind)
      (fun _ _ _ _ hkind => by cases hkind)
    rcases hpc with hpc | hpc
    all_goals simp [hpc] at hpc'
  · rcases List.mem_or_eq_of_mem_set hu with hu | rfl
    · exact hthreads u hu
    · by_contra hnew
      rw [Bool.not_eq_false] at hnew
      rcases step_teardown h hnew with hold | ⟨hpc', -⟩ | ⟨hpc', -⟩
      · rw [hthreads t (List.mem_of_getElem? hi)] at hold
        cases hold
      all_goals
        rcases hpc with hpc | hpc
        all_goals simp [hpc] at hpc'

theorem teardown_names (h : t.teardown r = true) : t.names = true ∧ t.rport = r := by
  unfold Thread.teardown Thread.tears at h
  unfold Thread.names
  cases hpc : t.pc
  all_goals simp [hpc] at h ⊢
  all_goals simp [h]

theorem teardowns_step (hB : Bindings c) (hW : Workers c) (hk : Known c.shared)
    (hnames : Each (fun _ t => t.names = true → t.rport < c.shared.nextRport) c.pool)
    (hok : takesSettled c (.act i a) = true) (hI : Teardowns c) (hi : c.pool[i]? = some t)
    (h : step a c.shared t = some (s, t')) : Teardowns ⟨s, c.pool.set i t'⟩ := by
  -- a port that is coming up is not in the hands of the driver, so nobody changes its roles
  have hstill : ∀ (r j : Nat) (u : Thread), c.pool[j]? = some u → u.raises r = true →
      (c.shared.rport r).changing = 0 := by
    intro r j u hj hu
    have hhands := (hB.online_of_raises hj hu).2
    by_contra hpos
    rw [hI.changers r (Nat.pos_of_ne_zero hpos)] at hhands
    cases hhands
  have hkeep : ∀ (r j : Nat) (u : Thread), c.pool[j]? = some u → u.raises r = true →
      Quiet ⟨s, c.pool.set i t'⟩ r := by
    intro r j u hj hu
    exact quiet_step hB hW hk (hI.raised r u (List.mem_of_getElem? hj) hu)
      (hB.online_of_raises hj hu).1 (hstill r j u hj hu) hi h
  constructor
  · intro r hr
    rcases step_up h hr with hold | ⟨hpc, rfl, htarget⟩
    · obtain ⟨hquiet, hhands, hzero⟩ := hI.up r hold
      have hon := hB.online_of_hands hhands
      have hle := step_changing_le h r
      rcases step_hands h (.inl hhands) with hhands' | hnew
      · exact ⟨quiet_step hB hW hk hquiet hon hzero hi h, hhands', Nat.le_zero.mp (hzero ▸ hle)⟩
      · have hlt := hk.listed r (.inl hon.1)
        omega
    · have hraise : t.raises t.rport = true := by simp [Thread.raises, hpc, htarget]
      have hzero := hstill t.rport i t hi hraise
      have hle := step_changing_le h t.rport
      rcases step_hands h (.inr ⟨hpc, rfl⟩) with hhands' | hnew
      · exact ⟨hkeep t.rport i t hi hraise, hhands', Nat.le_zero.mp (hzero ▸ hle)⟩
      · have hlt := hk.listed _ (.inl (hB.online_of_raises hi hraise).1.1)
        omega
  · intro r u hu hraise
    rcases List.mem_or_eq_of_mem_set hu with hu | rfl
    · obtain ⟨j, hj⟩ := List.mem_iff_getElem?.mp hu
      exact hkeep r j u hj hraise
    · rcases step_raises h hraise with hold | ⟨htarget, htake, ⟨hpc, hfind⟩ | ⟨hpc, rfl⟩⟩
      · exact hkeep r i t hi hold
      · simp only [takesSettled, hi, hpc, htake, and_self, if_true, hfind, Option.all_some] at hok
        obtain ⟨hentries, hthreads⟩ := entries_of_settled hok
        exact quiet_taken (.inl hpc) htarget hentries hthreads hi h
      · refine quiet_taken (.inr hpc) htarget (fun e he _ => ?_) (fun v hv => ?_) hi h
        · have hlt := hk.work e he
          omega
        · by_contra htear
          rw [Bool.not_eq_false] at htear
          obtain ⟨j, hj⟩ := List.mem_iff_getElem?.mp hv
          obtain ⟨hnamed, hrport⟩ := teardown_names htear
          have hlt := hnames j v hj hnamed
          omega
  · intro r hpos
    have hold := hI.changers r (Nat.lt_of_lt_of_le hpos (step_changing_le h r))
    rcases step_hands h (.inl hold) with hhands | hnew
    · exact hhands
    · have hlt := hk.ports r (.inl hold)
      omega

theorem enter_quiet (hk : Kinds c.shared) (hq : Quiet c r)
    (h : enter call c.shared = some (s, t)) : Quiet ⟨s, c.pool ++ [t]⟩ r := by
  refine ⟨?_, enter_workQ_all hq.entries h, fun u hu => ?_⟩
  · have htarget := hq.target
    cases call
    all_goals simp only [enter] at h
    all_goals split at h
    all_goals simp only [Option.some.injEq, Prod.mk.injEq, reduceCtorEq] at h
    all_goals obtain ⟨rfl, -⟩ := h
    all_goals simp only [Shared.upd]
    all_goals grind -linarith
  · rcases List.mem_append.mp hu with hu | hu
    · exact hq.threads u hu
    · rw [List.mem_singleton.mp hu]
      rcases enter_item h with ⟨e, he, rfl⟩ | hpc | hpc | hpc | hpc | ⟨-, hpc⟩
      case inl =>
        by_contra htear
        rw [Bool.not_eq_false] at htear
        have hkind : e.kind = .stgtDelete ∧ e.rport = r := by
          cases hkind : e.kind
          all_goals simp [Thread.teardown, Thread.tears, Kind.entry, hkind] at htear ⊢
          exact htear
        rw [List.append_assoc, List.mem_append, List.mem_append] at he
        rcases he with he | he | he
        · exact hq.entries e (Queue.mem_entries he) hkind.1 hkind.2
        · have hother := hk .devloss e (Queue.mem_entries he)
          simp [hkind, Kind.queue] at hother
        · have hother := hk .scsi e (Queue.mem_entries he)
          simp [hkind, Kind.queue] at hother
      all_goals simp [Thread.teardown, Thread.tears, hpc]

theorem enter_up (h : enter call c.shared = some (s, t)) (hr : (s.rport r).up = true) :
    (c.shared.rport r).up = true ∧ (s.rport r).hands = (c.shared.rport r).hands ∧
      (s.rport r).changing = (c.shared.rport r).changing := by
  cases call
  all_goals simp only [enter] at h
  all_goals split at h
  all_goals simp only [Option.some.injEq, Prod.mk.injEq, reduceCtorEq] at h
  all_goals obtain ⟨rfl, -⟩ := h
  all_goals simp only [Shared.upd] at hr ⊢
  all_goals grind -linarith

theorem enter_changers (hI : Teardowns c) (hok : takesSettled c (.start call) = true)
    (h : enter call c.shared = some (s, t)) :
    ∀ r, 0 < (s.rport r).changing → (s.rport r).hands = true := by
  have hchangers := hI.changers
  cases call
  case delete r =>
    simp only [takesSettled, decide_eq_true_eq] at hok
    simp only [enter] at h
    split at h
    · simp only [Option.some.injEq, Prod.mk.injEq] at h
      obtain ⟨rfl, -⟩ := h
      simp only [Shared.upd]
      grind -linarith
    · cases h
  all_goals clear hok
  all_goals simp only [enter] at h
  all_goals split at h
  all_goals simp only [Option.some.injEq, Prod.mk.injEq, reduceCtorEq] at h
  all_goals obtain ⟨rfl, -⟩ := h
  all_goals simp only [Shared.upd]
  all_goals grind -linarith

theorem teardowns_enter (hk : Kinds c.shared) (hI : Teardowns c)
    (hok : takesSettled c (.start call) = true)
    (h : enter call c.shared = some (s, t)) : Teardowns ⟨s, c.pool ++ [t]⟩ := by
  constructor
  · intro r hr
    obtain ⟨hup, hhands, hchanging⟩ := enter_up h hr
    obtain ⟨hquiet, hold, hzero⟩ := hI.up r hup
    exact ⟨enter_quiet hk hquiet h, hhands.trans hold, hchanging.trans hzero⟩
  · intro r u hu hraise
    rcases List.mem_append.mp hu with hu | hu
    · exact enter_quiet hk (hI.raised r u hu hraise) h
    · rw [List.mem_singleton.mp hu] at hraise
      rcases enter_item h with ⟨e, -, rfl⟩ | hpc | hpc | hpc | hpc | ⟨-, hpc⟩
      · cases hkind : e.kind
        all_goals simp [Thread.raises, Kind.entry, hkind] at hraise
      all_goals simp [Thread.raises, hpc] at hraise
  · exact enter_changers hI hok h

end Run

theorem takesSettled_attached {c : Config Shared Thread} {e : Event Call Choice}
    (h : takesSettled c e = true) : attached c e = true := by
  cases e with
  | start call => cases call <;> simp_all [takesSettled, attached]
  | act i a => rfl

theorem reach_teardowns {c : Config Shared Thread}
    (h : machine.Reach (fun c e => takesSettled c e = true) initial c) : Teardowns c := by
  refine Machine.Reach.invariant Teardowns ?_ ?_ ?_ h
  · constructor
    all_goals simp [initial]
  · intro c call s t hc hI hok hs
    exact teardowns_enter (reachable_kinds hc.reachable) hI hok hs
  · intro c i a t s t' hc hI hok hi hs
    have hB := reach_bindings (hc.mono fun _ _ => takesSettled_attached)
    obtain ⟨hknown, hnames⟩ := reachable_known hc.reachable
    exact teardowns_step hB (reachable_workers hc.reachable) hknown hnames hok hI hi hs

/-- **No stale teardown.**  In every run before `fc_remove_host` whose adds take up no port with
    a teardown outstanding, and whose deletes find nobody changing the roles of the port: from
    the return of `fc_remote_port_add` with a target to the next delete or change of roles of
    this port, nobody executes `fc_starget_delete` for it, by itself or as a part of the final
    delete. -/
theorem no_stale_teardown {c : Config Shared Thread}
    (h : machine.Reach (fun c e => takesSettled c e = true) initial c) :
    ∀ r, (c.shared.rport r).up = true →
      ∀ t ∈ c.pool, t.tears r = false ∧ ¬ (t.work = some .rportDelete ∧ t.rport = r) := by
  intro r hr t ht
  obtain ⟨hquiet, hhands, -⟩ := (reach_teardowns h).up r hr
  have hB := reach_bindings (h.mono fun _ _ => takesSettled_attached)
  constructor
  · have hidle := hquiet.threads t ht
    simp only [Thread.teardown, Bool.or_eq_false_iff] at hidle
    exact hidle.2
  · rintro ⟨hfinal, rfl⟩
    have hgone := (hB.gone_of_work (reachable_workers h.reachable) ht hfinal).2
    rw [(hB.online_of_hands hhands).2] at hgone
    cases hgone

/-- The port is lost, its target torn down, and it comes back. -/
theorem no_stale_teardown_port_returns :
    ∃ c, machine.Reach (fun c e => takesSettled c e = true) initial c ∧
      (c.shared.rport 0).up = true ∧ ∀ t ∈ c.pool, t.tears 0 = false := by
  obtain ⟨c, hc, ho⟩ := machine.exists_reach_of_runIf takesSettled
    (addRun ++ lossRun ++ acts 5 1) initial (fun c => (c.shared.rport 0).up) true
    (by decide)
  exact ⟨c, hc, ho, fun t ht => (no_stale_teardown hc 0 ho t ht).1⟩

/-- The loss timeout has saved the binding and dropped the lock; the port comes back, and
    only then the timeout queues the teardown, which executes for a port that is up. -/
theorem stale_teardown :
    ∃ c, machine.Reach (fun c e => attached c e = true) initial c ∧
      (c.shared.rport 0).up = true ∧ ∃ t ∈ c.pool, t.tears 0 = true := by
  obtain ⟨c, hc, ho⟩ := machine.exists_reach_of_runIf attached
    (List.flatten [addRun, [.start (.delete 0)], acts 1 5,
      [.start (.fireDevLoss 0), .start .runDevloss], acts 3 1,
      [.start (.add ⟨0, 7⟩ true)], acts 4 5, acts 3 1, [.start .runWork]])
    initial (fun c => ((c.shared.rport 0).up, c.pool.any fun t => t.tears 0)) (true, true)
    (by decide)
  simp only [Prod.mk.injEq, List.any_eq_true] at ho
  exact ⟨c, hc, ho⟩

end VmkLinux.Scsi.Fc
