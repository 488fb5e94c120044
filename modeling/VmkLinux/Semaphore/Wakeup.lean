/-
  VmkLinux/Semaphore/Wakeup.lean
  ==============================
  **No wakeup of a semaphore is lost.**

  A wakeup goes to the first task of the queue only, and does nothing when that task is
  awake.  What carries the argument is that a task which leaves the queue wakes the next
  one: as long as tasks wait, `count` is negative or one of the calls is still on its way
  (`Covered`).  A call that is on its way can always take its step, and with each step
  there is less left to do (`Thread.work`), so the calls come to rest; and at rest no
  task sleeps while a permit is free.
-/
import Mathlib.Data.List.Nodup
import VmkLinux.Semaphore.Model

namespace VmkLinux.Semaphore

open VmkLinux.Interleave

/-! ### The queue -/

/-- Whether the task is on the queue between two steps. -/
def Pc.queued : Pc → Bool
  | .schedule _ | .relock _ => true
  | _ => false

/-- The queue holds the tasks that wait, and a task that sleeps says so in its state. -/
structure Queued (c : Config Shared Thread) : Prop where
  names : Each (fun i t => t.me = i) c.pool
  nodup : c.shared.taskList.Nodup
  waits : ∀ i, i ∈ c.shared.taskList ↔ ∃ t, c.pool[i]? = some t ∧ t.pc.queued = true
  asleep : Each (fun i t => ∀ kind, t.pc = .schedule kind →
    c.shared.state i = kind.sleepState) c.pool

/-- What a step of the task `me` may do to the queue and to the states of the tasks. -/
structure Moves (s : Shared) (me : Nat) (pc : Pc) (s' : Shared) (pc' : Pc) : Prop where
  nodup : s.taskList.Nodup → (pc.queued = false → me ∉ s.taskList) → s'.taskList.Nodup
  others : ∀ i, i ≠ me → (i ∈ s'.taskList ↔ i ∈ s.taskList)
  own : s.taskList.Nodup → (me ∈ s.taskList ↔ pc.queued = true) →
    (me ∈ s'.taskList ↔ pc'.queued = true)
  state : ∀ i, i ≠ me → s'.state i = s.state i
  asleep : ∀ kind, pc' = .schedule kind → s'.state me = kind.sleepState

@[simp] theorem leaveQueue_state (s : Shared) (me : Nat) (late : Bool) :
    (leaveQueue s me late).state = Function.update s.state me .running := by
  simp [leaveQueue, setState]

/-- The loop keeps the task on the queue exactly when it sleeps. -/
theorem downLoop_moves {a : Choice} {s s' : Shared} {me : Nat} {kind : Kind} {pc : Pc}
    (h : downLoop a s me kind = (s', pc)) :
    (s'.taskList = s.taskList ∧ s'.state = s.state ∧ pc = .schedule kind) ∨
    (s'.taskList = s.taskList.erase me ∧ s'.state = Function.update s.state me .running ∧
      pc.queued = false) := by
  rcases downLoop_cases h with ⟨rfl, -, rfl⟩ | ⟨rfl, -, rfl⟩ | ⟨rfl, -, rfl⟩
  · exact .inr ⟨by simp, by simp, rfl⟩
  · exact .inl ⟨rfl, rfl, rfl⟩
  · exact .inr ⟨by simp, by simp, rfl⟩

theorem moves_lock {a : Choice} {s s' : Shared} {me : Nat} {kind : Kind} {pc' : Pc}
    (h : step a s me (.lock kind) = some (s', pc')) : Moves s me (.lock kind) s' pc' := by
  have hloop := downLoop_moves (Option.some.inj h)
  simp only [addSleeper, setState, Task.Tasks.setCurrentState_state] at hloop
  rcases hloop with ⟨hlist, hstate, rfl⟩ | ⟨hlist, hstate, hpc⟩
  · refine ⟨fun hnodup hme => ?_, fun i hi => ?_, fun _ _ => ?_, fun i hi => ?_, fun k hk => ?_⟩
    · rw [hlist]
      exact List.nodup_append.mpr ⟨hnodup, List.nodup_singleton _, by
        rintro x hx y hy rfl
        rw [List.mem_singleton.mp hy] at hx
        exact hme rfl hx⟩
    · rw [hlist]
      simp [hi]
    · rw [hlist]
      simp [Pc.queued]
    · rw [hstate, Function.update_of_ne hi]
    · cases hk
      rw [hstate, Function.update_self]
  · refine ⟨fun hnodup hme => ?_, fun i hi => ?_, fun hnodup hown => ?_, fun i hi => ?_,
      fun k hk => ?_⟩
    · rw [hlist, List.erase_append_right _ (hme rfl)]
      simpa using hnodup
    · rw [hlist, List.mem_erase_of_ne hi]
      simp [hi]
    · have hnot : me ∉ s.taskList := fun hmem => by simpa [Pc.queued] using hown.mp hmem
      rw [hlist, List.erase_append_right _ hnot, hpc]
      simpa using hnot
    · rw [hstate, Function.update_of_ne hi, Function.update_of_ne hi]
    · rw [hk] at hpc
      cases hpc

theorem moves_relock {a : Choice} {s s' : Shared} {me : Nat} {kind : Kind} {pc' : Pc}
    (h : step a s me (.relock kind) = some (s', pc')) : Moves s me (.relock kind) s' pc' := by
  have hloop := downLoop_moves (Option.some.inj h)
  simp only [setState, Task.Tasks.setCurrentState_state] at hloop
  rcases hloop with ⟨hlist, hstate, rfl⟩ | ⟨hlist, hstate, hpc⟩
  · refine ⟨fun hnodup _ => hlist ▸ hnodup, fun i hi => by rw [hlist], fun _ hown => ?_,
      fun i hi => ?_, fun k hk => ?_⟩
    · rw [hlist]
      simpa [Pc.queued] using hown
    · rw [hstate, Function.update_of_ne hi]
    · cases hk
      rw [hstate, Function.update_self]
  · refine ⟨fun hnodup _ => hlist ▸ hnodup.erase _, fun i hi => ?_, fun hnodup _ => ?_,
      fun i hi => ?_, fun k hk => ?_⟩
    · rw [hlist, List.mem_erase_of_ne hi]
    · rw [hlist, hpc]
      simp [hnodup.not_mem_erase]
    · rw [hstate, Function.update_of_ne hi, Function.update_of_ne hi]
    · rw [hk] at hpc
      cases hpc

theorem step_moves {a : Choice} {s s' : Shared} {me : Nat} {pc pc' : Pc}
    (h : step a s me pc = some (s', pc')) : Moves s me pc s' pc' := by
  -- a step that leaves the queue alone
  have hstill : s'.taskList = s.taskList → (∀ i, i ≠ me → s'.state i = s.state i) →
      pc'.queued = pc.queued → (∀ kind, pc' ≠ .schedule kind) → Moves s me pc s' pc' := by
    intro hlist hstate hqueued hpc
    exact ⟨fun hnodup _ => hlist ▸ hnodup, fun i _ => by rw [hlist],
      fun _ hown => by rw [hlist, hqueued]; exact hown, hstate, fun k hk => absurd hk (hpc k)⟩
  cases pc with
  | lock kind => exact moves_lock h
  | relock kind => exact moves_relock h
  | schedule kind =>
    simp only [step] at h
    split at h
    · obtain ⟨rfl, rfl⟩ := Prod.mk.inj (Option.some.inj h)
      exact hstill rfl (fun _ _ => rfl) rfl fun k hk => by cases hk
    · split at h
      · obtain ⟨rfl, rfl⟩ := Prod.mk.inj (Option.some.inj h)
        exact hstill rfl (fun i hi => Function.update_of_ne hi ..) rfl fun k hk => by cases hk
      · cases h
  | trylock =>
    obtain ⟨rfl, rfl⟩ := Prod.mk.inj (Option.some.inj h)
    refine hstill ?_ ?_ rfl fun k hk => by cases hk
    · unfold downTrylock
      dsimp only
      split
      · rfl
      · simp
    · intro i _
      unfold downTrylock
      dsimp only
      split
      · rfl
      · simp
  | wakeup =>
    obtain ⟨rfl, rfl⟩ := Prod.mk.inj (Option.some.inj h)
    exact hstill (by simp) (fun i _ => by simp) rfl fun k hk => by cases hk
  | acquired => cases h
  | interrupted => cases h
  | busy => cases h
  | released => cases h
  | resumed => cases h

/-- A call does not touch the queue as it starts. -/
theorem enter_queue (s : Shared) (call : Call) :
    (enter s call).1.taskList = s.taskList ∧ (enter s call).1.state = s.state ∧
      (enter s call).2.queued = false ∧
      ∀ i, s.resume i = true → (enter s call).1.resume i = true := by
  cases call with
  | down kind =>
    refine ⟨rfl, rfl, ?_, fun i hi => hi⟩
    simp only [enter]
    split
    · rfl
    · rfl
  | downTrylock =>
    refine ⟨rfl, rfl, ?_, fun i hi => hi⟩
    simp only [enter]
    split
    · rfl
    · rfl
  | up =>
    refine ⟨rfl, rfl, ?_, fun i hi => hi⟩
    simp only [enter]
    split
    · rfl
    · rfl
  | wakeUpProcess task =>
    refine ⟨rfl, rfl, rfl, fun i hi => ?_⟩
    by_cases heq : i = task
    · rw [heq]
      exact Function.update_self ..
    · exact (Function.update_of_ne heq ..).trans hi

theorem queued_initial (val : Nat) : Queued (initial val) where
  names := each_nil _
  nodup := List.nodup_nil
  waits := by simp [initial, semaInit]
  asleep := each_nil _

theorem queued_of_reachable {val : Nat} {c : Config Shared Thread}
    (h : machine.Reachable (initial val) c) : Queued c := by
  refine Machine.Reach.invariant Queued (queued_initial val) ?_ ?_ h
  · intro c call s t _ hI _ hstart
    obtain ⟨rfl, rfl⟩ := machine_start hstart
    obtain ⟨hlist, hstate, hpc, -⟩ := enter_queue c.shared call
    refine ⟨hI.names.append (fun i u _ hu => hu) rfl, hlist ▸ hI.nodup, fun i => ?_,
      hI.asleep.append (fun i u _ hu => hstate ▸ hu) fun kind hk => ?_⟩
    · rw [hlist, hI.waits i]
      constructor
      · rintro ⟨t, ht, hq⟩
        exact ⟨t, by rw [List.getElem?_append_left (List.getElem?_eq_some_iff.mp ht).1, ht], hq⟩
      · rintro ⟨t, ht, hq⟩
        rcases Nat.lt_trichotomy i c.pool.length with hi | hi | hi
        · rw [List.getElem?_append_left hi] at ht
          exact ⟨t, ht, hq⟩
        · subst hi
          rw [List.getElem?_concat_length] at ht
          rw [← Option.some.inj ht, hpc] at hq
          cases hq
        · rw [List.getElem?_eq_none (by simp; omega)] at ht
          cases ht
    · rw [show (enter c.shared call).2 = .schedule kind from hk] at hpc
      cases hpc
  · intro c i a t s t' _ hI _ hi hact
    obtain ⟨pc, rfl, hstep⟩ := machine_act hact
    have hm := step_moves hstep
    have hme : t.me = i := hI.names i t hi
    have hlt := (List.getElem?_eq_some_iff.mp hi).1
    have hown : t.me ∈ c.shared.taskList ↔ t.pc.queued = true := by
      rw [hme, hI.waits i, hi]
      simp
    refine ⟨hI.names.set (fun j u _ _ hu => hu) hme, ?_, fun j => ?_,
      hI.asleep.set (fun j u hj _ hu kind hk => ?_) fun kind hk => hme ▸ hm.asleep kind hk⟩
    · exact hm.nodup hI.nodup fun hq hmem => by rw [hown.mp hmem] at hq; cases hq
    · by_cases hj : j = i
      · rw [hj, ← hme, hm.own hI.nodup hown, hme, List.getElem?_set_self hlt]
        simp
      · rw [hm.others j (hme ▸ hj), hI.waits j, List.getElem?_set_ne (Ne.symm hj)]
    · rw [hm.state j (hme ▸ hj)]
      exact hu kind hk

/-! ### Calls on their way -/

/-- Whether the call can take a step although no signal is pending. -/
def Thread.active (s : Shared) (t : Thread) : Bool :=
  match t.pc with
  | .lock _ | .relock _ | .trylock | .wakeup => true
  | .schedule _ => s.resume t.me
  | _ => false

/-- While tasks wait, `count` is negative or a call is on its way. -/
def Covered (c : Config Shared Thread) : Prop :=
  c.shared.taskList ≠ [] → c.shared.count < 0 ∨ ∃ t ∈ c.pool, t.active c.shared = true

/-- The first task of the queue is awake, or is sent an event. -/
def Woken (s : Shared) : Prop :=
  ∃ task ∈ s.taskList, s.state task ≠ .running → s.resume task = true

theorem wakeUpLocked_wakes {s : Shared} (late : Bool) (h : s.taskList ≠ []) :
    ∃ task, s.taskList.head? = some task ∧
      (s.state task ≠ .running → (wakeUpLocked s late).resume task = true) := by
  obtain ⟨task, rest, hlist⟩ := List.exists_cons_of_ne_nil h
  refine ⟨task, by rw [hlist]; rfl, fun hstate => ?_⟩
  rw [wakeUpLocked, hlist]
  dsimp only [List.head?_cons]
  rw [if_pos (by simp [hstate])]
  exact Function.update_self ..

theorem wakeUpLocked_woken {s : Shared} (late : Bool) (h : s.taskList ≠ []) :
    Woken (wakeUpLocked s late) := by
  obtain ⟨task, hhead, hwake⟩ := wakeUpLocked_wakes late h
  refine ⟨task, ?_, ?_⟩
  · rw [wakeUpLocked_taskList]
    exact List.mem_of_head? hhead
  · rw [wakeUpLocked_state]
    exact hwake

/-- A task that leaves the queue wakes the next one. -/
theorem leaveQueue_woken {s : Shared} {me : Nat} (late : Bool)
    (h : (leaveQueue s me late).taskList ≠ []) : Woken (leaveQueue s me late) := by
  rw [leaveQueue_taskList] at h
  obtain ⟨task, hhead, hwake⟩ :=
    wakeUpLocked_wakes (s := { s with taskList := s.taskList.erase me }) late h
  refine ⟨task, ?_, fun hstate => ?_⟩
  · rw [leaveQueue_taskList]
    exact List.mem_of_head? hhead
  · rw [leaveQueue_state] at hstate
    by_cases heq : task = me
    · rw [heq, Function.update_self] at hstate
      exact absurd rfl hstate
    · rw [Function.update_of_ne heq] at hstate
      exact hwake hstate

theorem downLoop_covers {a : Choice} {s s' : Shared} {me : Nat} {kind : Kind} {pc : Pc}
    (h : downLoop a s me kind = (s', pc)) (hlist : s'.taskList ≠ []) :
    s'.count < 0 ∨ Woken s' := by
  rcases downLoop_cases h with ⟨rfl, -, rfl⟩ | ⟨rfl, hneg, rfl⟩ | ⟨rfl, -, rfl⟩
  · exact .inr (leaveQueue_woken _ hlist)
  · exact .inl hneg
  · exact .inr (leaveQueue_woken _ hlist)

/-- After any step `count` is negative, or the call goes on, or the first task is woken. -/
theorem step_covers {a : Choice} {s s' : Shared} {me : Nat} {pc pc' : Pc}
    (h : step a s me pc = some (s', pc')) (hlist : s'.taskList ≠ []) :
    s'.count < 0 ∨ (∃ kind, pc' = .relock kind) ∨ Woken s' := by
  cases pc with
  | lock kind => exact (downLoop_covers (Option.some.inj h) hlist).imp_right .inr
  | relock kind => exact (downLoop_covers (Option.some.inj h) hlist).imp_right .inr
  | schedule kind =>
    simp only [step] at h
    split at h
    · obtain ⟨-, rfl⟩ := Prod.mk.inj (Option.some.inj h)
      exact .inr (.inl ⟨_, rfl⟩)
    · split at h
      · obtain ⟨-, rfl⟩ := Prod.mk.inj (Option.some.inj h)
        exact .inr (.inl ⟨_, rfl⟩)
      · cases h
  | trylock =>
    obtain ⟨rfl, rfl⟩ := Prod.mk.inj (Option.some.inj h)
    unfold downTrylock at hlist ⊢
    dsimp only at hlist ⊢
    split
    · rename_i hneg
      exact .inl hneg
    · rename_i hnot
      rw [if_neg hnot, wakeUpLocked_taskList] at hlist
      exact .inr (.inr (wakeUpLocked_woken _ hlist))
  | wakeup =>
    obtain ⟨rfl, rfl⟩ := Prod.mk.inj (Option.some.inj h)
    rw [wakeUpLocked_taskList] at hlist
    exact .inr (.inr (wakeUpLocked_woken _ hlist))
  | acquired => cases h
  | interrupted => cases h
  | busy => cases h
  | released => cases h
  | resumed => cases h

theorem Queued.active_of_woken {c : Config Shared Thread} (hq : Queued c) (h : Woken c.shared) :
    ∃ t ∈ c.pool, t.active c.shared = true := by
  obtain ⟨task, hmem, hwake⟩ := h
  obtain ⟨t, ht, hqueued⟩ := (hq.waits task).mp hmem
  have hme : t.me = task := hq.names task t ht
  refine ⟨t, List.mem_of_getElem? ht, ?_⟩
  cases hpc : t.pc with
  | schedule kind =>
    simp only [Thread.active, hpc]
    rw [hme]
    refine hwake ?_
    rw [hq.asleep task t ht kind hpc]
    exact kind.sleepState_ne
  | relock kind => simp only [Thread.active, hpc]
  | _ =>
    rw [hpc] at hqueued
    cases hqueued

theorem Thread.active_mono {s s' : Shared} {t : Thread}
    (hresume : ∀ i, s.resume i = true → s'.resume i = true) (h : t.active s = true) :
    t.active s' = true := by
  unfold Thread.active at h ⊢
  split at h
  all_goals first | rfl | exact hresume _ h | cases h

/-- A call that starts takes nothing from what covers the queue. -/
theorem enter_covers {s : Shared} (call : Call) :
    (enter s call).1.count < 0 ∨ 0 ≤ s.count ∨ (enter s call).2 = .wakeup := by
  cases call with
  | down kind =>
    dsimp only [enter]
    omega
  | downTrylock =>
    dsimp only [enter]
    omega
  | up =>
    dsimp only [enter]
    split
    · exact .inr (.inr rfl)
    · omega
  | wakeUpProcess task =>
    dsimp only [enter, wakeUpProcess]
    omega

theorem covered_of_reachable {val : Nat} {c : Config Shared Thread}
    (h : machine.Reachable (initial val) c) : Covered c := by
  refine Machine.Reach.invariant Covered (fun hne => absurd rfl hne) ?_ ?_ h
  · intro c call s t _ hI _ hstart hlist
    obtain ⟨rfl, rfl⟩ := machine_start hstart
    obtain ⟨hsame, -, -, hresume⟩ := enter_queue c.shared call
    rw [hsame] at hlist
    rcases enter_covers call with hneg | hpos | hpc
    · exact .inl hneg
    · right
      rcases hI hlist with hneg | ⟨t, ht, hactive⟩
      · omega
      · exact ⟨t, List.mem_append_left _ ht, Thread.active_mono hresume hactive⟩
    · right
      refine ⟨_, List.mem_append_right _ (List.mem_singleton_self _), ?_⟩
      simp only [Thread.active, hpc]
  · intro c i a t s t' hreach hI _ hi hact hlist
    have hexec := Machine.exec_act hi hact
    have hq := queued_of_reachable (hreach.step trivial hexec)
    obtain ⟨pc, rfl, hstep⟩ := machine_act hact
    rcases step_covers hstep hlist with hneg | ⟨kind, rfl⟩ | hwoken
    · exact .inl hneg
    · have hlt := (List.getElem?_eq_some_iff.mp hi).1
      exact .inr ⟨_, List.mem_of_getElem? (List.getElem?_set_self hlt), rfl⟩
    · exact .inr (hq.active_of_woken hwoken)

/-! ### At rest -/

/-- No call can take a step before a signal comes or another call starts. -/
def AtRest (c : Config Shared Thread) : Prop :=
  ∀ i late, machine.exec c (.act i ⟨false, late⟩) = none

/-- A call that is on its way can take its step. -/
theorem exists_exec_of_active {c : Config Shared Thread} {i : Nat} {t : Thread}
    (hi : c.pool[i]? = some t) (hactive : t.active c.shared = true) (late : Bool) :
    ∃ c', machine.exec c (.act i ⟨false, late⟩) = some c' := by
  suffices hstep : ∃ r, step ⟨false, late⟩ c.shared t.me t.pc = some r by
    obtain ⟨r, hr⟩ := hstep
    have hact : machine.act ⟨false, late⟩ c.shared t = some (r.1, ⟨t.me, r.2⟩) := by
      show (step _ _ _ _).map _ = _
      rw [hr]
      rfl
    exact ⟨_, Machine.exec_act hi hact⟩
  unfold Thread.active at hactive
  split at hactive
  · rename_i hpc
    exact ⟨_, by rw [hpc]; rfl⟩
  · rename_i hpc
    exact ⟨_, by rw [hpc]; rfl⟩
  · rename_i hpc
    exact ⟨_, by rw [hpc]; rfl⟩
  · rename_i hpc
    exact ⟨_, by rw [hpc]; rfl⟩
  · rename_i hpc
    rw [hpc]
    simp only [step, hactive, if_true]
    split
    · exact ⟨_, rfl⟩
    · exact ⟨_, rfl⟩
  · cases hactive

theorem AtRest.idle {c : Config Shared Thread} (h : AtRest c) {t : Thread} (ht : t ∈ c.pool) :
    t.active c.shared = false := by
  obtain ⟨i, hi⟩ := List.mem_iff_getElem?.mp ht
  by_contra hactive
  rw [Bool.not_eq_false] at hactive
  obtain ⟨c', hexec⟩ := exists_exec_of_active hi hactive false
  rw [h i false] at hexec
  cases hexec

/-- A call that is on its way is the only thing that can keep a permit from a sleeper. -/
theorem AtRest.acquired_eq {val : Nat} {c : Config Shared Thread} (hrest : AtRest c)
    (h : machine.Reachable (initial val) c) {i : Nat} {kind : Kind}
    (hsleeps : c.pool[i]? = some ⟨i, .schedule kind⟩) : acquired c = val + ups c := by
  obtain ⟨hbalance, -, hone, hle⟩ := counted_of_reachable h
  have hmem : i ∈ c.shared.taskList :=
    ((queued_of_reachable h).waits i).mpr ⟨_, hsleeps, rfl⟩
  have hneg : c.shared.count < 0 := by
    rcases covered_of_reachable h (List.ne_nil_of_mem hmem) with hneg | ⟨t, ht, hactive⟩
    · exact hneg
    · rw [hrest.idle ht] at hactive
      cases hactive
  have hunknown : total (fun t : Thread => t.pc.unknown) c.pool = 0 := by
    refine total_eq_zero fun t ht => ?_
    have hidle := hrest.idle ht
    unfold Thread.active at hidle
    unfold Pc.unknown
    split at hidle
    all_goals simp_all
  omega

/-- **No wakeup is lost.**  Once the calls have come to rest, a task that still sleeps in
    `down` or `down_interruptible` does so because every permit is handed out. -/
theorem semaphore_no_lost_wakeup (val : Nat) {c : Config Shared Thread}
    (h : machine.Reachable (initial val) c) (hrest : AtRest c)
    (hsleeps : ∃ (i : Nat) (kind : Kind), c.pool[i]? = some ⟨i, .schedule kind⟩) :
    acquired c = val + ups c := by
  obtain ⟨i, kind, hi⟩ := hsleeps
  exact hrest.acquired_eq h hi

/-- Two tasks wait for a mutex, and one is interrupted while the other tries it. -/
def interruptedWait : List (Event Call Choice) :=
  [.start (.down .plain), .start (.down .plain), .act 1 ⟨false, false⟩,
    .start (.down .interruptible), .act 2 ⟨false, false⟩, .start .downTrylock,
    .act 2 ⟨true, false⟩, .act 3 ⟨false, false⟩, .act 2 ⟨true, false⟩, .act 1 ⟨false, false⟩,
    .act 1 ⟨false, false⟩]

theorem atRest_of_step {c : Config Shared Thread}
    (h : ∀ t ∈ c.pool, ∀ late, step ⟨false, late⟩ c.shared t.me t.pc = none) : AtRest c := by
  intro i late
  by_contra hexec
  obtain ⟨c', hc'⟩ := Option.ne_none_iff_exists'.mp hexec
  obtain ⟨t, s, t', hi, hact, -⟩ := Machine.exec_act_eq_some.mp hc'
  obtain ⟨pc, -, hstep⟩ := machine_act hact
  rw [h t (List.mem_of_getElem? hi) late] at hstep
  cases hstep

theorem semaphore_no_lost_wakeup_interrupted :
    ∃ c, machine.Reachable (initial 1) c ∧ c.pool[1]? = some ⟨1, .schedule .plain⟩ ∧
      acquired c = 1 + ups c := by
  obtain ⟨c, hc, ho⟩ := machine.exists_reachable_of_run interruptedWait (initial 1)
    (fun c => (c.pool, c.shared.resume 1, c.shared.state 1))
    ([⟨0, .acquired⟩, ⟨1, .schedule .plain⟩, ⟨2, .interrupted⟩, ⟨3, .busy⟩], false,
      .uninterruptible) rfl
  obtain ⟨hpool, hsleeps⟩ := Prod.mk.inj ho
  obtain ⟨hresume, hstate⟩ := Prod.mk.inj hsleeps
  have hsecond : c.pool[1]? = some ⟨1, .schedule .plain⟩ := by rw [hpool]; rfl
  have hrest : AtRest c := by
    refine atRest_of_step fun t ht late => ?_
    rw [hpool] at ht
    simp only [List.mem_cons, List.not_mem_nil, or_false] at ht
    rcases ht with rfl | rfl | rfl | rfl
    · rfl
    · simp [step, Task.Tasks.scheduleReturns, hresume, hstate]
    · rfl
    · rfl
  exact ⟨c, hc, hsecond, semaphore_no_lost_wakeup 1 hc hrest ⟨1, .plain, hsecond⟩⟩

/-! ### Coming to rest -/

/-- What a call has left to do at most, its pending event apart. -/
def Pc.work : Pc → Nat
  | .lock _ | .relock _ | .trylock | .wakeup => 3
  | .schedule _ => 2
  | _ => 0

/-- An event makes the task try once more. -/
def Thread.event (s : Shared) (t : Thread) : Nat :=
  match t.pc with
  | .lock _ | .relock _ | .schedule _ => if s.resume t.me then 2 else 0
  | _ => 0

def work (c : Config Shared Thread) : Nat :=
  total (fun t => t.pc.work + t.event c.shared) c.pool

theorem Thread.event_congr {s s' : Shared} {t : Thread} (h : s'.resume t.me = s.resume t.me) :
    t.event s' = t.event s := by
  unfold Thread.event
  rw [h]

theorem Thread.event_le (s : Shared) (t : Thread) : t.event s ≤ 2 := by
  unfold Thread.event
  split
  all_goals first | omega | (split <;> omega)

theorem wakeUpLocked_resume (s : Shared) (late : Bool) :
    ∃ task, ∀ i, i ≠ task → (wakeUpLocked s late).resume i = s.resume i := by
  unfold wakeUpLocked
  split
  · exact ⟨0, fun i _ => rfl⟩
  · rename_i task _
    refine ⟨task, fun i hi => ?_⟩
    split
    · exact Function.update_of_ne hi ..
    · rfl

/-- A step has less to do itself than before, even if it sends an event to a task. -/
structure Works (s : Shared) (me : Nat) (pc : Pc) (s' : Shared) (pc' : Pc) (task : Nat) :
    Prop where
  resume : ∀ i, i ≠ me → i ≠ task → s'.resume i = s.resume i
  less : pc'.work + (Thread.mk me pc').event s' + (if task = me then 0 else 2)
    < pc.work + (Thread.mk me pc).event s

/-- A call that is done sends one event at most. -/
theorem Works.ends {s s' : Shared} {me : Nat} {pc pc' : Pc} {task : Nat}
    (hpc : pc.work = 3) (hwork : pc'.work = 0) (hevent : (Thread.mk me pc').event s' = 0)
    (hresume : ∀ i, i ≠ task → s'.resume i = s.resume i) : Works s me pc s' pc' task := by
  refine ⟨fun i _ hi => hresume i hi, ?_⟩
  rw [hwork, hevent, hpc]
  split <;> omega

theorem downLoop_works {late : Bool} {s₀ s s' : Shared} {me : Nat} {kind : Kind} {pc pc' : Pc}
    (h : downLoop ⟨false, late⟩ s me kind = (s', pc')) (hresume : s.resume = s₀.resume)
    (hpc : pc = .lock kind ∨ pc = .relock kind) : ∃ task, Works s₀ me pc s' pc' task := by
  have hwork : pc.work = 3 := by rcases hpc with rfl | rfl <;> rfl
  rcases downLoop_cases h with ⟨-, hsignal, -⟩ | ⟨rfl, -, rfl⟩ | ⟨rfl, -, rfl⟩
  · cases hsignal
  · refine ⟨me, fun i _ _ => congrFun hresume i, ?_⟩
    have hevent : (Thread.mk me (.schedule kind)).event s = (Thread.mk me pc).event s₀ := by
      rcases hpc with rfl | rfl <;> simp only [Thread.event, hresume]
    rw [if_pos rfl, hwork]
    show 2 + (Thread.mk me (.schedule kind)).event s + 0 < _
    omega
  · obtain ⟨task, htask⟩ := wakeUpLocked_resume { s with
      count := s.count + (s.sleepers - 1), sleepers := 0, taskList := s.taskList.erase me } late
    exact ⟨task, .ends hwork rfl rfl fun i hi => (htask i hi).trans (congrFun hresume i)⟩

theorem step_works {late : Bool} {s s' : Shared} {me : Nat} {pc pc' : Pc}
    (hasleep : ∀ kind, pc = .schedule kind → s.state me = kind.sleepState)
    (h : step ⟨false, late⟩ s me pc = some (s', pc')) : ∃ task, Works s me pc s' pc' task := by
  cases pc with
  | lock kind =>
    have hloop : downLoop ⟨false, late⟩ (addSleeper (setState s me kind.sleepState) me) me kind
        = (s', pc') := Option.some.inj h
    exact downLoop_works hloop rfl (.inl rfl)
  | relock kind =>
    have hloop : downLoop ⟨false, late⟩ (setState s me kind.sleepState) me kind = (s', pc') :=
      Option.some.inj h
    exact downLoop_works hloop rfl (.inr rfl)
  | schedule kind =>
    have hne : s.state me ≠ .running := by
      rw [hasleep kind rfl]
      exact kind.sleepState_ne
    simp only [step, Task.Tasks.scheduleReturns, hne, Bool.false_and, Bool.false_or, decide_false,
      Bool.false_eq_true, if_false] at h
    split at h
    · rename_i hevent
      obtain ⟨rfl, rfl⟩ := Prod.mk.inj (Option.some.inj h)
      refine ⟨me, fun i hi _ => Function.update_of_ne hi .., ?_⟩
      simp [Pc.work, Thread.event, waitEvent, hevent]
    · cases h
  | trylock =>
    obtain ⟨rfl, rfl⟩ := Prod.mk.inj (Option.some.inj h)
    unfold downTrylock
    dsimp only
    split
    · exact ⟨me, .ends rfl rfl rfl fun _ _ => rfl⟩
    · obtain ⟨task, htask⟩ := wakeUpLocked_resume { s with
        count := s.count + (s.sleepers + 1), sleepers := 0 } late
      exact ⟨task, .ends rfl rfl rfl htask⟩
  | wakeup =>
    obtain ⟨rfl, rfl⟩ := Prod.mk.inj (Option.some.inj h)
    obtain ⟨task, htask⟩ := wakeUpLocked_resume s late
    exact ⟨task, .ends rfl rfl rfl htask⟩
  | acquired => cases h
  | interrupted => cases h
  | busy => cases h
  | released => cases h
  | resumed => cases h

/-- One task has one call. -/
theorem others_named_le {pool : List Thread} (names : Each (fun i t => t.me = i) pool) {i : Nat}
    {t : Thread} (hi : pool[i]? = some t) (task n : Nat) :
    others (fun u => if u.me = task then n else 0) pool i ≤ if task = i then 0 else n := by
  by_cases htask : task = i
  · rw [if_pos htask]
    refine Nat.le_of_eq (others_eq_zero_of fun j u hji hj => if_neg ?_)
    rw [names j u hj, htask]
    exact hji
  · rw [if_neg htask]
    cases hu : pool[task]? with
    | none =>
      rw [others_eq_zero_of fun j u _ hj => if_neg ?_]
      · exact Nat.zero_le _
      · rintro rfl
        rw [names j u hj, hj] at hu
        cases hu
    | some u =>
      have hsum := total_eq_others (fun u : Thread => if u.me = task then n else 0) hi
      have hzero : others (fun u : Thread => if u.me = task then n else 0) pool task = 0 :=
        others_eq_zero_of fun j u hj hu => if_neg (by rw [names j u hu]; exact hj)
      rw [total_eq_others _ hu, hzero, if_pos (names task u hu)] at hsum
      omega

theorem Queued.work_lt {c c' : Config Shared Thread} (hq : Queued c) {i : Nat} {late : Bool}
    (h : machine.exec c (.act i ⟨false, late⟩) = some c') : work c' < work c := by
  obtain ⟨t, s, t', hi, hact, rfl⟩ := Machine.exec_act_eq_some.mp h
  obtain ⟨pc, rfl, hstep⟩ := machine_act hact
  have hme := hq.names i t hi
  obtain ⟨task, hresume, hless⟩ := step_works (fun kind hk => hme ▸ hq.asleep i t hi kind hk) hstep
  have hnamed := others_named_le hq.names hi task 2
  have hothers : others (fun u => u.pc.work + u.event s) c.pool i ≤
      others (fun u => (u.pc.work + u.event c.shared) + if u.me = task then 2 else 0) c.pool i := by
    refine others_le_others fun j u hji hj => ?_
    by_cases htask : u.me = task
    · have hle := u.event_le s
      rw [if_pos htask]
      omega
    · rw [if_neg htask, Thread.event_congr (hresume u.me ?_ htask)]
      · omega
      · rw [hq.names j u hj, hme]
        exact hji
  rw [others_add (fun u : Thread => u.pc.work + u.event c.shared)] at hothers
  rw [hme] at hless
  unfold work
  rw [total_set _ _ hi, total_eq_others _ hi]
  show _ < _ + (t.pc.work + (Thread.mk t.me t.pc).event c.shared)
  rw [hme]
  dsimp only at hless ⊢
  omega

/-- A step of a call that is already there, with no signal pending. -/
def quiet : Event Call Choice → Bool
  | .act _ a => !a.signal
  | .start _ => false

theorem work_le (c : Config Shared Thread) : work c ≤ 5 * c.pool.length := by
  obtain ⟨s, pool⟩ := c
  show total (fun t => t.pc.work + t.event s) pool ≤ 5 * pool.length
  induction pool with
  | nil => exact Nat.le_refl _
  | cons t pool ih =>
    have hevent := t.event_le s
    have hpc : t.pc.work ≤ 3 := by
      unfold Pc.work
      split <;> omega
    rw [total_cons, List.length_cons]
    omega

/-- The calls that are there come to rest. -/
theorem exists_rest {val : Nat} {c : Config Shared Thread}
    (h : machine.Reachable (initial val) c) :
    ∃ c', machine.Reach (fun _ e => quiet e = true) c c' ∧ AtRest c' := by
  induction hwork : work c using Nat.strongRecOn generalizing c with
  | _ n ih =>
    by_cases hrest : AtRest c
    · exact ⟨c, .init, hrest⟩
    · simp only [AtRest, not_forall] at hrest
      obtain ⟨i, late, hexec⟩ := hrest
      obtain ⟨c₁, hc₁⟩ := Option.ne_none_iff_exists'.mp hexec
      have hless := (queued_of_reachable h).work_lt hc₁
      obtain ⟨c', hreach, hc'⟩ := ih (work c₁) (hwork ▸ hless) (h.step trivial hc₁) rfl
      exact ⟨c', .trans (.step .init rfl hc₁) hreach, hc'⟩

/-- **Semaphores settle.**  From every reachable configuration, if no call starts and no
    signal comes, the calls take at most five steps each, in whatever order, and come to
    rest; once they are at rest, either no call sleeps or every permit is handed out. -/
theorem semaphore_settles (val : Nat) {c : Config Shared Thread}
    (h : machine.Reachable (initial val) c) :
    (∀ es c', machine.runIf (fun _ e => quiet e) es c = some c' →
      es.length ≤ 5 * c.pool.length) ∧
    ∃ c', machine.Reach (fun _ e => quiet e = true) c c' ∧ AtRest c' ∧
      ((∃ (i : Nat) (kind : Kind), c'.pool[i]? = some ⟨i, .schedule kind⟩) →
        acquired c' = val + ups c') := by
  constructor
  · intro es c' hrun
    have hle := work_le c
    suffices hlen : es.length ≤ work c by omega
    clear hle
    induction es generalizing c with
    | nil => exact Nat.zero_le _
    | cons e es ih =>
      obtain ⟨hquiet, c₁, hexec, hrest⟩ := Machine.runIf_cons_eq_some.mp hrun
      cases e with
      | start call => cases hquiet
      | act i a =>
        obtain ⟨signal, late⟩ := a
        rw [quiet, Bool.not_eq_true'] at hquiet
        subst hquiet
        have hless := (queued_of_reachable h).work_lt hexec
        have hlen := ih (h.step trivial hexec) hrest
        rw [List.length_cons]
        omega
  · obtain ⟨c', hreach, hc'⟩ := exists_rest h
    refine ⟨c', hreach, hc', ?_⟩
    rintro ⟨i, kind, hi⟩
    exact hc'.acquired_eq (h.trans (hreach.mono fun _ _ _ => trivial)) hi

theorem semaphore_settles_contended :
    ∃ c, machine.Reachable (initial 1) c ∧
      c.pool = [⟨0, .acquired⟩, ⟨1, .lock .plain⟩, ⟨2, .wakeup⟩] ∧
      ∃ c', machine.Reach (fun _ e => quiet e = true) c c' ∧ AtRest c' := by
  obtain ⟨c, hc, ho⟩ := machine.exists_reachable_of_run
    [.start (.down .plain), .start (.down .plain), .start .up] (initial 1) (fun c => c.pool)
    [⟨0, .acquired⟩, ⟨1, .lock .plain⟩, ⟨2, .wakeup⟩] rfl
  obtain ⟨c', hreach, hrest, -⟩ := (semaphore_settles 1 hc).2
  exact ⟨c, hc, ho, c', hreach, hrest⟩

end VmkLinux.Semaphore
