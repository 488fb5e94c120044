/-
  VmkLinux/Completion/Wakeup.lean
  ===============================
  **Lost wakeups.**  Whether the tokens of a completion have waiters on their way to
  them: of the tasks on `wait.task_list`, at least `min done (number of them)`
  should be awake, that is, have `LTE_RESUME` pending or be executing on the way to
  the next test of `done`.

  A wakeup is spent on the first task of the queue, whatever that task is doing.
  It is wasted where that task is awake already, and an awake task takes its wakeup
  with it where it leaves by timeout or is put back to sleep by the second round of
  `__schedule_timeout`.  `keepsWake` says of an event that it wastes no wakeup beside
  a token that somebody else may wait for; a run of such events keeps enough tasks
  awake (`enough_waiters_awake`), and two calls of `complete` in a row do not
  (`second_complete_wakes_nobody`).
-/
import VmkLinux.Completion.Model

namespace VmkLinux.Completion

open VmkLinux.Interleave

/-! ### The queue -/

/-- The task whose entry a call has on `wait.task_list`. -/
def Pc.onQueue : Pc → Option Nat
  | .relock w | .scheduleTimeout w | .modTimer w | .delTimer w | .schedule w _ => some w.me
  | _ => none

/-- The calls with an entry of task `m`, and those with an entry. -/
def Pc.queuedAs (m : Nat) (pc : Pc) : Nat := if pc.onQueue = some m then 1 else 0

def Pc.queued (pc : Pc) : Nat := if pc.onQueue = none then 0 else 1

/-- The queue holds the entries of the calls: `rm m` and `r` count the others'. -/
structure QueueInv (s : Shared) (rm : Nat → Nat) (r : Nat) (pc : Pc) : Prop where
  count : ∀ m, s.taskList.count m = rm m + pc.queuedAs m
  length : s.taskList.length = r + pc.queued

section QueueInv

variable {s s' : Shared} {rm : Nat → Nat} {r me : Nat} {pc pc' : Pc}

theorem QueueInv.keep (hI : QueueInv s rm r pc) (hlist : s'.taskList = s.taskList)
    (hpc : pc'.onQueue = pc.onQueue) : QueueInv s' rm r pc' := by
  constructor
  · intro m
    rw [hlist, hI.count m, Pc.queuedAs, Pc.queuedAs, hpc]
  · rw [hlist, hI.length, Pc.queued, Pc.queued, hpc]

theorem QueueInv.add (hI : QueueInv s rm r pc) (hpc : pc.onQueue = none)
    (hpc' : pc'.onQueue = some me) : QueueInv (addWaitQueueTail s me) rm r pc' := by
  constructor
  · intro m
    have hcount := hI.count m
    simp only [Pc.queuedAs, hpc, reduceCtorEq, if_false] at hcount
    simp only [addWaitQueueTail, List.count_append, List.count_singleton, Pc.queuedAs, hpc',
      Option.some.injEq, beq_iff_eq]
    omega
  · have hlength := hI.length
    simp only [Pc.queued, hpc, if_true] at hlength
    simp [addWaitQueueTail, Pc.queued, hpc', hlength]

theorem QueueInv.remove (hI : QueueInv s rm r pc) (hpc : pc.onQueue = some me)
    (hpc' : pc'.onQueue = none) : QueueInv (removeWaitQueue s me) rm r pc' := by
  have hmem : me ∈ s.taskList := by
    have hcount := hI.count me
    simp only [Pc.queuedAs, hpc, if_true] at hcount
    exact List.count_pos_iff.mp (by omega)
  constructor
  · intro m
    have hcount := hI.count m
    simp only [Pc.queuedAs, hpc, Option.some.injEq] at hcount
    simp only [removeWaitQueue, List.count_erase, Pc.queuedAs, hpc', reduceCtorEq, if_false,
      beq_iff_eq]
    omega
  · have hlength := hI.length
    simp only [Pc.queued, hpc, reduceCtorEq, if_false] at hlength
    simp only [removeWaitQueue, List.length_erase_of_mem hmem, Pc.queued, hpc', if_true]
    omega

/-- The body of a wait loop keeps the entry or removes it. -/
theorem QueueInv.waitBody {signal : Bool} {w : Wait} (hI : QueueInv s rm r pc)
    (hpc : pc.onQueue = some w.me) (h : waitBody signal s w = (s', pc')) :
    QueueInv s' rm r pc' := by
  rcases waitBody_cases h with ⟨state, rfl, hpc'⟩ | ⟨-, rfl, rfl⟩
  · rcases hpc' with ⟨-, rfl⟩ | ⟨-, rfl⟩
    · exact hI.keep rfl hpc.symm
    · exact hI.keep rfl hpc.symm
  · exact hI.remove hpc rfl

end QueueInv

theorem step_queue {a : Choice} {s s' : Shared} {rm : Nat → Nat} {r : Nat} {pc pc' : Pc}
    (h : step a s pc = some (s', pc')) (hI : QueueInv s rm r pc) : QueueInv s' rm r pc' := by
  cases pc with
  | waitLock w =>
    rcases waitLock_cases h with ⟨-, hbody⟩ | ⟨-, rfl, rfl⟩
    · have hadd : QueueInv (addWaitQueueTail s w.me) rm r (.relock w) := hI.add rfl rfl
      refine hadd.waitBody ?_ hbody
      rfl
    · exact hI.keep rfl rfl
  | relock w =>
    rcases relock_cases h with ⟨-, rfl, rfl⟩ | ⟨-, -, hbody⟩ | ⟨-, -, rfl, rfl⟩
    · exact hI.remove rfl rfl
    · exact hI.waitBody rfl hbody
    · have hremove : QueueInv (removeWaitQueue s w.me) rm r (.returned w true) :=
        hI.remove rfl rfl
      exact hremove.keep rfl rfl
  | _ =>
    simp only [step] at h
    repeat' split at h
    all_goals simp only [Option.some.injEq, Prod.mk.injEq, reduceCtorEq] at h
    all_goals obtain ⟨rfl, rfl⟩ := h
    all_goals exact hI.keep rfl rfl

/-! ### Names -/

/-- The task of a call that is not back yet from its wait. -/
def Pc.task : Pc → Option Nat
  | .waitLock w => some w.me
  | pc => pc.onQueue

theorem Pc.queued_of_onQueue {pc : Pc} {m : Nat} (h : pc.onQueue = some m) : pc.queued = 1 := by
  simp [Pc.queued, h]

theorem Pc.task_of_onQueue {pc : Pc} {m : Nat} (h : pc.onQueue = some m) : pc.task = some m := by
  cases pc <;> first | exact h | simp [Pc.onQueue] at h

theorem waitBody_task {signal : Bool} {s s' : Shared} {w : Wait} {pc : Pc}
    (h : waitBody signal s w = (s', pc)) : pc.task = none ∨ pc.task = some w.me := by
  rcases waitBody_cases h with ⟨state, -, hpc⟩ | ⟨-, -, rfl⟩
  · rcases hpc with ⟨-, rfl⟩ | ⟨-, rfl⟩
    · exact Or.inr rfl
    · exact Or.inr rfl
  · exact Or.inl rfl

theorem step_task {a : Choice} {s s' : Shared} {pc pc' : Pc} (h : step a s pc = some (s', pc')) :
    pc'.task = none ∨ pc'.task = pc.task := by
  cases pc with
  | waitLock w =>
    rcases waitLock_cases h with ⟨-, hbody⟩ | ⟨-, rfl, rfl⟩
    · have htask := waitBody_task hbody
      exact htask
    · exact Or.inl rfl
  | relock w =>
    rcases relock_cases h with ⟨-, rfl, rfl⟩ | ⟨-, -, hbody⟩ | ⟨-, -, rfl, rfl⟩
    · exact Or.inl rfl
    · exact waitBody_task hbody
    · exact Or.inl rfl
  | _ =>
    simp only [step] at h
    repeat' split at h
    all_goals simp only [Option.some.injEq, Prod.mk.injEq, reduceCtorEq] at h
    all_goals obtain ⟨rfl, rfl⟩ := h
    all_goals exact Or.inr rfl

/-- A task is named after its call, and the queue holds the entries of the calls. -/
structure Queued (c : Config Shared Pc) : Prop where
  named : Each (fun i pc => ∀ m, pc.task = some m → m = i) c.pool
  count : ∀ m, c.shared.taskList.count m = total (Pc.queuedAs m) c.pool
  length : c.shared.taskList.length = total Pc.queued c.pool

theorem Queued.queueInv_step {c : Config Shared Pc} (hI : Queued c) {i : Nat} {a : Choice}
    {s' : Shared} {pc pc' : Pc} (hi : c.pool[i]? = some pc)
    (h : step a c.shared pc = some (s', pc')) :
    QueueInv s' (fun m => others (Pc.queuedAs m) c.pool i) (others Pc.queued c.pool i) pc' := by
  refine step_queue h ⟨fun m => ?_, ?_⟩
  · rw [hI.count m, total_eq_others _ hi]
  · rw [hI.length, total_eq_others _ hi]

/-- Starting a call leaves the queue alone. -/
theorem enter_queue {me : Nat} {s s' : Shared} {call : Call} {pc : Pc}
    (h : enter me s call = some (s', pc)) :
    s'.taskList = s.taskList ∧ pc.onQueue = none ∧ ∀ m, pc.task = some m → m = me := by
  cases call with
  | complete late =>
    simp only [enter, complete, wakeUpCommon, Option.some.injEq, Prod.mk.injEq] at h
    obtain ⟨rfl, rfl⟩ := h
    refine ⟨?_, rfl, fun m hm => by cases hm⟩
    split
    · rfl
    · split
      · rfl
      · rfl
  | wait kind timeout stale =>
    simp only [enter, Option.some.injEq, Prod.mk.injEq] at h
    obtain ⟨rfl, rfl⟩ := h
    exact ⟨rfl, rfl, fun m hm => (Option.some.inj hm).symm⟩
  | waitTimeout i =>
    simp only [enter] at h
    split at h
    · simp only [Option.some.injEq, Prod.mk.injEq] at h
      obtain ⟨rfl, rfl⟩ := h
      exact ⟨rfl, rfl, fun m hm => by cases hm⟩
    · cases h

theorem queued_of_reach {ok : Config Shared Pc → Event Call Choice → Prop}
    {c : Config Shared Pc} (h : machine.Reach ok initial c) : Queued c := by
  refine Machine.Reach.invariant Queued ⟨each_nil _, fun _ => rfl, rfl⟩ ?_ ?_ h
  · intro c call s pc _ hI _ hs
    obtain ⟨hlist, hqueue, hname⟩ := enter_queue hs
    constructor
    · exact hI.named.append (fun _ _ _ hu => hu) hname
    · intro m
      simp only [total_append, hlist, hI.count m, Pc.queuedAs, hqueue, reduceCtorEq, if_false,
        Nat.add_zero]
    · simp only [total_append, hlist, hI.length, Pc.queued, hqueue, if_true, Nat.add_zero]
  · intro c i a pc s pc' _ hI _ hi hs
    have hqueue := hI.queueInv_step hi hs
    constructor
    · refine hI.named.set (fun _ _ _ _ hu => hu) fun m hm => ?_
      rcases step_task hs with hnone | hsame
      · rw [hnone] at hm
        cases hm
      · rw [hsame] at hm
        exact hI.named i pc hi m hm
    · intro m
      rw [hqueue.count m, total_set _ _ hi]
    · rw [hqueue.length, total_set _ _ hi]

/-- An entry of the queue belongs to the call its task is named after. -/
theorem Queued.entry {c : Config Shared Pc} (hI : Queued c) {m : Nat}
    (hm : m ∈ c.shared.taskList) : ∃ pc, c.pool[m]? = some pc ∧ pc.onQueue = some m := by
  have hcount : 0 < total (Pc.queuedAs m) c.pool := by
    rw [← hI.count m]
    exact List.count_pos_iff.mpr hm
  obtain ⟨i, pc, hi, hpos⟩ := exists_of_total_pos hcount
  have hqueue : pc.onQueue = some m := by
    by_contra hnot
    simp [Pc.queuedAs, hnot] at hpos
  have hmi := hI.named i pc hi m (Pc.task_of_onQueue hqueue)
  subst hmi
  exact ⟨pc, hi, hqueue⟩

/-! ### Awake tasks -/

/-- Executing, and on the way to the next test of `done`.  A call that has timed
    out leaves without that test; one that is in `schedule_timeout` before its
    `schedule` will sleep first. -/
def Pc.willTest : Pc → Bool
  | .delTimer _ => true
  | .relock w => !w.timedOut
  | _ => false

/-- The queued tasks that are not blocked. -/
def awake (s : Shared) (pc : Pc) : Nat :=
  match pc.onQueue with
  | some m => if s.resume m || pc.willTest then 1 else 0
  | none => 0

def awakeCount (c : Config Shared Pc) : Nat := total (awake c.shared) c.pool

/-- No token is there, or nobody else is queued. -/
def unshared (s : Shared) : Bool := decide (s.done = 0) || decide (s.taskList.length = 1)

/-- The event wastes no wakeup: `complete` finds the first queued task asleep and resumes
    it, or finds it awake where there was no token or nobody else waits; a call that
    `schedule_timeout` brings back with nothing left, or sends to sleep again, finds no
    token or keeps an `LTE_RESUME`; and a call that leaves by timeout with an
    `LTE_RESUME` leaves no token, or nobody behind. -/
def keepsWake (c : Config Shared Pc) : Event Call Choice → Bool
  | .start (.complete late) =>
      match c.shared.taskList.head? with
      | none => true
      | some task =>
          if (c.pool[task]?.map (awake c.shared)) = some 0 then wakes c.shared late task
          else unshared c.shared
  | .act i a =>
      match c.pool[i]? with
      | some (.delTimer w) =>
          (c.shared.timerArmed w.me && decide (0 < a.diff)) || c.shared.resume w.me
            || decide (c.shared.done = 0)
      | some (.relock w) => !w.timedOut || !c.shared.resume w.me || unshared c.shared
      | _ => true
  | _ => true

/-- Enough tasks are awake: one for each token, or all `q` of them. -/
def Enough (s : Shared) (u q : Nat) : Prop := s.done ≤ u ∨ q ≤ u

theorem awake_le_of_resume {s s' : Shared} {pc : Pc}
    (h : ∀ m, pc.onQueue = some m → s.resume m = true → s'.resume m = true) :
    awake s pc ≤ awake s' pc := by
  unfold awake
  split
  · rename_i m hm
    cases hres : s.resume m with
    | false =>
      simp only [Bool.false_or]
      split
      · simp [*]
      · omega
    | true => simp [h m hm hres]
  · exact Nat.le_refl _

theorem awake_of_willTest {s : Shared} {pc : Pc} {m : Nat} (hpc : pc.onQueue = some m)
    (htest : pc.willTest = true) : awake s pc = 1 := by
  simp [awake, hpc, htest]

theorem awake_of_asleep {s : Shared} {pc : Pc} {m : Nat} (hpc : pc.onQueue = some m)
    (hres : s.resume m = false) (htest : pc.willTest = false) : awake s pc = 0 := by
  simp [awake, hpc, hres, htest]

theorem awake_le_one (s : Shared) (pc : Pc) : awake s pc ≤ 1 := by
  unfold awake
  split
  · split
    · exact Nat.le_refl _
    · exact Nat.zero_le _
  · exact Nat.zero_le _

theorem awake_of_resume {s : Shared} {pc : Pc} {m : Nat} (hpc : pc.onQueue = some m)
    (hres : s.resume m = true) : awake s pc = 1 := by
  simp [awake, hpc, hres]

theorem waitBody_resume {signal : Bool} {s s' : Shared} {w : Wait} {pc : Pc}
    (h : waitBody signal s w = (s', pc)) : s'.resume = s.resume := by
  rcases waitBody_cases h with ⟨state, rfl, -⟩ | ⟨-, rfl, -⟩
  · rfl
  · rfl

/-- A step touches the `LTE_RESUME` of no other task. -/
theorem step_resume {a : Choice} {s s' : Shared} {pc pc' : Pc}
    (h : step a s pc = some (s', pc')) {m : Nat} (hm : pc.task ≠ some m) :
    s'.resume m = s.resume m := by
  cases pc with
  | schedule w timed =>
    have hne : m ≠ w.me := fun heq => hm (congrArg some heq.symm)
    simp only [step] at h
    repeat' split at h
    all_goals simp only [Option.some.injEq, Prod.mk.injEq, reduceCtorEq] at h
    all_goals obtain ⟨rfl, rfl⟩ := h
    all_goals simp [waitEvent, hne]
  | waitLock w =>
    rcases waitLock_cases h with ⟨-, hbody⟩ | ⟨-, rfl, rfl⟩
    · rw [waitBody_resume hbody]
      rfl
    · rfl
  | relock w =>
    rcases relock_cases h with ⟨-, rfl, rfl⟩ | ⟨-, -, hbody⟩ | ⟨-, -, rfl, rfl⟩
    · rfl
    · rw [waitBody_resume hbody]
    · rfl
  | _ =>
    simp only [step] at h
    repeat' split at h
    all_goals simp only [Option.some.injEq, Prod.mk.injEq, reduceCtorEq] at h
    all_goals obtain ⟨rfl, rfl⟩ := h
    all_goals rfl

/-- A call that sleeps without a timer does not come back timed out. -/
def Pc.Untimed : Pc → Prop
  | .schedule w false => w.timedOut = false
  | _ => True

theorem waitBody_untimed {signal : Bool} {s s' : Shared} {w : Wait} {pc : Pc}
    (h : waitBody signal s w = (s', pc)) : pc.Untimed := by
  rcases waitBody_cases h with ⟨state, -, hpc⟩ | ⟨-, -, rfl⟩
  · rcases hpc with ⟨hplain, rfl⟩ | ⟨-, rfl⟩
    · simp [Pc.Untimed, Wait.timedOut, hplain]
    · exact trivial
  · exact trivial

theorem step_untimed {a : Choice} {s s' : Shared} {pc pc' : Pc}
    (h : step a s pc = some (s', pc')) : pc'.Untimed := by
  cases pc with
  | waitLock w =>
    rcases waitLock_cases h with ⟨-, hbody⟩ | ⟨-, rfl, rfl⟩
    · exact waitBody_untimed hbody
    · exact trivial
  | relock w =>
    rcases relock_cases h with ⟨-, rfl, rfl⟩ | ⟨-, -, hbody⟩ | ⟨-, -, rfl, rfl⟩
    · exact trivial
    · exact waitBody_untimed hbody
    · exact trivial
  | scheduleTimeout w =>
    simp only [step] at h
    repeat' split at h
    all_goals simp only [Option.some.injEq, Prod.mk.injEq] at h
    all_goals obtain ⟨rfl, rfl⟩ := h
    · rename_i hmax
      simp [Pc.Untimed, Wait.timedOut, hmax, maxScheduleTimeout]
    · exact trivial
    · exact trivial
  | _ =>
    simp only [step] at h
    repeat' split at h
    all_goals simp only [Option.some.injEq, Prod.mk.injEq, reduceCtorEq] at h
    all_goals obtain ⟨rfl, rfl⟩ := h
    all_goals exact trivial

theorem untimed_of_reach {ok : Config Shared Pc → Event Call Choice → Prop}
    {c : Config Shared Pc} (h : machine.Reach ok initial c) :
    Each (fun _ pc => pc.Untimed) c.pool := by
  refine Machine.Reach.invariant (fun c => Each (fun _ pc => pc.Untimed) c.pool)
    (each_nil _) ?_ ?_ h
  · intro c call s pc _ hI _ hs
    refine hI.append (fun _ _ _ hu => hu) ?_
    have hqueue := (enter_queue hs).2.1
    cases pc with
    | schedule w timed => cases hqueue
    | _ => exact trivial
  · intro c i a pc s pc' _ hI _ hi hs
    exact hI.set (fun _ _ _ _ hu => hu) (step_untimed hs)

/-! ### Enough tasks stay awake -/

/-- What `keepsWake` asks of a step, with `q` tasks queued. -/
def KeepsStep (a : Choice) (s : Shared) (q : Nat) : Pc → Prop
  | .delTimer w =>
      (s.timerArmed w.me = true ∧ 0 < a.diff) ∨ s.resume w.me = true ∨ s.done = 0
  | .relock w => w.timedOut = false ∨ s.resume w.me = false ∨ s.done = 0 ∨ q = 1
  | _ => True

section Enough

variable {a : Choice} {s s' : Shared} {ru rq m : Nat} {pc pc' : Pc} {w : Wait}

theorem Enough.mono {u u' q : Nat} (hI : Enough s u q) (hdone : s'.done = s.done)
    (hu : u ≤ u') : Enough s' u' q := by
  rcases hI with htokens | hall
  · exact Or.inl (by omega)
  · exact Or.inr (by omega)

/-- A call that stays on the queue must stay awake if it was. -/
theorem Enough.stay (hI : Enough s (ru + awake s pc) (rq + pc.queued))
    (hdone : s'.done = s.done) (hpc : pc.onQueue = some m) (hpc' : pc'.onQueue = some m)
    (hawake : awake s pc ≤ awake s' pc') : Enough s' (ru + awake s' pc') (rq + pc'.queued) := by
  rw [Pc.queued_of_onQueue hpc] at hI
  rw [Pc.queued_of_onQueue hpc']
  exact hI.mono hdone (by omega)

theorem Enough.stay_awake (hI : Enough s (ru + awake s pc) (rq + pc.queued))
    (hdone : s'.done = s.done) (hpc : pc.onQueue = some m) (hpc' : pc'.onQueue = some m)
    (hawake : awake s' pc' = 1) : Enough s' (ru + awake s' pc') (rq + pc'.queued) := by
  refine hI.stay hdone hpc hpc' ?_
  rw [hawake]
  exact awake_le_one s pc

theorem Enough.of_no_token (h : s.done = 0) (u q : Nat) : Enough s u q := Or.inl (by omega)

theorem relock_enough (h : step a s (.relock w) = some (s', pc'))
    (hok : KeepsStep a s (rq + Pc.queued (.relock w)) (.relock w))
    (hI : Enough s (ru + awake s (.relock w)) (rq + Pc.queued (.relock w))) :
    Enough s' (ru + awake s' pc') (rq + pc'.queued) := by
  have hqueued : (Pc.relock w).queued = 1 := rfl
  rcases relock_cases h with ⟨hout, rfl, rfl⟩ | ⟨hout, hdone, hbody⟩ | ⟨hout, hdone, rfl, rfl⟩
  · show s.done ≤ ru + 0 ∨ rq + 0 ≤ ru + 0
    cases hres : s.resume w.me with
    | false =>
      rw [awake_of_asleep rfl hres (by simp [Pc.willTest, hout])] at hI
      rcases hI with htokens | hall
      · exact Or.inl (by omega)
      · exact Or.inr (by omega)
    | true =>
      simp only [KeepsStep, hout, hres, hqueued, Bool.true_eq_false, false_or] at hok
      omega
  · refine Enough.of_no_token ?_ _ _
    rw [waitBody_done hbody, hdone]
  · show s.done - 1 ≤ ru + 0 ∨ rq + 0 ≤ ru + 0
    rw [awake_of_willTest rfl (by simp [Pc.willTest, hout])] at hI
    rcases hI with htokens | hall
    · exact Or.inl (by omega)
    · exact Or.inr (by omega)

theorem delTimer_enough (h : step a s (.delTimer w) = some (s', pc'))
    (hok : KeepsStep a s (rq + Pc.queued (.delTimer w)) (.delTimer w))
    (hI : Enough s (ru + awake s (.delTimer w)) (rq + Pc.queued (.delTimer w))) :
    Enough s' (ru + awake s' pc') (rq + pc'.queued) := by
  obtain ⟨state, rfl, hpc'⟩ := delTimer_cases h
  have hqueue : pc'.onQueue = some w.me := by
    rcases hpc' with ⟨-, rfl⟩ | ⟨-, rfl⟩
    · rfl
    · rfl
  rcases hok with ⟨harmed, hdiff⟩ | hres | hdone
  · -- the timer was still pending: there is time left, and the call goes to test `done`
    have htest : pc'.willTest = true := by
      rcases hpc' with ⟨-, rfl⟩ | ⟨hbreak, -⟩
      · have hnot : ¬ a.diff < 0 := by omega
        simp only [Pc.willTest, Wait.timedOut, hnot, if_false, Bool.not_eq_true',
          decide_eq_false_iff_not]
        rintro ⟨-, hzero⟩
        omega
      · simp [timeoutBreaks, harmed] at hbreak
    exact hI.stay_awake rfl rfl hqueue (awake_of_willTest hqueue htest)
  · exact hI.stay_awake rfl rfl hqueue (awake_of_resume hqueue hres)
  · exact Enough.of_no_token hdone _ _

theorem schedule_enough {timed : Bool} (h : step a s (.schedule w timed) = some (s', pc'))
    (hpc : (Pc.schedule w timed).Untimed)
    (hI : Enough s (ru + awake s (.schedule w timed)) (rq + Pc.queued (.schedule w timed))) :
    Enough s' (ru + awake s' pc') (rq + pc'.queued) := by
  have hback : s'.done = s.done ∧ pc' = if timed then .delTimer w else .relock w := by
    simp only [step] at h
    split at h
    · simp only [Option.some.injEq, Prod.mk.injEq] at h
      obtain ⟨rfl, rfl⟩ := h
      exact ⟨rfl, rfl⟩
    · split at h
      · simp only [Option.some.injEq, Prod.mk.injEq] at h
        obtain ⟨rfl, rfl⟩ := h
        exact ⟨rfl, rfl⟩
      · cases h
  obtain ⟨hdone, rfl⟩ := hback
  cases timed with
  | true => exact hI.stay_awake hdone rfl rfl (awake_of_willTest rfl rfl)
  | false =>
    have htest : (Pc.relock w).willTest = true := congrArg (!·) hpc
    exact hI.stay_awake hdone rfl rfl (awake_of_willTest rfl htest)

/-- One step; `ru` and `rq` are the others' shares of the awake and of the queued. -/
theorem step_enough (h : step a s pc = some (s', pc')) (hpc : pc.Untimed)
    (hok : KeepsStep a s (rq + pc.queued) pc)
    (hI : Enough s (ru + awake s pc) (rq + pc.queued)) :
    Enough s' (ru + awake s' pc') (rq + pc'.queued) := by
  cases pc with
  | waitLock w =>
    rcases waitLock_cases h with ⟨hdone, hbody⟩ | ⟨hdone, rfl, rfl⟩
    · refine Enough.of_no_token ?_ _ _
      rw [waitBody_done hbody]
      exact hdone
    · rcases hI with htokens | hall
      · exact Or.inl (Nat.le_trans (Nat.sub_le _ _) htokens)
      · exact Or.inr hall
  | relock w => exact relock_enough h hok hI
  | delTimer w => exact delTimer_enough h hok hI
  | schedule w timed => exact schedule_enough h hpc hI
  | scheduleTimeout w =>
    have hstay : s' = s ∧ pc'.onQueue = some w.me := by
      simp only [step] at h
      repeat' split at h
      all_goals simp only [Option.some.injEq, Prod.mk.injEq] at h
      all_goals obtain ⟨rfl, rfl⟩ := h
      all_goals exact ⟨rfl, rfl⟩
    obtain ⟨rfl, hqueue⟩ := hstay
    cases hres : s'.resume w.me with
    | false =>
      refine hI.stay rfl rfl hqueue ?_
      rw [awake_of_asleep rfl hres rfl]
      exact Nat.zero_le _
    | true => exact hI.stay_awake rfl rfl hqueue (awake_of_resume hqueue hres)
  | modTimer w =>
    simp only [step, Option.some.injEq, Prod.mk.injEq] at h
    obtain ⟨rfl, rfl⟩ := h
    exact hI.stay rfl rfl rfl (Nat.le_refl _)
  | _ => cases h

end Enough

theorem keepsStep_of_keepsWake {c : Config Shared Pc} {i : Nat} {a : Choice} {pc : Pc}
    (hi : c.pool[i]? = some pc) (hok : keepsWake c (.act i a) = true) :
    KeepsStep a c.shared c.shared.taskList.length pc := by
  simp only [keepsWake, hi] at hok
  cases pc with
  | delTimer w => simpa [KeepsStep, or_assoc] using hok
  | relock w => simpa [KeepsStep, unshared, or_assoc] using hok
  | _ => exact trivial

theorem complete_resume {s : Shared} {late : Bool} {m : Nat} (h : s.resume m = true) :
    (complete s late).resume m = true := by
  simp only [complete, wakeUpCommon]
  split
  · exact h
  · split
    · rename_i task _ _
      by_cases heq : m = task
      · simp [sendEvent, heq]
      · simp [sendEvent, heq, h]
    · exact h

theorem complete_resume_first {s : Shared} {late : Bool} {task : Nat}
    (hfirst : s.taskList.head? = some task) (hwakes : wakes s late task = true) :
    (complete s late).resume task = true := by
  have hwakes' : wakes { s with done := (s.done + 1) % 2 ^ 32 } late task = true := hwakes
  simp only [complete, wakeUpCommon, hfirst, hwakes', if_true]
  simp [sendEvent]

theorem complete_enough {c : Config Shared Pc} {late : Bool} (hQ : Queued c)
    (hok : keepsWake c (.start (.complete late)) = true)
    (hI : Enough c.shared (awakeCount c) c.shared.taskList.length) :
    Enough (complete c.shared late) (total (awake (complete c.shared late)) c.pool)
      c.shared.taskList.length := by
  have hmono : ∀ pc, awake c.shared pc ≤ awake (complete c.shared late) pc := by
    intro pc
    exact awake_le_of_resume fun m _ hm => complete_resume hm
  have hle : awakeCount c ≤ total (awake (complete c.shared late)) c.pool :=
    total_le_total fun pc _ => hmono pc
  have hdone := complete_done c.shared late
  have hdone' : (c.shared.done + 1) % 2 ^ 32 ≤ c.shared.done + 1 := Nat.mod_le _ _
  unfold Enough at hI ⊢
  simp only [keepsWake] at hok
  split at hok
  · rename_i hnone
    rw [List.head?_eq_none_iff.mp hnone]
    exact Or.inr (Nat.zero_le _)
  · rename_i task hfirst
    obtain ⟨pc, hpc, hqueue⟩ := hQ.entry (List.mem_of_head? hfirst)
    simp only [hpc, Option.map_some, Option.some.injEq] at hok
    split at hok
    · -- the first task was asleep, and is one more that is awake
      rename_i hasleep
      have hawake := awake_of_resume hqueue (complete_resume_first hfirst hok)
      have hothers := others_le_others fun j t (_ : j ≠ task) (_ : c.pool[j]? = some t) => hmono t
      have hbefore := total_eq_others (awake c.shared) hpc
      have hafter := total_eq_others (awake (complete c.shared late)) hpc
      unfold awakeCount at hI hle
      omega
    · -- the first task was awake
      rename_i hup
      have hpos : awake c.shared pc ≤ awakeCount c := le_total _ hpc
      simp only [unshared, Bool.or_eq_true, decide_eq_true_eq] at hok
      rcases hok with hnone | hone
      · exact Or.inl (by omega)
      · exact Or.inr (by omega)

/-- **Enough waiters are awake.**  In a run that wastes no wakeup, there are never fewer
    queued tasks awake than tokens, but where all of them are. -/
theorem enough_of_reach {c : Config Shared Pc}
    (h : machine.Reach (fun c e => keepsWake c e = true) initial c) :
    Enough c.shared (awakeCount c) c.shared.taskList.length := by
  refine Machine.Reach.invariant
    (fun c => Enough c.shared (awakeCount c) c.shared.taskList.length)
    (Or.inr (Nat.zero_le _)) ?_ ?_ h
  · intro c call s pc hc hI hok hs
    have hQ := queued_of_reach hc
    obtain ⟨hlist, hqueue, -⟩ := enter_queue hs
    have hnew : awake s pc = 0 := by simp [awake, hqueue]
    simp only [awakeCount, total_append, hlist, hnew, Nat.add_zero]
    cases call with
    | complete late =>
      simp only [machine, enter, Option.some.injEq, Prod.mk.injEq] at hs
      obtain ⟨rfl, rfl⟩ := hs
      exact complete_enough hQ hok hI
    | wait kind timeout stale =>
      simp only [machine, enter, Option.some.injEq, Prod.mk.injEq] at hs
      obtain ⟨rfl, rfl⟩ := hs
      refine hI.mono rfl (total_le_total fun u hu => awake_le_of_resume fun m hm hres => ?_)
      obtain ⟨j, hj⟩ := List.mem_iff_getElem?.mp hu
      have hmj := hQ.named j u hj m (Pc.task_of_onQueue hm)
      have hlt := (List.getElem?_eq_some_iff.mp hj).1
      have hne : m ≠ c.pool.length := by omega
      simp [hne, hres]
    | waitTimeout i =>
      simp only [machine, enter] at hs
      split at hs
      · simp only [Option.some.injEq, Prod.mk.injEq] at hs
        obtain ⟨rfl, rfl⟩ := hs
        refine hI.mono rfl (total_le_total fun u _ => awake_le_of_resume fun m _ hres => ?_)
        by_cases heq : m = i
        · simp [sendEvent, heq]
        · simp [sendEvent, heq, hres]
      · cases hs
  · intro c i a pc s pc' hc hI hok hi hs
    have hQ := queued_of_reach hc
    have hpc := untimed_of_reach hc i pc hi
    have hkeeps := keepsStep_of_keepsWake hi hok
    have hqueue := (hQ.queueInv_step hi hs).length
    rw [hQ.length, total_eq_others _ hi] at hkeeps
    rw [hQ.length, awakeCount, total_eq_others _ hi, total_eq_others _ hi] at hI
    have hstep := step_enough hs hpc hkeeps hI
    rw [awakeCount, total_set _ _ hi, hqueue]
    refine hstep.mono rfl (Nat.add_le_add_right (others_le_others fun j u hji hj => ?_) _)
    refine awake_le_of_resume fun m hm hres => ?_
    have hmj := hQ.named j u hj m (Pc.task_of_onQueue hm)
    have hother : pc.task ≠ some m := by
      intro htask
      have hmi := hQ.named i pc hi m htask
      omega
    rw [step_resume hs hother, hres]

/-- **No wakeup is lost** in a run that wastes none: at least as many queued tasks are
    awake as there are tokens or tasks. -/
theorem enough_waiters_awake {c : Config Shared Pc}
    (h : machine.Reach (fun c e => keepsWake c e = true) initial c) :
    min c.shared.done c.shared.taskList.length ≤ awakeCount c := by
  rcases enough_of_reach h with htokens | hall
  · exact Nat.le_trans (Nat.min_le_left _ _) htokens
  · exact Nat.le_trans (Nat.min_le_right _ _) hall

/-- Two waiters sleep; the first is resumed and consumes its token, then `complete`
    finds the second at the head of the queue. -/
theorem second_waiter_awake : ∃ c,
    machine.Reach (fun c e => keepsWake c e = true) initial c ∧
    (c.shared.done, c.shared.taskList) = (1, [1]) ∧
    min c.shared.done c.shared.taskList.length ≤ awakeCount c := by
  obtain ⟨c, hc, hobs⟩ := machine.exists_reach_of_runIf keepsWake
    [.start (.wait .plain 0 false), .start (.wait .timeout 5 false),
      .act 0 ⟨false, 0⟩, .act 1 ⟨false, 0⟩, .act 1 ⟨false, 0⟩, .act 1 ⟨false, 0⟩,
      .start (.complete false), .act 0 ⟨false, 0⟩, .act 0 ⟨false, 0⟩,
      .start (.complete false), .act 1 ⟨false, 0⟩]
    initial (fun c => (c.shared.done, c.shared.taskList)) (1, [1]) (by decide)
  exact ⟨c, hc, hobs, enough_waiters_awake hc⟩

/-- Two waiters sleep, and `complete` is called twice before the first of them runs:
    both wakeups go to the first, and the second sleeps beside a token. -/
theorem second_complete_wakes_nobody : ∃ c, machine.Reachable initial c ∧
    ¬ (0 < c.shared.done → c.shared.taskList ≠ [] →
      min c.shared.done c.shared.taskList.length ≤ awakeCount c) := by
  obtain ⟨c, hc, hobs⟩ := machine.exists_reachable_of_run
    [.start (.wait .plain 0 false), .start (.wait .plain 0 false),
      .act 0 ⟨false, 0⟩, .act 1 ⟨false, 0⟩,
      .start (.complete false), .start (.complete false)]
    initial (fun c => (c.shared.done, c.shared.taskList, awakeCount c)) (2, [0, 1], 1) (by decide)
  simp only [Prod.mk.injEq] at hobs
  obtain ⟨hdone, hlist, hawake⟩ := hobs
  refine ⟨c, hc, ?_⟩
  rw [hdone, hlist, hawake]
  decide

end VmkLinux.Completion
