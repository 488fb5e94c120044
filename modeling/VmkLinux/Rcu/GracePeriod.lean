/-
  VmkLinux/Rcu/GracePeriod.lean
  =============================
  **Grace periods.**

  A callback may run once its head is older than `rdp->generation`.  The generation
  is advanced in three places, each time after a look at `nestingLevel` that found
  it zero, with `rdp->lock` held since before the look.  A head that was queued
  before saw the lock free, so at that look all sections that were open when it was
  queued had been closed (`Aged`).  Sections that are opened later do not matter:
  they are fresh calls, which no queued head waits for.
-/
import VmkLinux.Rcu.Queue

namespace VmkLinux.Rcu

open VmkLinux.Interleave

/-! ### The lock -/

/-- Calls that hold `rdp->lock` between two steps. -/
def Pc.holdsLock : Pc → Nat
  | .unlockTest | .unlockInc | .unlockUnlock | .callTest _ _ | .callInc _ _ | .callUnlock _ _
  | .timerTest | .timerInc | .timerUnlock => 1
  | _ => 0

/-- Calls that have found `nestingLevel` zero and are about to advance `generation`. -/
def Pc.increments : Pc → Nat
  | .unlockInc | .callInc _ _ | .timerInc => 1
  | _ => 0

theorem Pc.increments_le_holdsLock (pc : Pc) : pc.increments ≤ pc.holdsLock := by
  cases pc <;> simp [Pc.increments, Pc.holdsLock]

@[simp] theorem holdsLock_callReturn (me : Nat) (wakes : Bool) :
    (callReturn me wakes).holdsLock = 0 := by
  cases wakes <;> rfl

/-- The lock is held by one call or by none; `n` counts its holders. -/
def Locked (s : Rdp) (n : Nat) : Prop := n = if s.lock then 1 else 0

theorem Locked.callbackLoop {s s' : Rdp} {r : Runner} {pc : Pc} {n : Nat}
    (h : callbackLoop s r = (s', pc)) (hI : Locked s n) : Locked s' (n + pc.holdsLock) := by
  obtain ⟨ok, rfl, rfl, -⟩ | ⟨first, -, -, rfl, rfl⟩ := callbackLoop_cases h <;> exact hI

theorem step_locked {s s' : Rdp} {pc pc' : Pc} {n : Nat} (h : step s pc = some (s', pc'))
    (hI : Locked s (n + pc.holdsLock)) : Locked s' (n + pc'.holdsLock) := by
  -- taking the lock finds nobody holding it, releasing it leaves nobody
  have hrelease : n + 1 = (if s.lock then 1 else 0) → n = 0 := by
    intro hone
    split at hone <;> omega
  cases pc with
  | runLock r =>
    simp only [step] at h
    split at h
    · cases h
    · simp only [Option.some.injEq] at h
      exact Locked.callbackLoop h hI
  | unlockLock | callLock | timerLock =>
    simp only [step] at h
    split at h
    · cases h
    · rename_i hfree
      simp only [Option.some.injEq, Prod.mk.injEq] at h
      obtain ⟨rfl, rfl⟩ := h
      have hnone : n = 0 := by simpa [Locked, Pc.holdsLock, hfree] using hI
      subst hnone
      rfl
  | unlockInc | unlockUnlock | callInc | callUnlock | timerInc | timerUnlock =>
    simp only [step, Option.some.injEq, Prod.mk.injEq] at h
    obtain ⟨rfl, rfl⟩ := h
    exact hrelease hI
  | callSchedule me wakes | callModTimer me wakes =>
    simp only [step, Option.some.injEq, Prod.mk.injEq] at h
    obtain ⟨rfl, rfl⟩ := h
    rw [holdsLock_callReturn]
    exact hI
  | _ =>
    simp only [step] at h
    repeat' split at h
    all_goals simp only [Option.some.injEq, Prod.mk.injEq, reduceCtorEq] at h
    all_goals obtain ⟨rfl, rfl⟩ := h
    all_goals exact hI

theorem enter_locked {me : Nat} {s s' : Rdp} {call : Call} {pc : Pc} {n : Nat}
    (h : enter me s call = some (s', pc)) (hI : Locked s n) :
    Locked s' (n + pc.holdsLock) := by
  cases call <;>
  · simp only [enter] at h
    repeat' split at h
    all_goals simp only [Option.some.injEq, Prod.mk.injEq, reduceCtorEq] at h
    all_goals obtain ⟨rfl, rfl⟩ := h
    all_goals exact hI

variable {ok : Config Rdp Pc → Event Call Unit → Prop} {c : Config Rdp Pc}

theorem locked_of_reach (h : machine.Reach ok initial c) :
    Locked c.shared (total Pc.holdsLock c.pool) := by
  refine Machine.Reach.invariant (fun c => Locked c.shared (total Pc.holdsLock c.pool)) ?_
    ?_ ?_ h
  · exact rfl
  · intro c call s' pc _ hI _ hs
    simp only [total_append]
    exact enter_locked hs hI
  · intro c i a pc s' pc' _ hI _ hi hs
    rw [total_eq_others _ hi] at hI
    simp only [total_set _ pc' hi]
    exact step_locked hs hI

/-! ### The sections -/

/-- Whether a call is the section `m`. -/
def Pc.reads (m : Nat) : Pc → Nat
  | .reading me => if me = m then 1 else 0
  | _ => 0

@[simp] theorem reads_callReturn (m me : Nat) (wakes : Bool) :
    (callReturn me wakes).reads m = 0 := by
  cases wakes <;> rfl

/-- `sections` names the open sections and `nestingLevel` counts them. -/
def Sections (s : Rdp) (reads : Nat → Nat) : Prop :=
  (∀ m, s.sections.count m = reads m) ∧ s.nestingLevel = s.sections.length

theorem Sections.callbackLoop {s s' : Rdp} {r : Runner} {pc : Pc} {reads : Nat → Nat}
    (h : callbackLoop s r = (s', pc)) (hI : Sections s reads) :
    Sections s' fun m => reads m + pc.reads m := by
  obtain ⟨ok, rfl, rfl, -⟩ | ⟨first, -, -, rfl, rfl⟩ := callbackLoop_cases h <;> exact hI

theorem step_sections {s s' : Rdp} {pc pc' : Pc} {reads : Nat → Nat}
    (h : step s pc = some (s', pc')) (hI : Sections s fun m => reads m + pc.reads m) :
    Sections s' fun m => reads m + pc'.reads m := by
  cases pc with
  | runLock r =>
    simp only [step] at h
    split at h
    · cases h
    · simp only [Option.some.injEq] at h
      exact Sections.callbackLoop h hI
  | reading me =>
    simp only [step, Option.some.injEq, Prod.mk.injEq] at h
    obtain ⟨rfl, rfl⟩ := h
    obtain ⟨hcount, hlen⟩ := hI
    have hme := hcount me
    simp only [Pc.reads, if_true] at hme
    have hmem : me ∈ s.sections := List.count_pos_iff.mp (by omega)
    have hnone : ∀ m,
        Pc.reads m (if s.nestingLevel - 1 = 0 then .unlockTestQLen else .done) = 0 := by
      intro m
      split <;> rfl
    constructor
    · intro m
      have hm : s.sections.count m = reads m + if me = m then 1 else 0 := hcount m
      change (s.sections.erase me).count m = reads m + _
      rw [hnone m, List.count_erase, hm]
      simp only [beq_iff_eq]
      split <;> omega
    · change s.nestingLevel - 1 = ((s.sections.erase me).length : Int)
      have hpos := List.length_pos_of_mem hmem
      rw [List.length_erase_of_mem hmem, hlen]
      omega
  | callSchedule me wakes | callModTimer me wakes =>
    simp only [step, Option.some.injEq, Prod.mk.injEq] at h
    obtain ⟨rfl, rfl⟩ := h
    simp only [reads_callReturn]
    exact hI
  | _ =>
    simp only [step] at h
    repeat' split at h
    all_goals simp only [Option.some.injEq, Prod.mk.injEq, reduceCtorEq] at h
    all_goals obtain ⟨rfl, rfl⟩ := h
    all_goals exact hI

theorem enter_sections {me : Nat} {s s' : Rdp} {call : Call} {pc : Pc} {reads : Nat → Nat}
    (h : enter me s call = some (s', pc)) (hI : Sections s reads) :
    Sections s' fun m => reads m + pc.reads m := by
  cases call with
  | read =>
    simp only [enter, Option.some.injEq, Prod.mk.injEq] at h
    obtain ⟨rfl, rfl⟩ := h
    obtain ⟨hcount, hlen⟩ := hI
    constructor
    · intro m
      change (me :: s.sections).count m = _
      rw [List.count_cons, hcount m]
      simp only [Pc.reads, beq_iff_eq]
    · change s.nestingLevel + 1 = ((me :: s.sections).length : Int)
      rw [List.length_cons, hlen]
      omega
  | _ =>
    simp only [enter] at h
    repeat' split at h
    all_goals simp only [Option.some.injEq, Prod.mk.injEq, reduceCtorEq] at h
    all_goals obtain ⟨rfl, rfl⟩ := h
    all_goals exact hI

theorem sections_of_reach (h : machine.Reach ok initial c) :
    Sections c.shared fun m => total (Pc.reads m) c.pool := by
  refine Machine.Reach.invariant
    (fun c => Sections c.shared fun m => total (Pc.reads m) c.pool) ?_ ?_ ?_ h
  · exact ⟨fun m => rfl, rfl⟩
  · intro c call s' pc _ hI _ hs
    simp only [total_append]
    exact enter_sections hs hI
  · intro c i a pc s' pc' _ hI _ hi hs
    simp only [total_eq_others _ hi] at hI
    simp only [total_set _ pc' hi]
    exact step_sections hs hI

/-- A call in its section is among the open sections. -/
theorem mem_sections_of_reading (h : machine.Reach ok initial c) {m : Nat}
    (hm : c.pool[m]? = some (.reading m)) : m ∈ c.shared.sections := by
  have hle := le_total (Pc.reads m) hm
  simp only [Pc.reads, if_true] at hle
  have hcount : c.shared.sections.count m = total (Pc.reads m) c.pool := (sections_of_reach h).1 m
  exact List.count_pos_iff.mp (by omega)

/-! ### Aging -/

/-- The sections that were open when `head` was queued have been closed. -/
def Rdp.Waited (s : Rdp) (head : Nat) : Prop := ∀ m ∈ s.waitFor head, m ∉ s.sections

/-- A head that is older than `generation` has waited; and so has every head while a
    call is about to advance `generation`. -/
def Aged (s : Rdp) (increments : Nat) : Prop :=
  (∀ head, s.headGeneration head < s.generation → s.Waited head) ∧
  (0 < increments → ∀ head, s.Waited head)

@[simp] theorem increments_callReturn (me : Nat) (wakes : Bool) :
    (callReturn me wakes).increments = 0 := by
  cases wakes <;> rfl

/-- With `nestingLevel` zero, every head has waited. -/
theorem Sections.waited {s : Rdp} {reads : Nat → Nat} (hS : Sections s reads)
    (hzero : s.nestingLevel = 0) (head : Nat) : s.Waited head := by
  intro m _ hm
  have hlen := hS.2
  have hpos := List.length_pos_of_mem hm
  omega

theorem Aged.callbackLoop {s s' : Rdp} {r : Runner} {pc : Pc} {n : Nat}
    (h : callbackLoop s r = (s', pc)) (hI : Aged s n) : Aged s' (n + pc.increments) := by
  obtain ⟨ok, rfl, rfl, -⟩ | ⟨first, -, -, rfl, rfl⟩ := callbackLoop_cases h <;> exact hI

/-- One step keeps the ages right.  `n` counts the other calls that are about to
    advance `generation`; there is none while the lock is free. -/
theorem step_aged {s s' : Rdp} {pc pc' : Pc} {n : Nat} {reads : Nat → Nat}
    (h : step s pc = some (s', pc')) (hS : Sections s reads)
    (hfree : s.lock = false → n = 0) (hI : Aged s (n + pc.increments)) :
    Aged s' (n + pc'.increments) := by
  -- advancing `generation` is safe for every head by the second half of `Aged`
  have hadvance : Aged s (n + 1) →
      Aged { s with generation := s.generation + 1, lock := false } (n + 0) := by
    intro hA
    have hall := hA.2 (Nat.succ_pos n)
    exact ⟨fun head _ => hall head, fun _ => hall⟩
  have htest : ∀ {pc₁ pc₂ : Pc}, pc₁.increments = 1 → pc₂.increments = 0 → Aged s (n + 0) →
      Aged s (n + (if s.nestingLevel = 0 then pc₁ else pc₂).increments) := by
    intro pc₁ pc₂ h₁ h₂ hA
    split
    · rename_i hzero
      exact ⟨hA.1, fun _ => hS.waited hzero⟩
    · rw [h₂]
      exact hA
  cases pc with
  | runLock r =>
    simp only [step] at h
    split at h
    · cases h
    · simp only [Option.some.injEq] at h
      exact Aged.callbackLoop h hI
  | reading me =>
    simp only [step, Option.some.injEq, Prod.mk.injEq] at h
    obtain ⟨rfl, rfl⟩ := h
    have hshrink : ∀ head, s.Waited head →
        Rdp.Waited { s with
          nestingLevel := s.nestingLevel - 1, sections := s.sections.erase me } head := by
      intro head hW m hm hmem
      exact hW m hm (List.mem_of_mem_erase hmem)
    have hnone : (if s.nestingLevel - 1 = 0 then Pc.unlockTestQLen else .done).increments = 0 := by
      split <;> rfl
    rw [hnone]
    constructor
    · intro head hlt
      exact hshrink head (hI.1 head hlt)
    · intro hn head
      exact hshrink head (hI.2 hn head)
  | unlockTest | callTest me wakes | timerTest =>
    simp only [step, Option.some.injEq, Prod.mk.injEq] at h
    obtain ⟨rfl, rfl⟩ := h
    exact htest rfl rfl hI
  | unlockInc | callInc me wakes | timerInc =>
    simp only [step, Option.some.injEq, Prod.mk.injEq] at h
    obtain ⟨rfl, rfl⟩ := h
    exact hadvance hI
  | callLock me wakes =>
    simp only [step] at h
    split at h
    · cases h
    · rename_i hlock
      simp only [Option.some.injEq, Prod.mk.injEq] at h
      obtain ⟨rfl, rfl⟩ := h
      have hnone : n = 0 := hfree (by simpa using hlock)
      subst hnone
      constructor
      · intro head hlt m hm
        change Function.update s.headGeneration me s.generation head < s.generation at hlt
        change m ∈ Function.update s.waitFor me s.sections head at hm
        by_cases hme : head = me
        · subst hme
          rw [Function.update_self] at hlt
          omega
        · rw [Function.update_of_ne hme] at hlt hm
          exact hI.1 head hlt m hm
      · intro hpos
        cases hpos
  | callSchedule me wakes | callModTimer me wakes =>
    simp only [step, Option.some.injEq, Prod.mk.injEq] at h
    obtain ⟨rfl, rfl⟩ := h
    rw [increments_callReturn]
    exact hI
  | _ =>
    simp only [step] at h
    repeat' split at h
    all_goals simp only [Option.some.injEq, Prod.mk.injEq, reduceCtorEq] at h
    all_goals obtain ⟨rfl, rfl⟩ := h
    all_goals exact hI

/-- Steps close sections and never open one. -/
theorem step_sections_subset {s s' : Rdp} {pc pc' : Pc} (h : step s pc = some (s', pc')) :
    s'.sections ⊆ s.sections := by
  cases pc with
  | runLock r =>
    simp only [step] at h
    split at h
    · cases h
    · simp only [Option.some.injEq] at h
      obtain ⟨ok, rfl, -, -⟩ | ⟨first, -, -, -, rfl⟩ := callbackLoop_cases h <;>
        exact List.Subset.refl _
  | reading me =>
    simp only [step, Option.some.injEq, Prod.mk.injEq] at h
    obtain ⟨rfl, rfl⟩ := h
    exact List.erase_subset
  | _ =>
    simp only [step] at h
    repeat' split at h
    all_goals simp only [Option.some.injEq, Prod.mk.injEq, reduceCtorEq] at h
    all_goals obtain ⟨rfl, rfl⟩ := h
    all_goals exact List.Subset.refl _

theorem enter_sections_subset {me : Nat} {s s' : Rdp} {call : Call} {pc : Pc}
    (h : enter me s call = some (s', pc)) : s'.sections ⊆ me :: s.sections := by
  cases call <;>
  · simp only [enter] at h
    repeat' split at h
    all_goals simp only [Option.some.injEq, Prod.mk.injEq, reduceCtorEq] at h
    all_goals obtain ⟨rfl, rfl⟩ := h
    all_goals first
      | exact List.Subset.refl _
      | exact List.subset_cons_self _ _

/-- Sections are named after calls that have started. -/
structure Named (s : Rdp) (n : Nat) : Prop where
  sections : ∀ m ∈ s.sections, m < n
  waitFor : ∀ head, ∀ m ∈ s.waitFor head, m < n

theorem named_of_reach (h : machine.Reach ok initial c) : Named c.shared c.pool.length := by
  refine Machine.Reach.invariant (fun c => Named c.shared c.pool.length) ?_ ?_ ?_ h
  · constructor
    · intro m hm
      cases hm
    · intro head m hm
      cases hm
  · intro c call s' pc _ hI _ hs
    have hlen : (c.pool ++ [pc]).length = c.pool.length + 1 := by simp
    constructor
    · intro m hm
      rw [hlen]
      rcases List.mem_cons.mp (enter_sections_subset hs hm) with rfl | hm
      · omega
      · have := hI.sections m hm
        omega
    · intro head m hm
      rw [(enter_enqueued hs).2.2.1] at hm
      have := hI.waitFor head m hm
      rw [hlen]
      omega
  · intro c i a pc s' pc' _ hI _ hi hs
    have hlen : (c.pool.set i pc').length = c.pool.length := List.length_set
    constructor
    · intro m hm
      rw [hlen]
      exact hI.sections m (step_sections_subset hs hm)
    · intro head m hm
      rw [hlen]
      rcases step_enqueued hs with ⟨-, -, hwait, -, -⟩ | ⟨me, wakes, -, -, rfl, -⟩
      · rw [hwait] at hm
        exact hI.waitFor head m hm
      · change m ∈ Function.update c.shared.waitFor me c.shared.sections head at hm
        by_cases hme : head = me
        · subst hme
          rw [Function.update_self] at hm
          exact hI.sections m hm
        · rw [Function.update_of_ne hme] at hm
          exact hI.waitFor head m hm

/-- A new section is one that no queued head waits for. -/
theorem Rdp.Waited.enter {s s' : Rdp} {me head : Nat} {call : Call} {pc : Pc}
    (h : enter me s call = some (s', pc)) (hN : Named s me) (hW : s.Waited head) :
    s'.Waited head := by
  intro m hm hmem
  rw [(enter_enqueued h).2.2.1] at hm
  rcases List.mem_cons.mp (enter_sections_subset h hmem) with rfl | hmem
  · exact absurd (hN.waitFor head m hm) (Nat.lt_irrefl m)
  · exact hW m hm hmem

theorem enter_increments {me : Nat} {s s' : Rdp} {call : Call} {pc : Pc}
    (h : enter me s call = some (s', pc)) : pc.increments = 0 := by
  cases call <;>
  · simp only [Rcu.enter] at h
    repeat' split at h
    all_goals simp only [Option.some.injEq, Prod.mk.injEq, reduceCtorEq] at h
    all_goals obtain ⟨rfl, rfl⟩ := h
    all_goals rfl

theorem aged_of_reach (h : machine.Reach ok initial c) :
    Aged c.shared (total Pc.increments c.pool) := by
  refine Machine.Reach.invariant (fun c => Aged c.shared (total Pc.increments c.pool)) ?_ ?_ ?_ h
  · constructor
    · intro head _ m hm
      cases hm
    · intro hpos
      cases hpos
  · intro c call s' pc hc hI _ hs
    have hN := named_of_reach hc
    obtain ⟨-, hgen, -, -, hgeneration, -⟩ := enter_enqueued hs
    simp only [total_append, enter_increments hs]
    constructor
    · intro head hlt
      rw [hgen, hgeneration] at hlt
      exact (hI.1 head hlt).enter hs hN
    · intro hpos head
      exact (hI.2 hpos head).enter hs hN
  · intro c i a pc s' pc' hc hI _ hi hs
    rw [total_eq_others _ hi] at hI
    simp only [total_set _ pc' hi]
    refine step_aged hs (sections_of_reach hc) ?_ hI
    intro hfree
    have hlocked := locked_of_reach hc
    rw [Locked, hfree, total_eq_others _ hi] at hlocked
    have hle : others Pc.increments c.pool i ≤ others Pc.holdsLock c.pool i :=
      total_le_total fun pc _ => pc.increments_le_holdsLock
    simp only [Bool.false_eq_true, if_false] at hlocked
    omega

/-! ### The guarantee -/

/-- The head whose callback this call runs or is about to run. -/
def Pc.runs : Pc → Option Nat
  | .invoke _ head | .executing _ head => some head
  | _ => none

@[simp] theorem runs_callReturn (me : Nat) (wakes : Bool) : (callReturn me wakes).runs = none := by
  cases wakes <;> rfl

/-- A runner takes up a head that has aged. -/
theorem step_runs {s s' : Rdp} {pc pc' : Pc} {head : Nat} (h : step s pc = some (s', pc'))
    (hr : pc'.runs = some head) :
    pc.runs = some head ∨
      (∃ r, pc = .runLock r ∧ s.nxt.first = some head ∧ s.headGeneration head < s.generation) := by
  cases pc with
  | runLock r =>
    simp only [step] at h
    split at h
    · cases h
    · simp only [Option.some.injEq] at h
      obtain ⟨ok, -, rfl, -⟩ | ⟨first, hfirst, hlt, rfl, -⟩ := callbackLoop_cases h
      · cases hr
      · cases hr
        exact Or.inr ⟨r, rfl, hfirst, hlt⟩
  | callSchedule me wakes | callModTimer me wakes =>
    simp only [step, Option.some.injEq, Prod.mk.injEq] at h
    obtain ⟨rfl, rfl⟩ := h
    rw [runs_callReturn] at hr
    cases hr
  | _ =>
    simp only [step] at h
    repeat' split at h
    all_goals simp only [Option.some.injEq, Prod.mk.injEq, reduceCtorEq] at h
    all_goals obtain ⟨rfl, rfl⟩ := h
    all_goals first
      | exact Or.inl hr
      | cases hr

theorem enter_runs {me : Nat} {s s' : Rdp} {call : Call} {pc : Pc}
    (h : enter me s call = some (s', pc)) : pc.runs = none := by
  cases call <;>
  · simp only [enter] at h
    repeat' split at h
    all_goals simp only [Option.some.injEq, Prod.mk.injEq, reduceCtorEq] at h
    all_goals obtain ⟨rfl, rfl⟩ := h
    all_goals rfl

/-- A queued head keeps what it waits for, and a section that it waited for stays
    closed. -/
theorem Rdp.Waited.act {s' : Rdp} {i head : Nat} {pc pc' : Pc}
    (h : machine.Reach ok initial c) (hi : c.pool[i]? = some pc)
    (hs : step c.shared pc = some (s', pc')) (hmem : head ∈ c.shared.enqueued) :
    s'.waitFor head = c.shared.waitFor head ∧ head ∈ s'.enqueued ∧
      (c.shared.Waited head → s'.Waited head) := by
  have hwait : s'.waitFor head = c.shared.waitFor head ∧ head ∈ s'.enqueued := by
    rcases step_enqueued hs with ⟨henq, -, hsame, -, -⟩ | ⟨me, wakes, rfl, -, rfl, -⟩
    · rw [henq, hsame]
      exact ⟨rfl, hmem⟩
    · have hne : head ≠ me := by
        rintro rfl
        exact ((unqueued_of_reach h).own i _ hi head rfl).2 hmem
      exact ⟨Function.update_of_ne hne .., List.mem_append_left _ hmem⟩
  refine ⟨hwait.1, hwait.2, ?_⟩
  intro hW m hm hopen
  rw [hwait.1] at hm
  exact hW m hm (step_sections_subset hs hopen)

/-- Every callback that is run has waited for its grace period. -/
theorem waited_of_runs (h : machine.Reach ok initial c) :
    Each (fun _ pc => ∀ head, pc.runs = some head →
      head ∈ c.shared.enqueued ∧ c.shared.Waited head) c.pool := by
  refine Machine.Reach.invariant (fun c => Each (fun _ pc => ∀ head, Pc.runs pc = some head →
    head ∈ c.shared.enqueued ∧ c.shared.Waited head) c.pool) (each_nil _) ?_ ?_ h
  · intro c call s' pc hc hI _ hs
    refine hI.append ?_ ?_
    · intro j u _ hu head hr
      obtain ⟨hmem, hW⟩ := hu head hr
      rw [(enter_enqueued hs).1]
      exact ⟨hmem, hW.enter hs (named_of_reach hc)⟩
    · intro head hr
      rw [enter_runs hs] at hr
      cases hr
  · intro c i a pc s' pc' hc hI _ hi hs
    have hstep : step c.shared pc = some (s', pc') := hs
    have hkeep : ∀ head, head ∈ c.shared.enqueued ∧ c.shared.Waited head →
        head ∈ s'.enqueued ∧ s'.Waited head := by
      rintro head ⟨hmem, hW⟩
      obtain ⟨-, henq, hstays⟩ := Rdp.Waited.act hc hi hstep hmem
      exact ⟨henq, hstays hW⟩
    refine hI.set ?_ ?_
    · intro j u _ _ hu head hr
      exact hkeep head (hu head hr)
    · intro head hr
      apply hkeep
      rcases step_runs hstep hr with hold | ⟨r, -, hfirst, hlt⟩
      · exact hI i pc hi head hold
      · obtain ⟨l, hQ⟩ := queue_of_reach hc
        exact ⟨hQ.first_mem hfirst, (aged_of_reach hc).1 head hlt⟩

/-- What a queued head waits for does not change. -/
theorem waitFor_stable {c₁ c₂ : Config Rdp Pc} {head : Nat} (h₁ : machine.Reachable initial c₁)
    (hmem : head ∈ c₁.shared.enqueued) (h₂ : machine.Reachable c₁ c₂) :
    head ∈ c₂.shared.enqueued ∧ c₂.shared.waitFor head = c₁.shared.waitFor head := by
  refine Machine.Reach.invariant (fun c => head ∈ c.shared.enqueued ∧
    c.shared.waitFor head = c₁.shared.waitFor head) ⟨hmem, rfl⟩ ?_ ?_ h₂
  · rintro c call s' pc _ ⟨hin, hsame⟩ _ hs
    obtain ⟨henq, -, hwait, -⟩ := enter_enqueued hs
    rw [henq, hwait]
    exact ⟨hin, hsame⟩
  · rintro c i a pc s' pc' hc ⟨hin, hsame⟩ _ hi hs
    obtain ⟨hwait, henq, -⟩ := Rdp.Waited.act (h₁.trans hc) hi hs hin
    exact ⟨henq, hwait.trans hsame⟩

/-- **Grace-period safety.**  Let a call of `vmklnx_call_rcu` queue its head in the
    configuration `c₀`, where the read-side critical section `m` is open.  However the
    run goes on, where some call runs the callback of that head, or is about to, the
    section has been closed. -/
theorem callback_waits_for_sections {c₀ c₁ c₂ : Config Rdp Pc} {i j m head : Nat}
    {wakes : Bool} {pc : Pc} (h₀ : machine.Reachable initial c₀)
    (hopen : c₀.pool[m]? = some (.reading m))
    (hj : c₀.pool[j]? = some (.callLock head wakes))
    (henqueue : machine.exec c₀ (.act j ()) = some c₁)
    (h₁ : machine.Reachable c₁ c₂) (hi : c₂.pool[i]? = some pc) (hrun : pc.runs = some head) :
    c₂.pool[m]? ≠ some (.reading m) := by
  have hc₁ : machine.Reachable initial c₁ := .step h₀ trivial henqueue
  -- the enqueueing step records the open sections
  have hrecord : head ∈ c₁.shared.enqueued ∧ m ∈ c₁.shared.waitFor head := by
    have hopen' := mem_sections_of_reading h₀ hopen
    simp only [Machine.exec, hj, machine, step] at henqueue
    split at henqueue
    · rename_i hsplit
      split at hsplit
      · cases hsplit
      · simp only [Option.some.injEq, Prod.mk.injEq] at hsplit henqueue
        obtain ⟨rfl, rfl⟩ := hsplit
        subst henqueue
        refine ⟨List.mem_append_right _ List.mem_cons_self, ?_⟩
        change m ∈ Function.update c₀.shared.waitFor head c₀.shared.sections head
        rw [Function.update_self]
        exact hopen'
    · cases henqueue
  have hc₂ : machine.Reachable initial c₂ := hc₁.trans h₁
  obtain ⟨-, hsame⟩ := waitFor_stable hc₁ hrecord.1 h₁
  intro hstill
  apply (waited_of_runs hc₂ i pc hi head hrun).2 m
  · rw [hsame]
    exact hrecord.2
  · exact mem_sections_of_reading hc₂ hstill

/-- Call 0 opens a section and call 1 comes to queue its head. -/
def sectionRun : List (Event Call Unit) := [.start .read, .start .callRcu]

/-- Once the head is queued, call 1 arms the timer, call 0 closes its section, and the
    handler of the timer, call 2, runs the callback. -/
def graceRun : List (Event Call Unit) :=
  [.act 1 (), .act 1 (), .act 1 (), .act 0 (), .act 0 (), .act 0 (), .act 0 (), .act 0 (),
    .start .timer, .act 2 (), .act 2 (), .act 2 (), .act 2 (), .act 2 ()]

theorem callback_waits_for_reader : ∃ c, machine.Reachable initial c ∧
    c.pool[2]? = some (.executing .timer 1) ∧ c.pool[0]? ≠ some (.reading 0) := by
  obtain ⟨c₀, c₁, c₂, h₀, hobs₀, henqueue, h₁, hobs₂⟩ :=
    machine.exists_stages sectionRun (.act 1 ()) graceRun initial Config.pool
      [.reading 0, .callLock 1 false] (fun c => c.pool[2]?) (some (.executing .timer 1))
      (by decide) (by decide)
  refine ⟨c₂, (Machine.Reach.step h₀ trivial henqueue).trans h₁, hobs₂, ?_⟩
  exact callback_waits_for_sections h₀ (by rw [hobs₀]; rfl) (by rw [hobs₀]; rfl) henqueue h₁
    hobs₂ rfl

end VmkLinux.Rcu
