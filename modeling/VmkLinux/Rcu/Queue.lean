/-
  VmkLinux/Rcu/Queue.lean
  =======================
  **The list of callbacks**: none is lost, none is run twice.

  `Queue` says what `nxtlist`, `nxttail` and `qLen` stand for: the heads that were
  queued and not yet unlinked, oldest first, with non-decreasing generations.
  `Covered` says who will look at a list that is not empty.  A runner gives up on a
  list whose first head has not aged, and `rcu_read_unlock` schedules nothing; what
  saves such a list is that a head of the current generation always has an armed
  timer, or a call that is going to arm it or to advance the generation.

  Functions are called with the lock dropped, and the handler of the timer runs
  `vmklnx_rcu_callback` itself beside the tasklet: the two may swap the heads that
  they have unlinked (`callbacks_swapped`).
-/
import VmkLinux.Rcu.Model
import Mathlib.Data.List.Nodup

namespace VmkLinux.Rcu

open VmkLinux.Interleave

variable {ok : Config Rdp Pc → Event Call Unit → Prop} {c : Config Rdp Pc}

/-! ### Fresh heads -/

/-- The head that this call has yet to queue. -/
def Pc.unqueued : Pc → Option Nat
  | .callLock me _ => some me
  | _ => none

@[simp] theorem unqueued_callReturn (me : Nat) (wakes : Bool) :
    (callReturn me wakes).unqueued = none := by
  cases wakes <;> rfl

/-- What a step does to the heads that have been queued. -/
theorem step_enqueued {s s' : Rdp} {pc pc' : Pc} (h : step s pc = some (s', pc')) :
    (s'.enqueued = s.enqueued ∧ s'.headGeneration = s.headGeneration ∧ s'.waitFor = s.waitFor ∧
      s'.wakes = s.wakes ∧ pc'.unqueued = none) ∨
    (∃ me wakes, pc = .callLock me wakes ∧ s.lock = false ∧ s' = callEnqueue s me wakes ∧
      pc' = .callTest me wakes) := by
  cases pc with
  | callLock me wakes =>
    simp only [step] at h
    split at h
    · cases h
    · rename_i hfree
      simp only [Option.some.injEq, Prod.mk.injEq] at h
      obtain ⟨rfl, rfl⟩ := h
      exact Or.inr ⟨me, wakes, rfl, by simpa using hfree, rfl, rfl⟩
  | runLock r =>
    left
    simp only [step] at h
    split at h
    · cases h
    · simp only [Option.some.injEq] at h
      obtain ⟨ok, rfl, rfl, -⟩ | ⟨first, -, -, rfl, rfl⟩ := callbackLoop_cases h <;>
        exact ⟨rfl, rfl, rfl, rfl, rfl⟩
  | callSchedule me wakes | callModTimer me wakes =>
    left
    simp only [step, Option.some.injEq, Prod.mk.injEq] at h
    obtain ⟨rfl, rfl⟩ := h
    exact ⟨rfl, rfl, rfl, rfl, unqueued_callReturn me wakes⟩
  | _ =>
    left
    simp only [step] at h
    repeat' split at h
    all_goals simp only [Option.some.injEq, Prod.mk.injEq, reduceCtorEq] at h
    all_goals obtain ⟨rfl, rfl⟩ := h
    all_goals exact ⟨rfl, rfl, rfl, rfl, rfl⟩

theorem enter_enqueued {me : Nat} {s s' : Rdp} {call : Call} {pc : Pc}
    (h : enter me s call = some (s', pc)) :
    s'.enqueued = s.enqueued ∧ s'.headGeneration = s.headGeneration ∧ s'.waitFor = s.waitFor ∧
      s'.wakes = s.wakes ∧ s'.generation = s.generation ∧
      ∀ m, pc.unqueued = some m → m = me := by
  cases call <;>
  · simp only [enter] at h
    repeat' split at h
    all_goals simp only [Option.some.injEq, Prod.mk.injEq, reduceCtorEq] at h
    all_goals obtain ⟨rfl, rfl⟩ := h
    all_goals refine ⟨rfl, rfl, rfl, rfl, rfl, ?_⟩
    all_goals intro m hm
    all_goals simp only [Pc.unqueued, Option.some.injEq, reduceCtorEq] at hm
    all_goals exact hm.symm

/-- A head that a call has yet to queue has never been queued. -/
theorem unqueued_of_reach (h : machine.Reach ok initial c) :
    Fresh Pc.unqueued (fun s m => m ∈ s.enqueued) c := by
  refine h.fresh ⟨each_nil _, fun m _ => List.not_mem_nil⟩ ?_ ?_
  · intro me call s s' pc hs
    obtain ⟨hsame, -, -, -, -, hname⟩ := enter_enqueued hs
    refine ⟨hname, ?_⟩
    intro m hm
    rw [hsame] at hm
    exact hm
  · intro a s pc s' pc' hs
    rcases step_enqueued hs with ⟨hsame, -, -, -, hnone⟩ | ⟨me, wakes, rfl, -, rfl, rfl⟩
    · refine ⟨Or.inl hnone, ?_⟩
      intro m hm
      rw [hsame] at hm
      exact Or.inl hm
    · refine ⟨Or.inl rfl, ?_⟩
      intro m hm
      rcases List.mem_append.mp hm with hm | hm
      · exact Or.inl hm
      · rw [List.mem_singleton] at hm
        subst hm
        exact Or.inr ⟨rfl, rfl⟩

/-! ### The list -/

/-- The list stands for the heads `l`. -/
structure Queue (s : Rdp) (l : List Nat) : Prop where
  represents : s.nxt.Represents l
  history : s.enqueued = s.removed ++ l
  qLen : s.qLen = l.length
  sorted : l.Pairwise fun a b => s.headGeneration a ≤ s.headGeneration b
  bound : ∀ head ∈ l, s.headGeneration head ≤ s.generation

/-- A new head is the youngest. -/
theorem Queue.callEnqueue {s : Rdp} {l : List Nat} {me : Nat} {wakes : Bool} (hI : Queue s l)
    (hfresh : me ∉ s.enqueued) : Queue (callEnqueue s me wakes) (l ++ [me]) := by
  have hout : me ∉ l := by
    intro hmem
    apply hfresh
    rw [hI.history]
    exact List.mem_append_right _ hmem
  have hold : ∀ head ∈ l,
      Function.update s.headGeneration me s.generation head = s.headGeneration head := by
    intro head hmem
    apply Function.update_of_ne
    rintro rfl
    exact hout hmem
  have hnew : Function.update s.headGeneration me s.generation me = s.generation :=
    Function.update_self ..
  constructor
  · exact hI.represents.push hout
  · change s.enqueued ++ [me] = s.removed ++ (l ++ [me])
    rw [hI.history, List.append_assoc]
  · change s.qLen + 1 = ((l ++ [me]).length : Int)
    rw [List.length_append, List.length_singleton, hI.qLen]
    omega
  · rw [List.pairwise_append]
    refine ⟨?_, List.pairwise_singleton _ _, ?_⟩
    · refine hI.sorted.imp_of_mem ?_
      intro a b ha hb hab
      change Function.update s.headGeneration me s.generation a ≤
        Function.update s.headGeneration me s.generation b
      rw [hold a ha, hold b hb]
      exact hab
    · intro a ha b hb
      rw [List.mem_singleton] at hb
      subst hb
      change Function.update s.headGeneration b s.generation a ≤
        Function.update s.headGeneration b s.generation b
      rw [hold a ha, hnew]
      exact hI.bound a ha
  · intro head hmem
    change Function.update s.headGeneration me s.generation head ≤ s.generation
    rcases List.mem_append.mp hmem with hmem | hmem
    · rw [hold head hmem]
      exact hI.bound head hmem
    · rw [List.mem_singleton] at hmem
      have heq : Function.update s.headGeneration me s.generation head = s.generation := by
        rw [hmem, hnew]
      exact Int.le_of_eq heq

/-- A runner unlinks the oldest head. -/
theorem Queue.callbackLoop {s s' : Rdp} {l : List Nat} {r : Runner} {pc : Pc}
    (hI : Queue s l) (h : callbackLoop s r = (s', pc)) :
    (Queue s' l ∧ pc = .done) ∨ ∃ head rest, l = head :: rest ∧ Queue s' rest ∧
      pc = .invoke r head ∧ s.headGeneration head < s.generation := by
  obtain ⟨ok, rfl, rfl, -⟩ | ⟨first, hfirst, hlt, rfl, rfl⟩ := callbackLoop_cases h
  · exact Or.inl ⟨{ hI with }, rfl⟩
  · have hhead := hI.represents.first
    rw [hfirst] at hhead
    cases l with
    | nil => cases hhead
    | cons head rest =>
      simp only [List.head?_cons, Option.some.injEq] at hhead
      subst hhead
      refine Or.inr ⟨first, rest, rfl, ?_, rfl, hlt⟩
      constructor
      · exact hI.represents.pop
      · change s.enqueued = s.removed ++ [first] ++ rest
        rw [hI.history, List.append_assoc]
        rfl
      · change s.qLen - 1 = (rest.length : Int)
        rw [hI.qLen, List.length_cons]
        omega
      · exact (List.pairwise_cons.mp hI.sorted).2
      · intro head hmem
        exact hI.bound head (List.mem_cons_of_mem first hmem)

/-- Advancing the generation. -/
theorem Queue.advance {s s' : Rdp} {l : List Nat} (hI : Queue s l) (hnxt : s'.nxt = s.nxt)
    (henq : s'.enqueued = s.enqueued) (hrem : s'.removed = s.removed) (hq : s'.qLen = s.qLen)
    (hgen : s'.headGeneration = s.headGeneration) (hle : s.generation ≤ s'.generation) :
    Queue s' l := by
  constructor
  · rw [hnxt]
    exact hI.represents
  · rw [henq, hrem]
    exact hI.history
  · rw [hq]
    exact hI.qLen
  · rw [hgen]
    exact hI.sorted
  · intro head hmem
    rw [hgen]
    exact Int.le_trans (hI.bound head hmem) hle

theorem enqueued_nodup_of_reach (h : machine.Reach ok initial c) : c.shared.enqueued.Nodup := by
  refine Machine.Reach.invariant (fun c => c.shared.enqueued.Nodup) List.nodup_nil ?_ ?_ h
  · intro c call s' pc _ hI _ hs
    rw [(enter_enqueued hs).1]
    exact hI
  · intro c i a pc s' pc' hc hI _ hi hs
    rcases step_enqueued hs with ⟨hsame, -⟩ | ⟨me, wakes, rfl, -, rfl, -⟩
    · rw [hsame]
      exact hI
    · have hfresh := ((unqueued_of_reach hc).own i _ hi me rfl).2
      apply List.nodup_append.mpr
      refine ⟨hI, List.nodup_cons.mpr ⟨List.not_mem_nil, List.nodup_nil⟩, ?_⟩
      intro a ha b hb hab
      rw [List.mem_singleton] at hb
      exact hfresh (hb ▸ hab ▸ ha)

/-! ### Invocations -/

/-- Whether a call has unlinked `head` and not yet called its function. -/
def Pc.invoking (head : Nat) : Pc → Nat
  | .invoke _ h => if h = head then 1 else 0
  | _ => 0

theorem Pc.eq_invoke_of_invoking {head : Nat} {pc : Pc} (h : 0 < pc.invoking head) :
    ∃ r, pc = .invoke r head := by
  cases pc with
  | invoke r first =>
    simp only [Pc.invoking] at h
    split at h
    · rename_i heq
      exact ⟨r, by rw [heq]⟩
    · cases h
  | _ => cases h

@[simp] theorem invoking_callReturn (head me : Nat) (wakes : Bool) :
    (callReturn me wakes).invoking head = 0 := by
  cases wakes <;> rfl

/-- A head is invoked as often as it is unlinked, `invoking` invocations being due. -/
def Invoked (s : Rdp) (invoking : Nat → Nat) : Prop :=
  ∀ head, s.invoked.count head + invoking head = s.removed.count head

theorem Invoked.callbackLoop {s s' : Rdp} {r : Runner} {pc : Pc} {n : Nat → Nat}
    (hI : Invoked s n) (h : callbackLoop s r = (s', pc)) :
    Invoked s' fun head => n head + pc.invoking head := by
  obtain ⟨ok, rfl, rfl, -⟩ | ⟨first, -, -, rfl, rfl⟩ := callbackLoop_cases h
  · exact hI
  · intro head
    have hhead := hI head
    change s.invoked.count head + (n head + if first = head then 1 else 0) =
      (s.removed ++ [first]).count head
    rw [List.count_append, List.count_singleton, ← hhead]
    simp only [beq_iff_eq]
    omega

theorem step_invoked {s s' : Rdp} {pc pc' : Pc} {n : Nat → Nat} (h : step s pc = some (s', pc'))
    (hI : Invoked s fun head => n head + pc.invoking head) :
    Invoked s' fun head => n head + pc'.invoking head := by
  cases pc with
  | runLock r =>
    simp only [step] at h
    split at h
    · cases h
    · simp only [Option.some.injEq] at h
      exact Invoked.callbackLoop hI h
  | invoke r first =>
    simp only [step, Option.some.injEq, Prod.mk.injEq] at h
    obtain ⟨rfl, rfl⟩ := h
    intro head
    have hhead : s.invoked.count head + (n head + if first = head then 1 else 0) =
      s.removed.count head := hI head
    change (s.invoked ++ [first]).count head + (n head + 0) = s.removed.count head
    rw [List.count_append, List.count_singleton, ← hhead]
    simp only [beq_iff_eq]
    omega
  | callSchedule me wakes | callModTimer me wakes =>
    simp only [step, Option.some.injEq, Prod.mk.injEq] at h
    obtain ⟨rfl, rfl⟩ := h
    simp only [invoking_callReturn]
    exact hI
  | _ =>
    simp only [step] at h
    repeat' split at h
    all_goals simp only [Option.some.injEq, Prod.mk.injEq, reduceCtorEq] at h
    all_goals obtain ⟨rfl, rfl⟩ := h
    all_goals exact hI

theorem enter_invoked {me : Nat} {s s' : Rdp} {call : Call} {pc : Pc} {n : Nat → Nat}
    (h : enter me s call = some (s', pc)) (hI : Invoked s n) :
    Invoked s' fun head => n head + pc.invoking head := by
  cases call <;>
  · simp only [enter] at h
    repeat' split at h
    all_goals simp only [Option.some.injEq, Prod.mk.injEq, reduceCtorEq] at h
    all_goals obtain ⟨rfl, rfl⟩ := h
    all_goals exact hI

theorem invoked_of_reach (h : machine.Reach ok initial c) :
    Invoked c.shared fun head => total (Pc.invoking head) c.pool := by
  refine Machine.Reach.invariant
    (fun c => Invoked c.shared fun head => total (Pc.invoking head) c.pool) ?_ ?_ ?_ h
  · intro head
    rfl
  · intro c call s' pc _ hI _ hs
    simp only [total_append]
    exact enter_invoked hs hI
  · intro c i a pc s' pc' _ hI _ hi hs
    simp only [total_eq_others _ hi] at hI
    simp only [total_set _ pc' hi]
    exact step_invoked hs hI

/-! ### Coverage -/

/-- Calls that are going to arm the timer or to advance `generation`. -/
def Pc.ages : Pc → Nat
  | .callTest _ _ | .callInc _ _ | .callUnlock _ _ | .callModTimer _ _ | .timerLock | .timerTest
  | .timerInc | .timerUnlock | .timerModTimer => 1
  | _ => 0

/-- Calls between their enqueue, or the start of a handler, and the step that arms the
    timer, schedules the tasklet or finds the list drained. -/
def Pc.covers : Pc → Nat
  | .callTest _ _ | .callInc _ _ | .callUnlock _ _ | .callModTimer _ _ | .callSchedule _ _
  | .timerLock | .timerTest | .timerInc | .timerUnlock | .timerModTimer | .runLock _
  | .invoke _ _ | .executing _ _ => 1
  | _ => 0

theorem Pc.ages_le_covers (pc : Pc) : pc.ages ≤ pc.covers := by
  cases pc <;> simp [Pc.ages, Pc.covers]

/-- A head of the current generation has an armed timer or a call that ages it; a
    list that is not empty has something to look after it. -/
def Covered (s : Rdp) (l : List Nat) (ages covers : Nat) : Prop :=
  ((∃ head ∈ l, s.headGeneration head = s.generation) → s.timerArmed = true ∨ 0 < ages) ∧
  (l ≠ [] → s.timerArmed = true ∨ s.taskletScheduled = true ∨ 0 < covers)

/-- A runner that gives up leaves an empty list or a head of the current generation. -/
theorem Covered.callbackLoop {s s' : Rdp} {l : List Nat} {r : Runner} {pc : Pc} {a v : Nat}
    (hQ : Queue s l) (hle : a ≤ v) (hI : Covered s l a (v + 1))
    (h : callbackLoop s r = (s', pc)) :
    ∃ l', Queue s' l' ∧ Covered s' l' (a + pc.ages) (v + pc.covers) := by
  rcases hQ.callbackLoop h with ⟨hQ', rfl⟩ | ⟨head, rest, rfl, hQ', rfl, -⟩
  · obtain ⟨ok, rfl, -, hwhy⟩ | ⟨first, -, -, hpc, -⟩ := callbackLoop_cases h
    · refine ⟨l, hQ', hI.1, ?_⟩
      intro hne
      have hfirst := hQ.represents.first
      rcases hwhy with hnone | ⟨first, hsome, hyoung⟩
      · rw [hnone] at hfirst
        exact absurd (List.head?_eq_none_iff.mp hfirst.symm) hne
      · rw [hsome] at hfirst
        have hmem : first ∈ l := List.mem_of_mem_head? hfirst.symm
        have heq : s.headGeneration first = s.generation :=
          Int.le_antisymm (hQ.bound first hmem) hyoung
        rcases hI.1 ⟨first, hmem, heq⟩ with harmed | hpos
        · exact Or.inl harmed
        · exact Or.inr (Or.inr (Nat.lt_of_lt_of_le hpos hle))
    · cases hpc
  · obtain ⟨ok, -, hpc, -⟩ | ⟨first, -, -, hpc, rfl⟩ := callbackLoop_cases h
    · cases hpc
    · refine ⟨rest, hQ', ?_, ?_⟩
      · rintro ⟨young, hmem, heq⟩
        exact hI.1 ⟨young, List.mem_cons_of_mem head hmem, heq⟩
      · intro _
        exact Or.inr (Or.inr (Nat.succ_pos v))

@[simp] theorem ages_callReturn (me : Nat) (wakes : Bool) : (callReturn me wakes).ages = 0 := by
  cases wakes <;> rfl

@[simp] theorem covers_callReturn (me : Nat) (wakes : Bool) : (callReturn me wakes).covers = 0 := by
  cases wakes <;> rfl

/-- No head is of a generation that has just begun. -/
theorem Covered.advance {s : Rdp} {l : List Nat} {a v : Nat} (hQ : Queue s l)
    (hI : l ≠ [] → s.timerArmed = true ∨ s.taskletScheduled = true ∨ 0 < v) :
    Covered { s with generation := s.generation + 1, lock := false } l a v := by
  constructor
  · rintro ⟨head, hmem, heq⟩
    have hle := hQ.bound head hmem
    change s.headGeneration head = s.generation + 1 at heq
    omega
  · exact hI

/-- One step keeps the list in order and looked after; `a` and `v` count the other
    calls. -/
theorem step_covered {s s' : Rdp} {l : List Nat} {pc pc' : Pc} {a v : Nat}
    (h : step s pc = some (s', pc'))
    (hfresh : ∀ me wakes, pc = .callLock me wakes → me ∉ s.enqueued) (hle : a ≤ v)
    (hQ : Queue s l) (hI : Covered s l (a + pc.ages) (v + pc.covers)) :
    ∃ l', Queue s' l' ∧ Covered s' l' (a + pc'.ages) (v + pc'.covers) := by
  cases pc with
  | callLock me wakes =>
    simp only [step] at h
    split at h
    · cases h
    · simp only [Option.some.injEq, Prod.mk.injEq] at h
      obtain ⟨rfl, rfl⟩ := h
      refine ⟨_, hQ.callEnqueue (hfresh me wakes rfl), ?_, ?_⟩
      · intro _
        exact Or.inr (Nat.succ_pos a)
      · intro _
        exact Or.inr (Or.inr (Nat.succ_pos v))
  | runLock r =>
    simp only [step] at h
    split at h
    · cases h
    · simp only [Option.some.injEq] at h
      exact Covered.callbackLoop hQ hle hI h
  | unlockInc | callInc | timerInc =>
    simp only [step, Option.some.injEq, Prod.mk.injEq] at h
    obtain ⟨rfl, rfl⟩ := h
    refine ⟨l, hQ.advance rfl rfl rfl rfl rfl (Int.le_add_one (Int.le_refl _)), ?_⟩
    exact Covered.advance hQ hI.2
  | callSchedule me wakes =>
    simp only [step, Option.some.injEq, Prod.mk.injEq] at h
    obtain ⟨rfl, rfl⟩ := h
    rw [ages_callReturn, covers_callReturn]
    refine ⟨l, { hQ with }, hI.1, ?_⟩
    intro _
    exact Or.inr (Or.inl rfl)
  | callModTimer me wakes =>
    simp only [step, Option.some.injEq, Prod.mk.injEq] at h
    obtain ⟨rfl, rfl⟩ := h
    exact ⟨l, { hQ with }, fun _ => Or.inl rfl, fun _ => Or.inl rfl⟩
  | timerModTimer =>
    simp only [step, Option.some.injEq, Prod.mk.injEq] at h
    obtain ⟨rfl, rfl⟩ := h
    exact ⟨l, { hQ with }, fun _ => Or.inl rfl, fun _ => Or.inl rfl⟩
  | _ =>
    simp only [step] at h
    repeat' split at h
    all_goals simp only [Option.some.injEq, Prod.mk.injEq, reduceCtorEq] at h
    all_goals obtain ⟨rfl, rfl⟩ := h
    all_goals exact ⟨l, { hQ with }, hI⟩

theorem enter_covered {me : Nat} {s s' : Rdp} {l : List Nat} {call : Call} {pc : Pc} {a v : Nat}
    (h : enter me s call = some (s', pc)) (hQ : Queue s l) (hI : Covered s l a v) :
    Queue s' l ∧ Covered s' l (a + pc.ages) (v + pc.covers) := by
  cases call with
  | timer =>
    simp only [enter] at h
    split at h
    · simp only [Option.some.injEq, Prod.mk.injEq] at h
      obtain ⟨rfl, rfl⟩ := h
      exact ⟨{ hQ with }, fun _ => Or.inr (Nat.succ_pos a),
        fun _ => Or.inr (Or.inr (Nat.succ_pos v))⟩
    · cases h
  | tasklet =>
    simp only [enter] at h
    split at h
    · simp only [Option.some.injEq, Prod.mk.injEq] at h
      obtain ⟨rfl, rfl⟩ := h
      exact ⟨{ hQ with }, hI.1, fun _ => Or.inr (Or.inr (Nat.succ_pos v))⟩
    · cases h
  | _ =>
    simp only [enter, Option.some.injEq, Prod.mk.injEq] at h
    obtain ⟨rfl, rfl⟩ := h
    exact ⟨{ hQ with }, hI⟩

theorem covered_of_reach (h : machine.Reach ok initial c) :
    ∃ l, Queue c.shared l ∧
      Covered c.shared l (total Pc.ages c.pool) (total Pc.covers c.pool) := by
  refine Machine.Reach.invariant (fun c => ∃ l, Queue c.shared l ∧
    Covered c.shared l (total Pc.ages c.pool) (total Pc.covers c.pool)) ?_ ?_ ?_ h
  · refine ⟨[], ⟨TailQueue.represents_empty, rfl, rfl, List.Pairwise.nil, ?_⟩, ?_, ?_⟩
    · intro head hmem
      cases hmem
    · rintro ⟨head, hmem, -⟩
      cases hmem
    · intro hne
      exact absurd rfl hne
  · rintro c call s' pc _ ⟨l, hQ, hI⟩ _ hs
    simp only [total_append]
    exact ⟨l, enter_covered hs hQ hI⟩
  · rintro c i a pc s' pc' hc ⟨l, hQ, hI⟩ _ hi hs
    rw [total_eq_others _ hi, total_eq_others _ hi] at hI
    simp only [total_set _ pc' hi]
    refine step_covered hs ?_ (total_le_total fun pc _ => pc.ages_le_covers) hQ hI
    rintro me wakes rfl
    exact ((unqueued_of_reach hc).own i _ hi me rfl).2

/-- The first head of the list has been queued. -/
theorem Queue.first_mem {s : Rdp} {l : List Nat} {head : Nat} (hQ : Queue s l)
    (h : s.nxt.first = some head) : head ∈ s.enqueued := by
  rw [hQ.represents.first] at h
  rw [hQ.history]
  exact List.mem_append_right _ (List.mem_of_mem_head? h)

theorem queue_of_reach (h : machine.Reach ok initial c) : ∃ l, Queue c.shared l := by
  obtain ⟨l, hQ, -⟩ := covered_of_reach h
  exact ⟨l, hQ⟩

/-! ### Order of invocations -/

/-- A call that has unlinked a head and not yet called its function. -/
def Pc.holding : Pc → Nat
  | .invoke _ _ => 1
  | _ => 0

theorem Pc.invoking_le_holding (head : Nat) (pc : Pc) : pc.invoking head ≤ pc.holding := by
  cases pc with
  | invoke r h =>
    simp only [Pc.invoking, Pc.holding]
    split <;> omega
  | _ => exact Nat.le_refl _

/-- A runner unlinks a head only while no other has one that it is still to call. -/
def aloneAtUnlink (c : Config Rdp Pc) : Event Call Unit → Bool
  | .start _ => true
  | .act i _ =>
      match c.pool[i]?, c.shared.nxt.first with
      | some (.runLock _), some head =>
          !rcuBatchBefore (c.shared.headGeneration head) c.shared.generation ||
          decide (total Pc.holding c.pool = 0)
      | _, _ => true

/-- What a step does to the heads that have left the list. -/
theorem step_removed {s s' : Rdp} {pc pc' : Pc} (h : step s pc = some (s', pc')) :
    (s'.removed = s.removed ∧ s'.invoked = s.invoked) ∨
    (∃ r first, pc = .runLock r ∧ s.nxt.first = some first ∧
      rcuBatchBefore (s.headGeneration first) s.generation = true ∧
      s'.removed = s.removed ++ [first] ∧ s'.invoked = s.invoked) ∨
    (∃ r head, pc = .invoke r head ∧ s'.removed = s.removed ∧
      s'.invoked = s.invoked ++ [head]) := by
  cases pc with
  | runLock r =>
    simp only [step] at h
    split at h
    · cases h
    · simp only [Option.some.injEq] at h
      obtain ⟨ok, rfl, rfl, -⟩ | ⟨first, hfirst, hlt, rfl, rfl⟩ := callbackLoop_cases h
      · exact Or.inl ⟨rfl, rfl⟩
      · refine Or.inr (Or.inl ⟨r, first, rfl, hfirst, ?_, rfl, rfl⟩)
        simp only [rcuBatchBefore, decide_eq_true_eq]
        omega
  | invoke r head =>
    simp only [step, Option.some.injEq, Prod.mk.injEq] at h
    obtain ⟨rfl, rfl⟩ := h
    exact Or.inr (Or.inr ⟨r, head, rfl, rfl, rfl⟩)
  | _ =>
    left
    simp only [step] at h
    repeat' split at h
    all_goals simp only [Option.some.injEq, Prod.mk.injEq, reduceCtorEq] at h
    all_goals obtain ⟨rfl, rfl⟩ := h
    all_goals exact ⟨rfl, rfl⟩

theorem enter_removed {me : Nat} {s s' : Rdp} {call : Call} {pc : Pc}
    (h : enter me s call = some (s', pc)) :
    s'.removed = s.removed ∧ s'.invoked = s.invoked := by
  cases call <;>
  · simp only [enter] at h
    repeat' split at h
    all_goals simp only [Option.some.injEq, Prod.mk.injEq, reduceCtorEq] at h
    all_goals obtain ⟨rfl, rfl⟩ := h
    all_goals exact ⟨rfl, rfl⟩

/-- The heads that have left the list are those invoked, in this order, and at most one more. -/
def InOrder (s : Rdp) : Prop := ∃ rest, s.removed = s.invoked ++ rest ∧ rest.length ≤ 1

/-- With no head in the hands of a runner, all that have left have been invoked. -/
theorem InOrder.removed_eq {s : Rdp} {n : Nat → Nat} (h : InOrder s) (hI : Invoked s n)
    (hn : ∀ head, n head = 0) : s.removed = s.invoked := by
  obtain ⟨rest, hrest, -⟩ := h
  cases rest with
  | nil => rw [hrest, List.append_nil]
  | cons x rest =>
    have hx := hI x
    rw [hn x, hrest, List.count_append, List.count_cons_self] at hx
    omega

/-- A head that is invoked is the one that has left last. -/
theorem InOrder.invoke {s : Rdp} {n : Nat → Nat} {head : Nat} (h : InOrder s) (hI : Invoked s n)
    (hn : n head ≠ 0) : s.removed = s.invoked ++ [head] := by
  obtain ⟨rest, hrest, hlen⟩ := h
  have hhead := hI head
  rw [hrest, List.count_append] at hhead
  have hmem : head ∈ rest := List.count_pos_iff.mp (by omega)
  obtain ⟨x, rfl⟩ := List.length_eq_one_iff.mp
    (Nat.le_antisymm hlen (List.length_pos_of_mem hmem))
  rw [hrest, List.mem_singleton.mp hmem]

theorem inOrder_of_reach (h : machine.Reach (fun c e => aloneAtUnlink c e = true) initial c) :
    InOrder c.shared := by
  refine Machine.Reach.invariant (fun c => InOrder c.shared) ⟨[], rfl, Nat.zero_le 1⟩ ?_ ?_ h
  · rintro c call s' pc _ ⟨rest, hrest, hlen⟩ _ hs
    obtain ⟨hremoved, hinvoked⟩ := enter_removed hs
    exact ⟨rest, by rw [hremoved, hinvoked, hrest], hlen⟩
  · intro c i a pc s' pc' hc hI hok hi hs
    rcases step_removed hs with ⟨hremoved, hinvoked⟩ |
      ⟨r, first, rfl, hfirst, hbefore, hremoved, hinvoked⟩ | ⟨r, head, rfl, hremoved, hinvoked⟩
    · obtain ⟨rest, hrest, hlen⟩ := hI
      exact ⟨rest, by rw [hremoved, hinvoked, hrest], hlen⟩
    · have hnone : total Pc.holding c.pool = 0 := by
        simp only [aloneAtUnlink, hi, hfirst, hbefore, Bool.not_true, Bool.false_or,
          decide_eq_true_eq] at hok
        exact hok
      have hzero : ∀ head, total (Pc.invoking head) c.pool = 0 := fun head =>
        Nat.le_zero.mp (hnone ▸ mono_total c.pool _ _ (Pc.invoking_le_holding head))
      refine ⟨[first], ?_, Nat.le_refl 1⟩
      rw [hremoved, hinvoked, hI.removed_eq (invoked_of_reach hc) hzero]
    · have hpos : total (Pc.invoking head) c.pool ≠ 0 := by
        have hle := le_total (Pc.invoking head) hi
        simp only [Pc.invoking, if_true] at hle
        omega
      refine ⟨[], ?_, Nat.zero_le 1⟩
      rw [hremoved, hinvoked, hI.invoke (invoked_of_reach hc) hpos, List.append_nil]

/-- **Callbacks are neither lost nor duplicated.**  In every reachable state the list
    stands for some heads `l`: `nxttail` and `qLen` agree with it, its generations
    do not decrease and are at most `rdp->generation`.  Heads leave in the order they
    were queued, each is invoked at most once, and one that has left is invoked or in
    the hands of a call that is going to invoke it; while the list is not empty the
    timer is armed, or the tasklet is scheduled, or a call is on its way to arm one
    of them or to drain the list.  In a run in which a runner unlinks a head only while
    no other has one in hand, heads are invoked in the order in which they left. -/
theorem callbacks_kept (h : machine.Reachable initial c) :
    (∃ l, c.shared.nxt.Represents l ∧ c.shared.qLen = l.length ∧
      l.Pairwise (fun a b => c.shared.headGeneration a ≤ c.shared.headGeneration b) ∧
      (∀ head ∈ l, c.shared.headGeneration head ≤ c.shared.generation) ∧
      c.shared.enqueued = c.shared.removed ++ l) ∧
    c.shared.enqueued.Nodup ∧
    (∀ head, c.shared.invoked.count head ≤ 1 ∧
      (head ∈ c.shared.invoked → head ∈ c.shared.removed) ∧
      (head ∈ c.shared.removed → head ∈ c.shared.invoked ∨
        ∃ r, Pc.invoke r head ∈ c.pool)) ∧
    (c.shared.nxt.first ≠ none → c.shared.timerArmed = true ∨
      c.shared.taskletScheduled = true ∨ ∃ pc ∈ c.pool, pc.covers = 1) ∧
    (machine.Reach (fun c e => aloneAtUnlink c e = true) initial c →
      c.shared.invoked <+: c.shared.removed) := by
  obtain ⟨l, hQ, hC⟩ := covered_of_reach h
  have hnodup := enqueued_nodup_of_reach h
  refine ⟨⟨l, hQ.represents, hQ.qLen, hQ.sorted, hQ.bound, hQ.history⟩, hnodup, ?_, ?_, ?_⟩
  · intro head
    have hcount : c.shared.invoked.count head + total (Pc.invoking head) c.pool =
        c.shared.removed.count head := invoked_of_reach h head
    have hremoved : c.shared.removed.count head ≤ 1 := by
      apply List.nodup_iff_count_le_one.mp
      rw [hQ.history] at hnodup
      exact (List.nodup_append.mp hnodup).1
    refine ⟨by omega, ?_, ?_⟩
    · intro hmem
      have hpos := List.count_pos_iff.mpr hmem
      exact List.count_pos_iff.mp (by omega)
    · intro hmem
      by_cases hin : head ∈ c.shared.invoked
      · exact Or.inl hin
      · right
        have hpos := List.count_pos_iff.mpr hmem
        have hzero := List.count_eq_zero.mpr hin
        have hdue : 0 < total (Pc.invoking head) c.pool := by omega
        obtain ⟨i, pc, hi, hpc⟩ := exists_of_total_pos hdue
        obtain ⟨r, rfl⟩ := Pc.eq_invoke_of_invoking hpc
        exact ⟨r, List.mem_of_getElem? hi⟩
  · intro hfirst
    have hne : l ≠ [] := by
      rintro rfl
      exact hfirst hQ.represents.first
    rcases hC.2 hne with harmed | hscheduled | hpos
    · exact Or.inl harmed
    · exact Or.inr (Or.inl hscheduled)
    · refine Or.inr (Or.inr ?_)
      by_contra hnone
      have hzero : total Pc.covers c.pool = 0 := by
        apply total_eq_zero
        intro pc hmem
        have hle : pc.covers ≤ 1 := by cases pc <;> simp [Pc.covers]
        have hne1 : pc.covers ≠ 1 := fun h1 => hnone ⟨pc, hmem, h1⟩
        omega
      omega
  · intro halone
    obtain ⟨rest, hrest, -⟩ := inOrder_of_reach halone
    exact ⟨rest, hrest.symm⟩

/-- Call 0 reads while call 1 queues a head and arms the timer; its handler, call 2, invokes
    the head.  Call 3 reads while call 4 queues another, and that section is closed too: the
    list is left to the timer. -/
def abandonedRun : List (Event Call Unit) :=
  [.start .read, .start .callRcu, .act 1 (), .act 1 (), .act 1 (), .act 1 (),
    .act 0 (), .act 0 (), .act 0 (), .act 0 (), .act 0 (),
    .start .timer, .act 2 (), .act 2 (), .act 2 (), .act 2 (), .act 2 (), .act 2 (), .act 2 (),
    .start .read, .start .callRcu, .act 4 (), .act 4 (), .act 4 (), .act 4 (),
    .act 3 (), .act 3 (), .act 3 (), .act 3 (), .act 3 ()]

theorem callbacks_kept_for_timer : ∃ c, machine.Reachable initial c ∧
    c.pool.all (fun pc => decide (pc = .done)) ∧ c.shared.nxt.first = some 4 ∧
    (c.shared.timerArmed = true ∨ c.shared.taskletScheduled = true ∨
      ∃ pc ∈ c.pool, pc.covers = 1) ∧
    c.shared.removed = [1] ∧ c.shared.invoked <+: c.shared.removed := by
  obtain ⟨c, hc, hobs⟩ := machine.exists_reach_of_runIf aloneAtUnlink abandonedRun initial
    (fun c => (c.pool.all (fun pc => decide (pc = .done)), c.shared.nxt.first, c.shared.removed))
    (true, some 4, [1]) (by decide)
  simp only [Prod.mk.injEq] at hobs
  obtain ⟨hdone, hfirst, hremoved⟩ := hobs
  obtain ⟨-, -, -, hcovered, horder⟩ := callbacks_kept hc.reachable
  refine ⟨c, hc.reachable, hdone, hfirst, hcovered ?_, hremoved, horder hc⟩
  rw [hfirst]
  exact Option.some_ne_none 4

/-- Call 1 queues a head while call 0 reads, and call 2 another when nobody does, so that the
    timer is armed and the tasklet is scheduled.  The tasklet, call 4, unlinks the first head;
    the handler of the timer, call 3, unlinks and invokes the second before it goes on. -/
def swappedRun : List (Event Call Unit) :=
  [.start .read, .start .callRcu, .act 1 (), .act 1 (), .act 1 (), .act 1 (),
    .act 0 (), .act 0 (), .act 0 (), .act 0 (), .act 0 (),
    .start .callRcu, .act 2 (), .act 2 (), .act 2 (), .act 2 (),
    .start .timer, .act 3 (), .act 3 (), .act 3 (), .start .tasklet, .act 4 (),
    .act 3 (), .act 3 (), .act 4 ()]

theorem callbacks_swapped : ∃ c, machine.Reachable initial c ∧
    c.shared.enqueued = [1, 2] ∧ c.shared.removed = [1, 2] ∧ c.shared.invoked = [2, 1] := by
  obtain ⟨c, hc, hobs⟩ := machine.exists_reachable_of_run swappedRun initial
    (fun c => (c.shared.enqueued, c.shared.removed, c.shared.invoked))
    ([1, 2], [1, 2], [2, 1]) (by decide)
  simp only [Prod.mk.injEq] at hobs
  exact ⟨c, hc, hobs⟩

end VmkLinux.Rcu
