/-
  VmkLinux/Workqueue/Flush.lean
  =============================
  **What a flush waits for.**

  `flush_workqueue` queues a plunger and waits until a callout runs it.  The
  plunger's callback moves every tracker in use to `trackFlushList`; the flush
  then waits until that list is empty.  Tickets make the argument: entries leave
  `head` in the order they were queued, so when the plunger runs, everything
  queued before it is off `head` and either tracked or settled.  From then on
  nothing up to the plunger is on `head` or on `trackList` (`Wq.Past`), and once
  `trackFlushList` is empty nothing up to it is tracked at all (`Wq.Clear`).
-/
import VmkLinux.Workqueue.Accounting

namespace VmkLinux.Workqueue

open VmkLinux.Interleave

/-! ### Tickets -/

/-- Everything up to ticket `k` has left `head` and is not on `trackList`. -/
def Wq.Past (s : Wq) (k : Nat) : Prop :=
  (∀ e ∈ s.head, k < e.ticket) ∧ ∀ t ∈ s.trackList, k < t.ticket

/-- Everything up to ticket `k` has left `head` and is not tracked. -/
def Wq.Clear (s : Wq) (k : Nat) : Prop :=
  (∀ e ∈ s.head, k < e.ticket) ∧ ∀ t ∈ s.busy, k < t.ticket

/-- `head` is in the order of the tickets, behind everything that is tracked, and
    what has been queued is on `head`, tracked, removed by a cancel, or returned. -/
structure Tickets (s : Wq) : Prop where
  sorted : s.head.Pairwise fun e e' => e.ticket < e'.ticket
  work : ∀ e ∈ s.head, s.queued[e.ticket]? = some e.work
  started : ∀ t ∈ s.busy, (∃ w, t.executing = some w ∧ s.queued[t.ticket]? = some w) ∧
    ∀ e ∈ s.head, t.ticket < e.ticket
  settled : ∀ k < s.queued.length, k ∈ s.head.map Entry.ticket ∨
    k ∈ s.busy.map Tracker.ticket ∨ k ∈ s.removed ∨ k ∈ s.returned

/-- Where the tickets of `s'` come from when `s'` follows `s`: nothing returns to
    `head`, and nothing is tracked that was not tracked or on `head`. -/
structure Later (s s' : Wq) : Prop where
  queued : s.queued <+: s'.queued
  returned : s.returned ⊆ s'.returned
  head : ∀ e ∈ s'.head, e ∈ s.head ∨ s.queued.length ≤ e.ticket
  trackList : ∀ t ∈ s'.trackList, t ∈ s.trackList ∨ ∃ e ∈ s.head, t.ticket = e.ticket
  busy : ∀ t ∈ s'.busy,
    t ∈ s.busy ∨ ∃ e ∈ s.head, t.ticket = e.ticket ∧ t.executing = some e.work

theorem Later.frame {s s' : Wq} (hhead : s'.head = s.head) (hqueued : s'.queued = s.queued)
    (hlist : s'.trackList = s.trackList) (hflush : s'.trackFlushList = s.trackFlushList)
    (hret : s.returned ⊆ s'.returned) : Later s s' := by
  refine ⟨hqueued ▸ List.prefix_rfl, hret, ?_, ?_, ?_⟩
  · intro e he
    exact Or.inl (hhead ▸ he)
  · intro t ht
    exact Or.inl (hlist ▸ ht)
  · intro t ht
    rw [Wq.busy, hlist, hflush] at ht
    exact Or.inl ht

theorem Later.queued_get {s s' : Wq} {k : Nat} {w : Work} (h : Later s s')
    (hk : s.queued[k]? = some w) : s'.queued[k]? = some w := by
  obtain ⟨rest, hrest⟩ := h.queued
  rw [← hrest, List.getElem?_append_left (List.getElem?_eq_some_iff.mp hk).1]
  exact hk

theorem Later.past {s s' : Wq} {k : Nat} (h : Later s s') (hk : k < s.queued.length)
    (hpast : s.Past k) : s'.Past k := by
  constructor
  · intro e he
    rcases h.head e he with he | hge
    · exact hpast.1 e he
    · omega
  · intro t ht
    rcases h.trackList t ht with ht | ⟨e, he, heq⟩
    · exact hpast.2 t ht
    · rw [heq]
      exact hpast.1 e he

theorem Later.clear {s s' : Wq} {k : Nat} (h : Later s s') (hk : k < s.queued.length)
    (hclear : s.Clear k) : s'.Clear k := by
  constructor
  · intro e he
    rcases h.head e he with he | hge
    · exact hclear.1 e he
    · omega
  · intro t ht
    rcases h.busy t ht with ht | ⟨e, he, heq, -⟩
    · exact hclear.2 t ht
    · rw [heq]
      exact hclear.1 e he

/-! ### The critical sections -/

theorem Tickets.queueWork {s : Wq} {w : Work} (hT : Tickets s) : Tickets (queueWork s w) := by
  have hlt : ∀ e ∈ s.head, e.ticket < s.queued.length := fun e he =>
    (List.getElem?_eq_some_iff.mp (hT.work e he)).1
  refine ⟨?_, ?_, ?_, ?_⟩
  · change (s.head ++ [(⟨w, s.queued.length⟩ : Entry)]).Pairwise _
    rw [List.pairwise_append]
    refine ⟨hT.sorted, List.pairwise_singleton _ _, ?_⟩
    intro e he e' he'
    rw [List.mem_singleton] at he'
    subst he'
    exact hlt e he
  · intro e he
    rcases List.mem_append.mp he with he | he
    · change (s.queued ++ [w])[e.ticket]? = _
      rw [List.getElem?_append_left (hlt e he)]
      exact hT.work e he
    · rw [List.mem_singleton] at he
      subst he
      exact List.getElem?_concat_length
  · intro t ht
    obtain ⟨⟨v, hexec, hv⟩, hthead⟩ := hT.started t ht
    have htlt := (List.getElem?_eq_some_iff.mp hv).1
    refine ⟨⟨v, hexec, ?_⟩, ?_⟩
    · change (s.queued ++ [w])[t.ticket]? = _
      rw [List.getElem?_append_left htlt]
      exact hv
    · intro e he
      rcases List.mem_append.mp he with he | he
      · exact hthead e he
      · rw [List.mem_singleton] at he
        subst he
        exact htlt
  · intro k hk
    change k < (s.queued ++ [w]).length at hk
    rw [List.length_append, List.length_singleton] at hk
    by_cases hnew : k = s.queued.length
    · left
      simp [Workqueue.queueWork, hnew]
    · rcases hT.settled k (by omega) with h | h
      · left
        simp only [Workqueue.queueWork, List.map_append, List.mem_append]
        exact Or.inl h
      · exact Or.inr h

theorem later_queueWork (s : Wq) (w : Work) : Later s (queueWork s w) := by
  refine ⟨List.prefix_append _ _, List.Subset.refl _, ?_, fun t ht => Or.inl ht,
    fun t ht => Or.inl ht⟩
  intro e he
  rcases List.mem_append.mp he with he | he
  · exact Or.inl he
  · rw [List.mem_singleton] at he
    subst he
    exact Or.inr (Nat.le_refl _)

/-- The callout moves the first entry of `head` to `trackList`. -/
theorem Tickets.callout {s s' : Wq} {e : Entry} {head : List Entry} {t : Tracker}
    (hT : Tickets s) (hhead : s.head = e :: head) (ht : t = ⟨t.slot, some e.work, e.ticket⟩)
    (hhead' : s'.head = head) (hqueued : s'.queued = s.queued) (hbusy : s'.busy = t :: s.busy)
    (hremoved : s'.removed = s.removed) (hret : s'.returned = s.returned) : Tickets s' := by
  have hsorted := hT.sorted
  rw [hhead, List.pairwise_cons] at hsorted
  have hmem : ∀ d ∈ head, d ∈ s.head := by
    intro d hd
    rw [hhead]
    exact List.mem_cons_of_mem e hd
  have hwork : s.queued[e.ticket]? = some e.work :=
    hT.work e (by rw [hhead]; exact List.mem_cons_self)
  refine ⟨by rw [hhead']; exact hsorted.2, ?_, ?_, ?_⟩
  · intro d hd
    rw [hhead'] at hd
    rw [hqueued]
    exact hT.work d (hmem d hd)
  · intro u hu
    rw [hbusy] at hu
    rw [hqueued, hhead']
    rcases List.mem_cons.mp hu with rfl | hu
    · rw [ht]
      exact ⟨⟨e.work, rfl, hwork⟩, hsorted.1⟩
    · obtain ⟨hname, hbefore⟩ := hT.started u hu
      exact ⟨hname, fun d hd => hbefore d (hmem d hd)⟩
  · intro k hk
    rw [hqueued] at hk
    rw [hhead', hbusy, hremoved, hret, List.map_cons, List.mem_cons]
    have hk' := hT.settled k hk
    rw [hhead, List.map_cons, List.mem_cons] at hk'
    rcases hk' with (rfl | h) | h | h
    · exact Or.inr (Or.inl (Or.inl (by rw [ht])))
    · exact Or.inl h
    · exact Or.inr (Or.inl (Or.inr h))
    · exact Or.inr (Or.inr h)

/-- The last critical section of a callout drops trackers whose callback has
    returned. -/
theorem Tickets.calloutDone {s : Wq} {slot : Nat} (hT : Tickets s)
    (hret : ∀ t ∈ s.busy, t.slot = slot → t.ticket ∈ s.returned) :
    Tickets (calloutDone s slot) := by
  have hbusy : (Workqueue.calloutDone s slot).busy = s.busy.filter (·.slot ≠ slot) := by
    simp [Workqueue.calloutDone, Wq.busy]
  refine ⟨hT.sorted, hT.work, ?_, ?_⟩
  · intro t ht
    rw [hbusy] at ht
    exact hT.started t (List.mem_of_mem_filter ht)
  · intro k hk
    rcases hT.settled k hk with h | h | h
    · exact Or.inl h
    · obtain ⟨t, ht, rfl⟩ := List.mem_map.mp h
      by_cases hslot : t.slot = slot
      · exact Or.inr (Or.inr (Or.inr (hret t ht hslot)))
      · refine Or.inr (Or.inl (List.mem_map_of_mem ?_))
        rw [hbusy]
        exact List.mem_filter.mpr ⟨ht, by simpa using hslot⟩
    · exact Or.inr (Or.inr h)

theorem later_calloutDone (s : Wq) (slot : Nat) : Later s (calloutDone s slot) := by
  refine ⟨List.prefix_rfl, List.Subset.refl _, fun e he => Or.inl he, ?_, ?_⟩
  · intro t ht
    exact Or.inl (List.mem_of_mem_filter ht)
  · intro t ht
    refine Or.inl ?_
    rcases List.mem_append.mp ht with ht | ht
    · exact List.mem_append_left _ (List.mem_of_mem_filter ht)
    · exact List.mem_append_right _ (List.mem_of_mem_filter ht)

theorem Tickets.cancelRemove {s : Wq} {cl : Cancel} (hT : Tickets s) :
    Tickets (cancelRemove s cl).1 := by
  rcases cancelRemove_cases s cl with hr | ⟨-, -, ok, hr⟩
  · rw [hr]
    exact hT
  · rw [hr]
    refine ⟨hT.sorted.filter _, ?_, ?_, ?_⟩
    · intro e he
      exact hT.work e (List.mem_of_mem_filter he)
    · intro t ht
      obtain ⟨hname, hbefore⟩ := hT.started t ht
      exact ⟨hname, fun e he => hbefore e (List.mem_of_mem_filter he)⟩
    · intro k hk
      rcases hT.settled k hk with h | h | h | h
      · obtain ⟨e, he, rfl⟩ := List.mem_map.mp h
        by_cases hw : e.work = .item cl.work
        · refine Or.inr (Or.inr (Or.inl (List.mem_append_left _ (List.mem_map_of_mem ?_))))
          exact List.mem_filter.mpr ⟨he, by simpa using hw⟩
        · refine Or.inl (List.mem_map_of_mem ?_)
          exact List.mem_filter.mpr ⟨he, by simpa using hw⟩
      · exact Or.inr (Or.inl h)
      · exact Or.inr (Or.inr (Or.inl (List.mem_append_right _ h)))
      · exact Or.inr (Or.inr (Or.inr h))

theorem later_cancelRemove (s : Wq) (cl : Cancel) : Later s (cancelRemove s cl).1 := by
  rcases cancelRemove_cases s cl with hr | ⟨-, -, ok, hr⟩
  · rw [hr]
    exact Later.frame rfl rfl rfl rfl (List.Subset.refl _)
  · rw [hr]
    exact ⟨List.prefix_rfl, List.Subset.refl _, fun e he => Or.inl (List.mem_of_mem_filter he),
      fun t ht => Or.inl ht, fun t ht => Or.inl ht⟩

/-! ### Steps -/

/-- The dispatcher touches neither tickets nor history. -/
theorem tickets_vmklnxWorkqueueDispatch {s₀ s s' : Wq} {k : Ret} {pc : Pc} (hT : Tickets s)
    (hL : Later s₀ s) (h : vmklnxWorkqueueDispatch s k = (s', pc)) :
    Tickets s' ∧ Later s₀ s' := by
  obtain ⟨ok, ⟨rfl, -, -⟩ | ⟨rfl, -, -⟩⟩ := vmklnxWorkqueueDispatch_cases h
  · exact ⟨{ hT with }, { hL with }⟩
  · exact ⟨{ hT with }, { hL with }⟩

theorem tickets_cancelScan {s₀ s s' : Wq} {cl : Cancel} {pc : Pc} (hT : Tickets s)
    (hL : Later s₀ s) (h : cancelScan s cl = (s', pc)) : Tickets s' ∧ Later s₀ s' := by
  obtain ⟨rfl, -, -⟩ | ⟨rfl, -, -⟩ := cancelScan_cases h
  · exact ⟨{ hT with }, { hL with }⟩
  · exact ⟨hT, hL⟩

theorem Later.refl (s : Wq) : Later s s :=
  Later.frame rfl rfl rfl rfl (List.Subset.refl _)

theorem Tickets.returned {s s' : Wq} {ticket : Nat} (hT : Tickets s) (hhead : s'.head = s.head)
    (hqueued : s'.queued = s.queued) (hbusy : s'.busy = s.busy)
    (hremoved : s'.removed = s.removed) (hret : s'.returned = ticket :: s.returned) :
    Tickets s' := by
  refine ⟨hhead ▸ hT.sorted, ?_, ?_, ?_⟩
  · rw [hhead, hqueued]
    exact hT.work
  · rw [hbusy, hhead, hqueued]
    exact hT.started
  · intro k hk
    rw [hqueued] at hk
    rw [hhead, hbusy, hremoved, hret]
    rcases hT.settled k hk with h | h | h | h
    · exact Or.inl h
    · exact Or.inr (Or.inl h)
    · exact Or.inr (Or.inr (Or.inl h))
    · exact Or.inr (Or.inr (Or.inr (List.mem_cons_of_mem ticket h)))

/-- One step keeps the order of the tickets, provided that a callout in its last
    critical section has had its callback return. -/
theorem step_tickets {b : Bool} {s s' : Wq} {pc pc' : Pc} (h : step b s pc = some (s', pc'))
    (hT : Tickets s) (hret : ∀ slot ticket, pc = .calloutLock slot ticket →
      ∀ t ∈ s.busy, t.slot = slot → t.ticket ∈ s.returned) :
    Tickets s' ∧ Later s s' := by
  cases pc with
  | queueLock | flushQueue =>
    simp only [step, Option.some.injEq] at h
    exact tickets_vmklnxWorkqueueDispatch hT.queueWork (later_queueWork s _) h
  | relock k =>
    simp only [step, Option.some.injEq] at h
    obtain ⟨rfl, -, -⟩ | ⟨rfl, -, -⟩ := dispatchLoop_cases h
    · exact ⟨{ hT with }, Later.frame rfl rfl rfl rfl (List.Subset.refl _)⟩
    · exact ⟨hT, Later.refl _⟩
  | calloutLock slot ticket =>
    simp only [step, Option.some.injEq] at h
    exact tickets_vmklnxWorkqueueDispatch (hT.calloutDone (hret slot ticket rfl))
      (later_calloutDone s slot) h
  | callback w slot ticket =>
    cases w with
    | item i =>
      simp only [step, Option.some.injEq, Prod.mk.injEq] at h
      obtain ⟨rfl, rfl⟩ := h
      exact ⟨hT.returned rfl rfl rfl rfl rfl,
        Later.frame rfl rfl rfl rfl (List.subset_cons_self _ _)⟩
    | plunger owner =>
      simp only [step, Option.some.injEq, Prod.mk.injEq] at h
      obtain ⟨rfl, rfl⟩ := h
      refine ⟨{ hT with }, ?_⟩
      exact ⟨List.prefix_rfl, List.Subset.refl _, fun e he => Or.inl he,
        fun t ht => absurd ht List.not_mem_nil, fun t ht => Or.inl ht⟩
  | plungerComplete owner slot ticket =>
    simp only [step, Option.some.injEq, Prod.mk.injEq] at h
    obtain ⟨rfl, rfl⟩ := h
    exact ⟨hT.returned rfl rfl rfl rfl rfl,
      Later.frame rfl rfl rfl rfl (List.subset_cons_self _ _)⟩
  | cancelLock cl =>
    simp only [step] at h
    split at h
    · simp only [Option.some.injEq] at h
      exact tickets_cancelScan hT.cancelRemove (later_cancelRemove s cl) h
    · simp only [Option.some.injEq, Prod.mk.injEq] at h
      obtain ⟨rfl, rfl⟩ := h
      exact ⟨hT, Later.refl _⟩
  | cancelSleep cl =>
    simp only [step, Option.some.injEq] at h
    exact tickets_cancelScan (s := { s with waiting := s.waiting - 1 }) { hT with }
      (Later.frame rfl rfl rfl rfl (List.Subset.refl _)) h
  | _ =>
    simp only [step, flushTest] at h
    repeat' split at h
    all_goals simp only [Option.some.injEq, Prod.mk.injEq, reduceCtorEq] at h
    all_goals obtain ⟨rfl, rfl⟩ := h
    all_goals exact ⟨{ hT with },
      Later.frame rfl rfl rfl rfl (List.Subset.refl _)⟩

theorem enter_tickets {me : Nat} {s s' : Wq} {call : Call} {pc : Pc}
    (h : enter me s call = some (s', pc)) (hT : Tickets s) : Tickets s' ∧ Later s s' := by
  cases call with
  | callout =>
    simp only [enter] at h
    split at h
    · cases h
    · simp only [Option.some.injEq] at h
      obtain ⟨ok, rfl, -, -⟩ | ⟨e, head, wt, free, ok, hhead, -, -, rfl, -⟩ :=
        vmklnxWorkqueueCallout_cases h
      · exact ⟨{ hT with }, Later.frame rfl rfl rfl rfl (List.Subset.refl _)⟩
      · have hhead : s.head = e :: head := hhead
        have hmem : e ∈ s.head := by
          rw [hhead]
          exact List.mem_cons_self
        refine ⟨hT.callout (t := ⟨wt.slot, some e.work, e.ticket⟩) hhead rfl rfl rfl
          rfl rfl rfl, List.prefix_rfl, List.Subset.refl _, ?_, ?_, ?_⟩
        · intro d hd
          refine Or.inl ?_
          rw [hhead]
          exact List.mem_cons_of_mem e hd
        · intro t ht
          rcases List.mem_cons.mp ht with rfl | ht
          · exact Or.inr ⟨e, hmem, rfl⟩
          · exact Or.inl ht
        · intro t ht
          rcases List.mem_cons.mp ht with rfl | ht
          · exact Or.inr ⟨e, hmem, rfl, rfl⟩
          · exact Or.inl ht
  | timeout =>
    simp only [enter] at h
    split at h
    · simp only [Option.some.injEq] at h
      exact tickets_vmklnxWorkqueueDispatch (s := { s with delayTimer := false }) { hT with }
        (Later.frame rfl rfl rfl rfl (List.Subset.refl _)) h
    · cases h
  | _ =>
    simp only [enter] at h
    repeat' split at h
    all_goals simp only [Option.some.injEq, Prod.mk.injEq, reduceCtorEq] at h
    all_goals obtain ⟨rfl, rfl⟩ := h
    all_goals exact ⟨{ hT with },
      Later.frame rfl rfl rfl rfl (List.Subset.refl _)⟩

/-! ### Each plunger is queued once -/

/-- The call whose plunger this point has yet to queue. -/
def Pc.unqueuedPlunger : Pc → Option Nat
  | .flushMutexLock f | .flushInit f | .flushQueue f => some f.me
  | .destroyExitFlag me => some me
  | _ => none

@[simp] theorem Ret.unqueuedPlunger_pc (k : Ret) : k.pc.unqueuedPlunger = none := by
  cases k <;> rfl

@[simp] theorem Cancel.unqueuedPlunger_next (c : Cancel) : c.next.unqueuedPlunger = none := by
  unfold Cancel.next
  split <;> rfl

theorem dispatchLoop_unqueuedPlunger {s s' : Wq} {k : Ret} {pc : Pc}
    (h : dispatchLoop s k = (s', pc)) : pc.unqueuedPlunger = none ∧ s'.queued = s.queued := by
  obtain ⟨rfl, rfl, -⟩ | ⟨rfl, rfl, -⟩ := dispatchLoop_cases h
  · exact ⟨rfl, rfl⟩
  · exact ⟨Ret.unqueuedPlunger_pc k, rfl⟩

/-- What the next step of a call puts on `head`. -/
def Pc.queues : Pc → Option Work
  | .queueLock i _ => some (.item i)
  | .flushQueue f => some (.plunger f.me)
  | _ => none

theorem Pc.unqueuedPlunger_of_queues {pc : Pc} {m : Nat} (h : pc.queues = some (.plunger m)) :
    pc.unqueuedPlunger = some m := by
  cases pc with
  | flushQueue f =>
    simp only [Pc.queues, Option.some.injEq, Work.plunger.injEq] at h
    simp only [Pc.unqueuedPlunger, h]
  | _ => simp [Pc.queues] at h

/-- What a step adds to the history of `head`. -/
theorem step_queued {b : Bool} {s s' : Wq} {pc pc' : Pc} (h : step b s pc = some (s', pc')) :
    (s'.queued = s.queued ∧
      (pc'.unqueuedPlunger = none ∨ pc'.unqueuedPlunger = pc.unqueuedPlunger)) ∨
    (pc'.unqueuedPlunger = none ∧ ∃ w, s'.queued = s.queued ++ [w] ∧ pc.queues = some w) := by
  cases pc with
  | queueLock i ret =>
    simp only [step, Option.some.injEq] at h
    obtain ⟨hnone, hqueued⟩ := dispatchLoop_unqueuedPlunger h
    exact Or.inr ⟨hnone, .item i, hqueued, rfl⟩
  | flushQueue f =>
    simp only [step, Option.some.injEq] at h
    obtain ⟨hnone, hqueued⟩ := dispatchLoop_unqueuedPlunger h
    exact Or.inr ⟨hnone, .plunger f.me, hqueued, rfl⟩
  | relock | calloutLock =>
    simp only [step, Option.some.injEq] at h
    obtain ⟨hnone, hqueued⟩ := dispatchLoop_unqueuedPlunger h
    exact Or.inl ⟨hqueued, Or.inl hnone⟩
  | callback w slot ticket =>
    cases w <;>
    · simp only [step, Option.some.injEq, Prod.mk.injEq] at h
      obtain ⟨rfl, rfl⟩ := h
      exact Or.inl ⟨rfl, Or.inl rfl⟩
  | cancelLock cl =>
    simp only [step] at h
    split at h
    · simp only [Option.some.injEq] at h
      rcases cancelRemove_cases s cl with hr | ⟨-, -, ok, hr⟩ <;>
        rw [hr] at h <;>
        obtain ⟨rfl, rfl, -⟩ | ⟨rfl, rfl, -⟩ := cancelScan_cases h
      · exact Or.inl ⟨rfl, Or.inl rfl⟩
      · exact Or.inl ⟨rfl, Or.inl (Cancel.unqueuedPlunger_next _)⟩
      · exact Or.inl ⟨rfl, Or.inl rfl⟩
      · exact Or.inl ⟨rfl, Or.inl (Cancel.unqueuedPlunger_next _)⟩
    · simp only [Option.some.injEq, Prod.mk.injEq] at h
      obtain ⟨rfl, rfl⟩ := h
      exact Or.inl ⟨rfl, Or.inl (Cancel.unqueuedPlunger_next _)⟩
  | _ =>
    simp only [step, flushTest, cancelScan] at h
    repeat' split at h
    all_goals simp only [Option.some.injEq, Prod.mk.injEq, reduceCtorEq] at h
    all_goals obtain ⟨rfl, rfl⟩ := h
    all_goals first
      | exact Or.inl ⟨rfl, Or.inl rfl⟩
      | exact Or.inl ⟨rfl, Or.inr rfl⟩
      | exact Or.inl ⟨rfl, Or.inl (Ret.unqueuedPlunger_pc _)⟩
      | exact Or.inl ⟨rfl, Or.inl (Cancel.unqueuedPlunger_next _)⟩

theorem enter_queued {me : Nat} {s s' : Wq} {call : Call} {pc : Pc}
    (h : enter me s call = some (s', pc)) :
    s'.queued = s.queued ∧ ∀ m, pc.unqueuedPlunger = some m → m = me := by
  cases call with
  | callout =>
    simp only [enter] at h
    split at h
    · cases h
    · simp only [Option.some.injEq] at h
      obtain ⟨ok, rfl, rfl, -⟩ | ⟨e, head, wt, free, ok, -, -, -, rfl, rfl⟩ :=
        vmklnxWorkqueueCallout_cases h
      all_goals refine ⟨rfl, fun m hm => ?_⟩
      all_goals cases hm
  | timeout =>
    simp only [enter] at h
    split at h
    · simp only [Option.some.injEq] at h
      obtain ⟨hnone, hqueued⟩ := dispatchLoop_unqueuedPlunger h
      refine ⟨hqueued, fun m hm => ?_⟩
      rw [hnone] at hm
      cases hm
    · cases h
  | _ =>
    simp only [enter] at h
    repeat' split at h
    all_goals simp only [Option.some.injEq, Prod.mk.injEq, reduceCtorEq] at h
    all_goals obtain ⟨rfl, rfl⟩ := h
    all_goals refine ⟨rfl, fun m hm => ?_⟩
    all_goals simp only [Pc.unqueuedPlunger, Option.some.injEq, reduceCtorEq] at hm
    all_goals exact hm.symm

variable {ok : Config Wq Pc → Event Call Bool → Prop} {maxDispatch : Nat} {c : Config Wq Pc}

theorem unqueued_of_reach (h : machine.Reach ok (initial maxDispatch) c) :
    Fresh Pc.unqueuedPlunger (fun s m => Work.plunger m ∈ s.queued) c := by
  refine h.fresh ⟨each_nil _, fun m _ => List.not_mem_nil⟩ ?_ ?_
  · intro me call s s' pc hs
    obtain ⟨hqueued, hname⟩ := enter_queued (machine_start hs).2
    refine ⟨hname, fun m hm => ?_⟩
    rw [hqueued] at hm
    exact hm
  · intro b s pc s' pc' hs
    rcases step_queued (machine_act hs).2 with ⟨hqueued, hyet⟩ | ⟨hnone, w, hqueued, hw⟩
    · rw [hqueued]
      exact ⟨hyet, fun m hm => Or.inl hm⟩
    · refine ⟨Or.inl hnone, fun m hm => ?_⟩
      rw [hqueued, List.mem_append, List.mem_singleton] at hm
      rcases hm with hm | hm
      · exact Or.inl hm
      · exact Or.inr ⟨Pc.unqueuedPlunger_of_queues (hm ▸ hw), hnone⟩

/-- No plunger has two tickets. -/
def Wq.PlungersOnce (s : Wq) : Prop :=
  ∀ m k k' : Nat,
    s.queued[k]? = some (Work.plunger m) → s.queued[k']? = some (Work.plunger m) → k = k'

theorem plungersOnce_of_reach (h : machine.Reach ok (initial maxDispatch) c) :
    c.shared.PlungersOnce := by
  refine Machine.Reach.invariant (fun c => c.shared.PlungersOnce) ?_ ?_ ?_ h
  · intro m k k' hk
    cases hk
  · intro c call s' pc _ hI _ hs
    have hqueued := (enter_queued (machine_start hs).2).1
    intro m k k'
    rw [hqueued]
    exact hI m k k'
  · intro c i b pc s' pc' hc hI _ hi hs
    rcases step_queued (machine_act hs).2 with ⟨hqueued, -⟩ | ⟨-, w, hqueued, hw⟩
    · intro m k k'
      rw [hqueued]
      exact hI m k k'
    · -- the new entry is the only one if it is a plunger
      have hnew : ∀ m k, (c.shared.queued ++ [w])[k]? = some (.plunger m) →
          c.shared.queued[k]? = some (.plunger m) ∨ (k = c.shared.queued.length ∧
            Work.plunger m ∉ c.shared.queued) := by
        intro m k hk
        rw [List.getElem?_append] at hk
        split at hk
        · exact Or.inl hk
        · have hkeq : k = c.shared.queued.length := by
            have hlt := (List.getElem?_eq_some_iff.mp hk).1
            simp only [List.length_singleton] at hlt
            omega
          subst hkeq
          simp only [Nat.sub_self, List.getElem?_cons_zero, Option.some.injEq] at hk
          have hyet : pc.unqueuedPlunger = some m := Pc.unqueuedPlunger_of_queues (hk ▸ hw)
          exact Or.inr ⟨rfl, ((unqueued_of_reach hc).own i pc hi m hyet).2⟩
      intro m k k' hk hk'
      rw [hqueued] at hk hk'
      rcases hnew m k hk with hold | ⟨rfl, hnot⟩
      · rcases hnew m k' hk' with hold' | ⟨-, hnot⟩
        · exact hI m k k' hold hold'
        · exact absurd (List.mem_of_getElem? hold) hnot
      · rcases hnew m k' hk' with hold' | ⟨rfl, -⟩
        · exact absurd (List.mem_of_getElem? hold') hnot
        · rfl

/-! ### Where the calls are -/

/-- A call that queued its plunger under the ticket `p`. -/
def Ret.Sound (s : Wq) (i : Nat) : Ret → Prop
  | .done _ => True
  | .flush f p => f.me = i ∧ s.queued[p]? = some (.plunger i)

/-- What a call of name `i` knows at each point of its way through a callout or a
    flush. -/
def Pc.Sound (s : Wq) (i : Nat) : Pc → Prop
  | .clearPending w _ ticket | .callback w _ ticket => s.queued[ticket]? = some w
  | .plungerComplete owner _ ticket => s.queued[ticket]? = some (.plunger owner) ∧ s.Past ticket
  | .calloutLock _ ticket => ticket ∈ s.returned
  | .submit k | .submitFailed k | .armDelay k | .relock k => k.Sound s i
  | .flushWait f p => f.me = i ∧ s.queued[p]? = some (.plunger i)
  | .flushLock f p | .flushSleep f p => f.me = i ∧ s.queued[p]? = some (.plunger i) ∧ s.Past p
  | .flushMutexUnlock _ p | .flushed p | .destroyLock p | .destroyCheck p | .destroyDelTimer p
  | .destroyFree p | .destroyed p => s.queued[p]? = some (.plunger i) ∧ s.Clear p
  | _ => True

@[simp] theorem Ret.sound_pc (s : Wq) (i : Nat) (k : Ret) : k.pc.Sound s i ↔ k.Sound s i := by
  cases k <;> rfl

@[simp] theorem Cancel.sound_next (s : Wq) (i : Nat) (c : Cancel) : c.next.Sound s i := by
  unfold Cancel.next
  split <;> trivial

theorem Ret.Sound.later {s s' : Wq} {i : Nat} {k : Ret} (hL : Later s s') (h : k.Sound s i) :
    k.Sound s' i := by
  cases k with
  | done ret => trivial
  | flush f p => exact ⟨h.1, hL.queued_get h.2⟩

theorem queued_lt {s : Wq} {k : Nat} {w : Work} (h : s.queued[k]? = some w) :
    k < s.queued.length :=
  (List.getElem?_eq_some_iff.mp h).1

/-- Steps of other calls do not take away what a call knows. -/
theorem Pc.Sound.later {s s' : Wq} {i : Nat} {pc : Pc} (hL : Later s s') (h : pc.Sound s i) :
    pc.Sound s' i := by
  cases pc with
  | clearPending | callback => exact hL.queued_get h
  | plungerComplete => exact ⟨hL.queued_get h.1, hL.past (queued_lt h.1) h.2⟩
  | calloutLock => exact hL.returned h
  | submit | submitFailed | armDelay | relock => exact Ret.Sound.later hL h
  | flushWait => exact ⟨h.1, hL.queued_get h.2⟩
  | flushLock | flushSleep =>
    exact ⟨h.1, hL.queued_get h.2.1, hL.past (queued_lt h.2.1) h.2.2⟩
  | flushMutexUnlock | flushed | destroyLock | destroyCheck | destroyDelTimer | destroyFree
  | destroyed => exact ⟨hL.queued_get h.1, hL.clear (queued_lt h.1) h.2⟩
  | _ => trivial

/-- A completed plunger has run. -/
def Wq.Completed (s : Wq) : Prop :=
  ∀ m, s.completion m = true → ∃ k : Nat, s.queued[k]? = some (Work.plunger m) ∧ s.Past k

theorem vmklnxWorkqueueDispatch_sound {s s' : Wq} {i : Nat} {k : Ret} {pc : Pc}
    (h : vmklnxWorkqueueDispatch s k = (s', pc)) (hk : k.Sound s i) : pc.Sound s' i := by
  obtain ⟨ok, ⟨rfl, rfl, -⟩ | ⟨rfl, rfl, -⟩⟩ := vmklnxWorkqueueDispatch_cases h
  · cases k <;> exact hk
  · rw [Ret.sound_pc]
    cases k <;> exact hk

/-- What the stepping call knows after its step. -/
theorem step_sound {n : Nat} {b : Bool} {s s' : Wq} {i : Nat} {pc pc' : Pc} {r : Share}
    (h : step b s pc = some (s', pc')) (hA : Accounts n s (r.add pc)) (hT : Tickets s)
    (honce : s.PlungersOnce) (hC : s.Completed)
    (hme : ∀ f, pc = .flushQueue f → f.me = i) (hI : pc.Sound s i) : pc'.Sound s' i := by
  cases pc with
  | queueLock j ret =>
    simp only [step, Option.some.injEq] at h
    exact vmklnxWorkqueueDispatch_sound h trivial
  | flushQueue f =>
    simp only [step, Option.some.injEq] at h
    refine vmklnxWorkqueueDispatch_sound h ⟨hme f rfl, ?_⟩
    rw [← hme f rfl]
    exact List.getElem?_concat_length
  | relock k =>
    simp only [step, Option.some.injEq] at h
    obtain ⟨rfl, rfl, -⟩ | ⟨rfl, rfl, -⟩ := dispatchLoop_cases h
    · cases k <;> exact hI
    · rw [Ret.sound_pc]
      exact hI
  | calloutLock slot ticket =>
    simp only [step, Option.some.injEq] at h
    exact vmklnxWorkqueueDispatch_sound h trivial
  | callback w slot ticket =>
    cases w with
    | item j =>
      simp only [step, Option.some.injEq, Prod.mk.injEq] at h
      obtain ⟨rfl, rfl⟩ := h
      exact List.mem_cons_self
    | plunger owner =>
      simp only [step, Option.some.injEq, Prod.mk.injEq] at h
      obtain ⟨rfl, rfl⟩ := h
      -- the plunger is tracked, so all of `head` is behind it
      obtain ⟨t, ht, -, htick⟩ := hA.mem_busy slot ticket (by simp [Pc.tracks])
      refine ⟨hI, ?_, ?_⟩
      · intro e he
        rw [← htick]
        exact (hT.started t ht).2 e he
      · intro u hu
        cases hu
  | plungerComplete owner slot ticket =>
    simp only [step, Option.some.injEq, Prod.mk.injEq] at h
    obtain ⟨rfl, rfl⟩ := h
    exact List.mem_cons_self
  | flushWait f p =>
    simp only [step] at h
    split at h
    · rename_i hdone
      simp only [Option.some.injEq, Prod.mk.injEq] at h
      obtain ⟨rfl, rfl⟩ := h
      obtain ⟨k, hk, hpast⟩ := hC f.me hdone
      rw [hI.1] at hk
      have hkp : k = p := honce i k p hk hI.2
      subst hkp
      exact ⟨hI.1, hI.2, hpast⟩
    · cases h
  | flushLock f p | flushSleep f p =>
    simp only [step, flushTest] at h
    split at h
    · rename_i hempty
      simp only [Option.some.injEq, Prod.mk.injEq] at h
      obtain ⟨rfl, rfl⟩ := h
      refine ⟨hI.2.1, hI.2.2.1, ?_⟩
      intro t ht
      rcases List.mem_append.mp ht with ht | ht
      · exact hI.2.2.2 t ht
      · have hnil : s.trackFlushList = [] := hempty
        change t ∈ s.trackFlushList at ht
        rw [hnil] at ht
        cases ht
    · simp only [Option.some.injEq, Prod.mk.injEq] at h
      obtain ⟨rfl, rfl⟩ := h
      exact hI
  | cancelLock cl =>
    simp only [step] at h
    split at h
    · simp only [Option.some.injEq] at h
      obtain ⟨-, rfl, -⟩ | ⟨-, rfl, -⟩ := cancelScan_cases h
      · trivial
      · exact Cancel.sound_next _ _ _
    · simp only [Option.some.injEq, Prod.mk.injEq] at h
      obtain ⟨rfl, rfl⟩ := h
      exact Cancel.sound_next _ _ _
  | cancelSleep cl =>
    simp only [step, Option.some.injEq] at h
    obtain ⟨-, rfl, -⟩ | ⟨-, rfl, -⟩ := cancelScan_cases h
    · trivial
    · exact Cancel.sound_next _ _ _
  | _ =>
    simp only [step] at h
    repeat' split at h
    all_goals simp only [Option.some.injEq, Prod.mk.injEq, reduceCtorEq] at h
    all_goals obtain ⟨rfl, rfl⟩ := h
    all_goals first
      | exact hI
      | trivial
      | exact Cancel.sound_next _ _ _
      | exact (Ret.sound_pc _ _ _).mpr (Ret.Sound.later
          (Later.frame rfl rfl rfl rfl (List.Subset.refl _)) hI)

/-- Only the callout of a plunger completes it. -/
theorem step_completion {b : Bool} {s s' : Wq} {pc pc' : Pc} {m : Nat}
    (h : step b s pc = some (s', pc')) (hm : s'.completion m = true) :
    s.completion m = true ∨ ∃ slot ticket, pc = .plungerComplete m slot ticket := by
  cases pc with
  | queueLock | flushQueue | calloutLock =>
    simp only [step, Option.some.injEq] at h
    obtain ⟨ok, ⟨rfl, -, -⟩ | ⟨rfl, -, -⟩⟩ := vmklnxWorkqueueDispatch_cases h <;> exact Or.inl hm
  | relock k =>
    simp only [step, Option.some.injEq] at h
    obtain ⟨rfl, -, -⟩ | ⟨rfl, -, -⟩ := dispatchLoop_cases h <;> exact Or.inl hm
  | callback w slot ticket =>
    cases w <;>
    · simp only [step, Option.some.injEq, Prod.mk.injEq] at h
      obtain ⟨rfl, rfl⟩ := h
      exact Or.inl hm
  | plungerComplete owner slot ticket =>
    simp only [step, Option.some.injEq, Prod.mk.injEq] at h
    obtain ⟨rfl, rfl⟩ := h
    by_cases hmo : m = owner
    · subst hmo
      exact Or.inr ⟨slot, ticket, rfl⟩
    · simp only [Function.update_of_ne hmo] at hm
      exact Or.inl hm
  | flushInit f =>
    simp only [step, Option.some.injEq, Prod.mk.injEq] at h
    obtain ⟨rfl, rfl⟩ := h
    by_cases hmf : m = f.me
    · subst hmf
      simp only [Function.update_self, Bool.false_eq_true] at hm
    · simp only [Function.update_of_ne hmf] at hm
      exact Or.inl hm
  | cancelLock cl =>
    simp only [step] at h
    split at h
    · simp only [Option.some.injEq] at h
      rcases cancelRemove_cases s cl with hr | ⟨-, -, ok, hr⟩ <;>
        rw [hr] at h <;>
        obtain ⟨rfl, -, -⟩ | ⟨rfl, -, -⟩ := cancelScan_cases h <;>
        exact Or.inl hm
    · simp only [Option.some.injEq, Prod.mk.injEq] at h
      obtain ⟨rfl, rfl⟩ := h
      exact Or.inl hm
  | _ =>
    simp only [step, flushTest, cancelScan] at h
    repeat' split at h
    all_goals simp only [Option.some.injEq, Prod.mk.injEq, reduceCtorEq] at h
    all_goals obtain ⟨rfl, rfl⟩ := h
    all_goals exact Or.inl hm

/-- How a new call starts leaves completions alone and gives it nothing to know,
    except for the entry that a callout takes. -/
theorem enter_sound {me i : Nat} {s s' : Wq} {call : Call} {pc : Pc}
    (h : enter me s call = some (s', pc)) (hT : Tickets s) :
    s'.completion = s.completion ∧ pc.Sound s' i := by
  cases call with
  | callout =>
    simp only [enter] at h
    split at h
    · cases h
    · simp only [Option.some.injEq] at h
      obtain ⟨ok, rfl, rfl, -⟩ | ⟨e, head, wt, free, ok, hhead, -, -, rfl, rfl⟩ :=
        vmklnxWorkqueueCallout_cases h
      · exact ⟨rfl, trivial⟩
      · have hhead : s.head = e :: head := hhead
        have hmem : e ∈ s.head := by
          rw [hhead]
          exact List.mem_cons_self
        exact ⟨rfl, hT.work e hmem⟩
  | timeout =>
    simp only [enter] at h
    split at h
    · simp only [Option.some.injEq] at h
      refine ⟨?_, vmklnxWorkqueueDispatch_sound h trivial⟩
      obtain ⟨ok, ⟨rfl, -, -⟩ | ⟨rfl, -, -⟩⟩ := vmklnxWorkqueueDispatch_cases h <;> rfl
    · cases h
  | _ =>
    simp only [enter] at h
    repeat' split at h
    all_goals simp only [Option.some.injEq, Prod.mk.injEq, reduceCtorEq] at h
    all_goals obtain ⟨rfl, rfl⟩ := h
    all_goals exact ⟨rfl, trivial⟩

/-! ### Runs -/

/-- The tickets are in order, completions are justified, and every call is right
    about what it knows. -/
structure Flushing (c : Config Wq Pc) : Prop where
  tickets : Tickets c.shared
  completed : c.shared.Completed
  calls : Each (fun i pc => Pc.Sound c.shared i pc) c.pool

/-- A callout in its last critical section has had its callback return. -/
theorem Flushing.returned (hI : Flushing c) (h : machine.Reach ok (initial maxDispatch) c)
    {i : Nat} {pc : Pc} (hi : c.pool[i]? = some pc) :
    ∀ slot ticket, pc = .calloutLock slot ticket →
      ∀ t ∈ c.shared.busy, t.slot = slot → t.ticket ∈ c.shared.returned := by
  rintro slot ticket rfl t ht hslot
  have haccounts := accounts_of_reach h
  rw [Share.of_eq_others hi] at haccounts
  rw [haccounts.ticket_unique ht hslot]
  exact hI.calls i _ hi

theorem Wq.Completed.later {s s' : Wq} (hC : s.Completed) (hL : Later s s')
    (hsub : ∀ m, s'.completion m = true → s.completion m = true ∨
      ∃ k : Nat, s.queued[k]? = some (Work.plunger m) ∧ s.Past k) : s'.Completed := by
  intro m hm
  obtain ⟨k, hk, hpast⟩ := (hsub m hm).elim (hC m) id
  exact ⟨k, hL.queued_get hk, hL.past (queued_lt hk) hpast⟩

theorem flushing_of_reach (h : machine.Reach ok (initial maxDispatch) c) : Flushing c := by
  refine Machine.Reach.invariant Flushing ?_ ?_ ?_ h
  · refine ⟨⟨List.Pairwise.nil, ?_, ?_, ?_⟩, ?_, each_nil _⟩
    · intro e he
      cases he
    · intro t ht
      cases ht
    · intro k hk
      cases hk
    · intro m hm
      cases hm
  · intro c call s' pc _ hI _ hs
    have hs := (machine_start hs).2
    obtain ⟨hT, hL⟩ := enter_tickets hs hI.tickets
    obtain ⟨hcompletion, hsound⟩ := enter_sound (i := c.pool.length) hs hI.tickets
    refine ⟨hT, hI.completed.later hL fun m hm => ?_, ?_⟩
    · rw [hcompletion] at hm
      exact Or.inl hm
    · exact hI.calls.append (fun i u _ hu => hu.later hL) hsound
  · intro c i b pc s' pc' hc hI _ hi hs
    have hs := (machine_act hs).2
    have haccounts := accounts_of_reach hc
    rw [Share.of_eq_others hi] at haccounts
    have hcall := hI.calls i pc hi
    obtain ⟨hT, hL⟩ := step_tickets hs hI.tickets (hI.returned hc hi)
    refine ⟨hT, hI.completed.later hL fun m hm => ?_, ?_⟩
    · rcases step_completion hs hm with hold | ⟨slot, ticket, rfl⟩
      · exact Or.inl hold
      · exact Or.inr ⟨ticket, hcall⟩
    · refine hI.calls.set (fun j u _ _ hu => hu.later hL) ?_
      refine step_sound hs haccounts hI.tickets (plungersOnce_of_reach hc) hI.completed ?_ hcall
      rintro f rfl
      exact ((unqueued_of_reach hc).own i _ hi f.me rfl).1

theorem later_of_start (h : machine.Reach ok (initial maxDispatch) c) {call : Call} {s' : Wq}
    {pc : Pc} (hs : machine.start c.pool.length call c.shared = some (s', pc)) :
    Later c.shared s' :=
  (enter_tickets (machine_start hs).2 (flushing_of_reach h).tickets).2

theorem later_of_act (h : machine.Reach ok (initial maxDispatch) c) {i : Nat} {b : Bool}
    {pc pc' : Pc} {s' : Wq} (hi : c.pool[i]? = some pc)
    (hs : machine.act b c.shared pc = some (s', pc')) : Later c.shared s' :=
  have hF := flushing_of_reach h
  (step_tickets (machine_act hs).2 hF.tickets (hF.returned h hi)).2

/-! ### The guarantee -/

/-- The ticket of the plunger of a `flush_workqueue` that has returned, to a driver
    or to `destroy_workqueue`. -/
def Pc.flushReturned : Pc → Option Nat
  | .flushed p | .destroyLock p | .destroyCheck p | .destroyDelTimer p | .destroyFree p
  | .destroyed p => some p
  | _ => none

/-- When a flush has returned, everything up to its plunger is settled and neither
    on `head` nor tracked. -/
theorem clear_of_flushReturned (h : machine.Reach ok (initial maxDispatch) c) {i p : Nat}
    {pc : Pc} (hi : c.pool[i]? = some pc) (hp : pc.flushReturned = some p) :
    c.shared.queued[p]? = some (.plunger i) ∧ c.shared.Clear p := by
  have hcall := (flushing_of_reach h).calls i pc hi
  cases pc with
  | flushed | destroyLock | destroyCheck | destroyDelTimer | destroyFree | destroyed =>
    cases hp
    exact hcall
  | _ => cases hp

/-- **Flush guarantee.**  Take any run of a queue, whatever its `maxDispatch`.  When a
    call of `flush_workqueue` has returned, every entry that was put on `head` before
    the plunger of the call was taken off by a cancel, or its callback has returned;
    and it is on neither tracker list. -/
theorem flush_settles_earlier (h : machine.Reachable (initial maxDispatch) c) {i p : Nat}
    {pc : Pc} (hi : c.pool[i]? = some pc) (hp : pc.flushReturned = some p) :
    c.shared.queued[p]? = some (.plunger i) ∧
    ∀ k < p, (k ∈ c.shared.removed ∨ k ∈ c.shared.returned) ∧
      k ∉ c.shared.trackList.map Tracker.ticket ∧
      k ∉ c.shared.trackFlushList.map Tracker.ticket := by
  obtain ⟨hqueued, hhead, hbusy⟩ := clear_of_flushReturned h hi hp
  refine ⟨hqueued, ?_⟩
  intro k hk
  have hnotBusy : ∀ t ∈ c.shared.busy, t.ticket ≠ k := by
    intro t ht
    have := hbusy t ht
    omega
  refine ⟨?_, ?_, ?_⟩
  · have hlt := queued_lt hqueued
    rcases (flushing_of_reach h).tickets.settled k (by omega) with hin | hin | hin
    · obtain ⟨e, he, rfl⟩ := List.mem_map.mp hin
      have := hhead e he
      omega
    · obtain ⟨t, ht, rfl⟩ := List.mem_map.mp hin
      exact absurd rfl (hnotBusy t ht)
    · exact hin
  · intro hin
    obtain ⟨t, ht, heq⟩ := List.mem_map.mp hin
    exact hnotBusy t (List.mem_append_left _ ht) heq
  · intro hin
    obtain ⟨t, ht, heq⟩ := List.mem_map.mp hin
    exact hnotBusy t (List.mem_append_right _ ht) heq

/-- A single-threaded queue with one item: call 0 queues it, call 1 flushes, and two
    callouts run the item and the plunger. -/
def flushRun : List (Event Call Bool) :=
  [.start (.queueWork 0), .act 0 true, .act 0 true, .act 0 true, .act 0 true,
    .start .flush, .act 1 true, .act 1 true, .act 1 true, .act 1 true,
    .start .callout, .act 2 true, .act 2 true, .act 2 true,
    .start .callout, .act 3 true, .act 3 true, .act 3 true, .act 3 true,
    .act 1 true, .act 1 true, .act 1 true]

theorem flush_settles_item : ∃ c, machine.Reachable (initial 1) c ∧
    c.pool[1]? = some (.flushed 1) ∧ c.shared.queued = [.item 0, .plunger 1] ∧
    (0 ∈ c.shared.removed ∨ 0 ∈ c.shared.returned) := by
  obtain ⟨c, hc, hobs⟩ := machine.exists_reachable_of_run flushRun (initial 1)
    (fun c => (c.pool[1]?, c.shared.queued)) (some (.flushed 1), [.item 0, .plunger 1])
    (by decide)
  simp only [Prod.mk.injEq] at hobs
  have hflush := flush_settles_earlier hc hobs.1 rfl
  exact ⟨c, hc, hobs.1, hobs.2, (hflush.2 0 (by omega)).1⟩

end VmkLinux.Workqueue
