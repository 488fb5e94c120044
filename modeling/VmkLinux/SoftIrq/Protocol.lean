/-
  VmkLinux/SoftIrq/Protocol.lean
  ==============================
  **The protocol**: what holds of bottom halves, softirqs and tasklets in every state.

  A routine that was queued is on one list or in one chain until it is started, and it can always
  be started: nothing in `Linux_BHHandler` waits, and each step of it leaves less to do
  (`left_step`).  A tasklet with `TASKLET_STATE_SCHED` has one place, too, and one of the places is
  `tasklet_schedule` between setting the bit and linking (`scheduled_nowhere`).
-/
import VmkLinux.SoftIrq.Tasklets

namespace VmkLinux.SoftIrq

open VmkLinux.Interleave

/-! ### `Linux_BHHandler` comes to its end -/

/-- The call is in `Linux_BHHandler`. -/
def Pc.handling : Pc → Bool
  | .walk | .call | .ret | .softirq | .take => true
  | pc => pc.acting

/-- The steps that `tasklet_action` needs for a tasklet. -/
def Pc.left : Pc → Nat
  | .trylock => 7
  | .readCount => 6
  | .clearSched | .unlockBack => 5
  | .func => 4
  | .unlock => 3
  | .putBack => 2
  | _ => 0

/-- What a call of `Linux_BHHandler` has still to do: routines first, then softirqs, then
    tasklets. -/
def Thread.left (t : Thread) : Nat × Nat × Nat :=
  match t.pc with
  | .walk => (t.chain.length, 1, 0)
  | .call | .done => (t.chain.length, 0, 0)
  | .ret => (t.chain.length, 2, 0)
  | .softirq => (t.chain.length, 3 * (34 - t.nr) + 5, 0)
  | .take => (t.chain.length, 3 * (34 - t.nr) + 4, 0)
  | pc => (t.chain.length, 3 * (34 - t.nr) + 3, 8 * t.rest.length + pc.left)

def Less : Nat × Nat × Nat → Nat × Nat × Nat → Prop :=
  Prod.Lex (· < ·) (Prod.Lex (· < ·) (· < ·))

theorem less_wf : WellFounded Less :=
  (Prod.lex Nat.lt_wfRel (Prod.lex Nat.lt_wfRel Nat.lt_wfRel)).wf

section Handler

variable {s : Shared} {b : Bh} {k : Tk} {t : Thread} {i : Nat}

theorem nr_le_of_acting (h : t.TkFits k i) (hpc : t.pc.acting = true) : t.nr ≤ 5 := by
  have hnr := (h.acts (.inr hpc)).1
  rw [← hnr]
  unfold Vec.nr
  split <;> omega

theorem less_fst {a a' b b' d d' : Nat} (h : a < a') : Less (a, b, d) (a', b', d') :=
  Prod.Lex.left _ _ h

theorem less_snd {a b b' d d' : Nat} (h : b < b') : Less (a, b, d) (a, b', d') :=
  Prod.Lex.right _ (Prod.Lex.left _ _ h)

theorem less_trd {a b d d' : Nat} (h : d < d') : Less (a, b, d) (a, b, d') :=
  Prod.Lex.right _ (Prod.Lex.right _ h)

/-- What `Linux_BHHandler` has to start it finds. -/
theorem chain_of_front (h : t.BhFits b i) {x : Node} (hfront : t.front = some x) :
    ∃ l, t.chain = x :: l := by
  have hchain := h.chain
  rw [hfront] at hchain
  generalize t.chain = l at hchain
  cases hchain
  exact ⟨_, rfl⟩

/-- A step of `tasklet_action`. -/
theorem left_action (hk : t.TkFits s.tk i) (hpc : t.pc.acting = true) :
    ∃ s' t', stepAction s t = some (s', t') ∧ Less t'.left t.left := by
  have hnr := nr_le_of_acting hk hpc
  unfold stepAction
  cases hcase : t.pc <;> simp [hcase, Pc.acting] at hpc
  case pop =>
    have hchain := hk.chain
    simp only [Thread.ptr, hcase, Pc.acting, if_true] at hchain
    cases hlist : t.list with
    | none =>
      refine ⟨_, _, rfl, ?_⟩
      simp only [Thread.left, hcase]
      exact less_snd (by omega)
    | some x =>
      rw [hlist] at hchain
      generalize hrest : t.rest = l at hchain
      cases hchain
      refine ⟨_, _, rfl, ?_⟩
      simp only [Thread.left, hcase, Pc.left, hrest, List.tail_cons, List.length_cons]
      exact less_trd (by omega)
  case trylock =>
    simp only
    split
    all_goals
      refine ⟨_, _, rfl, ?_⟩
      simp only [Thread.left, hcase, Pc.left]
      exact less_trd (by omega)
  case readCount =>
    by_cases hzero : s.tk.count t.t = 0
    all_goals
      refine ⟨_, _, rfl, ?_⟩
      simp only [Thread.left, hcase, Pc.left, hzero, if_true, if_false]
      exact less_trd (by omega)
  all_goals
    refine ⟨_, _, rfl, ?_⟩
    simp only [Thread.left, hcase, Pc.left]
    exact less_trd (by omega)

/-- A call of `Linux_BHHandler` can go on, and has less to do then. -/
theorem left_step (hb : t.BhFits s.bh i) (hk : t.TkFits s.tk i) (hpc : t.pc.handling = true) :
    ∃ s' t', step () s t = some (s', t') ∧ Less t'.left t.left := by
  by_cases hacting : t.pc.acting = true
  · obtain ⟨s', t', hstep, hless⟩ := left_action hk hacting
    refine ⟨s', t', ?_, hless⟩
    unfold step
    cases hcase : t.pc <;> simp [hcase, Pc.acting] at hacting
    all_goals exact hstep
  · unfold step
    cases hcase : t.pc <;> simp [hcase, Pc.handling, Pc.acting] at hpc hacting
    all_goals simp only [stepBh, stepAction, hcase]
    case walk =>
      cases hd : t.d with
      | none =>
        refine ⟨_, _, rfl, ?_⟩
        simp only [Thread.left, hcase]
        exact less_snd (by omega)
      | some x =>
        refine ⟨_, _, rfl, ?_⟩
        simp only [Thread.left, hcase]
        exact less_snd (by omega)
    case call =>
      obtain ⟨x, hd, -⟩ := hb.call hcase
      obtain ⟨l, hl⟩ := chain_of_front hb (show t.front = some x by simp [Thread.front, hcase, hd])
      simp only [hd]
      cases x
      all_goals
        refine ⟨_, _, rfl, ?_⟩
        simp only [Thread.left, hcase, hl, List.tail_cons, List.length_cons]
        exact less_fst (by omega)
    case ret =>
      refine ⟨_, _, rfl, ?_⟩
      simp only [Thread.left, hcase]
      exact less_snd (by omega)
    case take =>
      refine ⟨_, _, rfl, ?_⟩
      simp only [Thread.left, hcase]
      exact less_snd (by omega)
    case softirq =>
      unfold maxSoftirq
      repeat' split
      all_goals
        refine ⟨_, _, rfl, ?_⟩
        simp only [Thread.left, hcase]
        exact less_snd (by omega)

theorem handling_of_front (h : t.front ≠ none) : t.pc.handling = true := by
  cases hpc : t.pc <;> simp [Thread.front, hpc, Pc.handling, Pc.acting] at h ⊢

/-- What is in a chain is in that of a running `Linux_BHHandler`. -/
theorem handling_of_mem (h : t.BhFits b i) {d : Node} (hd : d ∈ t.chain) :
    t.pc.handling = true := by
  refine handling_of_front fun hfront => ?_
  have hchain := h.chain
  rw [hfront] at hchain
  generalize t.chain = l at hchain hd
  cases hchain
  cases hd

/-- A routine that leaves a chain has been started. -/
theorem started_step {b' : Bh} {t' : Thread} (hb : t.BhFits b i) (h : BhStep b t b' t') (d : Node) :
    b.started d ≤ b'.started d ∧ (d ∈ t.chain → d ∈ t'.chain ∨ b.started d < b'.started d) := by
  have hcalls : ∀ {x : Node} {u : Thread}, t.Calls x u →
      b.started d ≤ (b.start x).started d ∧
        (d ∈ t.chain → d ∈ u.chain ∨ b.started d < (b.start x).started d) := by
    intro x u hc
    obtain ⟨l, hl⟩ := chain_of_front hb (show t.front = some x by simp [Thread.front, hc.pc, hc.d])
    rw [hc.chain, hl]
    simp only [Bh.start, List.tail_cons, List.mem_cons]
    by_cases hd : d = x
    · subst hd
      simp
    · simp [hd]
  cases h with
  | still hs => exact ⟨Nat.le_refl _, fun hd => .inl (hs.chain ▸ hd)⟩
  | @link nr _ hnr hs =>
    have hsame : (b.raiseIrqoff t.cpu nr).started = b.started := by
      unfold Bh.raiseIrqoff
      split <;> rfl
    rw [hsame]
    exact ⟨Nat.le_refl _, fun hd => .inl (hs.chain ▸ hd)⟩
  | bh hpc => exact ⟨Nat.le_refl _, .inl⟩
  | raise hnr hr hiff => exact ⟨Nat.le_refl _, fun hd => .inl (hr.chain ▸ hd)⟩
  | raiseLink hpc => exact ⟨Nat.le_refl _, .inl⟩
  | routine hc => exact hcalls hc
  | softirq hc => exact hcalls hc

end Handler

/-- A routine in the chain of a call gets started by that call. -/
theorem exists_started {c : Config Shared Thread} (hc : machine.Reachable initial c) {i : Nat}
    {t : Thread} (hi : c.pool[i]? = some t) {d : Node} (hd : d ∈ t.chain) :
    ∃ c', machine.Reachable c c' ∧ c.shared.bh.started d < c'.shared.bh.started d := by
  have hgo : ∀ c₁ u, machine.Reachable initial c₁ → c₁.pool[i]? = some u → d ∈ u.chain →
      ∃ g u', machine.act () c₁.shared u = some (g, u') ∧ Less u'.left u.left ∧
        machine.Reachable initial ⟨g, c₁.pool.set i u'⟩ := by
    intro c₁ u hc₁ hu hmem
    have hb := (bhInv_of_reachable hc₁).threads i u hu
    have hk := (tkInv_of_reachable hc₁).threads i u hu
    obtain ⟨s', u', hact, hless⟩ := left_step hb hk (handling_of_mem hb hmem)
    exact ⟨s', u', hact, hless, .step hc₁ trivial (Machine.exec_act (a := ()) hu hact)⟩
  obtain ⟨c', t', hreach, hi', hnot⟩ :=
    Machine.exists_reach_of_less less_wf Thread.left (fun u => d ∈ u.chain) () i _ hgo c t hc hi
  refine ⟨c', hreach.reachable, ?_⟩
  -- on the way the routine is in the chain, or was started
  have hway : ∃ u, c'.pool[i]? = some u ∧ c.shared.bh.started d ≤ c'.shared.bh.started d ∧
      (d ∈ u.chain ∨ c.shared.bh.started d < c'.shared.bh.started d) := by
    refine Machine.Reach.invariant (fun c₁ => ∃ u, c₁.pool[i]? = some u ∧
      c.shared.bh.started d ≤ c₁.shared.bh.started d ∧
      (d ∈ u.chain ∨ c.shared.bh.started d < c₁.shared.bh.started d)) ?_ ?_ ?_ hreach
    · exact ⟨t, hi, Nat.le_refl _, .inl hd⟩
    · intro c₁ call g u _ _ hok _
      cases hok
    · rintro c₁ j a u s' u' hc₁ ⟨u₀, hu₀, hle, hor⟩ hok hj hact
      cases hok
      obtain rfl := Option.some.inj (hj.symm.trans hu₀)
      have hb := (bhInv_of_reachable (hc.trans hc₁.reachable)).threads i u hj
      have hlt := (List.getElem?_eq_some_iff.mp hj).1
      obtain ⟨hmono, hleave⟩ := started_step hb (step_bhStep (a := ()) hact hb.raise) d
      refine ⟨u', List.getElem?_set_self hlt, Nat.le_trans hle hmono, ?_⟩
      rcases hor with hmem | hstarted
      · rcases hleave hmem with hmem | hstarted
        · exact .inl hmem
        · exact .inr (Nat.lt_of_le_of_lt hle hstarted)
      · exact .inr (Nat.lt_of_lt_of_le hstarted hmono)
  obtain ⟨u, hu, -, hor⟩ := hway
  obtain rfl := Option.some.inj (hu.symm.trans hi')
  exact hor.resolve_left hnot

/-! ### Each call queues its routine once -/

/-- The node that the call has still to link. -/
def Thread.yet (t : Thread) : Option Nat := if t.pc = .bhLink then some t.me else none

theorem queued_push_softirq (b : Bh) (cpu q n : Nat) :
    (b.push cpu (.softirq q)).queued (.heap n) = b.queued (.heap n) := by
  simp [Bh.push]

theorem queued_raiseIrqoff (b : Bh) (cpu nr n : Nat) :
    (b.raiseIrqoff cpu nr).queued (.heap n) = b.queued (.heap n) := by
  unfold Bh.raiseIrqoff
  split
  · exact queued_push_softirq ..
  · rfl

/-- Only `Linux_BHInternal` queues a node that was allocated. -/
theorem queued_step {a : Unit} {s s' : Shared} {t t' : Thread} (h : step a s t = some (s', t')) :
    t'.yet = none ∧ ∀ n, s'.bh.queued (.heap n) = s.bh.queued (.heap n) ∨
      t.yet = some n ∧ s'.bh.queued (.heap n) = s.bh.queued (.heap n) + 1 := by
  unfold step stepTasklet stepAction stepBh linkTasklet at h
  cases hpc : t.pc <;> simp only [hpc] at h
  case bhLink =>
    obtain ⟨rfl, rfl⟩ := Prod.mk.inj (Option.some.inj h)
    refine ⟨rfl, fun n => ?_⟩
    by_cases hn : n = t.me
    · subst hn
      exact .inr ⟨by simp [Thread.yet, hpc], Function.update_self ..⟩
    · exact .inl (Function.update_of_ne (fun heq => hn (Node.heap.inj heq)) ..)
  case raiseLink =>
    obtain ⟨rfl, rfl⟩ := Prod.mk.inj (Option.some.inj h)
    exact ⟨rfl, fun n => .inl (queued_push_softirq ..)⟩
  case schedLink | putBack =>
    obtain ⟨rfl, rfl⟩ := Prod.mk.inj (Option.some.inj h)
    exact ⟨rfl, fun n => .inl (queued_raiseIrqoff ..)⟩
  case raise | readCount =>
    obtain ⟨rfl, rfl⟩ := Prod.mk.inj (Option.some.inj h)
    refine ⟨?_, fun n => .inl rfl⟩
    simp only [Thread.yet]
    split <;> simp
  all_goals
    repeat' split at h
    all_goals simp only [Option.some.injEq, Prod.mk.injEq, reduceCtorEq] at h
    all_goals obtain ⟨rfl, rfl⟩ := h
    all_goals exact ⟨by simp [Thread.yet], fun n => .inl rfl⟩

theorem queued_enter {me : Nat} {call : Call} {s s' : Shared} {t : Thread}
    (h : enter me call s = some (s', t)) :
    (∀ n, t.yet = some n → n = me) ∧ ∀ n, s'.bh.queued (.heap n) = s.bh.queued (.heap n) := by
  unfold enter at h
  cases call <;> simp only at h
  case bh cpu alloc =>
    obtain ⟨rfl, rfl⟩ := Prod.mk.inj (Option.some.inj h)
    cases alloc <;> simp [Thread.yet, eq_comm]
  all_goals
    repeat' split at h
    all_goals simp only [Option.some.injEq, Prod.mk.injEq, reduceCtorEq] at h
    all_goals obtain ⟨rfl, rfl⟩ := h
    all_goals exact ⟨by simp [Thread.yet], fun n => rfl⟩

theorem fresh_of_reachable {c : Config Shared Thread} (h : machine.Reachable initial c) :
    Fresh Thread.yet (fun s n => s.bh.queued (.heap n) ≠ 0) c := by
  refine Machine.Reach.fresh ⟨each_nil _, fun _ _ => by simp [initial]⟩ ?_ ?_ h
  · intro me call s s' t hs
    obtain ⟨hname, hsame⟩ := queued_enter hs
    exact ⟨hname, fun n hn => hsame n ▸ hn⟩
  · intro a s t s' t' hs
    obtain ⟨hnone, hsame⟩ := queued_step (a := a) hs
    refine ⟨.inl hnone, fun n hn => ?_⟩
    rcases hsame n with heq | ⟨hyet, -⟩
    · exact .inl (heq ▸ hn)
    · exact .inr ⟨hyet, hnone⟩

theorem queued_le_one {c : Config Shared Thread} (h : machine.Reachable initial c) (n : Nat) :
    c.shared.bh.queued (.heap n) ≤ 1 := by
  refine Machine.Reach.invariant (fun c => c.shared.bh.queued (.heap n) ≤ 1) ?_ ?_ ?_ h
  · exact Nat.zero_le 1
  · intro c call s' t _ hI _ hs
    rw [(queued_enter hs).2 n]
    exact hI
  · intro c i a t s' t' hc hI _ hi hs
    rcases (queued_step (a := a) hs).2 n with heq | ⟨hyet, heq⟩
    · rw [heq]
      exact hI
    · have hzero := ((fresh_of_reachable hc.reachable).own i t hi n hyet).2
      rw [heq]
      omega

/-! ### The protocol -/

/-- A routine is where the lists and the chains have it, or all its runs have begun. -/
def BhAt (c : Config Shared Thread) (d : Node) : BhPlace → Prop
  | .out => c.shared.bh.queued d = c.shared.bh.started d
  | .list cpu => d ∈ c.shared.bh.bhList cpu
  | .chain i => ∃ t, c.pool[i]? = some t ∧ d ∈ t.chain

/-- A tasklet is where the lists and the calls have it, or `TASKLET_STATE_SCHED` is clear. -/
def TkAt (c : Config Shared Thread) (x : Nat) : Place → Prop
  | .idle => c.shared.tk.sched x = false
  | .listed v => x ∈ c.shared.tk.list v
  | .action i => ∃ t, c.pool[i]? = some t ∧ x ∈ t.hands
  | .scheduling i => ∃ t, c.pool[i]? = some t ∧ t.schedules = some x
  | .killing i => ∃ t, c.pool[i]? = some t ∧ t.kills = some x

/-- What a call has, said of the call. -/
theorem exists_call_iff {c : Config Shared Thread} {i : Nat} {P : Thread → Prop} {Q : Prop}
    (hcall : Q → i < c.pool.length) (h : ∀ t, c.pool[i]? = some t → (P t ↔ Q)) :
    (∃ t, c.pool[i]? = some t ∧ P t) ↔ Q := by
  constructor
  · rintro ⟨t, hi, hP⟩
    exact (h t hi).mp hP
  · intro hQ
    have hi := List.getElem?_eq_getElem (hcall hQ)
    exact ⟨_, hi, (h _ hi).mpr hQ⟩

theorem bhAt_iff {c : Config Shared Thread} (hI : BhInv c) (d : Node) (p : BhPlace) :
    BhAt c d p ↔ c.shared.bh.bhPlace d = p := by
  cases p with
  | out =>
    have hcount := hI.bh.counts d
    show c.shared.bh.queued d = c.shared.bh.started d ↔ _
    by_cases hout : c.shared.bh.bhPlace d = .out
    · rw [if_pos hout] at hcount
      exact iff_of_true hcount hout
    · rw [if_neg hout] at hcount
      exact iff_of_false (by omega) hout
  | list cpu => exact hI.bh.mem cpu d
  | chain i =>
    refine exists_call_iff (fun hplace => ?_) fun t hi => (hI.threads i t hi).mem d
    by_contra hge
    exact (hI.new i (by omega)).2 d hplace

theorem tkAt_iff {c : Config Shared Thread} (hI : TkInv c) (x : Nat) (p : Place) :
    TkAt c x p ↔ c.shared.tk.place x = p := by
  have hcall : ∀ i, p.of i → c.shared.tk.place x = p → i < c.pool.length := by
    intro i hp hplace
    by_contra hge
    exact hI.new i (by omega) x (hplace ▸ hp)
  cases p with
  | idle =>
    show c.shared.tk.sched x = false ↔ _
    rw [← Bool.not_eq_true, hI.tk.sched x]
    exact not_not
  | listed v => exact hI.tk.mem v x
  | action i =>
    exact exists_call_iff (hcall i (.inl rfl)) fun t hi => (hI.threads i t hi).hands x
  | scheduling i =>
    exact exists_call_iff (hcall i (.inr (.inl rfl))) fun t hi => (hI.threads i t hi).schedules x
  | killing i =>
    exact exists_call_iff (hcall i (.inr (.inr rfl))) fun t hi => (hI.threads i t hi).kills x

/-- What holds in every state. -/
structure Protocol (c : Config Shared Thread) : Prop where
  /-- The lists and the chains of bottom halves end, and hold no node twice. -/
  lists : ∀ cpu, TailQueue.Chain c.shared.bh.next (c.shared.bh.head cpu) (c.shared.bh.bhList cpu) ∧
    (c.shared.bh.bhList cpu).Nodup
  chains : ∀ t ∈ c.pool, TailQueue.Chain c.shared.bh.next t.front t.chain ∧ t.chain.Nodup
  /-- A routine is in one place, where it waits for one run. -/
  once : ∀ d, ∃! p, BhAt c d p
  counts : ∀ d, c.shared.bh.queued d = c.shared.bh.started d ∨
    c.shared.bh.queued d = c.shared.bh.started d + 1
  heap : ∀ n, c.shared.bh.queued (.heap n) ≤ 1
  /-- The run that it waits for can be had. -/
  runs : ∀ d, c.shared.bh.queued d ≠ c.shared.bh.started d →
    ∃ c', machine.Reachable c c' ∧ c.shared.bh.started d < c'.shared.bh.started d
  /-- The node of a PCPU with a pending softirq is on its list, or in a chain that is run there. -/
  softirq : ∀ cpu, c.shared.bh.pending cpu ≠ 0 →
    (∀ t ∈ c.pool, ¬ (t.pc = .raiseLink ∧ t.cpu = cpu)) →
    (.softirq cpu ∈ c.shared.bh.bhList cpu ∧ c.shared.bh.scheduled cpu = true) ∨
      ∃ t ∈ c.pool, t.cpu = cpu ∧ t.pc.handling = true ∧ .softirq cpu ∈ t.chain
  /-- The lists of tasklets, those in the hands of `tasklet_action` included. -/
  tasklets : ∀ v, TailQueue.Chain c.shared.tk.next (c.shared.tk.vec v) (c.shared.tk.list v) ∧
    (c.shared.tk.list v).Nodup
  hands : ∀ t ∈ c.pool, TailQueue.Chain c.shared.tk.next t.ptr t.rest ∧ t.hands.Nodup
  /-- A tasklet is in one place. -/
  place : ∀ x, ∃! p, TkAt c x p
  /-- The softirq of a list is pending or handled. -/
  pending : ∀ v, c.shared.tk.list v ≠ [] →
    c.shared.pends v ∨ ∃ t ∈ c.pool, 0 < t.handles v
  /-- A function runs in one `tasklet_action` at a time. -/
  alone : ∀ (i j : Nat) (t u : Thread), c.pool[i]? = some t → c.pool[j]? = some u →
    t.pc = .func → u.pc = .func → t.t = u.t → i = j
  bug : c.shared.bug = false

/-- The bottom half of a PCPU can run, and has started all of its list then. -/
theorem exists_started_list {c : Config Shared Thread} (hc : machine.Reachable initial c)
    {cpu : Nat} {d : Node} (hd : d ∈ c.shared.bh.bhList cpu) :
    ∃ c', machine.Reachable c c' ∧ c.shared.bh.started d < c'.shared.bh.started d := by
  let t : Thread :=
    { pc := .walk
      me := c.pool.length
      cpu := cpu
      d := c.shared.bh.head cpu
      chain := c.shared.bh.bhList cpu }
  have hstep : machine.Reachable c
      ⟨{ c.shared with bh := c.shared.bh.take cpu c.pool.length }, c.pool ++ [t]⟩ :=
    .step (e := .start (.bhHandler cpu)) .init trivial rfl
  obtain ⟨c', hreach, hlt⟩ := exists_started (hc.trans hstep) (i := c.pool.length) (t := t)
    (List.getElem?_concat_length ..) hd
  exact ⟨c', hstep.trans hreach, hlt⟩

/-- **Softirqs, tasklets and bottom halves.** -/
theorem protocol_of_reachable {c : Config Shared Thread} (h : machine.Reachable initial c) :
    Protocol c := by
  have hB := bhInv_of_reachable h
  have hT := tkInv_of_reachable h
  have hmem : ∀ t ∈ c.pool, ∃ i, c.pool[i]? = some t := fun t ht => List.mem_iff_getElem?.mp ht
  constructor
  case lists => exact fun cpu => ⟨hB.bh.chain cpu, hB.bh.nodup cpu⟩
  case chains =>
    intro t ht
    obtain ⟨i, hi⟩ := hmem t ht
    exact ⟨(hB.threads i t hi).chain, (hB.threads i t hi).nodup⟩
  case once =>
    intro d
    exact ⟨_, (bhAt_iff hB d _).mpr rfl, fun p hp => ((bhAt_iff hB d p).mp hp).symm⟩
  case counts =>
    intro d
    have hcount := hB.bh.counts d
    split at hcount
    · exact .inl hcount
    · exact .inr hcount
  case heap => exact queued_le_one h
  case runs =>
    intro d hne
    cases hplace : c.shared.bh.bhPlace d with
    | out => exact absurd ((bhAt_iff hB d .out).mpr hplace) hne
    | list cpu => exact exists_started_list h ((bhAt_iff hB d (.list cpu)).mpr hplace)
    | chain i =>
      obtain ⟨t, hi, hd⟩ := (bhAt_iff hB d (.chain i)).mpr hplace
      exact exists_started h hi hd
  case softirq =>
    intro cpu hpending hraise
    have harmed := hB.armed cpu
    have hnone : total (Thread.raising cpu) c.pool = 0 :=
      total_eq_zero fun t ht => if_neg (hraise t ht)
    rw [if_neg hpending, hnone] at harmed
    cases hplace : c.shared.bh.bhPlace (.softirq cpu) with
    | out =>
      rw [if_pos hplace] at harmed
      cases harmed
    | list q =>
      obtain rfl := hB.bh.home q cpu hplace
      have hin := (hB.bh.mem cpu _).mpr hplace
      exact .inl ⟨hin, hB.bh.scheduled cpu (List.ne_nil_of_mem hin)⟩
    | chain i =>
      obtain ⟨t, hi, hd⟩ := (bhAt_iff hB _ (.chain i)).mpr hplace
      have hfits := hB.threads i t hi
      have hhandling := handling_of_mem hfits hd
      exact .inr ⟨t, List.mem_of_getElem? hi, (hfits.home cpu hd).symm, hhandling, hd⟩
  case tasklets => exact fun v => ⟨hT.tk.chain v, hT.tk.nodup v⟩
  case hands =>
    intro t ht
    obtain ⟨i, hi⟩ := hmem t ht
    exact ⟨(hT.threads i t hi).chain, (hT.threads i t hi).nodup⟩
  case place =>
    intro x
    exact ⟨_, (tkAt_iff hT x _).mpr rfl, fun p hp => ((tkAt_iff hT x p).mp hp).symm⟩
  case pending =>
    intro v hv
    rcases hT.pending v hv with hp | hpos
    · exact .inl hp
    · obtain ⟨i, t, hi, ht⟩ := exists_of_total_pos hpos
      exact .inr ⟨t, List.mem_of_getElem? hi, ht⟩
  case alone =>
    intro i j t u hi hj ht hu heq
    by_contra hne
    have hsum := hT.run t.t
    have hle := le_others (Thread.running t.t) (fun hji => hne hji.symm) hj
    rw [total_eq_others _ hi] at hsum
    rw [show t.running t.t = 1 by simp [Thread.running, Thread.runs, ht]] at hsum
    rw [show u.running t.t = 1 by simp [Thread.running, Thread.runs, hu, heq]] at hle
    split at hsum <;> omega
  case bug => exact hT.bug

/-- The node of PCPU 0 is on its list again while the chain it came from is still run. -/
theorem protocol_relinked :
    ∃ c, machine.Reachable initial c ∧
      (c.shared.bh.pending 0, c.shared.bh.bhList 0, c.pool.map Thread.chain) =
        (32#32, [.softirq 0], [[], [], [.heap 0], []]) ∧ Protocol c := by
  obtain ⟨c, hc, ho⟩ := machine.exists_reachable_of_run
    [.start (.bh 0 true), .act 0 (), .start (.taskletSchedule ⟨false, 0⟩ 7), .act 1 (), .act 1 (),
      .start (.bhHandler 0), .act 2 (), .act 2 (), .start (.raiseSoftirq 0 5), .act 3 (), .act 3 ()]
    initial (fun c => (c.shared.bh.pending 0, c.shared.bh.bhList 0, c.pool.map Thread.chain))
    (32#32, [.softirq 0], [[], [], [.heap 0], []]) (by decide)
  exact ⟨c, hc, ho, protocol_of_reachable hc⟩

/-- Between the bit and the linking, a tasklet with `TASKLET_STATE_SCHED` is on no list, and in the
    hands of no `tasklet_action` and no `tasklet_kill`. -/
theorem scheduled_nowhere :
    ∃ c, machine.Reachable initial c ∧ c.shared.tk.sched 7 = true ∧
      (∀ v, 7 ∉ c.shared.tk.list v) ∧ ∀ t ∈ c.pool, 7 ∉ t.hands ∧ t.kills ≠ some 7 := by
  obtain ⟨c, hc, ho⟩ := machine.exists_reachable_of_run
    [.start (.taskletSchedule ⟨false, 0⟩ 7), .act 0 ()] initial
    (fun c => (c.shared.tk.sched 7, c.shared.tk.place 7)) (true, .scheduling 0) (by decide)
  obtain ⟨hsched, hplace⟩ := Prod.mk.inj ho
  have hT := tkInv_of_reachable hc
  refine ⟨c, hc, hsched, fun v hv => ?_, fun t ht => ?_⟩
  · have hlisted := (hT.tk.mem v 7).mp hv
    rw [hplace] at hlisted
    cases hlisted
  · obtain ⟨i, hi⟩ := List.mem_iff_getElem?.mp ht
    refine ⟨fun hin => ?_, fun hkill => ?_⟩
    · have haction := ((hT.threads i t hi).hands 7).mp hin
      rw [hplace] at haction
      cases haction
    · have hkilling := ((hT.threads i t hi).kills 7).mp hkill
      rw [hplace] at hkilling
      cases hkilling

end VmkLinux.SoftIrq
