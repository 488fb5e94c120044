/-
  VmkLinux/SoftIrq/Tasklets.lean
  ==============================
  **Tasklets**: a tasklet with `TASKLET_STATE_SCHED` is on one list, or in the hands of one call,
  and a list with a tasklet on it has its softirq pending or about to be handled.

  The bit is set and the tasklet linked in two steps; in between it is in the hands of
  `tasklet_schedule` (`scheduled_nowhere`).  Then it is on a list, until a `tasklet_action` takes
  that, and puts the tasklet back if it runs elsewhere or is disabled.  `tasklet_kill` holds the
  bit itself.
-/
import VmkLinux.SoftIrq.BottomHalf

namespace VmkLinux.SoftIrq

open VmkLinux.Interleave

/-! ### The invariant -/

/-- The call is in `tasklet_action`, and has taken its list. -/
def Pc.acting : Pc → Bool
  | .pop | .trylock | .readCount | .clearSched | .func | .unlock | .unlockBack | .putBack => true
  | _ => false

/-- The list that a `tasklet_action` goes through. -/
def Thread.ptr (t : Thread) : Option Nat := if t.pc.acting then t.list else none

/-- The tasklets in the hands of a `tasklet_action`. -/
def Thread.hands (t : Thread) : List Nat :=
  match t.pc with
  | .trylock | .readCount | .clearSched | .unlockBack | .putBack => t.t :: t.rest
  | _ => t.rest

/-- The tasklet that the call has still to link. -/
def Thread.schedules (t : Thread) : Option Nat := if t.pc = .schedLink then some t.t else none

/-- The tasklet that is held by a `tasklet_kill`. -/
def Thread.kills (t : Thread) : Option Nat :=
  if t.pc = .killWait ∨ t.pc = .killClear then some t.t else none

/-- The tasklet whose `TASKLET_STATE_RUN` the call has set. -/
def Thread.runs (t : Thread) : Option Nat :=
  match t.pc with
  | .readCount | .clearSched | .func | .unlock | .unlockBack => some t.t
  | _ => none

def Thread.running (x : Nat) (t : Thread) : Nat := if t.runs = some x then 1 else 0

/-- The call will still take the list: its bit is among those that `do_softirq` has to handle. -/
def Thread.handles (v : Vec) (t : Thread) : Nat :=
  if t.cpu = v.cpu ∧ t.bits.getLsbD v.nr = true ∧
      ((t.pc = .softirq ∨ t.pc = .take) ∧ t.nr ≤ v.nr ∨ t.pc.acting = true ∧ t.nr < v.nr) then 1
  else 0

structure Tk.Fits (k : Tk) : Prop where
  chain : ∀ v, TailQueue.Chain k.next (k.vec v) (k.list v)
  nodup : ∀ v, (k.list v).Nodup
  mem : ∀ v x, x ∈ k.list v ↔ k.place x = .listed v
  sched : ∀ x, k.sched x = true ↔ k.place x ≠ .idle

structure Thread.TkFits (k : Tk) (i : Nat) (t : Thread) : Prop where
  chain : TailQueue.Chain k.next t.ptr t.rest
  nodup : t.hands.Nodup
  hands : ∀ x, x ∈ t.hands ↔ k.place x = .action i
  schedules : ∀ x, t.schedules = some x ↔ k.place x = .scheduling i
  kills : ∀ x, t.kills = some x ↔ k.place x = .killing i
  acts : t.pc = .take ∨ t.pc.acting = true → t.vec.nr = t.nr ∧ t.bits.getLsbD t.nr = true

/-- The place is in the hands of call `i`. -/
def Place.of (i : Nat) (p : Place) : Prop := p = .action i ∨ p = .scheduling i ∨ p = .killing i

structure TkInv (c : Config Shared Thread) : Prop where
  tk : c.shared.tk.Fits
  run : ∀ x, total (Thread.running x) c.pool = if c.shared.tk.run x then 1 else 0
  pending : ∀ v, c.shared.tk.list v ≠ [] →
    (c.shared.bh.pending v.cpu).getLsbD v.nr = true ∨ 0 < total (Thread.handles v) c.pool
  new : ∀ n, c.pool.length ≤ n → ∀ x, ¬ (c.shared.tk.place x).of n
  bug : c.shared.bug = false
  threads : Each (fun i t => t.TkFits c.shared.tk i) c.pool

/-! ### Bits and places -/

section Operations

variable {k : Tk} {i j x : Nat} {v : Vec} {p : Place} {t : Thread}

/-- A call keeps what it knows while the tasklets in its hands stay there. -/
theorem tkFits_of_place {k' : Tk} (h : t.TkFits k j)
    (hchain : TailQueue.Chain k'.next t.ptr t.rest)
    (hplace : ∀ y q, Place.of j q → (k.place y = q ↔ k'.place y = q)) : t.TkFits k' j := by
  refine ⟨hchain, h.nodup, fun y => ?_, fun y => ?_, fun y => ?_, h.acts⟩
  · exact (h.hands y).trans (hplace y _ (.inl rfl))
  · exact (h.schedules y).trans (hplace y _ (.inr (.inl rfl)))
  · exact (h.kills y).trans (hplace y _ (.inr (.inr rfl)))

theorem fits_setSched (h : k.Fits) (hold : ∀ v, k.place x ≠ .listed v) (hnew : ∀ v, p ≠ .listed v) :
    (k.setSched x p).Fits := by
  refine ⟨h.chain, h.nodup, fun w y => ?_, fun y => ?_⟩
  · simp only [Tk.setSched]
    rw [h.mem w y]
    by_cases hy : y = x
    · subst hy
      rw [Function.update_self]
      exact iff_of_false (hold w) (hnew w)
    · rw [Function.update_of_ne hy]
  · simp only [Tk.setSched]
    by_cases hy : y = x
    · subst hy
      simp
    · rw [Function.update_of_ne hy, Function.update_of_ne hy]
      exact h.sched y

/-- Another call has nothing to do with the tasklet. -/
theorem tkFits_setSched (h : t.TkFits k j) (hold : ¬ (k.place x).of j) (hnew : ¬ p.of j) :
    t.TkFits (k.setSched x p) j := by
  refine tkFits_of_place h h.chain fun y q hq => ?_
  simp only [Tk.setSched]
  by_cases hy : y = x
  · subst hy
    rw [Function.update_self]
    exact iff_of_false (fun heq => hold (heq ▸ hq)) (fun heq => hnew (heq ▸ hq))
  · rw [Function.update_of_ne hy]

theorem fits_push_tasklet (h : k.Fits) (hold : ∀ w, k.place x ≠ .listed w)
    (hsched : k.place x ≠ .idle) : (k.push v x).Fits := by
  have hnot : ∀ w, x ∉ k.list w := fun w hmem => hold w ((h.mem w x).mp hmem)
  refine ⟨fun w => ?_, fun w => ?_, fun w y => ?_, fun y => ?_⟩ <;> simp only [Tk.push]
  · by_cases hw : w = v
    · subst hw
      simp only [Function.update_self]
      exact (h.chain w).push (hnot w)
    · simp only [Function.update_of_ne hw]
      exact (h.chain w).update _ (hnot w)
  · by_cases hw : w = v
    · subst hw
      simp only [Function.update_self]
      exact List.nodup_cons.mpr ⟨hnot w, h.nodup w⟩
    · simp only [Function.update_of_ne hw]
      exact h.nodup w
  · by_cases hw : w = v <;> by_cases hy : y = x
    · subst hw hy
      simp
    · subst hw
      simp only [Function.update_self, Function.update_of_ne hy, List.mem_cons, hy, false_or]
      exact h.mem w y
    · subst hy
      simp only [Function.update_of_ne hw, Function.update_self, Place.listed.injEq]
      exact iff_of_false (hnot w) fun heq => hw heq.symm
    · simp only [Function.update_of_ne hw, Function.update_of_ne hy]
      exact h.mem w y
  · by_cases hy : y = x
    · subst hy
      rw [Function.update_self]
      exact iff_of_true ((h.sched y).mpr hsched) (by simp)
    · rw [Function.update_of_ne hy]
      exact h.sched y

theorem rest_subset_hands (y : Nat) (h : y ∈ t.rest) : y ∈ t.hands := by
  unfold Thread.hands
  split
  all_goals first | exact List.mem_cons_of_mem _ h | exact h

theorem tkFits_push (h : t.TkFits k j) (hold : ¬ (k.place x).of j) : t.TkFits (k.push v x) j := by
  refine tkFits_of_place h (h.chain.update _ fun hmem => hold (.inl ?_)) fun y q hq => ?_
  · exact (h.hands x).mp (rest_subset_hands x hmem)
  · simp only [Tk.push]
    by_cases hy : y = x
    · subst hy
      rw [Function.update_self]
      refine iff_of_false (fun heq => hold (heq ▸ hq)) fun heq => ?_
      rw [← heq] at hq
      rcases hq with hq | hq | hq <;> cases hq
    · rw [Function.update_of_ne hy]

theorem fits_take_tasklets (h : k.Fits) : (k.take v i).Fits := by
  refine ⟨fun w => ?_, fun w => ?_, fun w y => ?_, fun y => ?_⟩ <;> simp only [Tk.take]
  · by_cases hw : w = v
    · subst hw
      simp only [Function.update_self]
      exact .nil
    · simp only [Function.update_of_ne hw]
      exact h.chain w
  · by_cases hw : w = v
    · subst hw
      simp
    · simp only [Function.update_of_ne hw]
      exact h.nodup w
  · by_cases hy : y ∈ k.list v
    · rw [if_pos hy]
      refine iff_of_false ?_ (by simp)
      by_cases hw : w = v
      · subst hw
        simp
      · rw [Function.update_of_ne hw]
        intro hmem
        have hboth := ((h.mem w y).mp hmem).symm.trans ((h.mem v y).mp hy)
        exact hw (Place.listed.inj hboth)
    · rw [if_neg hy]
      by_cases hw : w = v
      · subst hw
        simp only [Function.update_self, List.not_mem_nil, false_iff]
        exact fun hplace => hy ((h.mem w y).mpr hplace)
      · rw [Function.update_of_ne hw]
        exact h.mem w y
  · split
    · rename_i hy
      have hplace := (h.mem v y).mp hy
      exact iff_of_true ((h.sched y).mpr (by simp [hplace])) (by simp)
    · exact h.sched y

theorem tkFits_take (h : t.TkFits k j) (hk : k.Fits) (hne : j ≠ i) : t.TkFits (k.take v i) j := by
  refine tkFits_of_place h h.chain fun y q hq => ?_
  simp only [Tk.take]
  split
  · rename_i hy
    rw [(hk.mem v y).mp hy]
    rcases hq with rfl | rfl | rfl
    · exact iff_of_false (by simp) fun heq => hne (Place.action.inj heq).symm
    · exact iff_of_false (by simp) (by simp)
    · exact iff_of_false (by simp) (by simp)
  · rfl

end Operations

/-! ### Steps -/

/-- The softirq of a list is pending. -/
def Shared.pends (s : Shared) (v : Vec) : Prop := (s.bh.pending v.cpu).getLsbD v.nr = true

section Steps

variable {c : Config Shared Thread} {s' : Shared} {t t' : Thread} {i : Nat}

/-- What a step has to do. -/
theorem tkInv_set (hI : TkInv c) (hi : c.pool[i]? = some t) (htk : s'.tk.Fits)
    (hothers : ∀ (j : Nat) (u : Thread), j ≠ i → u.TkFits c.shared.tk j → u.TkFits s'.tk j)
    (hself : t'.TkFits s'.tk i)
    (hrun : ∀ x, (if c.shared.tk.run x then 1 else 0) + t'.running x =
      (if s'.tk.run x then 1 else 0) + t.running x)
    (hpending : ∀ v, s'.tk.list v ≠ [] → s'.pends v ∨
      c.shared.tk.list v ≠ [] ∧ (c.shared.pends v → 0 < t'.handles v) ∧
        (0 < t.handles v → 0 < t'.handles v))
    (hnew : ∀ y n, (s'.tk.place y).of n → n = i ∨ (c.shared.tk.place y).of n)
    (hbug : s'.bug = false) : TkInv ⟨s', c.pool.set i t'⟩ := by
  have hlt := (List.getElem?_eq_some_iff.mp hi).1
  refine ⟨htk, fun x => ?_, fun v hv => ?_, fun n hn x hx => ?_, hbug, ?_⟩
  · have hsum := hI.run x
    have hx := hrun x
    rw [total_eq_others _ hi] at hsum
    rw [total_set _ _ hi]
    show others (Thread.running x) c.pool i + t'.running x = if s'.tk.run x then 1 else 0
    omega
  · rcases hpending v hv with hp | ⟨hold, hpend, hhand⟩
    · exact .inl hp
    · right
      rw [total_set _ _ hi]
      rcases hI.pending v hold with hp | hpos
      · have hpos := hpend hp
        omega
      · rw [total_eq_others _ hi] at hpos
        by_cases hzero : 0 < t.handles v
        · have hpos' := hhand hzero
          omega
        · omega
  · rw [List.length_set] at hn
    rcases hnew x n hx with rfl | hold
    · omega
    · exact hI.new n hn x hold
  · exact hI.threads.set (fun j u hji _ hu => hothers j u hji hu) hself

/-- What a call has to do with the tasklets is as it was. -/
structure Thread.Keeps (t t' : Thread) : Prop where
  ptr : t'.ptr = t.ptr
  rest : t'.rest = t.rest
  hands : t'.hands = t.hands
  schedules : t'.schedules = t.schedules
  kills : t'.kills = t.kills
  acts : t'.pc = .take ∨ t'.pc.acting = true → t'.vec.nr = t'.nr ∧ t'.bits.getLsbD t'.nr = true

/-- The call has the tasklets that it had. -/
theorem tkFits_of_hands {k : Tk} (h : t.TkFits k i) (hchain : TailQueue.Chain k.next t'.ptr t'.rest)
    (hhands : t'.hands = t.hands) (hschedules : t'.schedules = t.schedules)
    (hkills : t'.kills = t.kills)
    (hacts : t'.pc = .take ∨ t'.pc.acting = true →
      t'.vec.nr = t'.nr ∧ t'.bits.getLsbD t'.nr = true) : t'.TkFits k i := by
  refine ⟨hchain, ?_, fun x => ?_, fun x => ?_, fun x => ?_, hacts⟩
  · rw [hhands]
    exact h.nodup
  · rw [hhands]
    exact h.hands x
  · rw [hschedules]
    exact h.schedules x
  · rw [hkills]
    exact h.kills x

theorem tkFits_keeps {k : Tk} (h : t.TkFits k i) (hk : t.Keeps t') : t'.TkFits k i := by
  refine tkFits_of_hands h ?_ hk.hands hk.schedules hk.kills hk.acts
  rw [hk.ptr, hk.rest]
  exact h.chain

/-- A step that leaves the tasklets alone. -/
theorem tkInv_same (hI : TkInv c) (hi : c.pool[i]? = some t) (hs : s'.tk = c.shared.tk)
    (hbug : s'.bug = c.shared.bug) (hself : t'.TkFits c.shared.tk i) (hruns : t'.runs = t.runs)
    (hpend : ∀ v, c.shared.pends v → s'.pends v ∨ 0 < t'.handles v)
    (hhand : ∀ v, 0 < t.handles v → 0 < t'.handles v) : TkInv ⟨s', c.pool.set i t'⟩ := by
  refine tkInv_set hI hi ?_ ?_ ?_ ?_ ?_ ?_ (hbug.trans hI.bug) <;> rw [hs]
  · exact hI.tk
  · exact fun _ _ _ hu => hu
  · exact hself
  · intro x
    simp only [Thread.running, hruns]
  · intro v hv
    by_cases hp : s'.pends v
    · exact .inl hp
    · exact .inr ⟨hv, fun hold => (hpend v hold).resolve_left hp, hhand v⟩
  · exact fun _ _ h => .inr h

theorem tkInv_keeps (hI : TkInv c) (hi : c.pool[i]? = some t) (hs : s'.tk = c.shared.tk)
    (hbug : s'.bug = c.shared.bug) (hk : t.Keeps t') (hruns : t'.runs = t.runs)
    (hpend : ∀ v, c.shared.pends v → s'.pends v ∨ 0 < t'.handles v)
    (hhand : ∀ v, 0 < t.handles v → 0 < t'.handles v) : TkInv ⟨s', c.pool.set i t'⟩ :=
  tkInv_same hI hi hs hbug (tkFits_keeps (hI.threads i t hi) hk) hruns hpend hhand

/-- The call has nothing to do with a tasklet. -/
def Pc.aside : Pc → Bool
  | .bhLink | .raise | .raiseLink | .testAndSet | .disableWait | .killTest | .killYield | .walk
  | .call | .ret | .softirq | .done => true
  | _ => false

theorem of_aside (h : t.pc.aside = true) :
    t.ptr = none ∧ t.hands = t.rest ∧ t.schedules = none ∧ t.kills = none ∧ t.runs = none ∧
      t.pc ≠ .take ∧ t.pc.acting = false := by
  cases hpc : t.pc <;> simp only [hpc, Pc.aside] at h
  all_goals simp [Thread.ptr, Pc.acting, Thread.hands, Thread.schedules, Thread.kills, Thread.runs,
    hpc] at h ⊢

theorem tkInv_aside (hI : TkInv c) (hi : c.pool[i]? = some t) (hs : s'.tk = c.shared.tk)
    (hbug : s'.bug = c.shared.bug) (h : t.pc.aside = true) (h' : t'.pc.aside = true)
    (hrest : t'.rest = t.rest) (hpend : ∀ v, c.shared.pends v → s'.pends v ∨ 0 < t'.handles v)
    (hhand : ∀ v, 0 < t.handles v → 0 < t'.handles v) : TkInv ⟨s', c.pool.set i t'⟩ := by
  obtain ⟨h1, h2, h3, h4, h5, -, -⟩ := of_aside h
  obtain ⟨h1', h2', h3', h4', h5', h6', h7'⟩ := of_aside h'
  refine tkInv_keeps hI hi hs hbug ⟨h1'.trans h1.symm, hrest, ?_, h3'.trans h3.symm,
    h4'.trans h4.symm, ?_⟩ (h5'.trans h5.symm) hpend hhand
  · rw [h2', h2, hrest]
  · rintro (hpc | hpc)
    · exact absurd hpc h6'
    · rw [h7'] at hpc
      cases hpc

/-- Outside `do_softirq` nothing is handled. -/
theorem handles_eq_zero (h : t.pc.aside = true) (hpc : t.pc ≠ .softirq) (v : Vec) :
    t.handles v = 0 := by
  have hnot : t.pc.acting = false ∧ t.pc ≠ .take := by
    cases hcase : t.pc <;> simp_all [Pc.aside, Pc.acting]
  simp [Thread.handles, hpc, hnot]

theorem pends_fetchOr {v : Vec} {cpu nr : Nat} (h : c.shared.pends v)
    (hs : s'.bh.pending = (c.shared.bh.fetchOr cpu nr).pending) : s'.pends v := by
  unfold Shared.pends at *
  rw [hs]
  simp only [Bh.fetchOr]
  by_cases hv : v.cpu = cpu
  · subst hv
    simp [h]
  · rw [Function.update_of_ne hv]
    exact h

/-- The bits of the raise are set. -/
theorem raiseIrqoff_pending (b : Bh) (cpu nr : Nat) :
    (b.raiseIrqoff cpu nr).pending = (b.fetchOr cpu nr).pending := by
  unfold Bh.raiseIrqoff
  split <;> rfl

theorem pends_linkTasklet (s : Shared) (v : Vec) (x : Nat) : (linkTasklet s v x).pends v := by
  have hnr : v.nr < 32 := by
    unfold Vec.nr
    split <;> omega
  unfold Shared.pends linkTasklet
  simp only [raiseIrqoff_pending, Bh.fetchOr, Function.update_self]
  simp [softirqBit, hnr]

/-- The action of a vector starts, for a bit that was set. -/
theorem tkInv_begin (hI : TkInv c) (hi : c.pool[i]? = some t) (hpc : t.pc = .softirq) (high : Bool)
    (hnr : t.nr = (Vec.mk high t.cpu).nr) (hbit : t.bits.getLsbD t.nr = true) :
    TkInv ⟨c.shared, c.pool.set i { t with pc := .take, hi := high }⟩ := by
  refine tkInv_keeps hI hi rfl rfl ?_ (by simp [Thread.runs, hpc]) (fun v hv => .inl hv)
    fun v => ?_
  · constructor
    case acts => exact fun _ => ⟨hnr.symm, hbit⟩
    all_goals simp [Thread.ptr, Pc.acting, Thread.hands, Thread.schedules, Thread.kills, hpc]
  · simp [Thread.handles, Pc.acting, hpc]

/-- `do_softirq` goes on to the next bit. -/
theorem tkInv_softirq (hI : TkInv c) (hi : c.pool[i]? = some t) (hpc : t.pc = .softirq)
    (h : stepBh c.shared t = some (s', t')) : TkInv ⟨s', c.pool.set i t'⟩ := by
  have haside : t.pc.aside = true := by simp [hpc, Pc.aside]
  have hnext : ∀ v, v.nr ≠ t.nr → 0 < t.handles v →
      0 < ({ t with pc := .softirq, nr := t.nr + 1 } : Thread).handles v := by
    intro v hv hpos
    simp only [Thread.handles, hpc, Pc.acting] at hpos ⊢
    split at hpos
    · rename_i hcond
      obtain ⟨hcpu, hbit, hnr⟩ := hcond
      have hle : t.nr + 1 ≤ v.nr := by
        rcases hnr with ⟨-, hle⟩ | ⟨hfalse, -⟩
        · omega
        · cases hfalse
      rw [if_pos ⟨hcpu, hbit, .inl ⟨.inl trivial, hle⟩⟩]
      omega
    · cases hpos
  simp only [stepBh, hpc] at h
  split at h
  · split at h
    · rename_i hbit
      split at h
      · rename_i hzero
        obtain ⟨rfl, rfl⟩ := Prod.mk.inj (Option.some.inj h)
        exact tkInv_begin hI hi hpc true hzero hbit
      · split at h
        · rename_i hfive
          obtain ⟨rfl, rfl⟩ := Prod.mk.inj (Option.some.inj h)
          exact tkInv_begin hI hi hpc false hfive hbit
        · -- the action of another softirq
          rename_i hzero hfive
          obtain ⟨rfl, rfl⟩ := Prod.mk.inj (Option.some.inj h)
          refine tkInv_aside hI hi rfl rfl haside rfl rfl
            (fun v hv => .inl hv) fun v => hnext v ?_
          unfold Vec.nr
          split <;> omega
    · rename_i hbit
      obtain ⟨rfl, rfl⟩ := Prod.mk.inj (Option.some.inj h)
      refine tkInv_aside hI hi rfl rfl haside rfl rfl
        (fun v hv => .inl hv) fun v hpos => hnext v ?_ hpos
      intro heq
      simp only [Thread.handles] at hpos
      split at hpos
      · rename_i hcond
        exact hbit (heq ▸ hcond.2.1)
      · cases hpos
  · rename_i hmax
    obtain ⟨rfl, rfl⟩ := Prod.mk.inj (Option.some.inj h)
    refine tkInv_aside hI hi rfl rfl haside rfl rfl (fun v hv => .inl hv)
      fun v hpos => ?_
    have hv : v.nr ≤ 5 := by
      unfold Vec.nr
      split <;> omega
    simp only [Thread.handles, hpc, Pc.acting] at hpos
    split at hpos
    · rename_i hcond
      unfold maxSoftirq at hmax
      rcases hcond.2.2 with ⟨-, hle⟩ | ⟨hfalse, -⟩
      · omega
      · cases hfalse
    · cases hpos

/-- Bottom halves and softirqs: only the exchange of `do_softirq` clears bits, and then they are
    handled. -/
theorem tkInv_stepBh (hI : TkInv c) (hi : c.pool[i]? = some t)
    (h : stepBh c.shared t = some (s', t')) : TkInv ⟨s', c.pool.set i t'⟩ := by
  by_cases hsoft : t.pc = .softirq
  · exact tkInv_softirq hI hi hsoft h
  have hzero : t.pc.aside = true → ∀ v, 0 < t.handles v → 0 < t'.handles v := by
    intro haside v hpos
    rw [handles_eq_zero haside hsoft v] at hpos
    cases hpos
  unfold stepBh at h
  cases hpc : t.pc <;> simp only [hpc] at h
  case softirq => exact absurd hpc hsoft
  case raise =>
    have haside : t.pc.aside = true := by simp [hpc, Pc.aside]
    have hkeep := hzero haside
    obtain ⟨rfl, rfl⟩ := Prod.mk.inj (Option.some.inj h)
    refine tkInv_aside hI hi rfl rfl haside ?_ rfl
      (fun v hv => .inl (pends_fetchOr hv rfl)) hkeep
    split <;> rfl
  case call =>
    have haside : t.pc.aside = true := by simp [hpc, Pc.aside]
    have hkeep := hzero haside
    split at h
    · cases h
    · split at h
      · obtain ⟨rfl, rfl⟩ := Prod.mk.inj (Option.some.inj h)
        refine tkInv_aside hI hi rfl rfl haside rfl rfl (fun v hv => ?_) hkeep
        -- what was pending on this PCPU is handled now
        unfold Shared.pends at *
        by_cases hv' : v.cpu = t.cpu
        · rw [hv'] at hv
          right
          simp [Thread.handles, hv', hv]
        · left
          simp only [Bh.clear, Bh.start, Function.update_of_ne hv']
          exact hv
      · obtain ⟨rfl, rfl⟩ := Prod.mk.inj (Option.some.inj h)
        exact tkInv_aside hI hi rfl rfl haside rfl rfl (fun v hv => .inl hv) hkeep
  case bhLink | raiseLink | walk | ret =>
    have haside : t.pc.aside = true := by simp [hpc, Pc.aside]
    have hkeep := hzero haside
    repeat' split at h
    all_goals
      obtain ⟨rfl, rfl⟩ := Prod.mk.inj (Option.some.inj h)
      exact tkInv_aside hI hi rfl rfl haside rfl rfl (fun v hv => .inl hv) hkeep
  all_goals cases h

/-- The call moves one tasklet to another place. -/
theorem tkFits_self {k k' : Tk} {x : Nat} {p : Place} (h : t.TkFits k i)
    (hplace : k'.place = Function.update k.place x p)
    (hchain : TailQueue.Chain k'.next t'.ptr t'.rest) (hnodup : t'.hands.Nodup)
    (hhands : ∀ y, y ∈ t'.hands ↔ y = x ∧ p = .action i ∨ y ≠ x ∧ y ∈ t.hands)
    (hschedules : ∀ y, t'.schedules = some y ↔
      y = x ∧ p = .scheduling i ∨ y ≠ x ∧ t.schedules = some y)
    (hkills : ∀ y, t'.kills = some y ↔ y = x ∧ p = .killing i ∨ y ≠ x ∧ t.kills = some y)
    (hacts : t'.pc = .take ∨ t'.pc.acting = true →
      t'.vec.nr = t'.nr ∧ t'.bits.getLsbD t'.nr = true) : t'.TkFits k' i := by
  have hcase : ∀ y (q : Place), (y = x ∧ p = q ∨ y ≠ x ∧ k.place y = q) ↔ k'.place y = q := by
    intro y q
    rw [hplace]
    by_cases hy : y = x
    · subst hy
      rw [Function.update_self]
      simp
    · rw [Function.update_of_ne hy]
      simp [hy]
  refine ⟨hchain, hnodup, fun y => ?_, fun y => ?_, fun y => ?_, hacts⟩
  · rw [hhands y, h.hands y]
    exact hcase y _
  · rw [hschedules y, h.schedules y]
    exact hcase y _
  · rw [hkills y, h.kills y]
    exact hcase y _

theorem of_update {place : Nat → Place} {x y n : Nat} {p : Place} (hp : p.of n → n = i)
    (h : (Function.update place x p y).of n) : n = i ∨ (place y).of n := by
  rw [Function.update_apply] at h
  split at h
  · exact .inl (hp h)
  · exact .inr h

/-- One call has the tasklet. -/
theorem of_unique {q : Place} {j : Nat} (hi : q.of i) (hj : q.of j) : j = i := by
  rcases hi with rfl | rfl | rfl <;> rcases hj with hj | hj | hj <;> cases hj <;> rfl

/-- `tasklet_schedule` and `tasklet_kill` set `TASKLET_STATE_SCHED`, and `tasklet_kill` and
    `tasklet_action` clear it. -/
theorem tkInv_setSched {x : Nat} {p : Place} (hI : TkInv c) (hi : c.pool[i]? = some t)
    (hs : s'.tk = c.shared.tk.setSched x p) (hb : s'.bh = c.shared.bh) (hbug : s'.bug = false)
    (hold : c.shared.tk.place x = .idle ∨ (c.shared.tk.place x).of i) (hp : p = .idle ∨ p.of i)
    (hself : t'.TkFits (c.shared.tk.setSched x p) i) (hruns : t'.runs = t.runs)
    (hhand : ∀ v, 0 < t.handles v → 0 < t'.handles v) : TkInv ⟨s', c.pool.set i t'⟩ := by
  have hlisted : ∀ {q : Place}, q = .idle ∨ q.of i → ∀ v, q ≠ .listed v := by
    rintro q (rfl | rfl | rfl | rfl) v <;> simp
  have hother : ∀ {q : Place} {j : Nat}, j ≠ i → q = .idle ∨ q.of i → ¬ q.of j := by
    rintro q j hji (rfl | hq) hj
    · rcases hj with hj | hj | hj <;> cases hj
    · exact hji (of_unique hq hj)
  refine tkInv_set hI hi ?_ ?_ ?_ ?_ ?_ ?_ hbug <;> rw [hs]
  · exact fits_setSched hI.tk (hlisted hold) (hlisted hp)
  · exact fun j u hji hu => tkFits_setSched hu (hother hji hold) (hother hji hp)
  · exact hself
  · intro y
    simp only [Thread.running, hruns]
    rfl
  · intro v hv
    by_cases hpv : s'.pends v
    · exact .inl hpv
    · refine .inr ⟨hv, fun hold => absurd ?_ hpv, hhand v⟩
      unfold Shared.pends at *
      rw [hb]
      exact hold
  · intro y n hn
    refine of_update (fun hpn => ?_) hn
    by_contra hne
    exact hother hne hp hpn

/-- A tasklet is linked and its softirq raised. -/
theorem tkInv_link {x : Nat} {v : Vec} (hI : TkInv c) (hi : c.pool[i]? = some t)
    (hold : (c.shared.tk.place x).of i) (hself : t'.TkFits (c.shared.tk.push v x) i)
    (hruns : t'.runs = t.runs) (hhand : ∀ v, 0 < t.handles v → 0 < t'.handles v) :
    TkInv ⟨linkTasklet c.shared v x, c.pool.set i t'⟩ := by
  refine tkInv_set hI hi ?_ ?_ hself ?_ ?_ ?_ hI.bug
  · refine fits_push_tasklet hI.tk (fun w hw => ?_) fun hidle => ?_
    · rw [hw] at hold
      rcases hold with hold | hold | hold <;> cases hold
    · rw [hidle] at hold
      rcases hold with hold | hold | hold <;> cases hold
  · exact fun j u hji hu => tkFits_push hu fun hj => hji (of_unique hold hj)
  · intro y
    simp only [Thread.running, hruns]
    rfl
  · intro w hw
    by_cases hwv : w = v
    · subst hwv
      exact .inl (pends_linkTasklet _ _ _)
    · have hlist : (linkTasklet c.shared v x).tk.list w = c.shared.tk.list w :=
        Function.update_of_ne hwv ..
      rw [hlist] at hw
      by_cases hpw : (linkTasklet c.shared v x).pends w
      · exact .inl hpw
      · have hkeep : c.shared.pends w → (linkTasklet c.shared v x).pends w :=
          fun hold => pends_fetchOr hold (raiseIrqoff_pending c.shared.bh v.cpu v.nr)
        exact .inr ⟨hw, fun hold => absurd (hkeep hold) hpw, hhand w⟩
  · intro y n hn
    refine of_update (fun hpn => ?_) hn
    rcases hpn with hpn | hpn | hpn <;> cases hpn

/-- A call that goes through no list has none. -/
theorem rest_eq_nil {k : Tk} (h : t.TkFits k i) (hptr : t.ptr = none) : t.rest = [] := by
  have hchain := h.chain
  rw [hptr] at hchain
  generalize t.rest = l at hchain
  cases hchain
  rfl

theorem ptr_of_outside (hpc : t.pc.acting = false) : t.ptr = none := by
  simp [Thread.ptr, hpc]

theorem hands_of_outside (hpc : t.pc.acting = false) : t.hands = t.rest := by
  cases hcase : t.pc <;> simp [hcase, Pc.acting] at hpc
  all_goals simp [Thread.hands, hcase]

/-- A call outside `tasklet_action` sets or clears `TASKLET_STATE_SCHED`, or links. -/
theorem tkFits_outside {k k' : Tk} {x : Nat} {p : Place} {pc : Pc} (h : t.TkFits k i)
    (hpc : t.pc.acting = false) (hplace : k'.place = Function.update k.place x p)
    (hpc' : pc.acting = false) (htake : pc ≠ .take) (hp : p ≠ .action i)
    (hschedules : ∀ y, ({ t with pc := pc } : Thread).schedules = some y ↔
      y = x ∧ p = .scheduling i ∨ y ≠ x ∧ t.schedules = some y)
    (hkills : ∀ y, ({ t with pc := pc } : Thread).kills = some y ↔
      y = x ∧ p = .killing i ∨ y ≠ x ∧ t.kills = some y) :
    ({ t with pc := pc } : Thread).TkFits k' i := by
  have hrest := rest_eq_nil h (ptr_of_outside hpc)
  have hhands := hands_of_outside hpc
  have hhands' := hands_of_outside (t := { t with pc := pc }) hpc'
  refine tkFits_self h hplace ?_ ?_ (fun y => ?_) hschedules hkills ?_
  · rw [ptr_of_outside (t := { t with pc := pc }) hpc']
    show TailQueue.Chain k'.next none t.rest
    rw [hrest]
    exact .nil
  · rw [hhands']
    show t.rest.Nodup
    rw [hrest]
    exact List.nodup_nil
  · rw [hhands', hhands]
    show y ∈ t.rest ↔ _
    simp [hrest, hp]
  · rintro (heq | hact)
    · exact absurd heq htake
    · rw [hpc'] at hact
      cases hact

/-- One step of `tasklet_schedule`, `tasklet_disable` and `tasklet_kill`. -/
theorem tkInv_stepTasklet (hI : TkInv c) (hi : c.pool[i]? = some t) (hme : t.me = i)
    (h : stepTasklet c.shared t = some (s', t')) : TkInv ⟨s', c.pool.set i t'⟩ := by
  have hfits := hI.threads i t hi
  have hidle : ¬ c.shared.tk.sched t.t = true → c.shared.tk.place t.t = .idle := by
    intro hfalse
    by_contra hne
    exact hfalse ((hI.tk.sched t.t).mpr hne)
  -- none of these calls is in `do_softirq`
  have hkeep : t.pc ≠ .softirq → t.pc ≠ .take → t.pc.acting = false →
      ∀ v, 0 < t.handles v → 0 < t'.handles v := by
    intro h1 h2 h3 v hpos
    simp [Thread.handles, h1, h2, h3] at hpos
  unfold stepTasklet at h
  cases hpc : t.pc <;> simp only [hpc] at h hkeep
  case testAndSet | killTest =>
    have hact : t.pc.acting = false := by simp [hpc, Pc.acting]
    have hkeep := hkeep (by simp) (by simp) rfl
    split at h
    · obtain ⟨rfl, rfl⟩ := Prod.mk.inj (Option.some.inj h)
      exact tkInv_aside hI hi rfl rfl (by simp [hpc, Pc.aside]) rfl rfl
        (fun v hv => .inl hv) hkeep
    · rename_i hsched
      obtain ⟨rfl, rfl⟩ := Prod.mk.inj (Option.some.inj h)
      refine tkInv_setSched hI hi rfl rfl hI.bug (.inl (hidle hsched)) (.inr ?_) ?_
        (by simp [Thread.runs, hpc]) hkeep
      · simp [Place.of, hme]
      · refine tkFits_outside hfits hact rfl rfl (by simp) (by simp) ?_ ?_
        all_goals
          intro y
          simp [Thread.schedules, Thread.kills, hpc, hme, eq_comm (a := t.t)]
  case schedLink =>
    have hact : t.pc.acting = false := by simp [hpc, Pc.acting]
    have hkeep := hkeep (by simp) (by simp) rfl
    obtain ⟨rfl, rfl⟩ := Prod.mk.inj (Option.some.inj h)
    have hplace := (hfits.schedules t.t).mp (by simp [Thread.schedules, hpc])
    refine tkInv_link hI hi (.inr (.inl hplace)) ?_ (by simp [Thread.runs, hpc]) hkeep
    refine tkFits_outside hfits hact rfl rfl (by simp) (by simp) ?_ ?_
    all_goals
      intro y
      simp [Thread.schedules, Thread.kills, hpc, eq_comm (a := t.t)]
  case killClear =>
    have hact : t.pc.acting = false := by simp [hpc, Pc.acting]
    have hkeep := hkeep (by simp) (by simp) rfl
    obtain ⟨rfl, rfl⟩ := Prod.mk.inj (Option.some.inj h)
    have hplace := (hfits.kills t.t).mp (by simp [Thread.kills, hpc])
    refine tkInv_setSched hI hi rfl rfl hI.bug (.inr (.inr (.inr hplace))) (.inl rfl) ?_
      (by simp [Thread.runs, hpc]) hkeep
    refine tkFits_outside hfits hact rfl rfl (by simp) (by simp) ?_ ?_
    all_goals
      intro y
      simp [Thread.schedules, Thread.kills, hpc, eq_comm (a := t.t)]
  case disableWait | killYield =>
    have hkeep := hkeep (by simp) (by simp) rfl
    split at h
    · cases h
    · obtain ⟨rfl, rfl⟩ := Prod.mk.inj (Option.some.inj h)
      exact tkInv_aside hI hi rfl rfl (by simp [hpc, Pc.aside]) rfl rfl
        (fun v hv => .inl hv) hkeep
  case killWait =>
    have hkeep := hkeep (by simp) (by simp) rfl
    split at h
    · cases h
    · obtain ⟨rfl, rfl⟩ := Prod.mk.inj (Option.some.inj h)
      refine tkInv_keeps hI hi rfl rfl ?_ (by simp [Thread.runs, hpc]) (fun v hv => .inl hv) hkeep
      constructor <;> simp [Thread.ptr, Pc.acting, Thread.hands, Thread.schedules, Thread.kills,
        hpc]
  all_goals cases h

theorem handles_acting (hpc : t.pc.acting = true) (hpc' : t'.pc.acting = true)
    (hcpu : t'.cpu = t.cpu) (hbits : t'.bits = t.bits) (hnr : t'.nr = t.nr) (v : Vec)
    (hpos : 0 < t.handles v) : 0 < t'.handles v := by
  have hne : ∀ u : Thread, u.pc.acting = true → u.pc ≠ .softirq ∧ u.pc ≠ .take := by
    intro u hu
    cases hcase : u.pc <;> simp_all [Pc.acting]
  simpa [Thread.handles, hcpu, hbits, hnr, hpc, hpc', hne t hpc, hne t' hpc'] using hpos

theorem vec_eq_of_nr {v w : Vec} (hnr : v.nr = w.nr) (hcpu : v.cpu = w.cpu) : v = w := by
  obtain ⟨hi, cpu⟩ := v
  obtain ⟨hi', cpu'⟩ := w
  cases hi <;> cases hi' <;> simp_all [Vec.nr]

/-- `tasklet_action` takes its list. -/
theorem tkInv_take (hI : TkInv c) (hi : c.pool[i]? = some t) (hme : t.me = i) (hpc : t.pc = .take) :
    TkInv ⟨{ c.shared with tk := c.shared.tk.take t.vec t.me },
      c.pool.set i
        { t with pc := .pop, list := c.shared.tk.vec t.vec, rest := c.shared.tk.list t.vec }⟩ := by
  have hfits := hI.threads i t hi
  have hact : t.pc.acting = false := by simp [hpc, Pc.acting]
  have hhands : t.hands = [] := by
    rw [hands_of_outside hact, rest_eq_nil hfits (ptr_of_outside hact)]
  refine tkInv_set hI hi (fits_take_tasklets hI.tk) ?_ ?_ ?_ ?_ ?_ hI.bug
  · exact fun j u hji hu => tkFits_take hu hI.tk fun heq => hji (heq.trans hme)
  · refine ⟨?_, ?_, fun y => ?_, fun y => ?_, fun y => ?_, fun _ => hfits.acts (.inl hpc)⟩
    · exact hI.tk.chain t.vec
    · exact hI.tk.nodup t.vec
    · have hy := hfits.hands y
      rw [hhands] at hy
      show y ∈ c.shared.tk.list t.vec ↔ _
      simp only [Tk.take]
      split
      · rename_i hmem
        exact iff_of_true hmem (by rw [hme])
      · rename_i hmem
        exact iff_of_false hmem fun hplace => List.not_mem_nil (hy.mpr hplace)
    · have hy := hfits.schedules y
      simp only [Thread.schedules, hpc, reduceCtorEq, if_false, false_iff] at hy ⊢
      simp only [Tk.take]
      split
      · simp
      · exact hy
    · have hy := hfits.kills y
      simp only [Thread.kills, hpc, reduceCtorEq, or_self, if_false, false_iff] at hy ⊢
      simp only [Tk.take]
      split
      · simp
      · exact hy
  · intro y
    simp only [Thread.running, Thread.runs, hpc]
    rfl
  · intro w hw
    by_cases hwv : w = t.vec
    · subst hwv
      simp [Tk.take] at hw
    · have hlist : (c.shared.tk.take t.vec t.me).list w = c.shared.tk.list w :=
        Function.update_of_ne hwv ..
      rw [hlist] at hw
      by_cases hpw : c.shared.pends w
      · exact .inl hpw
      · refine .inr ⟨hw, fun hold => absurd hold hpw, fun hpos => ?_⟩
        -- the softirq that is handled is that of the list
        have hnr := (hfits.acts (.inl hpc)).1
        unfold Thread.handles at hpos ⊢
        split at hpos
        · rename_i hcond
          obtain ⟨hcpu, hbit, hor⟩ := hcond
          have hlt : t.nr < w.nr := by
            rcases hor with ⟨-, hle⟩ | ⟨hfalse, -⟩
            · refine Nat.lt_of_le_of_ne hle fun heq => hwv ?_
              exact (vec_eq_of_nr (hnr.trans heq) hcpu).symm
            · rw [hact] at hfalse
              cases hfalse
          rw [if_pos ⟨hcpu, hbit, .inr ⟨rfl, hlt⟩⟩]
          exact Nat.one_pos
        · cases hpos
  · intro y n hn
    simp only [Tk.take] at hn
    split at hn
    · left
      rcases hn with hn | hn | hn <;> cases hn
      exact hme
    · exact .inr hn

/-- `TASKLET_STATE_RUN` is set or cleared. -/
theorem tkInv_setRun {x : Nat} {r : Bool} (hI : TkInv c) (hi : c.pool[i]? = some t)
    (hself : t'.TkFits c.shared.tk i)
    (hrun : ∀ y, (if c.shared.tk.run y then 1 else 0) + t'.running y =
      (if (c.shared.tk.setRun x r).run y then 1 else 0) + t.running y)
    (hhand : ∀ v, 0 < t.handles v → 0 < t'.handles v) :
    TkInv ⟨{ c.shared with tk := c.shared.tk.setRun x r }, c.pool.set i t'⟩ := by
  have hset : ∀ {j : Nat} {u : Thread}, u.TkFits c.shared.tk j →
      u.TkFits (c.shared.tk.setRun x r) j :=
    fun hu => ⟨hu.chain, hu.nodup, hu.hands, hu.schedules, hu.kills, hu.acts⟩
  refine tkInv_set hI hi ?_ (fun _ _ _ hu => hset hu) (hset hself) hrun ?_ ?_ hI.bug
  · exact ⟨hI.tk.chain, hI.tk.nodup, hI.tk.mem, hI.tk.sched⟩
  · intro v hv
    by_cases hp : c.shared.pends v
    · exact .inl hp
    · exact .inr ⟨hv, fun hold => absurd hold hp, hhand v⟩
  · exact fun _ _ hn => .inr hn

theorem schedules_of_acting (hpc : t.pc.acting = true) : t.schedules = none ∧ t.kills = none := by
  cases hcase : t.pc <;> simp [hcase, Pc.acting] at hpc
  all_goals simp [Thread.schedules, Thread.kills, hcase]

/-- `tasklet_action` goes on with its list. -/
theorem keeps_acting {k : Tk} (hpc : t.pc.acting = true) (hpc' : t'.pc.acting = true)
    (h : t.TkFits k i) (hlist : t'.list = t.list) (hrest : t'.rest = t.rest)
    (hhands : t'.hands = t.hands) (hvec : t'.vec = t.vec) (hnr : t'.nr = t.nr)
    (hbits : t'.bits = t.bits) : t.Keeps t' := by
  obtain ⟨hs, hk⟩ := schedules_of_acting hpc
  obtain ⟨hs', hk'⟩ := schedules_of_acting hpc'
  refine ⟨?_, hrest, hhands, hs'.trans hs.symm, hk'.trans hk.symm, fun _ => ?_⟩
  · simp only [Thread.ptr, hpc, hpc', hlist]
  · rw [hvec, hnr, hbits]
    exact h.acts (.inr hpc)

/-- `tasklet_action` lets go of the tasklet it has taken up. -/
theorem tkFits_releases {k k' : Tk} {p : Place} {pc : Pc} (h : t.TkFits k i)
    (hpc : t.pc.acting = true) (hpc' : pc = .func ∨ pc = .pop) (hhands : t.hands = t.t :: t.rest)
    (hplace : k'.place = Function.update k.place t.t p) (hp : ¬ p.of i)
    {q : Option Nat} (hnext : k'.next = Function.update k.next t.t q) :
    ({ t with pc := pc } : Thread).TkFits k' i := by
  obtain ⟨hnot, hnodup⟩ := List.nodup_cons.mp (hhands ▸ h.nodup)
  have hact' : pc.acting = true := by rcases hpc' with rfl | rfl <;> rfl
  have hhands' : ({ t with pc := pc } : Thread).hands = t.rest := by
    rcases hpc' with rfl | rfl <;> rfl
  have hp' : p ≠ .action i ∧ p ≠ .scheduling i ∧ p ≠ .killing i := by
    refine ⟨fun heq => hp ?_, fun heq => hp ?_, fun heq => hp ?_⟩ <;> simp [Place.of, heq]
  have hnone := schedules_of_acting hpc
  have hnone' := schedules_of_acting (t := { t with pc := pc }) hact'
  refine tkFits_self h hplace ?_ ?_ (fun y => ?_) (fun y => ?_) (fun y => ?_) ?_
  · have hchain := h.chain.update q hnot
    simp only [Thread.ptr, hpc, hact', if_true] at hchain ⊢
    rw [hnext]
    exact hchain
  · rw [hhands']
    exact hnodup
  · rw [hhands', hhands, List.mem_cons]
    by_cases hy : y = t.t
    · subst hy
      simp [hnot, hp'.1]
    · simp [hy]
  · simp [hnone, hnone', hp'.2.1]
  · simp [hnone, hnone', hp'.2.2]
  · exact fun _ => h.acts (.inr hpc)

/-- `tasklet_action` takes up the next tasklet of its list, or ends. -/
theorem tkInv_pop (hI : TkInv c) (hi : c.pool[i]? = some t) (hpc : t.pc = .pop)
    (h : stepAction c.shared t = some (s', t')) : TkInv ⟨s', c.pool.set i t'⟩ := by
  have hfits := hI.threads i t hi
  have hacting : t.pc.acting = true := by simp [hpc, Pc.acting]
  simp only [stepAction, hpc] at h
  split at h
  · rename_i hlist
    obtain ⟨rfl, rfl⟩ := Prod.mk.inj (Option.some.inj h)
    refine tkInv_keeps hI hi rfl rfl ?_ (by simp [Thread.runs, hpc]) (fun v hv => .inl hv)
      fun v hpos => ?_
    · constructor <;> simp [Thread.ptr, Pc.acting, Thread.hands, Thread.schedules, Thread.kills,
        hpc, hlist]
    · unfold Thread.handles at hpos ⊢
      split at hpos
      · rename_i hcond
        obtain ⟨hcpu, hbit, hor⟩ := hcond
        have hlt : t.nr < v.nr := by
          rcases hor with ⟨hfalse, -⟩ | ⟨-, hlt⟩
          · rw [hpc] at hfalse
            rcases hfalse with hfalse | hfalse <;> cases hfalse
          · exact hlt
        rw [if_pos ⟨hcpu, hbit, .inl ⟨.inl rfl, hlt⟩⟩]
        exact Nat.one_pos
      · cases hpos
  · rename_i x hlist
    obtain ⟨rfl, rfl⟩ := Prod.mk.inj (Option.some.inj h)
    have hchain := hfits.chain
    rw [show t.ptr = some x by simp [Thread.ptr, Pc.acting, hpc, hlist]] at hchain
    generalize hrest : t.rest = l at hchain
    cases hchain with
    | @cons _ l hchain =>
      have hhands : t.hands = x :: l := by simp [Thread.hands, hpc, hrest]
      have hhands' : ∀ u : Thread, u.pc = .trylock → u.t = x → u.rest = l → u.hands = t.hands := by
        intro u hu hx hl
        rw [hhands]
        simp [Thread.hands, hu, hx, hl]
      refine tkInv_same hI hi rfl rfl ?_ (by simp [Thread.runs, hpc]) (fun v hv => .inl hv)
        (handles_acting hacting rfl rfl rfl rfl)
      refine tkFits_of_hands hfits ?_ ?_ (by simp [Thread.schedules, hpc])
        (by simp [Thread.kills, hpc]) fun _ => hfits.acts (.inr hacting)
      · exact hchain
      · exact hhands' _ rfl rfl rfl

/-- `tasklet_trylock` and `tasklet_unlock`. -/
theorem tkInv_lock {r : Bool} (hI : TkInv c) (hi : c.pool[i]? = some t) (hpc : t.pc.acting = true)
    (hpc' : t'.pc.acting = true) (hk : t.Keeps t') (hcpu : t'.cpu = t.cpu)
    (hbits : t'.bits = t.bits) (hnr : t'.nr = t.nr) (hold : c.shared.tk.run t.t = !r)
    (hruns : t.runs = if r then none else some t.t)
    (hruns' : t'.runs = if r then some t.t else none) :
    TkInv ⟨{ c.shared with tk := c.shared.tk.setRun t.t r }, c.pool.set i t'⟩ := by
  refine tkInv_setRun hI hi (tkFits_keeps (hI.threads i t hi) hk) (fun y => ?_)
    (handles_acting hpc hpc' hcpu hbits hnr)
  rw [Thread.running, Thread.running, hruns, hruns']
  by_cases hy : y = t.t
  · subst hy
    have hset : (c.shared.tk.setRun t.t r).run t.t = r := Function.update_self ..
    rw [hset, hold]
    cases r <;> simp
  · have hset : (c.shared.tk.setRun t.t r).run y = c.shared.tk.run y := Function.update_of_ne hy ..
    have hne : some t.t ≠ some y := fun heq => hy (Option.some.inj heq).symm
    rw [hset]
    cases r <;> simp [hne]

/-- What a `tasklet_action` does with one tasklet, and then with the next. -/
theorem tkInv_acting (hI : TkInv c) (hi : c.pool[i]? = some t) (hacting : t.pc.acting = true)
    (h : stepAction c.shared t = some (s', t')) : TkInv ⟨s', c.pool.set i t'⟩ := by
  by_cases hpop : t.pc = .pop
  · exact tkInv_pop hI hi hpop h
  have hfits := hI.threads i t hi
  have hkeep : ∀ {u : Thread}, u.pc.acting = true → u.cpu = t.cpu → u.bits = t.bits →
      u.nr = t.nr → ∀ v, 0 < t.handles v → 0 < u.handles v :=
    fun hu hcpu hbits hnr => handles_acting hacting hu hcpu hbits hnr
  have hrunning : t.runs = some t.t → c.shared.tk.run t.t = true := by
    intro hruns
    have hle := le_total (Thread.running t.t) hi
    rw [hI.run, Thread.running, if_pos hruns] at hle
    by_contra hfalse
    rw [if_neg hfalse] at hle
    omega
  unfold stepAction at h
  cases hpc : t.pc <;> simp only [hpc] at h
  case pop => exact absurd hpc hpop
  case trylock =>
    split at h
    · obtain ⟨rfl, rfl⟩ := Prod.mk.inj (Option.some.inj h)
      exact tkInv_keeps hI hi rfl rfl
        (keeps_acting hacting rfl hfits rfl rfl (by simp [Thread.hands, hpc]) rfl rfl rfl)
        (by simp [Thread.runs, hpc]) (fun v hv => .inl hv) (hkeep rfl rfl rfl rfl)
    · rename_i hrun
      obtain ⟨rfl, rfl⟩ := Prod.mk.inj (Option.some.inj h)
      exact tkInv_lock hI hi hacting rfl
        (keeps_acting hacting rfl hfits rfl rfl (by simp [Thread.hands, hpc]) rfl rfl rfl)
        rfl rfl rfl (by simpa using hrun) (by simp [Thread.runs, hpc]) rfl
  case readCount =>
    obtain ⟨rfl, rfl⟩ := Prod.mk.inj (Option.some.inj h)
    by_cases hzero : c.shared.tk.count t.t = 0
    · simp only [hzero, if_true]
      exact tkInv_keeps hI hi rfl rfl
        (keeps_acting hacting rfl hfits rfl rfl (by simp [Thread.hands, hpc]) rfl rfl rfl)
        (by simp [Thread.runs, hpc]) (fun v hv => .inl hv) (hkeep rfl rfl rfl rfl)
    · simp only [hzero, if_false]
      exact tkInv_keeps hI hi rfl rfl
        (keeps_acting hacting rfl hfits rfl rfl (by simp [Thread.hands, hpc]) rfl rfl rfl)
        (by simp [Thread.runs, hpc]) (fun v hv => .inl hv) (hkeep rfl rfl rfl rfl)
  case func =>
    obtain ⟨rfl, rfl⟩ := Prod.mk.inj (Option.some.inj h)
    exact tkInv_keeps hI hi rfl rfl
      (keeps_acting hacting rfl hfits rfl rfl (by simp [Thread.hands, hpc]) rfl rfl rfl)
      (by simp [Thread.runs, hpc]) (fun v hv => .inl hv) (hkeep rfl rfl rfl rfl)
  case unlock | unlockBack =>
    obtain ⟨rfl, rfl⟩ := Prod.mk.inj (Option.some.inj h)
    exact tkInv_lock hI hi hacting rfl
      (keeps_acting hacting rfl hfits rfl rfl (by simp [Thread.hands, hpc]) rfl rfl rfl)
      rfl rfl rfl (hrunning (by simp [Thread.runs, hpc])) (by simp [Thread.runs, hpc]) rfl
  case clearSched =>
    obtain ⟨rfl, rfl⟩ := Prod.mk.inj (Option.some.inj h)
    have hhands : t.hands = t.t :: t.rest := by simp [Thread.hands, hpc]
    have hplace := (hfits.hands t.t).mp (by simp [hhands])
    have hsched : c.shared.tk.sched t.t = true := (hI.tk.sched t.t).mpr (by simp [hplace])
    refine tkInv_setSched hI hi rfl rfl ?_ (.inr (.inl hplace)) (.inl rfl) ?_
      (by simp [Thread.runs, hpc]) (hkeep rfl rfl rfl rfl)
    · simp [hI.bug, hsched]
    · exact tkFits_releases hfits hacting (.inl rfl) hhands rfl (by simp [Place.of])
        (Function.update_eq_self ..).symm
  case putBack =>
    obtain ⟨rfl, rfl⟩ := Prod.mk.inj (Option.some.inj h)
    have hhands : t.hands = t.t :: t.rest := by simp [Thread.hands, hpc]
    have hplace := (hfits.hands t.t).mp (by simp [hhands])
    refine tkInv_link hI hi (.inl hplace) ?_ (by simp [Thread.runs, hpc]) (hkeep rfl rfl rfl rfl)
    exact tkFits_releases hfits hacting (.inr rfl) hhands rfl (by simp [Place.of]) rfl
  all_goals simp [hpc, Pc.acting] at hacting

theorem tkInv_stepAction (hI : TkInv c) (hi : c.pool[i]? = some t) (hme : t.me = i)
    (h : stepAction c.shared t = some (s', t')) : TkInv ⟨s', c.pool.set i t'⟩ := by
  by_cases hacting : t.pc.acting = true
  · exact tkInv_acting hI hi hacting h
  · have hpc : t.pc = .take := by
      unfold stepAction at h
      cases hpc : t.pc <;> simp_all [Pc.acting]
    simp only [stepAction, hpc] at h
    obtain ⟨rfl, rfl⟩ := Prod.mk.inj (Option.some.inj h)
    exact tkInv_take hI hi hme hpc

theorem tkInv_step {a : Unit} (hI : TkInv c) (hi : c.pool[i]? = some t) (hme : t.me = i)
    (h : step a c.shared t = some (s', t')) : TkInv ⟨s', c.pool.set i t'⟩ := by
  unfold step at h
  split at h
  all_goals first
    | exact tkInv_stepTasklet hI hi hme h
    | exact tkInv_stepAction hI hi hme h
    | exact tkInv_stepBh hI hi h
    | cases h

end Steps

/-! ### Whole runs -/

/-- A call starts, with no tasklet. -/
theorem tkInv_start {c : Config Shared Thread} {s' : Shared} {t : Thread} {count : Nat → Int}
    (hI : TkInv c) (hs : s'.tk = { c.shared.tk with count := count })
    (hpend : s'.bh.pending = c.shared.bh.pending) (hbug : s'.bug = c.shared.bug)
    (hpc : t.pc.aside = true) (hrest : t.rest = []) :
    TkInv ⟨s', c.pool ++ [t]⟩ := by
  obtain ⟨hptr, hhands, hschedules, hkills, hruns, htake, hacting⟩ := of_aside hpc
  refine ⟨?_, fun x => ?_, fun v hv => ?_, fun n hn => ?_, hbug.trans hI.bug, ?_⟩
  · rw [hs]
    exact ⟨hI.tk.chain, hI.tk.nodup, hI.tk.mem, hI.tk.sched⟩
  · rw [total_append, hI.run x, hs]
    simp [Thread.running, hruns]
  · rw [hs] at hv
    rw [total_append, hpend]
    rcases hI.pending v hv with hp | hpos
    · exact .inl hp
    · exact .inr (by omega)
  · simp only [List.length_append, List.length_singleton] at hn
    rw [hs]
    exact hI.new n (by omega)
  · have hnew := hI.new c.pool.length (Nat.le_refl _)
    rw [hs]
    refine hI.threads.append (fun j u _ hu => ?_)
      ⟨?_, ?_, fun x => ?_, fun x => ?_, fun x => ?_, ?_⟩
    · exact ⟨hu.chain, hu.nodup, hu.hands, hu.schedules, hu.kills, hu.acts⟩
    · rw [hptr, hrest]
      exact .nil
    · rw [hhands, hrest]
      exact List.nodup_nil
    · rw [hhands, hrest]
      exact iff_of_false List.not_mem_nil fun hplace => hnew x (.inl hplace)
    · rw [hschedules]
      exact iff_of_false (by simp) fun hplace => hnew x (.inr (.inl hplace))
    · rw [hkills]
      exact iff_of_false (by simp) fun hplace => hnew x (.inr (.inr hplace))
    · rintro (heq | hact)
      · exact absurd heq htake
      · rw [hacting] at hact
        cases hact

theorem tkInv_enter {c : Config Shared Thread} {s' : Shared} {t : Thread} {call : Call}
    (hI : TkInv c) (h : enter c.pool.length call c.shared = some (s', t)) :
    TkInv ⟨s', c.pool ++ [t]⟩ := by
  cases call with
  | bh cpu alloc =>
    obtain ⟨rfl, rfl⟩ := Prod.mk.inj (Option.some.inj h)
    cases alloc <;> exact tkInv_start hI rfl rfl rfl rfl rfl
  | raiseSoftirq cpu nr =>
    simp only [enter] at h
    split at h
    · obtain ⟨rfl, rfl⟩ := Prod.mk.inj (Option.some.inj h)
      exact tkInv_start hI rfl rfl rfl rfl rfl
    · cases h
  | taskletSchedule v t =>
    simp only [enter] at h
    split at h <;> obtain ⟨rfl, rfl⟩ := Prod.mk.inj (Option.some.inj h)
    · exact tkInv_start hI rfl rfl rfl rfl rfl
    · exact tkInv_start hI rfl rfl rfl rfl rfl
  | bhHandler cpu | taskletDisable t | taskletEnable t | taskletKill t | panic =>
    obtain ⟨rfl, rfl⟩ := Prod.mk.inj (Option.some.inj h)
    exact tkInv_start hI rfl rfl rfl rfl rfl

theorem tkInv_of_reachable {c : Config Shared Thread} (h : machine.Reachable initial c) :
    TkInv c := by
  refine Machine.Reach.invariant TkInv ?_ ?_ ?_ h
  · refine ⟨⟨fun _ => .nil, fun _ => List.nodup_nil, ?_, ?_⟩, ?_, ?_, ?_, rfl, each_nil _⟩
    all_goals simp [initial, Place.of]
  · intro c call s' t _ hI _ hs
    exact tkInv_enter hI hs
  · intro c i a t s' t' hc hI _ hi hs
    exact tkInv_step (a := a) hI hi ((bhInv_of_reachable hc.reachable).threads i t hi).me hs

end VmkLinux.SoftIrq
