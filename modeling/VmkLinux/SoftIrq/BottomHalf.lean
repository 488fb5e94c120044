/-
  VmkLinux/SoftIrq/BottomHalf.lean
  ================================
  **The lists of bottom halves**: every node is in one place at most, each list is a chain of the
  nodes that are on it, and a PCPU with a pending softirq has its node on the list, in the chain of
  a `Linux_BHHandler`, or in the hands of a raise.

  The node of a PCPU is linked again while the chain it was taken from is still being walked.  That
  is harmless for two reasons: `Linux_BHHandler` reads `next` before it calls the routine, and the
  pending bits are zero only between the exchange of `do_softirq`, which that routine begins with,
  and the next raise.
-/
import VmkLinux.SoftIrq.Model

namespace VmkLinux.SoftIrq

open VmkLinux.Interleave

/-! ### The invariant -/

/-- What a call of `Linux_BHHandler` has still to start begins here. -/
def Thread.front (t : Thread) : Option Node :=
  match t.pc with
  | .walk | .call => t.d
  | .ret | .softirq | .take | .pop | .trylock | .readCount | .clearSched | .func | .unlock
  | .unlockBack | .putBack => t.nextD
  | _ => none

/-- The call has raised the first softirq of a PCPU, and has to link the node. -/
def Thread.raising (cpu : Nat) (t : Thread) : Nat :=
  if t.pc = .raiseLink ∧ t.cpu = cpu then 1 else 0

structure Bh.Fits (b : Bh) : Prop where
  chain : ∀ cpu, TailQueue.Chain b.next (b.head cpu) (b.bhList cpu)
  nodup : ∀ cpu, (b.bhList cpu).Nodup
  mem : ∀ cpu d, d ∈ b.bhList cpu ↔ b.bhPlace d = .list cpu
  scheduled : ∀ cpu, b.bhList cpu ≠ [] → b.scheduled cpu = true
  home : ∀ cpu q, b.bhPlace (.softirq q) = .list cpu → q = cpu
  counts : ∀ d, b.queued d = b.started d + if b.bhPlace d = .out then 0 else 1

structure Thread.BhFits (b : Bh) (i : Nat) (t : Thread) : Prop where
  me : t.me = i
  chain : TailQueue.Chain b.next t.front t.chain
  nodup : t.chain.Nodup
  mem : ∀ d, d ∈ t.chain ↔ b.bhPlace d = .chain i
  home : ∀ q, .softirq q ∈ t.chain → q = t.cpu
  call : t.pc = .call → ∃ x, t.d = some x ∧ t.nextD = b.next x
  link : t.pc = .bhLink → b.bhPlace (.heap i) = .out
  raise : t.pc = .raise → t.nr < 32

/-- The node of a PCPU is somewhere, or about to be linked, exactly when a softirq is pending. -/
def Bh.Armed (b : Bh) (pool : List Thread) : Prop :=
  ∀ cpu, (if b.bhPlace (.softirq cpu) = .out then 0 else 1) + total (Thread.raising cpu) pool =
    if b.pending cpu = 0 then 0 else 1

structure BhInv (c : Config Shared Thread) : Prop where
  bh : c.shared.bh.Fits
  armed : c.shared.bh.Armed c.pool
  new : ∀ n, c.pool.length ≤ n → c.shared.bh.bhPlace (.heap n) = .out ∧
    ∀ d, c.shared.bh.bhPlace d ≠ .chain n
  threads : Each (fun i t => t.BhFits c.shared.bh i) c.pool

/-! ### Linking and taking -/

section Operations

variable {b : Bh} {cpu i : Nat} {d : Node} {t : Thread}

theorem fits_push (h : b.Fits) (hout : b.bhPlace d = .out) (hhome : ∀ q, d = .softirq q → q = cpu) :
    (b.push cpu d).Fits := by
  have hnot : ∀ q, d ∉ b.bhList q := by
    intro q hmem
    rw [(h.mem q d).mp hmem] at hout
    cases hout
  constructor
  · intro q
    simp only [Bh.push]
    by_cases hq : q = cpu
    · subst hq
      simp only [Function.update_self]
      exact (h.chain q).push (hnot q)
    · simp only [Function.update_of_ne hq]
      exact (h.chain q).update _ (hnot q)
  · intro q
    simp only [Bh.push]
    by_cases hq : q = cpu
    · subst hq
      simp only [Function.update_self]
      exact List.nodup_cons.mpr ⟨hnot q, h.nodup q⟩
    · simp only [Function.update_of_ne hq]
      exact h.nodup q
  · intro q x
    simp only [Bh.push]
    by_cases hq : q = cpu <;> by_cases hx : x = d
    · subst hq hx
      simp
    · subst hq
      simp only [Function.update_self, Function.update_of_ne hx, List.mem_cons, hx, false_or]
      exact h.mem q x
    · subst hx
      simp only [Function.update_of_ne hq, Function.update_self, BhPlace.list.injEq]
      exact iff_of_false (hnot q) fun heq => hq heq.symm
    · simp only [Function.update_of_ne hq, Function.update_of_ne hx]
      exact h.mem q x
  · intro q hne
    simp only [Bh.push] at hne ⊢
    by_cases hq : q = cpu
    · subst hq
      simp
    · simp only [Function.update_of_ne hq] at hne ⊢
      exact h.scheduled q hne
  · intro q p hp
    simp only [Bh.push] at hp
    by_cases hx : .softirq p = d
    · rw [hx, Function.update_self, BhPlace.list.injEq] at hp
      rw [← hp]
      exact hhome p hx.symm
    · rw [Function.update_of_ne hx] at hp
      exact h.home q p hp
  · intro x
    simp only [Bh.push]
    have hcount := h.counts x
    by_cases hx : x = d
    · subst hx
      simp only [Function.update_self, hout, reduceCtorEq, if_true, if_false] at hcount ⊢
      omega
    · simp only [Function.update_of_ne hx]
      exact hcount

theorem bhFits_push (h : t.BhFits b i) (hout : b.bhPlace d = .out)
    (hlink : t.pc = .bhLink → d ≠ .heap i) : t.BhFits (b.push cpu d) i := by
  have hnot : d ∉ t.chain := by
    intro hmem
    rw [(h.mem d).mp hmem] at hout
    cases hout
  refine ⟨h.me, h.chain.update _ hnot, h.nodup, fun x => ?_, h.home, fun hpc => ?_, fun hpc => ?_,
    h.raise⟩
  · simp only [Bh.push]
    by_cases hx : x = d
    · subst hx
      simp only [Function.update_self, reduceCtorEq]
      exact iff_of_false hnot id
    · rw [Function.update_of_ne hx]
      exact h.mem x
  · obtain ⟨x, hd, hnext⟩ := h.call hpc
    refine ⟨x, hd, ?_⟩
    have hfront : t.front = some x := by simp [Thread.front, hpc, hd]
    have hchain := h.chain
    rw [hfront] at hchain
    have hx : x ≠ d := by
      rintro rfl
      generalize hl : t.chain = l at hchain hnot
      cases hchain
      exact hnot List.mem_cons_self
    simp only [Bh.push, Function.update_of_ne hx]
    exact hnext
  · simp only [Bh.push]
    rw [Function.update_of_ne fun heq => hlink hpc heq.symm]
    exact h.link hpc

theorem fits_take (h : b.Fits) : (b.take cpu i).Fits := by
  constructor
  · intro q
    simp only [Bh.take]
    by_cases hq : q = cpu
    · subst hq
      simp only [Function.update_self]
      exact .nil
    · simp only [Function.update_of_ne hq]
      exact h.chain q
  · intro q
    simp only [Bh.take]
    by_cases hq : q = cpu
    · subst hq
      simp
    · simp only [Function.update_of_ne hq]
      exact h.nodup q
  · intro q x
    simp only [Bh.take]
    by_cases hx : x ∈ b.bhList cpu
    · rw [if_pos hx]
      refine iff_of_false ?_ (by simp)
      by_cases hq : q = cpu
      · subst hq
        simp
      · rw [Function.update_of_ne hq]
        intro hmem
        have hboth := ((h.mem q x).mp hmem).symm.trans ((h.mem cpu x).mp hx)
        exact hq (BhPlace.list.inj hboth)
    · rw [if_neg hx]
      by_cases hq : q = cpu
      · subst hq
        simp only [Function.update_self, List.not_mem_nil, false_iff]
        exact fun hplace => hx ((h.mem q x).mpr hplace)
      · rw [Function.update_of_ne hq]
        exact h.mem q x
  · intro q hne
    simp only [Bh.take] at hne ⊢
    by_cases hq : q = cpu
    · subst hq
      simp at hne
    · simp only [Function.update_of_ne hq] at hne ⊢
      exact h.scheduled q hne
  · intro q p hp
    simp only [Bh.take] at hp
    split at hp
    · cases hp
    · exact h.home q p hp
  · intro x
    simp only [Bh.take]
    have hcount := h.counts x
    split
    · rename_i hx
      rw [(h.mem cpu x).mp hx] at hcount
      simpa using hcount
    · exact hcount

theorem bhFits_take (h : t.BhFits b i) (hb : b.Fits) {me : Nat} (hne : i ≠ me) :
    t.BhFits (b.take cpu me) i := by
  refine ⟨h.me, h.chain, h.nodup, fun x => ?_, h.home, h.call, fun hpc => ?_, h.raise⟩
  · simp only [Bh.take]
    split
    · rename_i hx
      have hplace := (hb.mem cpu x).mp hx
      rw [h.mem x, hplace]
      simp only [reduceCtorEq, BhPlace.chain.injEq, false_iff]
      exact fun heq => hne heq.symm
    · exact h.mem x
  · simp only [Bh.take]
    split
    · rename_i hx
      have hplace := (hb.mem cpu _).mp hx
      rw [h.link hpc] at hplace
      cases hplace
    · exact h.link hpc

theorem fits_start (h : b.Fits) (hplace : b.bhPlace d = .chain i) : (b.start d).Fits := by
  have hout : ∀ x, x ≠ d → (b.start d).bhPlace x = b.bhPlace x :=
    fun x hx => Function.update_of_ne hx ..
  have hself : (b.start d).bhPlace d = .out := Function.update_self ..
  refine ⟨h.chain, h.nodup, fun q x => ?_, h.scheduled, fun q p hp => ?_, fun x => ?_⟩
  · by_cases hx : x = d
    · subst hx
      rw [hself, show (b.start x).bhList = b.bhList from rfl, h.mem q x, hplace]
      simp
    · rw [hout x hx]
      exact h.mem q x
  · by_cases hx : .softirq p = d
    · rw [hx, hself] at hp
      cases hp
    · rw [hout _ hx] at hp
      exact h.home q p hp
  · have hcount := h.counts x
    by_cases hx : x = d
    · subst hx
      rw [hplace] at hcount
      rw [hself]
      simp only [Bh.start, Function.update_self, reduceCtorEq, if_true, if_false] at hcount ⊢
      omega
    · rw [hout x hx]
      simp only [Bh.start, Function.update_of_ne hx]
      exact hcount

/-- The other calls do not have the node that is started. -/
theorem bhFits_start (h : t.BhFits b i) {j : Nat} (hplace : b.bhPlace d = .chain j) (hne : i ≠ j) :
    t.BhFits (b.start d) i := by
  refine ⟨h.me, h.chain, h.nodup, fun x => ?_, h.home, h.call, fun hpc => ?_, h.raise⟩
  · simp only [Bh.start]
    by_cases hx : x = d
    · subst hx
      rw [h.mem x, hplace, Function.update_self]
      simp only [BhPlace.chain.injEq, reduceCtorEq, iff_false]
      exact fun heq => hne heq.symm
    · rw [Function.update_of_ne hx]
      exact h.mem x
  · simp only [Bh.start]
    by_cases hx : .heap i = d
    · rw [hx, Function.update_self]
    · rw [Function.update_of_ne hx]
      exact h.link hpc

/-- `Linux_BHHandler` calls a routine, and keeps the rest of its chain. -/
theorem bhFits_called (h : t.BhFits b i) (hpc : t.pc = .call) (hd : t.d = some d) {t' : Thread}
    (hme : t'.me = t.me) (hcpu : t'.cpu = t.cpu) (hfront : t'.front = t.nextD)
    (hchain : t'.chain = t.chain.tail) (hcall : t'.pc ≠ .call) (hlink : t'.pc ≠ .bhLink)
    (hraise : t'.pc ≠ .raise) :
    b.bhPlace d = .chain i ∧ t'.BhFits (b.start d) i := by
  obtain ⟨x, hx, hnext⟩ := h.call hpc
  obtain rfl := Option.some.inj (hx.symm.trans hd)
  have hfront' : t.front = some x := by simp [Thread.front, hpc, hx]
  obtain ⟨hi, hc, hnodup, hmem, hhome, -, -, -⟩ := h
  rw [hfront'] at hc
  generalize hl : t.chain = l at hc hnodup hmem hhome hchain
  cases hc with
  | @cons _ l hrest =>
    obtain ⟨hnot, hnodup'⟩ := List.nodup_cons.mp hnodup
    rw [List.tail_cons] at hchain
    refine ⟨(hmem x).mp List.mem_cons_self, hme.trans hi, ?_, ?_, fun y => ?_, fun q hq => ?_,
      fun hpc' => absurd hpc' hcall, fun hpc' => absurd hpc' hlink,
      fun hpc' => absurd hpc' hraise⟩
    · rw [hfront, hchain, hnext]
      exact hrest
    · rw [hchain]
      exact hnodup'
    · rw [hchain]
      simp only [Bh.start]
      by_cases hy : y = x
      · subst hy
        simp only [Function.update_self, reduceCtorEq, iff_false]
        exact hnot
      · rw [Function.update_of_ne hy, ← hmem y, List.mem_cons]
        simp [hy]
    · rw [hchain] at hq
      rw [hcpu]
      exact hhome q (List.mem_cons_of_mem _ hq)

end Operations

/-! ### Steps -/

/-- The call has the chain that it had, and links nothing. -/
structure Thread.Still (b : Bh) (t t' : Thread) : Prop where
  me : t'.me = t.me
  cpu : t'.cpu = t.cpu
  front : t'.front = t.front
  chain : t'.chain = t.chain
  idle : t.pc ≠ .raiseLink ∧ t'.pc ≠ .raiseLink ∧ t'.pc ≠ .bhLink ∧ t'.pc ≠ .raise
  call : t'.pc = .call → ∃ x, t'.d = some x ∧ t'.nextD = b.next x

/-- The call raises a softirq with interrupts enabled. -/
structure Thread.Raises (t t' : Thread) : Prop where
  pc : t.pc = .raise
  pc' : t'.pc = .raiseLink ∨ t'.pc = .done
  me : t'.me = t.me
  cpu : t'.cpu = t.cpu
  chain : t'.chain = t.chain

/-- The call calls the routine of `d`. -/
structure Thread.Calls (d : Node) (t t' : Thread) : Prop where
  pc : t.pc = .call
  d : t.d = some d
  me : t'.me = t.me
  cpu : t'.cpu = t.cpu
  front : t'.front = t.nextD
  chain : t'.chain = t.chain.tail
  idle : t'.pc ≠ .call ∧ t'.pc ≠ .bhLink ∧ t'.pc ≠ .raiseLink ∧ t'.pc ≠ .raise

/-- What a step does to the bottom halves. -/
inductive BhStep (b : Bh) (t : Thread) : Bh → Thread → Prop where
  | still {t'} : t.Still b t' → BhStep b t b t'
  | link {nr t'} : nr < 32 → t.Still b t' → BhStep b t (b.raiseIrqoff t.cpu nr) t'
  | bh : t.pc = .bhLink → BhStep b t (b.push t.cpu (.heap t.me)) { t with pc := .done }
  | raise {nr t'} : nr < 32 → t.Raises t' → (t'.pc = .raiseLink ↔ b.pending t.cpu = 0) →
      BhStep b t (b.fetchOr t.cpu nr) t'
  | raiseLink : t.pc = .raiseLink →
      BhStep b t (b.push t.cpu (.softirq t.cpu)) { t with pc := .done }
  | routine {n t'} : t.Calls (.heap n) t' → BhStep b t (b.start (.heap n)) t'
  | softirq {q t'} : t.Calls (.softirq q) t' →
      BhStep b t ((b.start (.softirq q)).clear t.cpu) t'

theorem step_bhStep {a : Unit} {s s' : Shared} {t t' : Thread}
    (h : step a s t = some (s', t')) (hnr : t.pc = .raise → t.nr < 32) :
    BhStep s.bh t s'.bh t' := by
  have hvec : t.vec.nr < 32 := by
    unfold Vec.nr
    split <;> omega
  unfold step stepTasklet stepAction stepBh linkTasklet at h
  cases hpc : t.pc <;> simp only [hpc] at h
  case bhLink =>
    obtain ⟨rfl, rfl⟩ := Prod.mk.inj (Option.some.inj h)
    exact .bh hpc
  case raise =>
    obtain ⟨rfl, rfl⟩ := Prod.mk.inj (Option.some.inj h)
    refine .raise (hnr hpc) ⟨hpc, ?_, rfl, rfl, rfl⟩ ?_
    · split
      · exact .inl rfl
      · exact .inr rfl
    · split <;> simp_all
  case raiseLink =>
    obtain ⟨rfl, rfl⟩ := Prod.mk.inj (Option.some.inj h)
    exact .raiseLink hpc
  case schedLink | putBack =>
    obtain ⟨rfl, rfl⟩ := Prod.mk.inj (Option.some.inj h)
    refine .link hvec ⟨rfl, rfl, ?_, rfl, ?_, ?_⟩ <;> simp [Thread.front, hpc]
  case walk =>
    split at h
    · rename_i hd
      obtain ⟨rfl, rfl⟩ := Prod.mk.inj (Option.some.inj h)
      refine .still ⟨rfl, rfl, ?_, rfl, ?_, ?_⟩ <;> simp [Thread.front, hpc, hd]
    · rename_i x hd
      obtain ⟨rfl, rfl⟩ := Prod.mk.inj (Option.some.inj h)
      refine .still ⟨rfl, rfl, ?_, rfl, ?_, fun _ => ⟨x, hd, rfl⟩⟩ <;> simp [Thread.front, hpc]
  case call =>
    split at h
    · cases h
    · rename_i x hd
      split at h
      · obtain ⟨rfl, rfl⟩ := Prod.mk.inj (Option.some.inj h)
        refine .softirq ⟨hpc, hd, rfl, rfl, ?_, rfl, ?_⟩ <;> simp [Thread.front]
      · obtain ⟨rfl, rfl⟩ := Prod.mk.inj (Option.some.inj h)
        refine .routine ⟨hpc, hd, rfl, rfl, ?_, rfl, ?_⟩ <;> simp [Thread.front]
  case readCount =>
    obtain ⟨rfl, rfl⟩ := Prod.mk.inj (Option.some.inj h)
    by_cases hz : s.tk.count t.t = 0
    · refine .still ⟨rfl, rfl, ?_, rfl, ?_, ?_⟩ <;> simp [Thread.front, hpc, hz]
    · refine .still ⟨rfl, rfl, ?_, rfl, ?_, ?_⟩ <;> simp [Thread.front, hpc, hz]
  case done => cases h
  all_goals
    repeat' split at h
    all_goals simp only [Option.some.injEq, Prod.mk.injEq, reduceCtorEq] at h
    all_goals obtain ⟨rfl, rfl⟩ := h
    all_goals refine .still ⟨rfl, rfl, ?_, rfl, ?_, ?_⟩
    all_goals simp [Thread.front, hpc]

section Steps

variable {c : Config Shared Thread} {t t' : Thread} {i : Nat} {b : Bh}

theorem softirqBit_ne_zero {nr : Nat} (h : nr < 32) (x : BitVec 32) : x ||| softirqBit nr ≠ 0 := by
  intro hzero
  have hbit : (x ||| softirqBit nr).getLsbD nr = true := by
    simp [softirqBit, h]
  rw [hzero] at hbit
  simp at hbit

/-- A call that keeps its chain keeps what it knows. -/
theorem bhFits_still (h : t.BhFits b i) (hs : t.Still b t') : t'.BhFits b i := by
  refine ⟨hs.me.trans h.me, ?_, ?_, fun d => ?_, fun q hq => ?_, hs.call,
    fun hpc => absurd hpc hs.idle.2.2.1, fun hpc => absurd hpc hs.idle.2.2.2⟩
  · rw [hs.front, hs.chain]
    exact h.chain
  · rw [hs.chain]
    exact h.nodup
  · rw [hs.chain]
    exact h.mem d
  · rw [hs.chain] at hq
    rw [hs.cpu]
    exact h.home q hq

theorem raising_eq_zero (h : t.pc ≠ .raiseLink) (cpu : Nat) : t.raising cpu = 0 := by
  simp [Thread.raising, h]

/-- The node of a PCPU with nothing pending is out, and so is that of a raise. -/
theorem out_of_pending (h : b.Armed c.pool) {cpu : Nat} (hzero : b.pending cpu = 0) :
    b.bhPlace (.softirq cpu) = .out := by
  have harmed := h cpu
  by_contra hne
  rw [if_neg hne, if_pos hzero] at harmed
  omega

theorem out_of_raising (h : b.Armed c.pool) (hi : c.pool[i]? = some t) (hpc : t.pc = .raiseLink) :
    b.bhPlace (.softirq t.cpu) = .out := by
  have harmed := h t.cpu
  have hle := le_total (Thread.raising t.cpu) hi
  have hone : t.raising t.cpu = 1 := by simp [Thread.raising, hpc]
  by_contra hne
  rw [if_neg hne] at harmed
  split at harmed <;> omega

theorem armed_step {b' : Bh} (hI : BhInv c) (hi : c.pool[i]? = some t)
    (h : BhStep c.shared.bh t b' t') : b'.Armed (c.pool.set i t') := by
  intro cpu
  have harmed := hI.armed cpu
  rw [total_eq_others _ hi] at harmed
  rw [total_set _ _ hi]
  have hfits := hI.threads i t hi
  cases h with
  | still hs =>
    rw [raising_eq_zero hs.idle.1] at harmed
    rw [raising_eq_zero hs.idle.2.1]
    exact harmed
  | @link nr _ hnr hs =>
    rw [raising_eq_zero hs.idle.1] at harmed
    rw [raising_eq_zero hs.idle.2.1]
    unfold Bh.raiseIrqoff
    by_cases hcpu : cpu = t.cpu
    · subst hcpu
      by_cases hzero : c.shared.bh.pending t.cpu = 0
      · rw [if_pos hzero]
        rw [if_pos hzero, if_pos (out_of_pending hI.armed hzero)] at harmed
        simp only [Bh.push, Bh.fetchOr, Function.update_self, reduceCtorEq, if_false,
          if_neg (softirqBit_ne_zero hnr _)]
        omega
      · rw [if_neg hzero]
        rw [if_neg hzero] at harmed
        simp only [Bh.fetchOr, Function.update_self, if_neg (softirqBit_ne_zero hnr _)]
        exact harmed
    · have hnode : Node.softirq cpu ≠ .softirq t.cpu := fun heq => hcpu (Node.softirq.inj heq)
      split
      · simp only [Bh.push, Bh.fetchOr, Function.update_of_ne hcpu, Function.update_of_ne hnode]
        exact harmed
      · simp only [Bh.fetchOr, Function.update_of_ne hcpu]
        exact harmed
  | bh hpc =>
    rw [raising_eq_zero (by simp [hpc])] at harmed
    rw [raising_eq_zero (by simp)]
    have hnode : Node.softirq cpu ≠ .heap t.me := by simp
    simp only [Bh.push, Function.update_of_ne hnode]
    exact harmed
  | @raise nr _ hnr hr hiff =>
    rw [raising_eq_zero (by simp [hr.pc])] at harmed
    by_cases hcpu : cpu = t.cpu
    · subst hcpu
      have hset : (c.shared.bh.fetchOr t.cpu nr).pending t.cpu ≠ 0 := by
        simp only [Bh.fetchOr, Function.update_self]
        exact softirqBit_ne_zero hnr _
      rw [if_neg hset]
      by_cases hzero : c.shared.bh.pending t.cpu = 0
      · have hone : t'.raising t.cpu = 1 := by simp [Thread.raising, hiff.mpr hzero, hr.cpu]
        have hout := out_of_pending hI.armed hzero
        have hout' : (c.shared.bh.fetchOr t.cpu nr).bhPlace (.softirq t.cpu) = .out := hout
        rw [if_pos hzero, if_pos hout] at harmed
        rw [if_pos hout', hone]
        omega
      · rw [if_neg hzero] at harmed
        rw [raising_eq_zero (mt hiff.mp hzero)]
        exact harmed
    · simp only [Bh.fetchOr, Function.update_of_ne hcpu]
      have hnone : t'.raising cpu = 0 := by
        simp only [Thread.raising, hr.cpu]
        exact if_neg fun heq => hcpu heq.2.symm
      rw [hnone]
      exact harmed
  | raiseLink hpc =>
    rw [raising_eq_zero (by simp)]
    by_cases hcpu : cpu = t.cpu
    · subst hcpu
      have hone : t.raising t.cpu = 1 := by simp [Thread.raising, hpc]
      rw [if_pos (out_of_raising hI.armed hi hpc), hone] at harmed
      simp only [Bh.push, Function.update_self, reduceCtorEq, if_false]
      refine Eq.trans ?_ harmed
      omega
    · have hnode : Node.softirq cpu ≠ .softirq t.cpu := fun heq => hcpu (Node.softirq.inj heq)
      have hnone : t.raising cpu = 0 := if_neg fun heq => hcpu heq.2.symm
      rw [hnone] at harmed
      simp only [Bh.push, Function.update_of_ne hnode]
      exact harmed
  | @routine n _ hc =>
    rw [raising_eq_zero (by simp [hc.pc])] at harmed
    rw [raising_eq_zero hc.idle.2.2.1]
    have hnode : Node.softirq cpu ≠ .heap n := by simp
    simp only [Bh.start, Function.update_of_ne hnode]
    exact harmed
  | @softirq q _ hc =>
    rw [raising_eq_zero (by simp [hc.pc])] at harmed
    rw [raising_eq_zero hc.idle.2.2.1]
    have hplace := (bhFits_called hfits hc.pc hc.d hc.me hc.cpu hc.front hc.chain hc.idle.1
      hc.idle.2.1 hc.idle.2.2.2).1
    -- the node is that of the PCPU on which the routine runs
    have hq : q = t.cpu := hfits.home q ((hfits.mem _).mpr hplace)
    subst hq
    by_cases hcpu : cpu = t.cpu
    · subst hcpu
      rw [hplace] at harmed
      simp only [Bh.start, Bh.clear, Function.update_self, if_true]
      simp only [reduceCtorEq, if_false] at harmed
      split at harmed <;> omega
    · have hnode : Node.softirq cpu ≠ .softirq t.cpu := fun heq => hcpu (Node.softirq.inj heq)
      simp only [Bh.start, Bh.clear, Function.update_of_ne hnode, Function.update_of_ne hcpu]
      exact harmed

theorem fits_fetchOr {cpu nr : Nat} (h : b.Fits) : (b.fetchOr cpu nr).Fits :=
  ⟨h.chain, h.nodup, h.mem, h.scheduled, h.home, h.counts⟩

theorem bhFits_fetchOr {cpu nr : Nat} (h : t.BhFits b i) : t.BhFits (b.fetchOr cpu nr) i :=
  ⟨h.me, h.chain, h.nodup, h.mem, h.home, h.call, h.link, h.raise⟩

theorem new_start {d : Node} {m : Nat}
    (h : b.bhPlace (.heap m) = .out ∧ ∀ x, b.bhPlace x ≠ .chain m) :
    (b.start d).bhPlace (.heap m) = .out ∧ ∀ x, (b.start d).bhPlace x ≠ .chain m := by
  refine ⟨?_, fun x => ?_⟩ <;> simp only [Bh.start, Function.update_apply]
  · split
    · rfl
    · exact h.1
  · split
    · simp
    · exact h.2 x

/-- A call that only ends has nothing. -/
theorem bhFits_done (h : t.BhFits b i) (hfront : t.front = none) :
    ({ t with pc := .done } : Thread).BhFits b i := by
  refine ⟨h.me, ?_, h.nodup, h.mem, h.home, by simp, by simp, by simp⟩
  have hchain := h.chain
  rw [hfront] at hchain
  exact hchain

/-- Linking a node breaks nothing. -/
theorem bhInv_push {s' : Shared} {d : Node} (hI : BhInv c) (hi : c.pool[i]? = some t) {cpu : Nat}
    {b₀ : Bh} (hfits₀ : b₀.Fits)
    (hcalls₀ : Each (fun j u => u.BhFits b₀ j) c.pool) (hplace₀ : b₀.bhPlace = c.shared.bh.bhPlace)
    (hs : s'.bh = b₀.push cpu d) (hout : b₀.bhPlace d = .out)
    (hhome : ∀ q, d = .softirq q → q = cpu) (hheap : ∀ n, d = .heap n → n = i)
    (hself : t'.BhFits (b₀.push cpu d) i) (harmed : s'.bh.Armed (c.pool.set i t')) :
    BhInv ⟨s', c.pool.set i t'⟩ := by
  have hlt := (List.getElem?_eq_some_iff.mp hi).1
  rw [hs] at harmed
  refine ⟨?_, ?_, fun n hn => ?_, ?_⟩ <;> simp only [hs]
  · exact fits_push hfits₀ hout hhome
  · exact harmed
  · rw [List.length_set] at hn
    obtain ⟨hnew, hchain⟩ := hI.new n hn
    rw [← hplace₀] at hnew hchain
    refine ⟨?_, fun x => ?_⟩
    · have hne : .heap n ≠ d := by
        rintro rfl
        have hni := hheap n rfl
        omega
      simp only [Bh.push, Function.update_of_ne hne]
      exact hnew
    · simp only [Bh.push]
      by_cases hx : x = d
      · subst hx
        simp
      · rw [Function.update_of_ne hx]
        exact hchain x
  · refine hcalls₀.set (fun j u hji _ hu => ?_) hself
    exact bhFits_push hu hout fun _ heq => hji (hheap j heq)

theorem bhInv_step {s' : Shared} (hI : BhInv c) (hi : c.pool[i]? = some t)
    (h : BhStep c.shared.bh t s'.bh t') : BhInv ⟨s', c.pool.set i t'⟩ := by
  have harmed := armed_step hI hi h
  have hfits := hI.threads i t hi
  have hnew : ∀ n, (c.pool.set i t').length ≤ n → c.pool.length ≤ n := fun n hn => by
    rwa [List.length_set] at hn
  generalize hb : s'.bh = b' at h
  cases h with
  | still hs =>
    refine ⟨?_, harmed, fun n hn => ?_, ?_⟩ <;> simp only [hb]
    · exact hI.bh
    · exact hI.new n (hnew n hn)
    · exact hI.threads.set (fun _ _ _ _ hu => hu) (bhFits_still hfits hs)
  | @link nr _ hnr hs =>
    unfold Bh.raiseIrqoff at hb
    have hstill := bhFits_still hfits hs
    split at hb
    · rename_i hzero
      have hout := out_of_pending hI.armed hzero
      exact bhInv_push hI hi (fits_fetchOr hI.bh) (fun j u hj => bhFits_fetchOr (hI.threads j u hj))
        rfl hb hout (by simp) (by simp)
        (bhFits_push (bhFits_fetchOr hstill) hout (by simp)) harmed
    · refine ⟨?_, harmed, fun n hn => ?_, ?_⟩ <;> simp only [hb]
      · exact fits_fetchOr hI.bh
      · exact hI.new n (hnew n hn)
      · exact hI.threads.set (fun _ _ _ _ hu => bhFits_fetchOr hu) (bhFits_fetchOr hstill)
  | bh hpc =>
    have hout := hfits.link hpc
    rw [← hfits.me] at hout
    have hdone := bhFits_done hfits (by simp [Thread.front, hpc])
    refine bhInv_push hI hi hI.bh hI.threads rfl hb hout (by simp) (fun n hn => ?_)
      (bhFits_push hdone hout (by simp)) harmed
    rw [← Node.heap.inj hn, hfits.me]
  | @raise nr _ hnr hr hiff =>
    refine ⟨?_, harmed, fun n hn => ?_, ?_⟩ <;> simp only [hb]
    · exact fits_fetchOr hI.bh
    · exact hI.new n (hnew n hn)
    · refine hI.threads.set (fun _ _ _ _ hu => bhFits_fetchOr hu) (bhFits_fetchOr ?_)
      have hpcs : t'.pc ≠ .call ∧ t'.pc ≠ .bhLink ∧ t'.pc ≠ .raise ∧ t'.front = none := by
        rcases hr.pc' with hpc | hpc <;> simp [Thread.front, hpc]
      refine ⟨hr.me.trans hfits.me, ?_, ?_, fun d => ?_, fun q hq => ?_,
        fun hpc => absurd hpc hpcs.1, fun hpc => absurd hpc hpcs.2.1,
        fun hpc => absurd hpc hpcs.2.2.1⟩
      · have hchain := hfits.chain
        rw [show t.front = none by simp [Thread.front, hr.pc]] at hchain
        rw [hpcs.2.2.2, hr.chain]
        exact hchain
      · rw [hr.chain]
        exact hfits.nodup
      · rw [hr.chain]
        exact hfits.mem d
      · rw [hr.chain] at hq
        rw [hr.cpu]
        exact hfits.home q hq
  | raiseLink hpc =>
    have hout := out_of_raising hI.armed hi hpc
    have hdone := bhFits_done hfits (by simp [Thread.front, hpc])
    exact bhInv_push hI hi hI.bh hI.threads rfl hb hout (by simp) (by simp)
      (bhFits_push hdone hout (by simp)) harmed
  | @routine n _ hc =>
    obtain ⟨hplace, hself⟩ := bhFits_called hfits hc.pc hc.d hc.me hc.cpu hc.front hc.chain
      hc.idle.1 hc.idle.2.1 hc.idle.2.2.2
    refine ⟨?_, harmed, fun m hm => ?_, ?_⟩ <;> simp only [hb]
    · exact fits_start hI.bh hplace
    · exact new_start (hI.new m (hnew m hm))
    · exact hI.threads.set (fun _ _ hji _ hu => bhFits_start hu hplace hji) hself
  | @softirq q _ hc =>
    obtain ⟨hplace, hself⟩ := bhFits_called hfits hc.pc hc.d hc.me hc.cpu hc.front hc.chain
      hc.idle.1 hc.idle.2.1 hc.idle.2.2.2
    have hstart := fits_start hI.bh hplace
    have hclear : ∀ {j : Nat} {u : Thread} {b₁ : Bh}, u.BhFits b₁ j → u.BhFits (b₁.clear t.cpu) j :=
      fun hu => ⟨hu.me, hu.chain, hu.nodup, hu.mem, hu.home, hu.call, hu.link, hu.raise⟩
    refine ⟨?_, harmed, fun m hm => ?_, ?_⟩ <;> simp only [hb]
    · exact ⟨hstart.chain, hstart.nodup, hstart.mem, hstart.scheduled, hstart.home, hstart.counts⟩
    · have hstarted := new_start (b := c.shared.bh) (d := .softirq q) (hI.new m (hnew m hm))
      exact ⟨hstarted.1, hstarted.2⟩
    · exact hI.threads.set (fun _ _ hji _ hu => hclear (bhFits_start hu hplace hji)) (hclear hself)

end Steps

/-! ### Whole runs -/

/-- A call that starts without a chain. -/
theorem bhInv_start {c : Config Shared Thread} {s' : Shared} {t : Thread} (hI : BhInv c)
    (hs : s'.bh = c.shared.bh) (hme : t.me = c.pool.length) (hfront : t.front = none)
    (hchain : t.chain = []) (hpc : t.pc ≠ .call ∧ t.pc ≠ .raiseLink)
    (hnr : t.pc = .raise → t.nr < 32) : BhInv ⟨s', c.pool ++ [t]⟩ := by
  obtain ⟨hout, hnone⟩ := hI.new c.pool.length (Nat.le_refl _)
  refine ⟨?_, ?_, fun n hn => ?_, ?_⟩ <;> simp only [hs]
  · exact hI.bh
  · intro cpu
    rw [total_append, raising_eq_zero hpc.2]
    exact hI.armed cpu
  · simp only [List.length_append, List.length_singleton] at hn
    exact hI.new n (by omega)
  · refine hI.threads.append (fun _ _ _ hu => hu)
      ⟨hme, ?_, ?_, fun d => ?_, ?_, fun h => absurd h hpc.1, fun _ => hout, hnr⟩
    · rw [hfront, hchain]
      exact .nil
    · rw [hchain]
      exact List.nodup_nil
    · rw [hchain]
      exact iff_of_false List.not_mem_nil (hnone d)
    · simp [hchain]

/-- `Linux_BHHandler` takes the list of its PCPU. -/
theorem bhInv_handler {c : Config Shared Thread} (hI : BhInv c) (cpu : Nat) :
    BhInv ⟨{ c.shared with bh := c.shared.bh.take cpu c.pool.length },
      c.pool ++ [
        { pc := .walk, me := c.pool.length, cpu := cpu, d := c.shared.bh.head cpu,
          chain := c.shared.bh.bhList cpu }]⟩ := by
  have hmem := hI.bh.mem cpu
  refine ⟨fits_take hI.bh, fun q => ?_, fun n hn => ?_, ?_⟩
  · rw [total_append, raising_eq_zero (by simp)]
    refine Eq.trans ?_ (hI.armed q)
    simp only [Bh.take]
    by_cases hq : .softirq q ∈ c.shared.bh.bhList cpu
    · have hplace := (hmem _).mp hq
      simp [hq, hplace]
    · simp [hq]
  · simp only [List.length_append, List.length_singleton] at hn
    obtain ⟨hout, hchain⟩ := hI.new n (by omega)
    refine ⟨?_, fun d => ?_⟩ <;> simp only [Bh.take]
    · rw [if_neg fun hin => ?_]
      · exact hout
      · rw [(hmem _).mp hin] at hout
        cases hout
    · split
      · simp only [ne_eq, BhPlace.chain.injEq]
        omega
      · exact hchain d
  · refine hI.threads.append (fun j u hj hu => ?_) ⟨rfl, hI.bh.chain cpu, hI.bh.nodup cpu,
      fun d => ?_, fun q hq => hI.bh.home cpu q ((hmem _).mp hq), by simp, by simp, by simp⟩
    · have hlt := (List.getElem?_eq_some_iff.mp hj).1
      exact bhFits_take hu hI.bh (by omega)
    · simp only [Bh.take]
      split
      · rename_i hin
        exact iff_of_true hin rfl
      · rename_i hnot
        exact iff_of_false hnot ((hI.new _ (Nat.le_refl _)).2 d)

theorem bhInv_enter {c : Config Shared Thread} {s' : Shared} {t : Thread} {call : Call}
    (hI : BhInv c) (h : enter c.pool.length call c.shared = some (s', t)) :
    BhInv ⟨s', c.pool ++ [t]⟩ := by
  cases call with
  | bhHandler cpu =>
    obtain ⟨rfl, rfl⟩ := Prod.mk.inj (Option.some.inj h)
    exact bhInv_handler hI cpu
  | bh cpu alloc =>
    obtain ⟨rfl, rfl⟩ := Prod.mk.inj (Option.some.inj h)
    cases alloc with
    | true => exact bhInv_start hI rfl rfl rfl rfl (by simp) (by simp)
    | false => exact bhInv_start hI rfl rfl rfl rfl (by simp) (by simp)
  | raiseSoftirq cpu nr =>
    simp only [enter] at h
    split at h
    · rename_i hlt
      obtain ⟨rfl, rfl⟩ := Prod.mk.inj (Option.some.inj h)
      exact bhInv_start hI rfl rfl rfl rfl (by simp) fun _ => hlt
    · cases h
  | taskletSchedule v t =>
    simp only [enter] at h
    split at h
    · obtain ⟨rfl, rfl⟩ := Prod.mk.inj (Option.some.inj h)
      exact bhInv_start hI rfl rfl rfl rfl (by simp) (by simp)
    · obtain ⟨rfl, rfl⟩ := Prod.mk.inj (Option.some.inj h)
      exact bhInv_start hI rfl rfl rfl rfl (by simp) (by simp)
  | taskletDisable t | taskletEnable t | taskletKill t | panic =>
    obtain ⟨rfl, rfl⟩ := Prod.mk.inj (Option.some.inj h)
    exact bhInv_start hI rfl rfl rfl rfl (by simp) (by simp)

theorem bhInv_of_reachable {c : Config Shared Thread} (h : machine.Reachable initial c) :
    BhInv c := by
  refine Machine.Reach.invariant BhInv ?_ ?_ ?_ h
  · refine ⟨⟨fun _ => .nil, fun _ => List.nodup_nil, ?_, ?_, ?_, ?_⟩, ?_, ?_, each_nil _⟩
    all_goals simp [initial, Bh.Armed]
  · intro c call s' t _ hI _ hs
    exact bhInv_enter hI hs
  · intro c i a t s' t' _ hI _ hi hs
    exact bhInv_step hI hi (step_bhStep (a := a) hs (hI.threads i t hi).raise)

end VmkLinux.SoftIrq
