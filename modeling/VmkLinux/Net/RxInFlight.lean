/-
  VmkLinux/Net/RxInFlight.lean
  ============================
  **`rxInFlight`.**  The counter is the number of `netif_rx_common` calls between their
  increment and their decrement, plus the packets that the stack has and is to complete
  (`accounted_of_reach`, in every run).

  `dev_close` asserts that the counter is zero once `BlockNetDev` has returned, and
  `UnblockNetDev` asserts it before it lets packets in.  What stands behind is that the
  device is blocked, that nothing is in flight, and that nobody is on the way from the
  test of `__LINK_STATE_BLOCKED` to the increment (`Blocking.quiet`).  Nothing in the code
  waits for the last part, and a `BlockNetDev` that finds the bit set does not wait at all.
  `inFlight_assertions` has both as its condition, and `inFlight_assertions_fail` the runs
  without.
-/
import VmkLinux.Net.RxModel

namespace VmkLinux.Net.Rx

open VmkLinux.Interleave

variable {msec : UInt32}

/-! ### What the counter counts -/

/-- Between the increment and the decrement of `netif_rx_common`. -/
def Pc.counted : Pc → Nat
  | .append | .setCompletion | .frameLenSet | .vlanRxTag | .handUp | .dropDecInFlight => 1
  | _ => 0

/-- The calls of `netif_rx_common` that have incremented the counter and are to decrement
    it. -/
def receiving (c : Config Shared Thread) : Nat := total (fun t => t.pc.counted) c.pool

/-- The packets with completion data of this device that were handed up and are not
    completed, with the stack or already on the list of `vmklnx_net_skb_complete`. -/
def uncompleted (c : Config Shared Thread) : Nat :=
  (c.shared.own c.shared.handedUp).length +
    total (fun t => (c.shared.own t.pktList).length) c.pool

structure Accounted (c : Config Shared Thread) : Prop where
  completion : Each (fun _ t => ∀ p, t.completion = some p → p.genCount = c.shared.genCount) c.pool
  inFlight : c.shared.rxInFlight = receiving c + uncompleted c

section Step

variable {a : Choice} {s s' : Shared} {t t' : Thread}

theorem step_genCount (h : step msec a s t = some (s', t')) : s'.genCount = s.genCount := by
  unfold step at h
  cases hpc : t.pc
  all_goals simp only [hpc] at h
  all_goals repeat' split at h
  all_goals simp only [Option.some.injEq, Prod.mk.injEq, reduceCtorEq] at h
  all_goals obtain ⟨rfl, rfl⟩ := h
  all_goals rfl

theorem step_completion (h : step msec a s t = some (s', t'))
    (hI : ∀ p, t.completion = some p → p.genCount = s.genCount) :
    ∀ p, t'.completion = some p → p.genCount = s.genCount := by
  unfold step at h
  cases hpc : t.pc
  case setCompletion =>
    simp only [hpc, Option.some.injEq, Prod.mk.injEq] at h
    obtain ⟨rfl, rfl⟩ := h
    intro p hp
    rw [← Option.some.inj hp]
  case dropDecInFlight =>
    simp only [hpc, Option.some.injEq, Prod.mk.injEq] at h
    obtain ⟨rfl, rfl⟩ := h
    intro p hp
    cases hp
  all_goals simp only [hpc] at h
  all_goals repeat' split at h
  all_goals simp only [Option.some.injEq, Prod.mk.injEq, reduceCtorEq] at h
  all_goals obtain ⟨rfl, rfl⟩ := h
  all_goals exact hI

/-- A step counts what it does. -/
theorem step_inFlight (h : step msec a s t = some (s', t'))
    (hI : ∀ p, t.completion = some p → p.genCount = s.genCount) :
    s'.rxInFlight + (t.pc.counted + (s.own s.handedUp).length + (s.own t.pktList).length : Nat) =
      s.rxInFlight +
        (t'.pc.counted + (s.own s'.handedUp).length + (s.own t'.pktList).length : Nat) := by
  unfold step at h
  cases hpc : t.pc
  all_goals simp only [hpc] at h
  all_goals repeat' split at h
  all_goals simp only [Option.some.injEq, Prod.mk.injEq, reduceCtorEq] at h
  all_goals obtain ⟨rfl, rfl⟩ := h
  all_goals try simp only [Caller.next]
  all_goals try split
  all_goals simp only [Shared.own, List.filter_append, List.filter_cons, List.filter_nil,
    List.length_append, Pc.counted]
  all_goals grind -linarith

end Step

theorem own_own (s : Shared) (pktList : List Completion) :
    s.own (s.own pktList) = s.own pktList := by
  simp [Shared.own]

/-- `vmklnx_net_skb_complete` is given what the stack had. -/
theorem length_own_diff {s : Shared} {pktList : List Completion}
    (h : ∀ p ∈ s.own pktList, (s.own pktList).count p ≤ s.handedUp.count p) :
    (s.own (s.handedUp.diff (s.own pktList))).length + (s.own pktList).length =
      (s.own s.handedUp).length := by
  have hperm : (s.own (s.own pktList ++ s.handedUp.diff (s.own pktList))).Perm
      (s.own s.handedUp) :=
    (List.subperm_append_diff_self_of_count_le h).filter _
  have hlen := hperm.length_eq
  rw [Shared.own, List.filter_append, List.length_append] at hlen
  change (s.own (s.own pktList)).length + (s.own (s.handedUp.diff (s.own pktList))).length = _
    at hlen
  rw [own_own] at hlen
  omega

theorem accounted_enter {c : Config Shared Thread} {call : Call} {s : Shared} {t : Thread}
    (h : enter c.pool.length call c.shared = some (s, t)) (hI : Accounted c) :
    Accounted ⟨s, c.pool ++ [t]⟩ := by
  obtain ⟨hcompletion, hinFlight⟩ := hI
  have hnew : s.genCount = c.shared.genCount ∧ s.rxInFlight = c.shared.rxInFlight ∧
      t.completion = none ∧ t.pc.counted = 0 ∧
      (c.shared.own s.handedUp).length + (c.shared.own t.pktList).length =
        (c.shared.own c.shared.handedUp).length := by
    cases call <;> simp only [enter] at h
    case skbComplete pktList =>
      split at h
      · rename_i hcount
        simp only [Option.some.injEq, Prod.mk.injEq] at h
        obtain ⟨rfl, rfl⟩ := h
        exact ⟨rfl, rfl, rfl, rfl, length_own_diff hcount⟩
      · cases h
    all_goals simp only [Option.some.injEq, Prod.mk.injEq] at h
    all_goals obtain ⟨rfl, rfl⟩ := h
    all_goals exact ⟨rfl, rfl, rfl, rfl, rfl⟩
  obtain ⟨hgen, hsame, hnone, hcounted, hmoved⟩ := hnew
  have hown : ∀ l, s.own l = c.shared.own l := fun l => by simp [Shared.own, hgen]
  refine ⟨hcompletion.append (fun _ _ _ hu => ?_) ?_, ?_⟩
  · show ∀ p : Completion, _ → p.genCount = s.genCount
    rw [hgen]
    exact hu
  · intro p hp
    rw [hnone] at hp
    cases hp
  · simp only [receiving, uncompleted, total_append, hown, hsame, hcounted] at hinFlight ⊢
    omega

theorem accounted_step {a : Choice} {i : Nat} {c : Config Shared Thread} {s : Shared}
    {t t' : Thread} (hi : c.pool[i]? = some t) (h : step msec a c.shared t = some (s, t'))
    (hI : Accounted c) : Accounted ⟨s, c.pool.set i t'⟩ := by
  obtain ⟨hcompletion, hinFlight⟩ := hI
  have hgen := step_genCount h
  have hmine := hcompletion i t hi
  have hown : ∀ l, s.own l = c.shared.own l := fun l => by simp [Shared.own, hgen]
  have hmove := step_inFlight h hmine
  refine ⟨hcompletion.set (fun _ _ _ _ hu => ?_) ?_, ?_⟩
  · show ∀ p : Completion, _ → p.genCount = s.genCount
    rw [hgen]
    exact hu
  · show ∀ p : Completion, _ → p.genCount = s.genCount
    rw [hgen]
    exact step_completion h hmine
  · simp only [receiving, uncompleted, hown] at hinFlight ⊢
    rw [total_eq_others _ hi, total_eq_others _ hi] at hinFlight
    rw [total_set _ _ hi, total_set _ _ hi]
    push_cast at hinFlight hmove ⊢
    omega

/-- **Accounting.**  In every run the counter is what it stands for. -/
theorem accounted_of_reach {ok : Config Shared Thread → Event Call Choice → Prop}
    {genCount : Nat} {c : Config Shared Thread}
    (h : (machine msec).Reach ok (initial genCount) c) : Accounted c := by
  refine Machine.Reach.invariant Accounted ⟨each_nil _, rfl⟩ ?_ ?_ h
  · intro c call s t _ hI _ hs
    exact accounted_enter hs hI
  · intro c i a t s t' _ hI _ hi hs
    exact accounted_step hi hs hI

/-- A call that decrements the counter finds it positive. -/
theorem Accounted.pos {c : Config Shared Thread} {i : Nat} {t : Thread} (hI : Accounted c)
    (hi : c.pool[i]? = some t) :
    (t.pc.counted + (c.shared.own t.pktList).length : Nat) ≤ c.shared.rxInFlight := by
  have hsum := hI.inFlight
  simp only [receiving, uncompleted] at hsum
  rw [total_eq_others _ hi, total_eq_others _ hi] at hsum
  push_cast at hsum ⊢
  omega

/-! ### Who relies on the device being blocked -/

/-- `BlockNetDev` has set the bit and is waiting. -/
def Pc.waits : Pc → Nat
  | .blockTx | .blockSleep | .blockRead => 1
  | _ => 0

/-- The assertion that nothing is in flight is next. -/
def Pc.asserts : Pc → Nat
  | .closeAssert | .unblockAssert => 1
  | _ => 0

/-- Past the test of `__LINK_STATE_BLOCKED`, before the increment. -/
def Pc.passed : Pc → Nat
  | .incInFlight => 1
  | _ => 0

/-- The calls keep apart: the wait of `BlockNetDev` ends when no receiver is on the way to
    its increment; no `BlockNetDev` is waiting when a `dev_close` or an `UnblockNetDev`
    finds the device blocked; and the bit is cleared when no call relies on it. -/
def keptApart (c : Config Shared Thread) : Event Call Choice → Bool
  | .act i _ =>
      match c.pool[i]? with
      | some t =>
          match t.pc with
          | .blockRead =>
              decide (c.shared.rxInFlight = 0 → ∀ u ∈ c.pool, u.pc.passed = 0)
          | .blockTest =>
              decide (t.caller = .devClose → c.shared.blocked = true →
                ∀ u ∈ c.pool, u.pc.waits = 0)
          | .unblockTest => decide (c.shared.blocked = true → ∀ u ∈ c.pool, u.pc.waits = 0)
          | .unblockClear => decide (∀ u ∈ c.pool, u.pc.waits = 0 ∧ u.pc.asserts = 0)
          | _ => true
      | none => true
  | .start _ => true

structure Blocking (s : Shared) (waits asserts passed : Nat) : Prop where
  blocked : 0 < waits + asserts → s.blocked = true
  single : waits ≤ 1
  apart : 0 < asserts → waits = 0
  quiet : s.blocked = true → waits = 0 → s.rxInFlight = 0 ∧ passed = 0

theorem step_blocking {a : Choice} {s s' : Shared} {t t' : Thread} {w r p : Nat}
    (h : step msec a s t = some (s', t'))
    (hpos : (t.pc.counted + (s.own t.pktList).length : Nat) ≤ s.rxInFlight)
    (hread : t.pc = .blockRead → s.rxInFlight = 0 → p = 0)
    (htest : t.pc = .blockTest → t.caller = .devClose → s.blocked = true → w = 0)
    (hunblock : t.pc = .unblockTest → s.blocked = true → w = 0)
    (hclear : t.pc = .unblockClear → w = 0 ∧ r = 0)
    (hI : Blocking s (w + t.pc.waits) (r + t.pc.asserts) (p + t.pc.passed)) :
    Blocking s' (w + t'.pc.waits) (r + t'.pc.asserts) (p + t'.pc.passed) := by
  obtain ⟨hblocked, hsingle, hapart, hquiet⟩ := hI
  unfold step at h
  cases hpc : t.pc
  all_goals simp only [hpc] at h
  all_goals repeat' split at h
  all_goals simp only [Option.some.injEq, Prod.mk.injEq, reduceCtorEq] at h
  all_goals obtain ⟨rfl, rfl⟩ := h
  all_goals simp only [hpc, Pc.waits, Pc.asserts, Pc.passed, Pc.counted] at *
  all_goals try simp only [Caller.next]
  all_goals constructor
  all_goals grind -linarith [Shared.own, UInt32.not_lt_zero]

def BlockInv (c : Config Shared Thread) : Prop :=
  Blocking c.shared (total (fun t => t.pc.waits) c.pool) (total (fun t => t.pc.asserts) c.pool)
    (total (fun t => t.pc.passed) c.pool)

theorem blockInv_enter {c : Config Shared Thread} {call : Call} {s : Shared} {t : Thread}
    (h : enter c.pool.length call c.shared = some (s, t)) (hI : BlockInv c) :
    BlockInv ⟨s, c.pool ++ [t]⟩ := by
  have hnew : s.blocked = c.shared.blocked ∧ s.rxInFlight = c.shared.rxInFlight ∧
      t.pc.waits = 0 ∧ t.pc.asserts = 0 ∧ t.pc.passed = 0 := by
    cases call <;> simp only [enter] at h
    all_goals try split at h
    all_goals simp only [Option.some.injEq, Prod.mk.injEq, reduceCtorEq] at h
    all_goals obtain ⟨rfl, rfl⟩ := h
    all_goals exact ⟨rfl, rfl, rfl, rfl, rfl⟩
  obtain ⟨hblocked, hinFlight, hwaits, hasserts, hpassed⟩ := hnew
  obtain ⟨hI₁, hI₂, hI₃, hI₄⟩ := hI
  unfold BlockInv
  simp only [total_append, hwaits, hasserts, hpassed, Nat.add_zero]
  constructor
  · rw [hblocked]
    exact hI₁
  · exact hI₂
  · exact hI₃
  · rw [hblocked, hinFlight]
    exact hI₄

theorem blockInv_step {a : Choice} {i : Nat} {c : Config Shared Thread} {s : Shared}
    {t t' : Thread} (hi : c.pool[i]? = some t) (h : step msec a c.shared t = some (s, t'))
    (hok : keptApart c (.act i a) = true) (hA : Accounted c) (hI : BlockInv c) :
    BlockInv ⟨s, c.pool.set i t'⟩ := by
  simp only [keptApart, hi] at hok
  unfold BlockInv at hI ⊢
  rw [total_eq_others _ hi, total_eq_others _ hi, total_eq_others _ hi] at hI
  rw [total_set _ _ hi, total_set _ _ hi, total_set _ _ hi]
  have hzero : ∀ w : Pc → Nat, (∀ u ∈ c.pool, w u.pc = 0) →
      others (fun u => w u.pc) c.pool i = 0 := by
    intro w hw
    have hsum : total (fun u => w u.pc) c.pool = 0 := total_eq_zero hw
    rw [total_eq_others _ hi] at hsum
    omega
  refine step_blocking h (hA.pos hi) ?_ ?_ ?_ ?_ hI
  · intro hpc hread
    simp only [hpc, decide_eq_true_eq] at hok
    exact hzero Pc.passed (hok hread)
  · intro hpc hcaller hblocked
    simp only [hpc, decide_eq_true_eq] at hok
    exact hzero Pc.waits (hok hcaller hblocked)
  · intro hpc hblocked
    simp only [hpc, decide_eq_true_eq] at hok
    exact hzero Pc.waits (hok hblocked)
  · intro hpc
    simp only [hpc, decide_eq_true_eq] at hok
    exact ⟨hzero Pc.waits fun u hu => (hok u hu).1, hzero Pc.asserts fun u hu => (hok u hu).2⟩

theorem blockInv_of_reach {genCount : Nat} {c : Config Shared Thread}
    (h : (machine msec).Reach (fun c e => keptApart c e = true) (initial genCount) c) :
    BlockInv c := by
  refine Machine.Reach.invariant BlockInv ?_ ?_ ?_ h
  · constructor <;> simp [initial]
  · intro c call s t _ hI _ hs
    exact blockInv_enter hs hI
  · intro c i a t s t' hc hI hok hi hs
    exact blockInv_step hi hs hok (accounted_of_reach hc) hI

/-- **Nothing is in flight where the code says so.**  In every run in which the calls keep
    apart: `rxInFlight` is the number of calls that are receiving and of packets that are
    not completed, so never negative, and it is zero wherever `dev_close` and
    `UnblockNetDev` assert it. -/
theorem inFlight_assertions {genCount : Nat} {c : Config Shared Thread}
    (h : (machine msec).Reach (fun c e => keptApart c e = true) (initial genCount) c) :
    c.shared.rxInFlight = receiving c + uncompleted c ∧ 0 ≤ c.shared.rxInFlight ∧
      ∀ t ∈ c.pool, t.pc = .closeAssert ∨ t.pc = .unblockAssert → c.shared.rxInFlight = 0 := by
  have hsum := (accounted_of_reach h).inFlight
  refine ⟨hsum, by omega, fun t ht hpc => ?_⟩
  obtain ⟨i, hi⟩ := List.mem_iff_getElem?.mp ht
  obtain ⟨hblocked, -, hapart, hquiet⟩ := blockInv_of_reach h
  have hmine : t.pc.asserts = 1 := by
    rcases hpc with hpc | hpc <;> simp [hpc, Pc.asserts]
  have hpos : 0 < total (fun t => t.pc.asserts) c.pool := by
    have hle := le_total (fun t : Thread => t.pc.asserts) hi
    omega
  exact (hquiet (hblocked (by omega)) (hapart hpos)).1

/-- The device is opened and unblocked, two packets are received, one of them completed
    by the stack, and the device is closed. -/
theorem inFlight_assertions_close :
    ∃ c, (machine 100).Reach (fun c e => keptApart c e = true) (initial 65536) c ∧
      (∃ t ∈ c.pool, t.pc = .closeAssert) ∧ c.shared.rxInFlight = 0 := by
  obtain ⟨c, hc, ho⟩ := (machine 100).exists_reach_of_runIf keptApart
    (List.flatten [[.start .devOpen], acts 0 8, [.start .unblockNetDev], acts 1 4,
      [.start (.netifRx { len := 60 })], acts 2 6,
      [.start (.netifRx { len := 90, fragList := 1, vlanTag := some 5 })], acts 3 9,
      [.start (.skbComplete [⟨3, 65536⟩, ⟨3, 65537⟩])], acts 4 4,
      [.start .devClose], acts 5 5])
    (initial 65536)
    (fun c => (c.pool.any fun t => decide (t.pc = .closeAssert))) true (by decide)
  simp only [List.any_eq_true, decide_eq_true_eq] at ho
  obtain ⟨t, ht, hpc⟩ := ho
  exact ⟨c, hc, ⟨t, ht, hpc⟩, (inFlight_assertions hc).2.2 t ht (.inl hpc)⟩

/-- Three runs of an open device.  A receiver that has passed the test increments the
    counter when `dev_close` has seen it at zero; `dev_close` comes while another
    `BlockNetDev` is waiting for a receiver; `UnblockNetDev` does. -/
theorem inFlight_assertions_fail :
    (∃ c, (machine 100).Reachable (initial 65536) c ∧ c.shared.rxInFlight = 1 ∧
      ∃ t ∈ c.pool, t.pc = .closeAssert) ∧
    (∃ c, (machine 100).Reachable (initial 65536) c ∧ c.shared.rxInFlight = 1 ∧
      ∃ t ∈ c.pool, t.pc = .closeAssert) ∧
    ∃ c, (machine 100).Reachable (initial 65536) c ∧ c.shared.rxInFlight = 1 ∧
      ∃ t ∈ c.pool, t.pc = .unblockAssert := by
  refine ⟨?_, ?_, ?_⟩
  · obtain ⟨c, hc, ho⟩ := (machine 100).exists_reachable_of_run
      (List.flatten [[.start .devOpen], acts 0 8, [.start .unblockNetDev], acts 1 4,
        [.start (.netifRx { len := 60 })], acts 2 2, [.start .devClose], acts 3 5, acts 2 1])
      (initial 65536)
      (fun c => (c.shared.rxInFlight, c.pool.any fun t => decide (t.pc = .closeAssert))) (1, true)
      (by decide)
    simp only [Prod.mk.injEq, List.any_eq_true, decide_eq_true_eq] at ho
    exact ⟨c, hc, ho⟩
  · obtain ⟨c, hc, ho⟩ := (machine 100).exists_reachable_of_run
      (List.flatten [[.start .devOpen], acts 0 8, [.start .unblockNetDev], acts 1 4,
        [.start (.netifRx { len := 60 })], acts 2 3, [.start .blockNetDev], acts 3 1,
        [.start .devClose], acts 4 2])
      (initial 65536)
      (fun c => (c.shared.rxInFlight, c.pool.any fun t => decide (t.pc = .closeAssert))) (1, true)
      (by decide)
    simp only [Prod.mk.injEq, List.any_eq_true, decide_eq_true_eq] at ho
    exact ⟨c, hc, ho⟩
  · obtain ⟨c, hc, ho⟩ := (machine 100).exists_reachable_of_run
      (List.flatten [[.start .devOpen], acts 0 8, [.start .unblockNetDev], acts 1 4,
        [.start (.netifRx { len := 60 })], acts 2 3, [.start .blockNetDev], acts 3 1,
        [.start .unblockNetDev], acts 4 1])
      (initial 65536)
      (fun c => (c.shared.rxInFlight, c.pool.any fun t => decide (t.pc = .unblockAssert))) (1, true)
      (by decide)
    simp only [Prod.mk.injEq, List.any_eq_true, decide_eq_true_eq] at ho
    exact ⟨c, hc, ho⟩

end VmkLinux.Net.Rx
