/-
  VmkLinux/Irq/Disable.lean
  =========================
  **Disabling a shared vector** (`vmklinux26/vmware/linux_stubs.c`): `disable_irq_nosync`,
  `disable_irq`, `enable_irq`, `vmklnx_request_irq` and `free_irq` of any number of drivers, for one
  vector.

  `enable_irq` and `disable_irq_nosync` count under `irqMappingLock`, and call
  `vmk_VectorEnable` and `vmk_VectorDisable` for the last and the first of their kind, which
  succeed.  `vmklnx_request_irq` calls `vmk_VectorEnable` without the lock and without a look at the
  count.  With no handler installed the vmkernel may leave the vector either way.

  So a vector that one driver holds disabled is enabled when another one installs its handler
  (`vector_enabled_while_held`).  Where no disable is held at that call, or the count is just about
  to be settled, and the count does not wrap around (`orderly`), the disables nest
  (`disables_nest`).
-/
import VmkLinux.Interleave

namespace VmkLinux.Irq.Disable

open VmkLinux.Interleave

/-! ### Data -/

/-- `installed` are the requests that have come through `vmk_VectorEnable` and were not freed.
    `held` are the disables that have returned and that no `enable_irq` was called for; it is not in
    the source. -/
structure Shared where
  irqMappingLock : Bool := false
  disableCount : BitVec 32 := 0
  enabled : Bool := false
  installed : List Nat := []
  held : Nat := 0
deriving DecidableEq, Repr

inductive Pc where
  /-- `disable_irq_nosync`, and `disable_irq` around it. -/
  | disableLock
  | disableCount
  | vectorDisable
  | disableUnlock
  | vectorSync
  /-- `enable_irq`. -/
  | enableLock
  | enableSwitch
  | vectorEnable
  | enableCount
  | enableUnlock
  /-- `vmklnx_request_irq`. -/
  | addHandler
  | requestEnable
  /-- `free_irq`. -/
  | removeHandler
  | done
deriving DecidableEq, Repr

/-- `handler` is the request that a thread makes or frees. -/
structure Thread where
  pc : Pc
  sync : Bool := false
  handler : Nat := 0
deriving DecidableEq, Repr

inductive Call where
  | disableIrqNosync
  | disableIrq
  | enableIrq
  | requestIrq
  | freeIrq (handler : Nat)
deriving DecidableEq, Repr

/-- Whether `vmk_AddInterruptHandler` succeeds, and how the vmkernel leaves a vector that has no
    handler installed. -/
structure Choice where
  added : Bool := true
  left : Bool := false
deriving DecidableEq, Repr

/-! ### The calls -/

/-- Every `enable_irq` follows a disable of its own. -/
def enter (me : Nat) (call : Call) (s : Shared) : Option (Shared × Thread) :=
  match call with
  | .disableIrqNosync => some (s, { pc := .disableLock })
  | .disableIrq => some (s, { pc := .disableLock, sync := true })
  | .enableIrq =>
      if 0 < s.held then some ({ s with held := s.held - 1 }, { pc := .enableLock }) else none
  | .requestIrq => some (s, { pc := .addHandler, handler := me })
  | .freeIrq handler =>
      if handler ∈ s.installed then some (s, { pc := .removeHandler, handler := handler }) else none

/-- The state of a vector without a handler. -/
def Shared.leave (a : Choice) (s : Shared) : Shared :=
  if s.installed = [] then { s with enabled := a.left } else s

/-- `vmk_SPLockIRQ` of `irqMappingLock`. -/
def lock (next : Pc) (s : Shared) (t : Thread) : Option (Shared × Thread) :=
  if s.irqMappingLock then none
  else some ({ s with irqMappingLock := true }, { t with pc := next })

/-- A disable returns: its enable may follow. -/
def Shared.hold (s : Shared) : Shared := { s with held := s.held + 1 }

def step (a : Choice) (s : Shared) (t : Thread) : Option (Shared × Thread) :=
  match t.pc with
  | .disableLock => lock .disableCount s t
  | .disableCount =>
      some ({ s with disableCount := s.disableCount + 1 },
        { t with pc := if s.disableCount = 0 then .vectorDisable else .disableUnlock })
  | .vectorDisable => some ({ s with enabled := false }, { t with pc := .disableUnlock })
  | .disableUnlock =>
      if t.sync then some ({ s with irqMappingLock := false }, { t with pc := .vectorSync })
      else some ({ s.hold with irqMappingLock := false }, { t with pc := .done })
  | .vectorSync => some (s.hold, { t with pc := .done })
  | .enableLock => lock .enableSwitch s t
  | .enableSwitch =>
      -- the case 0 is the warning about an unbalanced call
      if s.disableCount = 1 then some (s, { t with pc := .vectorEnable })
      else if s.disableCount = 0 then some (s, { t with pc := .enableUnlock })
      else some (s, { t with pc := .enableCount })
  | .vectorEnable => some ({ s with enabled := true }, { t with pc := .enableCount })
  | .enableCount =>
      some ({ s with disableCount := s.disableCount - 1 }, { t with pc := .enableUnlock })
  | .enableUnlock => some ({ s with irqMappingLock := false }, { t with pc := .done })
  | .addHandler =>
      if a.added then some (s.leave a, { t with pc := .requestEnable })
      else some (s, { t with pc := .done })
  | .requestEnable =>
      some ({ s with enabled := true, installed := t.handler :: s.installed },
        { t with pc := .done })
  | .removeHandler =>
      some (({ s with installed := s.installed.erase t.handler } : Shared).leave a,
        { t with pc := .done })
  | .done => none

def machine : Machine Shared Thread Call Choice := ⟨enter, step⟩

def initial : Config Shared Thread := ⟨{}, []⟩

/-! ### Nesting -/

/-- A disable that has counted and not returned, or an `enable_irq` that has not counted yet. -/
def Thread.unmatched (t : Thread) : Nat :=
  match t.pc with
  | .vectorDisable | .disableUnlock | .vectorSync | .enableLock | .enableSwitch | .vectorEnable
  | .enableCount => 1
  | _ => 0

/-- The disables that are not matched by an enable. -/
def unmatched (c : Config Shared Thread) : Nat := c.shared.held + total Thread.unmatched c.pool

/-- The count is that of the unmatched disables, and with a handler installed and the lock free the
    vector is enabled exactly when it is zero. -/
structure Nests (c : Config Shared Thread) : Prop where
  count : c.shared.disableCount.toNat = unmatched c
  vector : c.shared.irqMappingLock = false → c.shared.installed ≠ [] →
    (c.shared.enabled = true ↔ c.shared.disableCount = 0)

/-- The first disable has still to call `vmk_VectorDisable`. -/
def Thread.willDisable (t : Thread) : Nat := if t.pc = .vectorDisable then 1 else 0

/-- An `enable_irq` has the lock and has not counted yet. -/
def Thread.enabling (t : Thread) : Nat :=
  match t.pc with
  | .enableSwitch | .vectorEnable | .enableCount => 1
  | _ => 0

/-- `vmklnx_request_irq` comes to `vmk_VectorEnable` with the count at 0, or with a call of the
    first disable, or the last enable, under way that leaves the vector as the count says; and a
    disable does not find the count at its maximum. -/
def orderly (c : Config Shared Thread) : Event Call Choice → Bool
  | .start _ => true
  | .act i _ =>
      match c.pool[i]? with
      | some t =>
          match t.pc with
          | .requestEnable =>
              decide (c.shared.disableCount = 0) ||
                c.pool.any (fun u => u.willDisable = 1) ||
                decide (c.shared.disableCount = 1) && c.pool.any fun u => u.enabling = 1
          | .disableCount => decide (c.shared.disableCount ≠ BitVec.allOnes 32)
          | _ => true
      | none => true

/-! ### The invariant -/

def Thread.holdsLock (t : Thread) : Nat :=
  match t.pc with
  | .disableCount | .vectorDisable | .disableUnlock | .enableSwitch | .vectorEnable | .enableCount
  | .enableUnlock => 1
  | _ => 0

def Thread.willEnable (t : Thread) : Nat := if t.pc = .vectorEnable then 1 else 0

def Thread.willCount (t : Thread) : Nat := if t.pc = .enableCount then 1 else 0

/-- What the vector is for the count, also while a disable or an enable is under way. -/
structure Inv (s : Shared) (sum : (Thread → Nat) → Nat) : Prop where
  lock : sum Thread.holdsLock = s.irqMappingLock.toNat
  count : s.disableCount.toNat = s.held + sum Thread.unmatched
  first : 0 < sum Thread.willDisable → s.disableCount.toNat = 1
  last : 0 < sum Thread.willEnable → s.disableCount.toNat = 1
  enabled : s.installed ≠ [] → s.enabled = true →
    s.disableCount.toNat = 0 ∨ 0 < sum Thread.willDisable ∨
      s.disableCount.toNat = 1 ∧ 0 < sum Thread.enabling
  disabled : s.installed ≠ [] → s.enabled = false →
    s.disableCount.toNat ≠ 0 ∧ (0 < sum Thread.willCount → s.disableCount.toNat ≠ 1)

section Step

variable {s s' : Shared} {t t' : Thread} {a : Choice} {rest : (Thread → Nat) → Nat}

theorem willDisable_le (t : Thread) : t.willDisable ≤ t.holdsLock := by
  cases hpc : t.pc <;> simp [Thread.willDisable, Thread.holdsLock, hpc]

theorem enabling_le (t : Thread) : t.enabling ≤ t.holdsLock := by
  cases hpc : t.pc <;> simp [Thread.enabling, Thread.holdsLock, hpc]

theorem willEnable_le (t : Thread) : t.willEnable ≤ t.holdsLock := by
  cases hpc : t.pc <;> simp [Thread.willEnable, Thread.holdsLock, hpc]

theorem willCount_le (t : Thread) : t.willCount ≤ t.holdsLock := by
  cases hpc : t.pc <;> simp [Thread.willCount, Thread.holdsLock, hpc]

/-- Beside the thread that has the lock nobody is in a critical section. -/
theorem rest_eq_zero (hrest : Mono rest) (h : rest Thread.holdsLock = 0) :
    rest Thread.willDisable = 0 ∧ rest Thread.enabling = 0 ∧ rest Thread.willEnable = 0 ∧
      rest Thread.willCount = 0 := by
  have hdisable := hrest _ _ willDisable_le
  have henabling := hrest _ _ enabling_le
  have henable := hrest _ _ willEnable_le
  have hcount := hrest _ _ willCount_le
  omega

theorem toNat_count_succ (h : s.disableCount ≠ BitVec.allOnes 32) :
    (s.disableCount + 1).toNat = s.disableCount.toNat + 1 := by
  have hne : s.disableCount.toNat ≠ 2 ^ 32 - 1 := fun hmax => h (BitVec.eq_of_toNat_eq hmax)
  bv_omega

theorem toNat_count_pred (h : s.disableCount.toNat ≠ 0) :
    (s.disableCount - 1).toNat = s.disableCount.toNat - 1 := by
  bv_omega

/-- With no handler installed nothing is said about the vector. -/
theorem Inv.leave {sum : (Thread → Nat) → Nat} (hI : Inv s sum) : Inv (s.leave a) sum := by
  unfold Shared.leave
  split
  · rename_i hnil
    exact ⟨hI.lock, hI.count, hI.first, hI.last, fun hne => absurd hnil hne,
      fun hne => absurd hnil hne⟩
  · exact hI

/-- A step that leaves the vector as it is has to answer for the count alone. -/
theorem Inv.of_vector_eq {sum sum' : (Thread → Nat) → Nat} (hI : Inv s sum)
    (hvector : s'.enabled = s.enabled ∧ s'.installed = s.installed)
    (hlock : sum' Thread.holdsLock = s'.irqMappingLock.toNat)
    (hcount : s'.disableCount.toNat = s'.held + sum' Thread.unmatched)
    (hfirst : 0 < sum' Thread.willDisable → s'.disableCount.toNat = 1)
    (hlast : 0 < sum' Thread.willEnable → s'.disableCount.toNat = 1)
    (hon : s.disableCount.toNat = 0 ∨ 0 < sum Thread.willDisable ∨
        s.disableCount.toNat = 1 ∧ 0 < sum Thread.enabling →
      s'.disableCount.toNat = 0 ∨ 0 < sum' Thread.willDisable ∨
        s'.disableCount.toNat = 1 ∧ 0 < sum' Thread.enabling)
    (hoff : s.disableCount.toNat ≠ 0 ∧
        (0 < sum Thread.willCount → s.disableCount.toNat ≠ 1) →
      s'.disableCount.toNat ≠ 0 ∧
        (0 < sum' Thread.willCount → s'.disableCount.toNat ≠ 1)) : Inv s' sum' := by
  refine ⟨hlock, hcount, hfirst, hlast, ?_, ?_⟩
  · rw [hvector.1, hvector.2]
    exact fun hne hen => hon (hI.enabled hne hen)
  · rw [hvector.1, hvector.2]
    exact fun hne hen => hoff (hI.disabled hne hen)

/-- The count goes up or down by one under the lock, where nobody else is about to call
    `vmk_VectorDisable` or `vmk_VectorEnable`; only `vmklnx_request_irq` comes in between. -/
theorem inv_step (hI : Inv s fun w => rest w + w t) (hrest : Mono rest)
    (hrequest : t.pc = .requestEnable → s.disableCount.toNat = 0 ∨ 0 < rest Thread.willDisable ∨
      s.disableCount.toNat = 1 ∧ 0 < rest Thread.enabling)
    (hcount : t.pc = .disableCount → s.disableCount ≠ BitVec.allOnes 32)
    (h : step a s t = some (s', t')) : Inv s' fun w => rest w + w t' := by
  have hzero := rest_eq_zero hrest
  have hnone : s.disableCount = 0 ↔ s.disableCount.toNat = 0 := BitVec.toNat_inj.symm
  have hsingle : s.disableCount = 1 ↔ s.disableCount.toNat = 1 := BitVec.toNat_inj.symm
  have hle := Bool.toNat_le s.irqMappingLock
  obtain ⟨hlock, hmatch, hfirst, hlast, henabled, hdisabled⟩ := id hI
  unfold step at h
  cases hpc : t.pc
  all_goals simp only [hpc, lock, reduceCtorEq, Shared.hold, hnone, hsingle] at h
  all_goals simp only [Thread.holdsLock, Thread.willDisable, Thread.enabling, Thread.willEnable,
      Thread.willCount, Thread.unmatched, hpc, reduceCtorEq, if_false, if_true, Nat.add_zero]
      at hlock hmatch hfirst hlast henabled hdisabled
  case requestEnable =>
    simp only [Option.some.injEq, Prod.mk.injEq] at h
    obtain ⟨rfl, rfl⟩ := h
    exact ⟨hlock, hmatch, hfirst, hlast, fun _ _ => hrequest hpc,
      fun _ hoff => Bool.noConfusion hoff⟩
  case vectorDisable =>
    have hothers := hzero (by omega)
    simp only [Option.some.injEq, Prod.mk.injEq] at h
    obtain ⟨rfl, rfl⟩ := h
    refine ⟨hlock, hmatch, ?_, ?_, fun _ hon => Bool.noConfusion hon, fun _ _ => ?_⟩
    all_goals simp only [Thread.willDisable, Thread.willEnable, Thread.willCount, reduceCtorEq,
      if_false]
    all_goals omega
  case vectorEnable =>
    have hothers := hzero (by omega)
    simp only [Option.some.injEq, Prod.mk.injEq] at h
    obtain ⟨rfl, rfl⟩ := h
    refine ⟨hlock, hmatch, ?_, ?_, fun _ _ => ?_, fun _ hoff => Bool.noConfusion hoff⟩
    all_goals simp only [Thread.willDisable, Thread.willEnable, Thread.enabling, reduceCtorEq,
      if_false]
    all_goals omega
  case addHandler =>
    split at h
    all_goals simp only [Option.some.injEq, Prod.mk.injEq] at h
    all_goals obtain ⟨rfl, rfl⟩ := h
    · exact Inv.leave ⟨hlock, hmatch, hfirst, hlast, henabled, hdisabled⟩
    · exact ⟨hlock, hmatch, hfirst, hlast, henabled, hdisabled⟩
  case removeHandler =>
    simp only [Option.some.injEq, Prod.mk.injEq] at h
    obtain ⟨rfl, rfl⟩ := h
    have hne : s.installed.erase t.handler ≠ [] → s.installed ≠ [] := by
      intro hne hnil
      rw [hnil] at hne
      exact hne rfl
    exact Inv.leave ⟨hlock, hmatch, hfirst, hlast, fun h => henabled (hne h),
      fun h => hdisabled (hne h)⟩
  case disableCount =>
    have hsucc := toNat_count_succ (hcount hpc)
    have hothers := hzero (by omega)
    split at h
    all_goals simp only [Option.some.injEq, Prod.mk.injEq] at h
    all_goals obtain ⟨rfl, rfl⟩ := h
    all_goals refine hI.of_vector_eq ⟨rfl, rfl⟩ ?_ ?_ ?_ ?_ ?_ ?_
    all_goals simp only [Thread.holdsLock, Thread.willDisable, Thread.enabling, Thread.willEnable,
      Thread.willCount, Thread.unmatched, hpc, reduceCtorEq, if_true, if_false, hsucc]
    all_goals omega
  case enableCount =>
    have hpred := toNat_count_pred (s := s) (by omega)
    have hothers := hzero (by omega)
    simp only [Option.some.injEq, Prod.mk.injEq] at h
    obtain ⟨rfl, rfl⟩ := h
    refine hI.of_vector_eq ⟨rfl, rfl⟩ ?_ ?_ ?_ ?_ ?_ ?_
    all_goals simp only [Thread.holdsLock, Thread.willDisable, Thread.enabling, Thread.willEnable,
      Thread.willCount, Thread.unmatched, hpc, reduceCtorEq, if_true, if_false, hpred]
    all_goals omega
  case enableSwitch =>
    have hothers := hzero (by omega)
    repeat' split at h
    all_goals simp only [Option.some.injEq, Prod.mk.injEq] at h
    all_goals obtain ⟨rfl, rfl⟩ := h
    all_goals refine hI.of_vector_eq ⟨rfl, rfl⟩ ?_ ?_ ?_ ?_ ?_ ?_
    all_goals simp only [Thread.holdsLock, Thread.willDisable, Thread.enabling, Thread.willEnable,
      Thread.willCount, Thread.unmatched, hpc, reduceCtorEq, if_true, if_false]
    all_goals omega
  case disableLock | enableLock =>
    split at h
    · cases h
    · rename_i hfree
      rw [Bool.not_eq_true] at hfree
      rw [hfree, Bool.toNat_false] at hlock
      simp only [Option.some.injEq, Prod.mk.injEq] at h
      obtain ⟨rfl, rfl⟩ := h
      refine hI.of_vector_eq ⟨rfl, rfl⟩ ?_ ?_ ?_ ?_ ?_ ?_
      all_goals simp only [Thread.holdsLock, Thread.willDisable, Thread.enabling,
        Thread.willEnable, Thread.willCount, Thread.unmatched, hpc, reduceCtorEq, if_false,
        Bool.toNat_true]
      all_goals omega
  all_goals repeat' split at h
  all_goals simp only [Option.some.injEq, Prod.mk.injEq] at h
  all_goals obtain ⟨rfl, rfl⟩ := h
  all_goals refine hI.of_vector_eq ⟨rfl, rfl⟩ ?_ ?_ ?_ ?_ ?_ ?_
  all_goals simp only [Thread.holdsLock, Thread.willDisable, Thread.enabling, Thread.willEnable,
    Thread.willCount, Thread.unmatched, hpc, reduceCtorEq, if_false, Bool.toNat_false]
  all_goals omega

end Step

/-! ### Whole runs -/

theorem exists_of_any {c : Config Shared Thread} {i : Nat} {t : Thread} {w : Thread → Nat}
    (hi : c.pool[i]? = some t) (hw : w t = 0) (h : c.pool.any (fun u => w u = 1) = true) :
    0 < others w c.pool i := by
  obtain ⟨u, hu, hone⟩ := List.any_eq_true.mp h
  obtain ⟨j, hj⟩ := List.mem_iff_getElem?.mp hu
  have hle := le_total w hj
  rw [total_eq_others _ hi] at hle
  have hval : w u = 1 := of_decide_eq_true hone
  omega

theorem inv_of_reach {c : Config Shared Thread}
    (h : machine.Reach (fun c e => orderly c e = true) initial c) :
    Inv c.shared fun w => total w c.pool := by
  refine h.invariant (fun c => Inv c.shared fun w => total w c.pool)
    ⟨rfl, rfl, by simp [initial], by simp [initial], by simp [initial], by simp [initial]⟩ ?_ ?_
  · intro c call g t _ hI _ hs
    obtain ⟨hlock, hmatch, hfirst, hlast, henabled, hdisabled⟩ := hI
    simp only [machine] at hs
    cases call
    all_goals simp only [enter] at hs
    all_goals repeat' split at hs
    all_goals simp only [Option.some.injEq, Prod.mk.injEq, reduceCtorEq] at hs
    all_goals obtain ⟨rfl, rfl⟩ := hs
    all_goals constructor
    all_goals simp only [total_append, Thread.holdsLock, Thread.willDisable, Thread.enabling,
      Thread.willEnable, Thread.willCount, Thread.unmatched, reduceCtorEq, if_false]
    all_goals first | assumption | omega
  · intro c i a t g t' _ hI hok ht hs
    have hI' : Inv c.shared fun w => others w c.pool i + w t := by
      simpa only [total_eq_others _ ht] using hI
    have hrequest : t.pc = .requestEnable → c.shared.disableCount.toNat = 0 ∨
        0 < others Thread.willDisable c.pool i ∨
        c.shared.disableCount.toNat = 1 ∧ 0 < others Thread.enabling c.pool i := by
      intro hpc
      simp only [orderly, ht, hpc, Bool.or_eq_true, Bool.and_eq_true, decide_eq_true_eq] at hok
      rcases hok with (hnone | hdisable) | ⟨hone, henabling⟩
      · exact Or.inl (congrArg BitVec.toNat hnone)
      · exact Or.inr (Or.inl (exists_of_any ht (by simp [Thread.willDisable, hpc]) hdisable))
      · exact Or.inr (Or.inr ⟨congrArg BitVec.toNat hone,
          exists_of_any ht (by simp [Thread.enabling, hpc]) henabling⟩)
    have hcount : t.pc = .disableCount → c.shared.disableCount ≠ BitVec.allOnes 32 := by
      intro hpc
      simpa [orderly, ht, hpc] using hok
    have hstep := inv_step hI' (mono_others c.pool i) hrequest hcount hs
    simpa only [total_set _ t' ht] using hstep

/-- **Disables nest**, where a handler is installed in order. -/
theorem disables_nest {c : Config Shared Thread}
    (h : machine.Reach (fun c e => orderly c e = true) initial c) : Nests c := by
  obtain ⟨hlock, hmatch, -, -, henabled, hdisabled⟩ := inv_of_reach h
  refine ⟨hmatch, fun hfree hne => ?_⟩
  have hothers := rest_eq_zero (mono_total c.pool) (by rw [hlock, hfree]; rfl)
  have hnone : c.shared.disableCount = 0 ↔ c.shared.disableCount.toNat = 0 :=
    BitVec.toNat_inj.symm
  rw [hnone]
  constructor
  · intro hon
    rcases henabled hne hon with hzero | hpos | ⟨-, hpos⟩
    · exact hzero
    · omega
    · omega
  · intro hzero
    by_contra hoff
    exact (hdisabled hne (Bool.not_eq_true _ ▸ hoff)).1 hzero

/-- Two drivers install their handlers and disable the vector; one of them enables it. -/
theorem disables_nest_two_drivers :
    ∃ c, machine.Reach (fun c e => orderly c e = true) initial c ∧
      (c.shared.installed, c.shared.enabled, c.shared.disableCount) = ([1, 0], false, 1) ∧
      Nests c := by
  obtain ⟨c, hc, ho⟩ := machine.exists_reach_of_runIf orderly
    [.start .requestIrq, .act 0 {}, .act 0 {}, .start .requestIrq, .act 1 {}, .act 1 {},
      .start .disableIrq, .act 2 {}, .act 2 {}, .act 2 {}, .act 2 {}, .act 2 {},
      .start .disableIrqNosync, .act 3 {}, .act 3 {}, .act 3 {},
      .start .enableIrq, .act 4 {}, .act 4 {}, .act 4 {}, .act 4 {}]
    initial (fun c => (c.shared.installed, c.shared.enabled, c.shared.disableCount))
    ([1, 0], false, 1) (by decide)
  exact ⟨c, hc, ho, disables_nest hc⟩

/-- A driver that holds the vector disabled, and another that installs its handler. -/
theorem vector_enabled_while_held : ∃ c, machine.Reachable initial c ∧ ¬ Nests c := by
  obtain ⟨c, hc, ho⟩ := machine.exists_reachable_of_run
    [.start .requestIrq, .act 0 {}, .act 0 {},
      .start .disableIrqNosync, .act 1 {}, .act 1 {}, .act 1 {}, .act 1 {},
      .start .requestIrq, .act 2 {}, .act 2 {}]
    initial (fun c => (c.shared.irqMappingLock, c.shared.installed, c.shared.enabled,
      c.shared.disableCount)) (false, [2, 0], true, 1) (by decide)
  simp only [Prod.mk.injEq] at ho
  obtain ⟨hfree, hinstalled, hon, hone⟩ := ho
  refine ⟨c, hc, fun hnests => ?_⟩
  have hzero := (hnests.vector hfree (by rw [hinstalled]; exact List.cons_ne_nil _ _)).mp hon
  rw [hone] at hzero
  exact absurd hzero (by decide)

end VmkLinux.Irq.Disable
