/-
  VmkLinux/Net/NapiDisable.lean
  =============================
  **`napi_disable` stops polling.**  It waits for a moment in which the worldlet is
  suspended and `NAPI_STATE_SCHED` is clear, and takes the bit.  Then no `napi_schedule_prep`
  succeeds, so nobody activates the worldlet, so its handler is not started, so nobody
  clears the bit: that is `Stopped`, and every step keeps it.

  `napi_disable` looks at the two one after the other.  A `napi_schedule` that passed the
  test of `NAPI_STATE_DISABLE` before it was set may take the bit in between, and its poll
  may give the bit back before `napi_disable` takes it, or it may have taken the bit earlier
  and activate the worldlet later.  And the backup worldlet, when another context activates
  it, takes the bit of a disabled context for one to be polled.  `disabled_not_polled` has as
  its condition that none of this happens, and `disabled_polled` is a run of the first kind.
-/
import VmkLinux.Net.NapiModel

namespace VmkLinux.Net.Napi

open VmkLinux.Interleave

variable {dev : Device}

/-! ### The condition -/

/-- When `napi_disable` takes `NAPI_STATE_SCHED`, the worldlet is still suspended, and no
    `napi_schedule` of the context is on its way to activate it. -/
def takesIdle (dev : Device) (c : Config Shared Thread) (t : Thread) : Bool :=
  !decide (t.pc = .disableTestAndSet) || (c.shared.napi t.napi).sched.isSome ||
    decide (c.shared.worldlet (dev.worldlet t.napi) = .suspend) &&
      c.pool.all fun u => decide (u.activates t.napi = 0)

/-- The backup worldlet is not activated while a context that it serves is disabled. -/
def sparesBackup (dev : Device) (s : Shared) (t : Thread) : Bool :=
  !decide (t.pc = .activate) || !dev.devPoll t.napi ||
    s.napiList.all fun k => !dev.devPoll k || !(s.napi k).disabled

def disablesIdle (dev : Device) (c : Config Shared Thread) : Event Call Choice → Bool
  | .start _ => true
  | .act i _ =>
      match c.pool[i]? with
      | some t => takesIdle dev c t && sparesBackup dev c.shared t
      | none => true

/-! ### Disabled contexts -/

/-- `napi_disable` has the bit, the worldlet is suspended, and `activating`, the number of
    calls on their way to activate it, is zero. -/
structure Stopped (dev : Device) (k : Nat) (s : Shared) (activating : Nat) : Prop where
  sched : (s.napi k).sched = some .napiDisable
  worldlet : s.worldlet (dev.worldlet k) = .suspend
  activating : activating = 0

theorem enter_stopped {call : Call} {s s' : Shared} {t : Thread} {k n : Nat}
    (h : enter dev call s = some (s', t)) (hdis : (s'.napi k).disabled = true)
    (hI : (s.napi k).disabled = true → Stopped dev k s n) :
    Stopped dev k s' (n + t.activates k) := by
  cases call
  all_goals simp only [enter] at h
  all_goals repeat' split at h
  all_goals simp only [Option.some.injEq, Prod.mk.injEq, reduceCtorEq] at h
  all_goals obtain ⟨rfl, rfl⟩ := h
  all_goals obtain ⟨hsched, hworldlet, hn⟩ := hI hdis
  all_goals constructor
  all_goals grind -linarith [Shared.setWorldlet_worldlet, Shared.setWorldlet_napi, Thread.activates]

section Step

variable {a : Choice} {s s' : Shared} {t t' : Thread} {k n : Nat}

/-- Only `napi_disable` disables a context, when it takes the bit. -/
theorem step_disabled (h : step dev a s t = some (s', t')) (hold : (s.napi k).disabled = false)
    (hnew : (s'.napi k).disabled = true) :
    t.pc = .disableTestAndSet ∧ t.napi = k ∧ (s.napi k).sched = none ∧
      t'.pc = .disableClear ∧ (s'.napi k).sched = some .napiDisable ∧ s'.worldlet = s.worldlet := by
  unfold step at h
  cases hpc : t.pc
  all_goals simp only [hpc] at h
  all_goals repeat' split at h
  all_goals simp only [Option.some.injEq, Prod.mk.injEq, reduceCtorEq] at h
  all_goals obtain ⟨rfl, rfl⟩ := h
  all_goals simp only [Shared.setNapi_napi, Shared.setNapi_worldlet, Shared.setWorldlet_napi]
    at hnew ⊢
  all_goals grind -linarith [NapiStruct.rxProcess]

/-- A thread that is not the handler leaves a disabled context stopped. -/
theorem Stopped.step (hI : Stopped dev k s (n + t.activates k))
    (h : step dev a s t = some (s', t')) (hfits : t.Fits dev)
    (hout : t.worldlet ≠ some (dev.worldlet k))
    (hspare : t.pc = .activate → dev.devPoll t.napi = true → dev.devPoll k = false)
    (hdis : (s'.napi k).disabled = true) : Stopped dev k s' (n + t'.activates k) := by
  obtain ⟨hsched, hworldlet, hn⟩ := hI
  unfold Napi.step at h
  cases hpc : t.pc
  all_goals simp only [hpc] at h
  all_goals repeat' split at h
  all_goals simp only [Option.some.injEq, Prod.mk.injEq, reduceCtorEq] at h
  all_goals obtain ⟨rfl, rfl⟩ := h
  all_goals simp only [Thread.Fits, hpc] at hfits
  all_goals simp only [Thread.activates, hpc] at hn
  all_goals refine ⟨?_, ?_, ?_⟩
  all_goals grind -linarith [Shared.setNapi_napi, Shared.setNapi_worldlet,
    Shared.setWorldlet_worldlet, Shared.setWorldlet_napi, Thread.activates, Device.worldlet,
    Thread.afterSchedule, Thread.afterFlush, NapiStruct.rxProcess]

end Step

/-! ### Runs -/

theorem takesIdle_take {c : Config Shared Thread} {t : Thread} (h : takesIdle dev c t = true)
    (hpc : t.pc = .disableTestAndSet) (hsched : (c.shared.napi t.napi).sched = none) :
    c.shared.worldlet (dev.worldlet t.napi) = .suspend ∧
      total (Thread.activates t.napi) c.pool = 0 := by
  simp only [takesIdle, hpc, hsched, decide_true, Bool.not_true, Option.isSome_none,
    Bool.or_self, Bool.false_or, Bool.and_eq_true, decide_eq_true_eq, List.all_eq_true] at h
  exact ⟨h.1, total_eq_zero h.2⟩

/-- The look of `napi_disable` at the worldlet gives what `disablesIdle` asks of its take, when
    nothing comes in between and no `napi_schedule` is still on its way to the worldlet. -/
theorem disablesIdle_of_check {c : Config Shared Thread} {i : Nat} {a a' : Choice} {t t' : Thread}
    {s : Shared} (hi : c.pool[i]? = some t) (hpc : t.pc = .disableCheck)
    (hsuspended : c.shared.worldlet (dev.worldlet t.napi) = .suspend)
    (hnone : ∀ u ∈ c.pool, u.activates t.napi = 0) (h : step dev a c.shared t = some (s, t')) :
    disablesIdle dev ⟨s, c.pool.set i t'⟩ (.act i a') = true := by
  have hlt := (List.getElem?_eq_some_iff.mp hi).1
  simp only [step, hpc, hsuspended, if_true, Option.some.injEq, Prod.mk.injEq] at h
  obtain ⟨rfl, rfl⟩ := h
  have hall : ∀ u ∈ c.pool.set i { t with pc := .disableTestAndSet }, u.activates t.napi = 0 := by
    intro u hu
    rcases List.mem_or_eq_of_mem_set hu with hu | rfl
    · exact hnone u hu
    · simp [Thread.activates]
  simp only [disablesIdle, List.getElem?_set_self hlt, takesIdle, sparesBackup, hsuspended,
    decide_true, Bool.true_and, reduceCtorEq, decide_false, Bool.not_false, Bool.true_or,
    Bool.and_true, Bool.or_eq_true, List.all_eq_true, decide_eq_true_eq]
  exact .inr hall

theorem sparesBackup_activate {s : Shared} {t : Thread} {k : Nat}
    (h : sparesBackup dev s t = true) (hk : k ∈ s.napiList) (hdis : (s.napi k).disabled = true)
    (hpc : t.pc = .activate) (hdev : dev.devPoll t.napi = true) : dev.devPoll k = false := by
  simp only [sparesBackup, hpc, hdev, decide_true, Bool.not_true, Bool.or_self, Bool.false_or,
    List.all_eq_true] at h
  simpa [hdis] using h k hk

theorem stopped_step {c : Config Shared Thread} {i : Nat} {a : Choice} {t t' : Thread}
    {s' : Shared} {k : Nat} (hk : k ∈ c.shared.napiList) (hfits : t.Fits dev)
    (hhandlers : total (Thread.handles (dev.worldlet k)) c.pool =
      (c.shared.worldlet (dev.worldlet k)).handlers)
    (hok : disablesIdle dev c (.act i a) = true) (ht : c.pool[i]? = some t)
    (h : step dev a c.shared t = some (s', t')) (hdis : (s'.napi k).disabled = true)
    (hI : (c.shared.napi k).disabled = true →
      Stopped dev k c.shared (total (Thread.activates k) c.pool)) :
    Stopped dev k s' (total (Thread.activates k) (c.pool.set i t')) := by
  obtain ⟨htake, hspare⟩ : takesIdle dev c t = true ∧ sparesBackup dev c.shared t = true := by
    simpa [disablesIdle, ht] using hok
  rw [total_set _ _ ht]
  cases hold : (c.shared.napi k).disabled with
  | true =>
    have hstopped := hI hold
    have hout := outside_of_suspend hhandlers hstopped.worldlet ht
    rw [total_eq_others _ ht] at hstopped
    exact hstopped.step h hfits hout (sparesBackup_activate hspare hk hold) hdis
  | false =>
    obtain ⟨hpc, rfl, hsched, hpc', hsched', hworldlet⟩ := step_disabled h hold hdis
    obtain ⟨hidle, hnone⟩ := takesIdle_take htake hpc hsched
    rw [total_eq_others _ ht] at hnone
    refine ⟨hsched', by rw [hworldlet, hidle], ?_⟩
    simp only [Thread.activates, hpc', reduceCtorEq, false_and, if_false]
    omega

theorem stopped_of_reach {napiList : List Nat} {maxDesc : Nat} {lroEnabled : Bool}
    {c : Config Shared Thread} {k : Nat} (hk : k ∈ napiList)
    (h : (machine dev).Reach (fun c e => disablesIdle dev c e = true)
      (initial napiList maxDesc lroEnabled) c) (hdis : (c.shared.napi k).disabled = true) :
    Stopped dev k c.shared (total (Thread.activates k) c.pool) := by
  refine h.invariant (fun c => (c.shared.napi k).disabled = true →
    Stopped dev k c.shared (total (Thread.activates k) c.pool)) (by simp [initial]) ?_ ?_ hdis
  · intro c call g t _ hI _ hstart hdis
    rw [total_append]
    exact enter_stopped hstart hdis hI
  · intro c i a t g t' hc hI hok ht hact hdis
    exact stopped_step (listed_of_reach hk hc) (fits_of_reach hc i t ht) (handlers_of_reach hc)
      hok ht hact hdis hI

/-- Inside the poll callback of the context, or about to push its `pktList`. -/
def Thread.serves (k : Nat) (t : Thread) : Bool :=
  decide (t.napi = k) &&
  match t.pc with
  | .driver | .lroReceive | .flush => true
  | .testDisable | .testAndSetSched | .activate => t.worldlet.isSome
  | .pollPush | .devPush => t.work.push
  | _ => false

theorem Thread.Fits.worldlet_of_serves {t : Thread} {k : Nat} (h : t.Fits dev)
    (hserves : t.serves k = true) : t.worldlet = some (dev.worldlet k) := by
  unfold Thread.serves at hserves
  cases hpc : t.pc
  all_goals simp only [Thread.Fits, hpc] at h hserves
  all_goals grind -linarith [Device.worldlet]

/-- **`napi_disable` stops polling.**  In every run in which `napi_disable` takes
    `NAPI_STATE_SCHED` only from a context whose worldlet is suspended and not about to be
    activated, and the backup worldlet is not activated while a context that it serves is
    disabled: from `napi_disable` to `napi_enable` the bit is the disabler's, nobody is inside
    the handler of the context's worldlet, and neither its poll callback nor the push of its
    `pktList` runs. -/
theorem disabled_not_polled {napiList : List Nat} {maxDesc : Nat} {lroEnabled : Bool}
    {c : Config Shared Thread}
    (h : (machine dev).Reach (fun c e => disablesIdle dev c e = true)
      (initial napiList maxDesc lroEnabled) c)
    {k : Nat} (hk : k ∈ napiList) (hdis : (c.shared.napi k).disabled = true) :
    (c.shared.napi k).sched = some .napiDisable ∧
      (∀ t ∈ c.pool, t.worldlet ≠ some (dev.worldlet k)) ∧
      ∀ t ∈ c.pool, t.serves k = false := by
  have hstopped := stopped_of_reach hk h hdis
  have hout : ∀ t ∈ c.pool, t.worldlet ≠ some (dev.worldlet k) := by
    intro t ht
    obtain ⟨i, hi⟩ := List.mem_iff_getElem?.mp ht
    exact outside_of_suspend (handlers_of_reach h) hstopped.worldlet hi
  refine ⟨hstopped.sched, hout, ?_⟩
  intro t ht
  by_contra hserves
  obtain ⟨i, hi⟩ := List.mem_iff_getElem?.mp ht
  exact hout t ht ((fits_of_reach h i t hi).worldlet_of_serves (by simpa using hserves))

/-- `napi_disable` after a poll that completed, with a `napi_schedule` that comes too late. -/
theorem disabled_not_polled_after_poll :
    ∃ c, (machine sampleDevice).Reach (fun c e => disablesIdle sampleDevice c e = true)
        (initial [0, 1] 8 true) c ∧
      (c.shared.napi 0).disabled = true ∧ (∀ t ∈ c.pool, t.pc = .done) ∧
      (c.shared.napi 0).sched = some .napiDisable ∧
      (∀ t ∈ c.pool, t.worldlet ≠ some (sampleDevice.worldlet 0)) ∧
      ∀ t ∈ c.pool, t.serves 0 = false := by
  obtain ⟨c, hreach, ho⟩ := (machine sampleDevice).exists_reach_of_runIf
    (disablesIdle sampleDevice)
    (List.flatten [[.start (.napiEnable 0)], acts 0 2, [.start (.napiSchedule 0)], acts 1 3,
      [.start (.napiPoll 0)], acts 2 2, [.act 2 { driver := .complete }], acts 2 4,
      [.start (.napiDisable 0)], acts 3 4, [.start (.napiSchedule 0)], acts 4 2])
    (initial [0, 1] 8 true)
    (fun c => ((c.shared.napi 0).disabled, c.pool.all fun t => decide (t.pc = .done)))
    (true, true) (by decide)
  obtain ⟨hdis, hdone⟩ := Prod.mk.inj ho
  exact ⟨c, hreach, hdis, by simpa using hdone, disabled_not_polled hreach (by decide) hdis⟩

/-- A `napi_schedule` passes the test of `NAPI_STATE_DISABLE`, `napi_disable` sees the
    worldlet suspended, the `napi_schedule` takes the bit and activates the worldlet, and the
    poll gives the bit back: `napi_disable` has returned, and the poll is still running. -/
theorem disabled_polled :
    ∃ c, (machine sampleDevice).Reachable (initial [0, 1] 8 true) c ∧
      (c.shared.napi 0).disabled = true ∧ (∃ t, c.pool[2]? = some t ∧ t.pc = .done) ∧
      ¬ ∀ t ∈ c.pool, t.serves 0 = false := by
  obtain ⟨c, hreach, ho⟩ := (machine sampleDevice).exists_reachable_of_run
    (List.flatten [[.start (.napiEnable 0)], acts 0 2, [.start (.napiSchedule 0)], acts 1 1,
      [.start (.napiDisable 0)], acts 2 2, acts 1 2, [.start (.napiPoll 0)], acts 3 2,
      [.act 3 { driver := .complete }], acts 2 2])
    (initial [0, 1] 8 true)
    (fun c => ((c.shared.napi 0).disabled, (c.pool[2]?).map Thread.pc,
      c.pool.any fun t => t.serves 0))
    (true, some .done, true) (by decide)
  obtain ⟨hdis, hrest⟩ := Prod.mk.inj ho
  obtain ⟨hdone, hserves⟩ := Prod.mk.inj hrest
  refine ⟨c, hreach, hdis, Option.map_eq_some_iff.mp hdone, ?_⟩
  intro hnone
  obtain ⟨t, ht, hpos⟩ := List.any_eq_true.mp hserves
  rw [hnone t ht] at hpos
  cases hpos

end VmkLinux.Net.Napi
