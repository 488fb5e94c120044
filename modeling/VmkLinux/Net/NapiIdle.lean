/-
  VmkLinux/Net/NapiIdle.lean
  ==========================
  **Nothing is left behind when NAPI goes idle.**  A handler suspends its worldlet when it
  has found no work; what comes up later is found because of three things.  Packets are put
  on `pktList` by the handler itself, before it looks again (`Idle.pktList`).  Whoever takes
  `NAPI_STATE_SCHED` activates the worldlet afterwards, and a worldlet that is activated
  while it runs runs again (`Idle.sched`).  The handler flushes the sessions after each poll
  (`Idle.lroDesc`).

  The last one depends on `vmklnxLROEnabled` being the same at the flush as it was when the
  socket buffers were received.  `nothing_left_behind` has as its condition that no session
  is active when the flush is skipped, and `session_left_behind` is a run in which
  `link_state_work_cb` turns LRO off in between.
-/
import VmkLinux.Net.NapiModel
import VmkLinux.Net.LroSessions

namespace VmkLinux.Net.Napi

open VmkLinux.Interleave

variable {dev : Device}

/-! ### What is counted -/

/-- Some `lro_desc` is active. -/
def active (lro : Lro.Napi) : Bool := lro.lroDesc.any Option.isSome

/-- Inside `napi->poll`, or before the flush that follows it, when a handler is there. -/
def Pc.inPoll : Pc → Bool
  | .testDisable | .testAndSetSched | .activate | .driver | .lroReceive | .flush => true
  | _ => false

/-- A handler that has still to look at the context before it suspends the worldlet. -/
def Thread.watches (dev : Device) (k : Nat) (t : Thread) : Nat :=
  if t.worldlet = some (dev.worldlet k) ∧ t.pc ≠ .suspend ∧ (t.pc = .devScan → k ∈ t.scan) then 1
  else 0

def Thread.polls (k : Nat) (t : Thread) : Nat :=
  if t.worldlet.isSome ∧ t.napi = k ∧ t.pc.inPoll then 1 else 0

theorem activate_runs (state : WorldletState) :
    state.activate = .ready ∨ state.activate = .running true := by
  cases state <;> simp [WorldletState.activate]

theorem Thread.watches_le_handles (dev : Device) (k : Nat) (t : Thread) :
    t.watches dev k ≤ t.handles (dev.worldlet k) := by
  unfold Thread.watches Thread.handles
  grind

theorem Thread.Fits.polls_le_handles {t : Thread} (h : t.Fits dev) (k : Nat) :
    t.polls k ≤ t.handles (dev.worldlet k) := by
  unfold Thread.polls Thread.handles
  cases hpc : t.pc
  all_goals simp only [Thread.Fits, hpc] at h
  all_goals grind -linarith [Pc.inPoll]

theorem noWork_iff {napi : NapiStruct} {skipped : UInt32} :
    napiPollWorkPending napi skipped = napiNoWork ↔
      napi.sched = none ∧ napi.lro.pktList = [] := by
  unfold napiPollWorkPending napiNoWork
  cases napi.sched <;> cases napi.lro.pktList <;> grind

section Active

variable {lro : Lro.Napi}

theorem active_post (drops : Lro.SkBuff → Bool) (packet : Lro.Packet) :
    active (lro.post drops packet) = active lro := by
  simp [active]

theorem active_lroFlushAll (drops : Lro.SkBuff → Bool) :
    active (Lro.lroFlushAll drops lro) = false := by
  rw [active, List.any_eq_false]
  intro desc hmem hactive
  obtain ⟨session, rfl⟩ := Option.isSome_iff_exists.mp hactive
  exact Lro.lroFlushAll_inactive session hmem

theorem active_clear (pktList : List Lro.Packet) :
    active ⟨lro.lroDesc.map fun _ => none, pktList⟩ = false := by
  simp [active]

theorem active_rxProcess {napi : NapiStruct} (taken : Nat) :
    active (napi.rxProcess taken).lro = active napi.lro := rfl

end Active

section Step

variable {a : Choice} {s s' : Shared} {t t' : Thread} {k n m : Nat}

/-- What is on `pktList` will be seen. -/
theorem step_pktList (h : step dev a s t = some (s', t')) (hfits : t.Fits dev)
    (hk : k ∈ s.napiList)
    (hI : (s.napi k).lro.pktList = [] ∨ s.worldlet (dev.worldlet k) = .ready ∨
      0 < n + t.watches dev k) :
    (s'.napi k).lro.pktList = [] ∨ s'.worldlet (dev.worldlet k) = .ready ∨
      0 < n + t'.watches dev k := by
  unfold step at h
  cases hpc : t.pc
  all_goals simp only [hpc] at h
  all_goals repeat' split at h
  all_goals simp only [Option.some.injEq, Prod.mk.injEq, reduceCtorEq] at h
  all_goals obtain ⟨rfl, rfl⟩ := h
  all_goals simp only [Thread.Fits, hpc] at hfits
  all_goals simp only [Thread.watches, Shared.setNapi_worldlet, Shared.setNapi_napi,
    Shared.setWorldlet_worldlet, Shared.setWorldlet_napi, hpc] at hI ⊢
  all_goals grind -linarith [WorldletState.activate, WorldletState.afterSuspend, noWork_iff,
    Device.worldlet, Thread.afterSchedule, Thread.afterFlush, NapiStruct.rxProcess]

/-- A `NAPI_STATE_SCHED` that `napi_schedule_prep` has set will be seen. -/
theorem step_sched (h : step dev a s t = some (s', t')) (hfits : t.Fits dev)
    (hk : k ∈ s.napiList)
    (hI : (s.napi k).sched = some .napiSchedulePrep →
      s.worldlet (dev.worldlet k) = .ready ∨ s.worldlet (dev.worldlet k) = .running true ∨
        0 < n + t.watches dev k ∨ 0 < m + t.activates k) :
    (s'.napi k).sched = some .napiSchedulePrep →
      s'.worldlet (dev.worldlet k) = .ready ∨ s'.worldlet (dev.worldlet k) = .running true ∨
        0 < n + t'.watches dev k ∨ 0 < m + t'.activates k := by
  have hact := activate_runs (s.worldlet (dev.worldlet k))
  unfold step at h
  cases hpc : t.pc
  all_goals simp only [hpc] at h
  all_goals repeat' split at h
  all_goals simp only [Option.some.injEq, Prod.mk.injEq, reduceCtorEq] at h
  all_goals obtain ⟨rfl, rfl⟩ := h
  all_goals simp only [Thread.Fits, hpc] at hfits
  all_goals simp only [Thread.watches, Thread.activates, Shared.setNapi_worldlet,
    Shared.setNapi_napi, Shared.setWorldlet_worldlet, Shared.setWorldlet_napi, hpc] at hI ⊢
  all_goals grind -linarith [WorldletState.afterSuspend, noWork_iff, Device.worldlet,
    Thread.afterSchedule, Thread.afterFlush, NapiStruct.rxProcess]

/-- Sessions are active while the context is polled. -/
theorem step_lroDesc (h : step dev a s t = some (s', t')) (hfits : t.Fits dev)
    (hsw : dev.swLro = true → active (s.napi k).lro = false)
    (hflush : t.pc = .flush → active (s.napi t.napi).lro = true → s.lroEnabled = true)
    (hI : active (s.napi k).lro = true → 0 < n + t.polls k) :
    active (s'.napi k).lro = true → 0 < n + t'.polls k := by
  unfold step at h
  cases hpc : t.pc
  all_goals simp only [hpc] at h
  all_goals repeat' split at h
  all_goals simp only [Option.some.injEq, Prod.mk.injEq, reduceCtorEq] at h
  all_goals obtain ⟨rfl, rfl⟩ := h
  all_goals simp only [Thread.Fits, hpc] at hfits
  all_goals simp only [Thread.polls, Shared.setNapi_napi, Shared.setWorldlet_napi, hpc,
    Pc.inPoll] at hI ⊢
  all_goals first
    | assumption
    | grind -linarith [Pc.inPoll, Thread.afterSchedule, Thread.afterFlush, active_rxProcess,
        active_post, active_lroFlushAll, active_clear]

theorem step_swLro (h : step dev a s t = some (s', t')) (hfits : t.Fits dev)
    (hsw : dev.swLro = true → active (s.napi k).lro = false) :
    dev.swLro = true → active (s'.napi k).lro = false := by
  unfold step at h
  cases hpc : t.pc
  all_goals simp only [hpc] at h
  all_goals repeat' split at h
  all_goals simp only [Option.some.injEq, Prod.mk.injEq, reduceCtorEq] at h
  all_goals obtain ⟨rfl, rfl⟩ := h
  all_goals simp only [Thread.Fits, hpc] at hfits
  all_goals grind -linarith [Shared.setNapi_napi, Shared.setWorldlet_napi, active_rxProcess,
    active_post, active_lroFlushAll, active_clear]

end Step

/-! ### Runs -/

/-- A flush that finds an active session is not skipped. -/
def flushesSessions (c : Config Shared Thread) : Event Call Choice → Bool
  | .start _ => true
  | .act i _ =>
      match c.pool[i]? with
      | some t =>
          !decide (t.pc = .flush) || !active (c.shared.napi t.napi).lro || c.shared.lroEnabled
      | none => true

/-- Whatever a context has for its worldlet, somebody is going to see to it. -/
structure Idle (dev : Device) (k : Nat) (c : Config Shared Thread) : Prop where
  pktList : (c.shared.napi k).lro.pktList = [] ∨ c.shared.worldlet (dev.worldlet k) = .ready ∨
    0 < total (Thread.watches dev k) c.pool
  sched : (c.shared.napi k).sched = some .napiSchedulePrep →
    c.shared.worldlet (dev.worldlet k) = .ready ∨
      c.shared.worldlet (dev.worldlet k) = .running true ∨
      0 < total (Thread.watches dev k) c.pool ∨ 0 < total (Thread.activates k) c.pool
  swLro : dev.swLro = true → active (c.shared.napi k).lro = false
  lroDesc : active (c.shared.napi k).lro = true → 0 < total (Thread.polls k) c.pool

theorem idle_initial {napiList : List Nat} {maxDesc : Nat} {lroEnabled : Bool} {k : Nat} :
    Idle dev k (initial napiList maxDesc lroEnabled) where
  pktList := Or.inl rfl
  sched := nofun
  swLro := by simp [initial, active]
  lroDesc := by simp [initial, active]

theorem idle_enter {c : Config Shared Thread} {call : Call} {s' : Shared} {t : Thread} {k : Nat}
    (hI : Idle dev k c) (h : enter dev call c.shared = some (s', t)) :
    Idle dev k ⟨s', c.pool ++ [t]⟩ := by
  obtain ⟨hpktList, hsched, hswLro, hlroDesc⟩ := hI
  cases call
  all_goals simp only [enter] at h
  all_goals repeat' split at h
  all_goals simp only [Option.some.injEq, Prod.mk.injEq, reduceCtorEq] at h
  all_goals obtain ⟨rfl, rfl⟩ := h
  all_goals refine ⟨?_, ?_, hswLro, ?_⟩
  all_goals simp only [total_append, Shared.setWorldlet_worldlet, Shared.setWorldlet_napi]
  all_goals grind -linarith [Thread.watches, Thread.activates, Thread.polls]

theorem idle_step {c : Config Shared Thread} {i : Nat} {a : Choice} {t t' : Thread}
    {s' : Shared} {k : Nat} (hI : Idle dev k c) (hk : k ∈ c.shared.napiList) (hfits : t.Fits dev)
    (hok : flushesSessions c (.act i a) = true) (ht : c.pool[i]? = some t)
    (h : step dev a c.shared t = some (s', t')) : Idle dev k ⟨s', c.pool.set i t'⟩ := by
  have hflush : t.pc = .flush → active (c.shared.napi t.napi).lro = true →
      c.shared.lroEnabled = true := by
    intro hpc hactive
    simpa [flushesSessions, ht, hpc, hactive] using hok
  obtain ⟨hpktList, hsched, hswLro, hlroDesc⟩ := hI
  simp only [total_eq_others _ ht] at hpktList hsched hlroDesc
  constructor
  · rw [total_set _ _ ht]
    exact step_pktList h hfits hk hpktList
  · rw [total_set _ _ ht, total_set _ _ ht]
    exact step_sched h hfits hk hsched
  · exact step_swLro h hfits hswLro
  · rw [total_set _ _ ht]
    exact step_lroDesc h hfits hswLro hflush hlroDesc

theorem idle_of_reach {napiList : List Nat} {maxDesc : Nat} {lroEnabled : Bool}
    {c : Config Shared Thread} {k : Nat} (hk : k ∈ napiList)
    (h : (machine dev).Reach (fun c e => flushesSessions c e = true)
      (initial napiList maxDesc lroEnabled) c) : Idle dev k c := by
  refine h.invariant (Idle dev k) idle_initial ?_ ?_
  · intro c call g t _ hI _ hstart
    exact idle_enter hI hstart
  · intro c i a t g t' hc hI hok ht hact
    exact idle_step hI (listed_of_reach hk hc) (fits_of_reach hc i t ht) hok ht hact

/-- **Nothing is left behind.**  In every run in which no flush is skipped while a session is
    active: when the worldlet of a context is suspended, and not activated, the context's
    `pktList` is empty, none of its `lro_desc` is active, and `napi_schedule_prep` has set
    `NAPI_STATE_SCHED` only for a caller that has still to activate the worldlet. -/
theorem nothing_left_behind {napiList : List Nat} {maxDesc : Nat} {lroEnabled : Bool}
    {c : Config Shared Thread}
    (h : (machine dev).Reach (fun c e => flushesSessions c e = true)
      (initial napiList maxDesc lroEnabled) c)
    {k : Nat} (hk : k ∈ napiList) (hidle : c.shared.worldlet (dev.worldlet k) = .suspend) :
    (c.shared.napi k).lro.pktList = [] ∧
      (∀ desc ∈ (c.shared.napi k).lro.lroDesc, desc = none) ∧
      ((c.shared.napi k).sched = some .napiSchedulePrep →
        ∃ t ∈ c.pool, t.pc = .activate ∧ t.napi = k) := by
  have hI := idle_of_reach hk h
  -- nobody runs the handler
  have hhandles : total (Thread.handles (dev.worldlet k)) c.pool = 0 := by
    rw [handlers_of_reach h, hidle]
    rfl
  have hwatches : total (Thread.watches dev k) c.pool = 0 := by
    have hle := total_le_total fun t (_ : t ∈ c.pool) => t.watches_le_handles dev k
    omega
  have hpolls : total (Thread.polls k) c.pool = 0 := by
    have hle : total (Thread.polls k) c.pool ≤ total (Thread.handles (dev.worldlet k)) c.pool := by
      apply total_le_total
      intro t ht
      obtain ⟨i, hi⟩ := List.mem_iff_getElem?.mp ht
      exact (fits_of_reach h i t hi).polls_le_handles k
    omega
  refine ⟨?_, ?_, ?_⟩
  · simpa [hidle, hwatches] using hI.pktList
  · intro desc hmem
    by_contra hne
    have hactive : active (c.shared.napi k).lro = true :=
      List.any_eq_true.mpr ⟨desc, hmem, Option.isSome_iff_ne_none.mpr hne⟩
    have := hI.lroDesc hactive
    omega
  · intro hsched
    have hpos : 0 < total (Thread.activates k) c.pool := by
      simpa [hidle, hwatches] using hI.sched hsched
    obtain ⟨i, t, ht, hact⟩ := exists_of_total_pos hpos
    unfold Thread.activates at hact
    split at hact
    · rename_i hpc
      exact ⟨t, List.mem_of_getElem? ht, hpc⟩
    · omega

/-- The backup worldlet polls context 1, which receives a segment, flushes its session and
    pushes the packet. -/
theorem nothing_left_behind_backup :
    ∃ c, (machine sampleDevice).Reach (fun c e => flushesSessions c e = true)
        (initial [0, 1] 8 true) c ∧
      c.shared.worldlet .backup = .suspend ∧ c.shared.lroEnabled = false ∧
      (c.shared.napi 1).lro.pktList = [] ∧
      (∀ desc ∈ (c.shared.napi 1).lro.lroDesc, desc = none) ∧
      ((c.shared.napi 1).sched = some .napiSchedulePrep →
        ∃ t ∈ c.pool, t.pc = .activate ∧ t.napi = 1) := by
  obtain ⟨c, hreach, ho⟩ := (machine sampleDevice).exists_reach_of_runIf flushesSessions
    (List.flatten [[.start (.napiEnable 1)], acts 0 2, [.start (.napiSchedule 1)], acts 1 3,
      [.start .netdevPoll], acts 2 5,
      [.act 2 { driver := .receive (Lro.segment 1 97) }], acts 2 1,
      [.act 2 { driver := .complete }], acts 2 2, [.start (.linkStateWork false)], acts 2 4,
      [.act 2 { taken := 1 }], acts 2 7])
    (initial [0, 1] 8 true)
    (fun c => (c.shared.worldlet .backup, c.shared.lroEnabled)) (.suspend, false)
    (by decide)
  obtain ⟨hidle, hlro⟩ := Prod.mk.inj ho
  exact ⟨c, hreach, hidle, hlro, nothing_left_behind hreach (by decide) hidle⟩

/-- LRO is turned off between the poll that received a segment and the flush: the worldlet
    is suspended with the segment in a session, and nobody is left. -/
theorem session_left_behind :
    ∃ c, (machine sampleDevice).Reachable (initial [0, 1] 8 true) c ∧
      c.shared.worldlet (sampleDevice.worldlet 0) = .suspend ∧
      (∀ t ∈ c.pool, t.pc = .done) ∧
      ¬ ∀ desc ∈ (c.shared.napi 0).lro.lroDesc, desc = none := by
  obtain ⟨c, hreach, ho⟩ := (machine sampleDevice).exists_reachable_of_run
    (List.flatten [[.start (.napiEnable 0)], acts 0 2, [.start (.napiSchedule 0)], acts 1 3,
      [.start (.napiPoll 0)], acts 2 2, [.act 2 { driver := .receive (Lro.segment 1 97) }],
      acts 2 1, [.act 2 { driver := .complete }], [.start (.linkStateWork false)], acts 2 4])
    (initial [0, 1] 8 true)
    (fun c => (c.shared.worldlet (sampleDevice.worldlet 0),
      c.pool.all fun t => decide (t.pc = .done), active (c.shared.napi 0).lro))
    (.suspend, true, true) (by decide)
  obtain ⟨hidle, hrest⟩ := Prod.mk.inj ho
  obtain ⟨hdone, hactive⟩ := Prod.mk.inj hrest
  refine ⟨c, hreach, hidle, by simpa using hdone, ?_⟩
  intro hnone
  obtain ⟨desc, hmem, hsome⟩ := List.any_eq_true.mp hactive
  rw [hnone desc hmem] at hsome
  cases hsome

end VmkLinux.Net.Napi
