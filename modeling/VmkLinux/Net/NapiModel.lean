/-
  VmkLinux/Net/NapiModel.lean
  ===========================
  **NAPI** (`vmklinux26/vmware/linux_net.c`, `include/linux/netdevice.h`): `napi_poll`,
  `netdev_poll`, `napi_schedule`, `__napi_complete`, `napi_disable` and `napi_enable` on the
  contexts of one device.

  A context has a worldlet of its own, which runs `napi_poll`, or is served by the backup
  worldlet of the device, which runs `netdev_poll`.  The VMkernel starts the handler of a
  worldlet that is ready, one at a time for each worldlet; `vmk_WorldletActivate` makes a
  suspended worldlet ready, and a running one ready again when its handler returns.  The
  driver's `napi->poll` may deliver socket buffers, call `napi_complete` and
  `napi_reschedule`, and return, in any order; what it delivers goes through
  `netif_receive_skb` of `Net.LroModel`.  `link_state_work_cb` may set `vmklnxLROEnabled` at
  any time.

  `NAPI_STATE_SCHED` is kept with who set it.  `dev->napi_lock`, which only `netdev_poll`
  takes once the contexts are there, and the interrupt vector of a worldlet are left out.
-/
import VmkLinux.Interleave
import VmkLinux.Net.LroModel

namespace VmkLinux.Net.Napi

open VmkLinux.Interleave

/-! ### Data -/

/-- Who set `NAPI_STATE_SCHED`. -/
inductive Holder where
  | netifNapiAdd
  | napiSchedulePrep
  | napiDisable
deriving DecidableEq, Repr

/-- `struct napi_struct`.  `disabled` says that `napi_disable` took `NAPI_STATE_SCHED` and
    `napi_enable` has not been called since. -/
structure NapiStruct where
  sched : Option Holder
  disable : Bool
  lro : Lro.Napi
  disabled : Bool

inductive Worldlet where
  | own (napi : Nat)
  | backup
deriving DecidableEq, Repr

/-- A running worldlet may have been activated since its handler was started. -/
inductive WorldletState where
  | suspend
  | ready
  | running (activated : Bool)
deriving DecidableEq, Repr

/-- What does not change: which contexts are polled by the backup worldlet, whether the
    device has `NETIF_F_SW_LRO`, and the limits of each `lro_mgr`. -/
structure Device where
  devPoll : Nat → Bool
  swLro : Bool
  mgr : Nat → Lro.LroMgr

/-- `napi->worldlet`. -/
def Device.worldlet (dev : Device) (napi : Nat) : Worldlet :=
  if dev.devPoll napi then .backup else .own napi

/-- The contexts, named by `napi_id`, those of `dev->napi_list` in its order. -/
structure Shared where
  napi : Nat → NapiStruct
  napiList : List Nat
  worldlet : Worldlet → WorldletState
  lroEnabled : Bool

structure NapiPollState where
  poll : Bool
  push : Bool
deriving DecidableEq, Repr

def napiNoWork : NapiPollState := ⟨false, false⟩

inductive Pc where
  -- napi_schedule, napi_reschedule
  | testDisable
  | testAndSetSched
  | activate
  -- napi_poll
  | pollWork
  | pollPush
  | pollWorkAgain
  | pollYield
  -- netdev_poll
  | devLock
  | devScan
  | devPush
  | devYield
  | devYieldAgain
  -- napi->poll, with what follows it
  | driver
  | lroReceive
  | flush
  -- the handler returns
  | suspend
  | ready
  -- napi_disable
  | disableSet
  | disableCheck
  | disableTestAndSet
  | disableClear
  -- napi_enable
  | enableTest
  | enableClear
  | done
deriving DecidableEq, Repr

/-- `worldlet` is the one whose handler this is, `scan` what `netdev_poll` has still to look
    at of `napi_list`. -/
structure Thread where
  pc : Pc
  napi : Nat := 0
  worldlet : Option Worldlet := none
  work : NapiPollState := napiNoWork
  skippedPushCount : UInt32 := 0
  scan : List Nat := []
  skb : Option Lro.SkBuff := none

inductive Call where
  | napiSchedule (napi : Nat)
  | napiPoll (napi : Nat)
  | netdevPoll
  | napiDisable (napi : Nat)
  | napiEnable (napi : Nat)
  | linkStateWork (lroEnabled : Bool)
deriving DecidableEq, Repr

/-- What the driver's `napi->poll` does next. -/
inductive DriverAct where
  | receive (skb : Lro.SkBuff)
  | complete
  | reschedule
  | ret

/-- What `vmk_WorldletShouldYield` answers or whether it fails, how many packets
    `vmk_PktListRxProcess` takes off the list, which socket buffers `netif_rx_common` drops,
    and what the driver does. -/
structure Choice where
  yield : Bool := false
  taken : Nat := 0
  drops : Lro.SkBuff → Bool := fun _ => false
  driver : DriverAct := .ret

/-! ### Steps -/

def Shared.setNapi (s : Shared) (k : Nat) (napi : NapiStruct) : Shared :=
  { s with napi := fun j => if j = k then napi else s.napi j }

def Shared.setWorldlet (s : Shared) (w : Worldlet) (state : WorldletState) : Shared :=
  { s with worldlet := fun v => if v = w then state else s.worldlet v }

/-- `vmk_WorldletActivate`. -/
def WorldletState.activate : WorldletState → WorldletState
  | .suspend => .ready
  | .ready => .ready
  | .running _ => .running true

/-- The handler returns with `VMK_WDT_SUSPEND`. -/
def WorldletState.afterSuspend : WorldletState → WorldletState
  | .running false => .suspend
  | .running true => .ready
  | state => state

def napiStackPushWorkMin : Nat := 2
def napiStackSkipPushMax : UInt32 := 3

def napiPollWorkPending (napi : NapiStruct) (skippedPushCount : UInt32) : NapiPollState :=
  let poll := napi.sched.isSome
  let count := napi.lro.pktList.length
  if count > napiStackPushWorkMin then ⟨poll, true⟩
  else if count > 0 then
    if poll then
      ⟨poll, decide (skippedPushCount = 0 ∨ skippedPushCount > napiStackSkipPushMax)⟩
    else ⟨poll, true⟩
  else ⟨poll, false⟩

/-- `vmk_PktListRxProcess` on `pktList`. -/
def NapiStruct.rxProcess (napi : NapiStruct) (taken : Nat) : NapiStruct :=
  { napi with lro := { napi.lro with pktList := napi.lro.pktList.drop taken } }

section Model

variable (dev : Device)

def enter (call : Call) (s : Shared) : Option (Shared × Thread) :=
  match call with
  | .napiSchedule k => some (s, { pc := .testDisable, napi := k })
  | .napiPoll k =>
      if dev.devPoll k then none
      else
        match s.worldlet (.own k) with
        | .ready => some (s.setWorldlet (.own k) (.running false),
            { pc := .pollWork, napi := k, worldlet := some (.own k) })
        | _ => none
  | .netdevPoll =>
      match s.worldlet .backup with
      | .ready => some (s.setWorldlet .backup (.running false),
          { pc := .devLock, worldlet := some .backup })
      | _ => none
  | .napiDisable k => some (s, { pc := .disableSet, napi := k })
  | .napiEnable k => some (s, { pc := .enableTest, napi := k })
  | .linkStateWork lroEnabled => some ({ s with lroEnabled := lroEnabled }, { pc := .done })

/-- Where `napi_schedule` returns to: `napi_reschedule` is called by `napi->poll`. -/
def Thread.afterSchedule (t : Thread) : Pc :=
  match t.worldlet with
  | some _ => .driver
  | none => .done

/-- Where the poll and its flush end. -/
def Thread.afterFlush (t : Thread) : Pc :=
  match t.worldlet with
  | some .backup => .devYieldAgain
  | _ => .pollWorkAgain

def step (a : Choice) (s : Shared) (t : Thread) : Option (Shared × Thread) :=
  let napi := s.napi t.napi
  match t.pc with
  | .testDisable =>
      if napi.disable then some (s, { t with pc := t.afterSchedule })
      else some (s, { t with pc := .testAndSetSched })
  | .testAndSetSched =>
      match napi.sched with
      | some _ => some (s, { t with pc := t.afterSchedule })
      | none =>
          some (s.setNapi t.napi { napi with sched := some .napiSchedulePrep },
            { t with pc := .activate })
  | .activate =>
      let w := dev.worldlet t.napi
      some (s.setWorldlet w (s.worldlet w).activate, { t with pc := t.afterSchedule })
  | .pollWork => some (s, { t with pc := .pollPush, work := napiPollWorkPending napi 0 })
  | .pollPush =>
      let next := if t.work.poll then Pc.driver else Pc.pollWorkAgain
      if t.work.push then
        some (s.setNapi t.napi (napi.rxProcess a.taken),
          { t with pc := next, skippedPushCount := 1 })
      else some (s, { t with pc := next, skippedPushCount := t.skippedPushCount + 1 })
  | .pollWorkAgain =>
      let work := napiPollWorkPending napi t.skippedPushCount
      if work = napiNoWork then some (s, { t with pc := .suspend, work := work })
      else some (s, { t with pc := .pollYield, work := work })
  | .pollYield =>
      if a.yield then some (s, { t with pc := .ready }) else some (s, { t with pc := .pollPush })
  | .devLock => some (s, { t with pc := .devScan, scan := s.napiList })
  | .devScan =>
      match t.scan with
      | [] => some (s, { t with pc := .suspend })
      | k :: rest =>
          let work := napiPollWorkPending (s.napi k) 0
          if dev.devPoll k ∧ work ≠ napiNoWork then
            -- list_move_tail
            some ({ s with napiList := s.napiList.erase k ++ [k] },
              { t with pc := .devPush, napi := k, work := work })
          else some (s, { t with scan := rest })
  | .devPush =>
      if t.work.push then
        some (s.setNapi t.napi (napi.rxProcess a.taken), { t with pc := .devYield })
      else some (s, { t with pc := .devYield })
  | .devYield =>
      if a.yield then some (s, { t with pc := .ready })
      else
        if t.work.poll then some (s, { t with pc := .driver })
        else some (s, { t with pc := .devYieldAgain })
  | .devYieldAgain =>
      if a.yield then some (s, { t with pc := .ready }) else some (s, { t with pc := .devLock })
  | .driver =>
      match a.driver with
      | .receive skb =>
          -- netif_receive_skb; lro_receive_skb reads vmklnxLROEnabled again
          if !s.lroEnabled || dev.swLro || skb.lroReady then
            some (s.setNapi t.napi
              { napi with lro := napi.lro.post a.drops ⟨skb, skb.len, [], none⟩ }, t)
          else some (s, { t with pc := .lroReceive, skb := some skb })
      | .complete =>
          match napi.sched with
          | none => none  -- BUG_ON
          | some _ => some (s.setNapi t.napi { napi with sched := none }, t)
      | .reschedule => some (s, { t with pc := .testDisable })
      | .ret => some (s, { t with pc := .flush })
  | .lroReceive =>
      match t.skb with
      | none => none
      | some skb =>
          some (s.setNapi t.napi
            { napi with
              lro := Lro.lroReceiveSkb (dev.mgr t.napi) a.drops s.lroEnabled napi.lro skb },
            { t with pc := .driver, skb := none })
  | .flush =>
      if s.lroEnabled && !dev.swLro then
        some (s.setNapi t.napi { napi with lro := Lro.lroFlushAll a.drops napi.lro },
          { t with pc := t.afterFlush })
      else some (s, { t with pc := t.afterFlush })
  | .suspend =>
      match t.worldlet with
      | none => none
      | some w =>
          some (s.setWorldlet w (s.worldlet w).afterSuspend,
            { t with pc := .done, worldlet := none })
  | .ready =>
      match t.worldlet with
      | none => none
      | some w => some (s.setWorldlet w .ready, { t with pc := .done, worldlet := none })
  | .disableSet =>
      some (s.setNapi t.napi { napi with disable := true }, { t with pc := .disableCheck })
  | .disableCheck =>
      -- vmk_WorldletCheckState; the sleep in between is a step that does nothing
      if s.worldlet (dev.worldlet t.napi) = .suspend then
        some (s, { t with pc := .disableTestAndSet })
      else some (s, t)
  | .disableTestAndSet =>
      match napi.sched with
      | some _ => some (s, { t with pc := .disableCheck })
      | none =>
          some (s.setNapi t.napi { napi with sched := some .napiDisable, disabled := true },
            { t with pc := .disableClear })
  | .disableClear =>
      some (s.setNapi t.napi { napi with disable := false }, { t with pc := .done })
  | .enableTest =>
      match napi.sched with
      | none => none  -- BUG_ON
      | some _ =>
          some (s.setNapi t.napi { napi with
              lro := { napi.lro with lroDesc := napi.lro.lroDesc.map fun _ => none } },
            { t with pc := .enableClear })
  | .enableClear =>
      some (s.setNapi t.napi { napi with sched := none, disabled := false },
        { t with pc := .done })
  | .done => none

def machine : Machine Shared Thread Call Choice where
  start _ := enter dev
  act := step dev

end Model

/-- After `netif_napi_add` of the contexts in `napiList`. -/
def initial (napiList : List Nat) (maxDesc : Nat) (lroEnabled : Bool) :
    Config Shared Thread where
  shared :=
    { napi := fun _ =>
        { sched := some .netifNapiAdd, disable := false,
          lro := ⟨List.replicate maxDesc none, []⟩, disabled := false }
      napiList := napiList
      worldlet := fun _ => .suspend
      lroEnabled := lroEnabled }
  pool := []

/-- Context 1 has no worldlet of its own. -/
def sampleDevice : Device where
  devPoll k := decide (k = 1)
  swLro := false
  mgr _ := ⟨16, 1500⟩

/-- Thread `i` takes `n` steps; the driver returns, and nothing yields. -/
def acts (i n : Nat) : List (Event Call Choice) := List.replicate n (.act i {})

/-! ### Handlers -/

@[simp] theorem Shared.setNapi_napi (s : Shared) (k j : Nat) (napi : NapiStruct) :
    (s.setNapi k napi).napi j = if j = k then napi else s.napi j := rfl

@[simp] theorem Shared.setNapi_worldlet (s : Shared) (k : Nat) (napi : NapiStruct) :
    (s.setNapi k napi).worldlet = s.worldlet := rfl

@[simp] theorem Shared.setNapi_napiList (s : Shared) (k : Nat) (napi : NapiStruct) :
    (s.setNapi k napi).napiList = s.napiList := rfl

@[simp] theorem Shared.setWorldlet_worldlet (s : Shared) (w v : Worldlet)
    (state : WorldletState) :
    (s.setWorldlet w state).worldlet v = if v = w then state else s.worldlet v := rfl

@[simp] theorem Shared.setWorldlet_napi (s : Shared) (w : Worldlet) (state : WorldletState) :
    (s.setWorldlet w state).napi = s.napi := rfl

@[simp] theorem Shared.setWorldlet_napiList (s : Shared) (w : Worldlet)
    (state : WorldletState) : (s.setWorldlet w state).napiList = s.napiList := rfl

/-- Which worldlet a thread may be the handler of, and what for. -/
def Thread.Fits (dev : Device) (t : Thread) : Prop :=
  match t.pc with
  | .testDisable | .testAndSetSched | .activate =>
      t.worldlet = none ∨ t.worldlet = some (dev.worldlet t.napi)
  | .pollWork | .pollPush | .pollWorkAgain | .pollYield =>
      t.worldlet = some (.own t.napi) ∧ dev.devPoll t.napi = false
  | .devLock | .devScan => t.worldlet = some .backup
  | .devPush | .devYield | .devYieldAgain =>
      t.worldlet = some .backup ∧ dev.devPoll t.napi = true
  | .driver | .flush => t.worldlet = some (dev.worldlet t.napi)
  | .lroReceive => t.worldlet = some (dev.worldlet t.napi) ∧ dev.swLro = false
  | .suspend | .ready => t.worldlet.isSome = true
  | _ => t.worldlet = none

variable {dev : Device}

theorem enter_fits {call : Call} {s s' : Shared} {t : Thread}
    (h : enter dev call s = some (s', t)) : t.Fits dev := by
  cases call
  all_goals simp only [enter] at h
  all_goals repeat' split at h
  all_goals simp only [Option.some.injEq, Prod.mk.injEq, reduceCtorEq] at h
  all_goals obtain ⟨rfl, rfl⟩ := h
  all_goals simp_all [Thread.Fits]

theorem step_fits {a : Choice} {s s' : Shared} {t t' : Thread}
    (h : step dev a s t = some (s', t')) (hfits : t.Fits dev) : t'.Fits dev := by
  unfold step at h
  cases hpc : t.pc
  all_goals simp only [hpc] at h
  all_goals repeat' split at h
  all_goals simp only [Option.some.injEq, Prod.mk.injEq, reduceCtorEq] at h
  all_goals obtain ⟨rfl, rfl⟩ := h
  all_goals simp only [Thread.Fits, hpc] at hfits ⊢
  all_goals grind -linarith [Thread.afterSchedule, Thread.afterFlush, Device.worldlet]

def Thread.handles (w : Worldlet) (t : Thread) : Nat :=
  if t.worldlet = some w then 1 else 0

/-- Between a successful `napi_schedule_prep` and `vmk_WorldletActivate`. -/
def Thread.activates (k : Nat) (t : Thread) : Nat :=
  if t.pc = .activate ∧ t.napi = k then 1 else 0

def WorldletState.handlers : WorldletState → Nat
  | .running _ => 1
  | _ => 0

@[simp] theorem handlers_activate (state : WorldletState) :
    state.activate.handlers = state.handlers := by
  cases state <;> rfl

theorem handlers_of_running {state : WorldletState} (h : 0 < state.handlers) :
    state.handlers = 1 ∧ state.afterSuspend.handlers = 0 := by
  cases state with
  | suspend => cases h
  | ready => cases h
  | running activated => cases activated <;> exact ⟨rfl, rfl⟩

theorem enter_napiList {call : Call} {s s' : Shared} {t : Thread} {k : Nat}
    (h : enter dev call s = some (s', t)) (hk : k ∈ s.napiList) : k ∈ s'.napiList := by
  cases call
  all_goals simp only [enter] at h
  all_goals repeat' split at h
  all_goals simp only [Option.some.injEq, Prod.mk.injEq, reduceCtorEq] at h
  all_goals obtain ⟨rfl, rfl⟩ := h
  all_goals exact hk

theorem enter_handlers {call : Call} {s s' : Shared} {t : Thread} {w : Worldlet}
    (h : enter dev call s = some (s', t)) :
    (s.worldlet w).handlers + t.handles w = (s'.worldlet w).handlers := by
  cases call
  all_goals simp only [enter] at h
  all_goals repeat' split at h
  all_goals simp only [Option.some.injEq, Prod.mk.injEq, reduceCtorEq] at h
  all_goals obtain ⟨rfl, rfl⟩ := h
  all_goals grind -linarith [Thread.handles, WorldletState.handlers, Shared.setWorldlet_worldlet]

theorem step_napiList {a : Choice} {s s' : Shared} {t t' : Thread} {k : Nat}
    (h : step dev a s t = some (s', t')) (hk : k ∈ s.napiList) :
    k ∈ s'.napiList := by
  unfold step at h
  cases hpc : t.pc
  all_goals simp only [hpc] at h
  all_goals repeat' split at h
  all_goals simp only [Option.some.injEq, Prod.mk.injEq, reduceCtorEq] at h
  all_goals obtain ⟨rfl, rfl⟩ := h
  all_goals grind -linarith [Shared.setNapi_napiList, Shared.setWorldlet_napiList]

/-- A worldlet has a handler while it runs. -/
theorem step_handlers {a : Choice} {s s' : Shared} {t t' : Thread} {w : Worldlet} {n : Nat}
    (h : step dev a s t = some (s', t'))
    (hn : n + t.handles w = (s.worldlet w).handlers) :
    n + t'.handles w = (s'.worldlet w).handlers := by
  have hrun := @handlers_of_running (s.worldlet w)
  unfold step at h
  cases hpc : t.pc
  all_goals simp only [hpc] at h
  all_goals repeat' split at h
  all_goals simp only [Option.some.injEq, Prod.mk.injEq, reduceCtorEq] at h
  all_goals obtain ⟨rfl, rfl⟩ := h
  all_goals simp only [Thread.handles, Shared.setNapi_worldlet, Shared.setWorldlet_worldlet]
    at hn ⊢
  all_goals grind -linarith [handlers_activate, WorldletState.handlers]

section Runs

variable {ok : Config Shared Thread → Event Call Choice → Prop} {napiList : List Nat}
  {maxDesc : Nat} {lroEnabled : Bool} {c : Config Shared Thread}

theorem fits_of_reach (h : (machine dev).Reach ok (initial napiList maxDesc lroEnabled) c) :
    Each (fun _ t => t.Fits dev) c.pool := by
  refine h.invariant (fun c => Each (fun _ t => t.Fits dev) c.pool) (each_nil _) ?_ ?_
  · intro c call g t _ hI _ hstart
    exact hI.append (fun _ _ _ hu => hu) (enter_fits hstart)
  · intro c i a t g t' _ hI _ ht hact
    exact hI.set (fun _ _ _ _ hu => hu) (step_fits hact (hI i t ht))

theorem listed_of_reach {k : Nat} (hk : k ∈ napiList)
    (h : (machine dev).Reach ok (initial napiList maxDesc lroEnabled) c) :
    k ∈ c.shared.napiList := by
  refine h.invariant (fun c => k ∈ c.shared.napiList) hk ?_ ?_
  · intro c call g t _ hI _ hstart
    exact enter_napiList hstart hI
  · intro c i a t g t' _ hI _ _ hact
    exact step_napiList hact hI

theorem handlers_of_reach {w : Worldlet}
    (h : (machine dev).Reach ok (initial napiList maxDesc lroEnabled) c) :
    total (Thread.handles w) c.pool = (c.shared.worldlet w).handlers := by
  refine h.invariant (fun c => total (Thread.handles w) c.pool = (c.shared.worldlet w).handlers)
    rfl ?_ ?_
  · intro c call g t _ hI _ hstart
    rw [total_append, hI]
    exact enter_handlers hstart
  · intro c i a t g t' _ hI _ ht hact
    rw [total_eq_others _ ht] at hI
    rw [total_set _ _ ht]
    exact step_handlers hact hI

/-- Nobody runs the handler of a suspended worldlet. -/
theorem outside_of_suspend {w : Worldlet}
    (hhandlers : total (Thread.handles w) c.pool = (c.shared.worldlet w).handlers)
    (hidle : c.shared.worldlet w = .suspend) {i : Nat} {t : Thread} (ht : c.pool[i]? = some t) :
    t.worldlet ≠ some w := by
  intro hw
  have hle := le_total (Thread.handles w) ht
  rw [hhandlers, hidle, Thread.handles, if_pos hw] at hle
  exact absurd hle (by decide)

end Runs

end VmkLinux.Net.Napi
