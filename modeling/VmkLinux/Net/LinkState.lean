/-
  VmkLinux/Net/LinkState.lean
  ===========================
  **The link state of net devices** (`vmklinux26/vmware/linux_net.c`,
  `vmklinux26/linux/net/ethtool.c`): how `link_state_work_cb` asks the drivers for speed,
  duplexity and link, and what it stores in the devices.

  The driver of a device is what its operations return; one that implements `SIOCETHTOOL` in
  `do_ioctl` has stored an answer when it returns 0.  Of `struct ethtool_cmd` only the two
  fields that are read afterwards are here.
-/
import Mathlib.Data.List.Basic
import VmkLinux.Errno

namespace VmkLinux.Net.LinkState

/-! ### Data -/

/-- `speed` and `duplex` of a `struct ethtool_cmd`. -/
structure EthtoolCmd where
  speed : BitVec 16
  duplex : BitVec 8
deriving DecidableEq, Repr

/-- `struct ethtool_ops`, each operation with what it returns. -/
structure EthtoolOps where
  begin : Option Int := none
  getSettings : Option (Int × EthtoolCmd) := none
  getLink : Option (BitVec 32) := none
deriving DecidableEq, Repr

/-- `do_ioctl` for `SIOCETHTOOL`, with the two commands that are given. -/
structure DoIoctl where
  gset : Int × EthtoolCmd
  glink : Int × BitVec 32
deriving DecidableEq, Repr

/-- `struct net_device`; `present` and `carrierOk` are bits of its state, and `uplinkDev` is
    whether it is connected. -/
structure NetDevice where
  present : Bool := true
  ethtoolOps : Option EthtoolOps := none
  doIoctl : Option DoIoctl := none
  carrierOk : Bool := true
  uplinkDev : Bool := true
  linkState : BitVec 32 := 0
  linkSpeed : BitVec 32 := 0
  fullDuplex : BitVec 32 := 0
deriving DecidableEq, Repr

/-- `vmk_UplinkLinkInfo`. -/
structure LinkInfo where
  linkState : BitVec 32
  linkSpeed : BitVec 32
  fullDuplex : BitVec 32
deriving DecidableEq, Repr

/-! ### The ioctls -/

def ethtoolGetSettings (ops : EthtoolOps) : Except Int EthtoolCmd :=
  match ops.getSettings with
  | none => .error (-eopnotsupp)
  | some (err, cmd) => if err < 0 then .error err else .ok cmd

def ethtoolGetLink (ops : EthtoolOps) : Except Int (BitVec 32) :=
  match ops.getLink with
  | none => .error (-eopnotsupp)
  | some data => .ok data

/-- `__ethtool_ioctl` for one command: what it returns, or the answer that it stored. -/
def ethtoolIoctl {Answer : Type} (dev : NetDevice) (handler : EthtoolOps → Except Int Answer)
    (ioctl : DoIoctl → Int × Answer) : Except Int Answer :=
  if !dev.present then .error (-enodev)
  else
    match dev.ethtoolOps with
    | some ops =>
        match ops.begin with
        | none => handler ops
        | some rc => if rc < 0 then .error rc else handler ops
    | none =>
        match dev.doIoctl with
        | none => .error (-eopnotsupp)
        | some doIoctl =>
            if (ioctl doIoctl).1 = 0 then .ok (ioctl doIoctl).2 else .error (ioctl doIoctl).1

/-- `netdev_ioctl` for `ETHTOOL_GSET`: the answer when the status is `VMK_OK`. -/
def NetDevice.gset (dev : NetDevice) : Option EthtoolCmd :=
  (ethtoolIoctl dev ethtoolGetSettings DoIoctl.gset).toOption

/-- `netdev_ioctl` for `ETHTOOL_GLINK`. -/
def NetDevice.glink (dev : NetDevice) : Option (BitVec 32) :=
  (ethtoolIoctl dev ethtoolGetLink DoIoctl.glink).toOption

/-! ### The work function -/

/-- The variables of `link_state_work_cb` that outlive a round of its loop. -/
structure Locals where
  speed : BitVec 32 := 0
  duplex : BitVec 32 := 0
  linkState : BitVec 32 := 0
deriving DecidableEq, Repr

/-- `VMK_UPLINK_LINK_UP` or `VMK_UPLINK_LINK_DOWN`. -/
def uplinkLinkState (data : BitVec 32) : BitVec 32 := if data = 0 then 0 else 1

/-- The locals after the two ioctls of a device. -/
def Locals.ask (l : Locals) (cur : NetDevice) : Locals where
  speed := match cur.gset with
    | some cmd => cmd.speed.setWidth 32
    | none => l.speed
  duplex := match cur.gset with
    | some cmd => cmd.duplex.setWidth 32
    | none => l.duplex
  linkState := match cur.glink with
    | some data => uplinkLinkState data
    | none => l.linkState

/-- What is stored in the device. -/
def NetDevice.store (cur : NetDevice) (l : Locals) : NetDevice :=
  if cur.carrierOk then
    { cur with linkState := l.linkState, linkSpeed := l.speed, fullDuplex := l.duplex }
  else { cur with linkState := l.linkState }

@[simp] theorem store_linkState (cur : NetDevice) (l : Locals) :
    (cur.store l).linkState = l.linkState := by
  unfold NetDevice.store
  split <;> rfl

theorem store_linkSpeed {cur : NetDevice} (l : Locals) (h : cur.carrierOk = true) :
    (cur.store l).linkSpeed = l.speed := by
  rw [NetDevice.store, if_pos h]

/-- `link_changed`. -/
def NetDevice.linkChanged (cur : NetDevice) (l : Locals) : Bool :=
  cur.linkState ≠ l.linkState ||
    cur.carrierOk && (cur.fullDuplex ≠ l.duplex || cur.linkSpeed ≠ l.speed)

/-- A device after the work function, and whether `SetNICLinkStatus` was called for it. -/
structure Visited where
  dev : NetDevice
  notified : Bool
deriving DecidableEq, Repr

def visit (cur : NetDevice) (l : Locals) : Visited :=
  { dev := cur.store l, notified := cur.linkChanged l }

/-- The loop over `dev_base`. -/
def visitAll : List NetDevice → Locals → List Visited
  | [], _ => []
  | cur :: next, l => visit cur (l.ask cur) :: visitAll next (l.ask cur)

def linkStateWorkCb (devBase : List NetDevice) : List Visited := visitAll devBase {}

/-- `SetNICLinkStatus`: what the vmkernel is told. -/
def setNICLinkStatus (dev : NetDevice) : Option LinkInfo :=
  if dev.uplinkDev then
    some
      { linkState := dev.linkState
        linkSpeed := if dev.linkState ≠ 0 then dev.linkSpeed else 0
        fullDuplex := if dev.linkState ≠ 0 then dev.fullDuplex else 0 }
  else none

/-! ### Independence -/

/-- What a run does to a device is the same in every list of devices that it is in. -/
def Isolated (dev : NetDevice) : Prop :=
  ∀ before after before' after' : List NetDevice,
    (linkStateWorkCb (before ++ dev :: after))[before.length]? =
      (linkStateWorkCb (before' ++ dev :: after'))[before'.length]?

/-- The ioctls that the stored fields depend on succeed. -/
def Answers (dev : NetDevice) : Prop :=
  dev.glink.isSome = true ∧ (dev.carrierOk = true → dev.gset.isSome = true)

instance (dev : NetDevice) : Decidable (Answers dev) := inferInstanceAs (Decidable (_ ∧ _))

/-- The locals when the loop has gone through some devices. -/
def Locals.askAll (l : Locals) (devs : List NetDevice) : Locals := devs.foldl Locals.ask l

/-- A device is visited with the locals that the devices before it have left. -/
theorem getElem?_visitAll (before : List NetDevice) :
    ∀ (dev : NetDevice) (after : List NetDevice) (l : Locals),
      (visitAll (before ++ dev :: after) l)[before.length]? =
        some (visit dev ((l.askAll before).ask dev)) := by
  induction before with
  | nil =>
    intro dev after l
    rfl
  | cons cur before ih =>
    intro dev after l
    rw [List.cons_append, visitAll, List.length_cons, List.getElem?_cons_succ, ih]
    rfl

theorem isolated_iff_visit {dev : NetDevice} :
    Isolated dev ↔ ∀ before before' : List NetDevice,
      visit dev ((Locals.askAll {} before).ask dev) =
        visit dev ((Locals.askAll {} before').ask dev) := by
  unfold Isolated linkStateWorkCb
  constructor
  · intro h before before'
    have hsame := h before [] before' []
    rw [getElem?_visitAll, getElem?_visitAll] at hsame
    exact Option.some.inj hsame
  · intro h before after before' after'
    rw [getElem?_visitAll, getElem?_visitAll, h before before']

/-- A device that answers is visited with its own answers. -/
theorem visit_of_answers {dev : NetDevice} (h : Answers dev) (l l' : Locals) :
    visit dev (l.ask dev) = visit dev (l'.ask dev) := by
  obtain ⟨data, hdata⟩ := Option.isSome_iff_exists.mp h.1
  cases hcarrier : dev.carrierOk with
  | true =>
    obtain ⟨cmd, hcmd⟩ := Option.isSome_iff_exists.mp (h.2 hcarrier)
    have hask : l.ask dev = l'.ask dev := by simp only [Locals.ask, hdata, hcmd]
    rw [hask]
  | false =>
    simp only [visit, NetDevice.store, NetDevice.linkChanged, Locals.ask, hdata, hcarrier,
      Bool.false_and, Bool.false_eq_true, if_false]

/-- A device whose driver answers, with a link at 1000. -/
def gigabit : NetDevice :=
  { ethtoolOps := some { getSettings := some (0, ⟨1000, 1⟩), getLink := some 1 } }

/-- **Link state.**  What a run of `link_state_work_cb` does to a device is independent of all
    other devices exactly when its own ioctls succeed: the one for the link, and with a carrier
    the one for the settings. -/
theorem link_state_isolated (dev : NetDevice) : Isolated dev ↔ Answers dev := by
  rw [isolated_iff_visit]
  constructor
  · intro h
    have hsame := h [] [gigabit]
    have hdev := congrArg Visited.dev hsame
    refine ⟨?_, fun hcarrier => ?_⟩
    · cases hglink : dev.glink with
      | some data => rfl
      | none =>
        -- the link state would be the one of the device before
        have hstate := congrArg NetDevice.linkState hdev
        simp only [visit, store_linkState, Locals.ask, hglink] at hstate
        exact absurd hstate (by decide)
    · cases hgset : dev.gset with
      | some cmd => rfl
      | none =>
        -- and the speed too
        have hspeed := congrArg NetDevice.linkSpeed hdev
        simp only [visit, store_linkSpeed _ hcarrier, Locals.ask, hgset] at hspeed
        exact absurd hspeed (by decide)
  · intro h before before'
    exact visit_of_answers h _ _

/-- A device without link and without driver operations is reported up, at the speed of the
    device before it. -/
theorem other_link_reported : ¬ ∀ dev : NetDevice, Isolated dev := by
  intro h
  have hsame := h {} [] [] [gigabit] []
  exact absurd hsame (by decide)

example : (linkStateWorkCb [gigabit, {}]).map (setNICLinkStatus ·.dev) =
    [some ⟨1, 1000, 1⟩, some ⟨1, 1000, 1⟩] := by decide

end VmkLinux.Net.LinkState
