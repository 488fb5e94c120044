/-
  VmkLinux/Net/RefModel.lean
  ==========================
  **References to a net device** (`vmklinux26/vmware/linux_net.c`): who looks a device up,
  who holds it and who puts it, over any number of devices.

  `register_netdev` and `unregister_netdev` run under the rtnl lock, `NicCharOpsOpen` looks a
  device up under it; `dev_base` has a lock of its own, which `link_state_work_cb` keeps
  while it walks the list.  The other sections of that lock are one step each.
  `dev_get_by_name` is two: the look-up drops the lock, `dev_hold` comes after it.

  A device is named by a number.  Its driver registers a device that is not registered and
  unregisters one that is, one call at a time (`busy`).  The VMkernel closes a file once and
  with no request on it in progress.  What the driver and the VMkernel answer is a choice of
  the surroundings.
-/
import VmkLinux.Interleave

namespace VmkLinux.Net.Refs

open VmkLinux.Interleave

/-! ### Data -/

inductive RegState where
  | uninitialized
  | registered
  | unregistering
  | unregistered
deriving DecidableEq, Repr

/-- `dev->name`, up to the terminating zero. -/
abbrev Name := List UInt8

def ifNamSiz : Nat := 16

/-- `strncmp(name, name', sizeof(dev->name)) == 0`. -/
def sameName (name name' : Name) : Bool := decide (name.take ifNamSiz = name'.take ifNamSiz)

/-- A name that `register_netdev` has to expand: a format, or none at all. -/
def formatName (name : Name) : Bool :=
  name.contains 37 || name.isEmpty || decide (name.head? = some 32)

/-- What the driver says of its device: whether it sits on the PCI bus, and whether its
    `ethtool_ops` have a `set_settings`. -/
structure Attrs where
  name : Name
  pdev : Bool := true
  setSettings : Bool := true
deriving DecidableEq, Repr

structure Dev where
  name : Name
  pdev : Bool
  setSettings : Bool
  nicMajor : Int
  refcnt : Int
  regState : RegState
  busy : Bool
deriving DecidableEq, Repr

/-- An open file of the character device: `attr->clientData`. -/
structure Handle where
  fd : Nat
  dev : Nat
deriving DecidableEq, Repr

/-- `ioctls` has the file of every `NicCharOpsIoctl` in progress. -/
structure Shared where
  dev : Nat → Dev
  devBase : List Nat
  rtnl : Bool
  devBaseLock : Bool
  handles : List Handle
  ioctls : List Nat

def Shared.setDev (s : Shared) (d : Nat) (x : Dev) : Shared :=
  { s with dev := fun e => if e = d then x else s.dev e }

/-- `dev_hold`. -/
def Shared.devHold (s : Shared) (d : Nat) : Shared :=
  s.setDev d { s.dev d with refcnt := (s.dev d).refcnt + 1 }

/-- `dev_put`. -/
def Shared.devPut (s : Shared) (d : Nat) : Shared :=
  s.setDev d { s.dev d with refcnt := (s.dev d).refcnt - 1 }

def Shared.setRegState (s : Shared) (d : Nat) (r : RegState) : Shared :=
  s.setDev d { s.dev d with regState := r }

def Shared.setBusy (s : Shared) (d : Nat) (b : Bool) : Shared :=
  s.setDev d { s.dev d with busy := b }

inductive Pc where
  -- register_netdev
  | regLock
  | regAllocName
  | regInit
  | regLink
  | regHold
  | regState
  | regUnlock
  | regConnect
  -- unregister_netdev
  | unregLock
  | unregTest
  | unregSleep
  | unregChrdev
  | unregUnlink
  | unregState
  | unregPut
  | unregUnlock
  -- IoctlNetDev
  | getByName
  | hold
  | put
  -- netdev_ioctl
  | ioctl
  | ethtoolLock
  | ethtool
  | ethtoolUnlock
  -- LinNet_ConnectUplink
  | connect
  -- NICSetLinkStatus
  | setLinkTest
  | setSettings
  | setLinkPut
  -- NicCharOpsOpen
  | openLock
  | getByNicMajor
  | openUnlock
  | openReturn
  -- NicCharOpsIoctl
  | copyFromUser
  | charReturn
  -- NicCharOpsClose
  | closePut
  -- SetNICLinkStatus
  | updateLink
  -- link_state_work_cb
  | workLock
  | workLockBase
  | workDev
  | workUnlockBase
  | workUnlock
  | done
deriving DecidableEq, Repr

/-- What `netdev_ioctl` is asked for. -/
inductive Cmd where
  | badArgs
  | siocgifhwaddr
  | siocethtool
  | other
deriving DecidableEq, Repr

/-- `char` says that `netdev_ioctl` was called by `NicCharOpsIoctl`, and that
    `NicCharOpsOpen` found a device; `cursor` is `cur` of `link_state_work_cb` with what
    follows it on the list. -/
structure Thread where
  pc : Pc
  me : Nat := 0
  dev : Nat := 0
  name : Name := []
  nicMajor : Int := 0
  cmd : Cmd := .badArgs
  char : Bool := false
  fd : Nat := 0
  cursor : List Nat := []
deriving DecidableEq, Repr

inductive Call where
  | registerNetdev (dev : Nat)
  | unregisterNetdev (dev : Nat)
  | connectUplink (dev : Nat)
  | ioctlNetDev (name : Name) (cmd : Cmd)
  | nicSetLinkStatus (dev : Nat)
  | nicCharOpsOpen (major : Int)
  | nicCharOpsIoctl (fd : Nat) (cmd : Cmd)
  | nicCharOpsClose (fd : Nat)
  | setNICLinkStatus (dev : Nat)
  | linkStateWork
deriving DecidableEq, Repr

/-- A call into the driver or the VMkernel fails; the name that `dev_alloc_name` finds;
    the major number that `vmk_CharDevRegister` gives out. -/
structure Choice where
  fails : Bool := false
  name : Name := []
  major : Int := 0
deriving DecidableEq, Repr

/-! ### Steps -/

def enter (me : Nat) (call : Call) (s : Shared) : Option (Shared × Thread) :=
  match call with
  | .registerNetdev d =>
      if (s.dev d).busy ∨ (s.dev d).regState = .registered then none
      else some (s.setBusy d true, { pc := .regLock, me := me, dev := d })
  | .unregisterNetdev d =>
      if (s.dev d).busy = false ∧ (s.dev d).regState = .registered then
        some (s.setBusy d true, { pc := .unregLock, me := me, dev := d })
      else none
  | .connectUplink d => some (s, { pc := .connect, me := me, dev := d })
  | .ioctlNetDev name cmd => some (s, { pc := .getByName, me := me, name := name, cmd := cmd })
  | .nicSetLinkStatus d => some (s, { pc := .setLinkTest, me := me, dev := d })
  | .nicCharOpsOpen major => some (s, { pc := .openLock, me := me, nicMajor := major })
  | .nicCharOpsIoctl fd cmd =>
      match s.handles.find? fun h => decide (h.fd = fd) with
      | some h =>
          some ({ s with ioctls := h.fd :: s.ioctls },
            { pc := .copyFromUser, me := me, dev := h.dev, cmd := cmd, fd := h.fd })
      | none => none
  | .nicCharOpsClose fd =>
      if fd ∈ s.ioctls then none
      else
        match s.handles.find? fun h => decide (h.fd = fd) with
        | some h =>
            some ({ s with handles := s.handles.erase h },
              { pc := .closePut, me := me, dev := h.dev, fd := fd })
        | none => none
  | .setNICLinkStatus d => some (s, { pc := .updateLink, me := me, dev := d })
  | .linkStateWork => some (s, { pc := .workLock, me := me })

/-- Where `netdev_ioctl` returns to. -/
def Thread.afterIoctl (t : Thread) : Thread :=
  { t with pc := if t.char then .charReturn else .put }

/-- `register_nic_chrdev`, the last act of `LinNet_ConnectUplink`. -/
def Shared.connect (s : Shared) (d : Nat) (a : Choice) : Shared :=
  s.setDev d { s.dev d with nicMajor := if a.fails then (s.dev d).nicMajor else a.major }

def step (a : Choice) (s : Shared) (t : Thread) : Option (Shared × Thread) :=
  match t.pc with
  | .regLock =>
      if s.rtnl then none else some ({ s with rtnl := true }, { t with pc := .regAllocName })
  | .regAllocName =>
      if formatName (s.dev t.dev).name then
        if a.fails then some (s, { t with pc := .regUnlock })
        else
          some (s.setDev t.dev { s.dev t.dev with name := a.name }, { t with pc := .regInit })
      else some (s, { t with pc := .regInit })
  | .regInit =>
      -- an early napi failure, dev->init and netdev_poll_init
      if a.fails then some (s, { t with pc := .regUnlock })
      else some (s, { t with pc := .regLink })
  | .regLink =>
      if s.devBaseLock then none
      else some ({ s with devBase := t.dev :: s.devBase }, { t with pc := .regHold })
  | .regHold => some (s.devHold t.dev, { t with pc := .regState })
  | .regState => some (s.setRegState t.dev .registered, { t with pc := .regUnlock })
  | .regUnlock =>
      if (s.dev t.dev).pdev then
        some ({ s.setBusy t.dev false with rtnl := false }, { t with pc := .done })
      else some ({ s with rtnl := false }, { t with pc := .regConnect })
  | .regConnect => some ((s.connect t.dev a).setBusy t.dev false, { t with pc := .done })
  | .unregLock =>
      if s.rtnl then none else some ({ s with rtnl := true }, { t with pc := .unregTest })
  | .unregTest =>
      if (s.dev t.dev).refcnt > 1 then some (s, { t with pc := .unregSleep })
      else some (s, { t with pc := .unregChrdev })
  | .unregSleep => some ({ s with rtnl := false }, { t with pc := .unregLock })
  | .unregChrdev =>
      -- vmk_CharDevUnregister, dev_close and dev->uninit
      some (s.setRegState t.dev .unregistering, { t with pc := .unregUnlink })
  | .unregUnlink =>
      if s.devBaseLock then none
      else some ({ s with devBase := s.devBase.erase t.dev }, { t with pc := .unregState })
  | .unregState => some (s.setRegState t.dev .unregistered, { t with pc := .unregPut })
  | .unregPut => some (s.devPut t.dev, { t with pc := .unregUnlock })
  | .unregUnlock =>
      some ({ s.setBusy t.dev false with rtnl := false }, { t with pc := .done })
  | .getByName =>
      if s.devBaseLock then none
      else
        match s.devBase.find? fun d => sameName (s.dev d).name t.name with
        | some d => some (s, { t with pc := .hold, dev := d })
        | none => some (s, { t with pc := .done })
  | .hold => some (s.devHold t.dev, { t with pc := .ioctl, char := false })
  | .put => some (s.devPut t.dev, { t with pc := .done })
  | .ioctl =>
      if t.cmd = .siocethtool then some (s, { t with pc := .ethtoolLock })
      else some (s, t.afterIoctl)
  | .ethtoolLock =>
      if s.rtnl then none else some ({ s with rtnl := true }, { t with pc := .ethtool })
  | .ethtool => some (s, { t with pc := .ethtoolUnlock })
  | .ethtoolUnlock => some ({ s with rtnl := false }, t.afterIoctl)
  | .connect => some (s.connect t.dev a, { t with pc := .done })
  | .setLinkTest =>
      if (s.dev t.dev).setSettings then some (s, { t with pc := .setSettings })
      else some (s, { t with pc := .done })
  | .setSettings => some (s, { t with pc := .setLinkPut })
  | .setLinkPut => some (s.devPut t.dev, { t with pc := .done })
  | .openLock =>
      if s.rtnl then none else some ({ s with rtnl := true }, { t with pc := .getByNicMajor })
  | .getByNicMajor =>
      if t.nicMajor > 0 then
        if s.devBaseLock then none
        else
          match s.devBase.find? fun d => decide ((s.dev d).nicMajor = t.nicMajor) with
          | some d => some (s.devHold d, { t with pc := .openUnlock, dev := d, char := true })
          | none => some (s, { t with pc := .openUnlock, char := false })
      else some (s, { t with pc := .openUnlock, char := false })
  | .openUnlock => some ({ s with rtnl := false }, { t with pc := .openReturn })
  | .openReturn =>
      -- VMK_NOT_FOUND without a device
      if t.char then
        some ({ s with handles := ⟨t.me, t.dev⟩ :: s.handles }, { t with pc := .done })
      else some (s, { t with pc := .done })
  | .copyFromUser =>
      if a.fails then some (s, { t with pc := .charReturn })
      else some (s, { t with pc := .ioctl, char := true })
  | .charReturn => some ({ s with ioctls := s.ioctls.erase t.fd }, { t with pc := .done })
  | .closePut => some (s.devPut t.dev, { t with pc := .done })
  | .updateLink => some (s, { t with pc := .done })
  | .workLock =>
      if s.rtnl then none else some ({ s with rtnl := true }, { t with pc := .workLockBase })
  | .workLockBase =>
      if s.devBaseLock then none
      else some ({ s with devBaseLock := true }, { t with pc := .workDev, cursor := s.devBase })
  | .workDev =>
      match t.cursor with
      | [] => some (s, { t with pc := .workUnlockBase })
      | _ :: next =>
          -- netdev_ioctl twice, with the rtnl lock held, and SetNICLinkStatus
          some (s, { t with cursor := next })
  | .workUnlockBase => some ({ s with devBaseLock := false }, { t with pc := .workUnlock })
  | .workUnlock => some ({ s with rtnl := false }, { t with pc := .done })
  | .done => none

def machine : Machine Shared Thread Call Choice where
  start := enter
  act := step

/-- Devices that their drivers have allocated and not registered. -/
def initial (attrs : Nat → Attrs) : Config Shared Thread where
  shared :=
    { dev := fun d =>
        { name := (attrs d).name, pdev := (attrs d).pdev, setSettings := (attrs d).setSettings,
          nicMajor := 0, refcnt := 0, regState := .uninitialized, busy := false }
      devBase := [], rtnl := false, devBaseLock := false, handles := [], ioctls := [] }
  pool := []

/-- Thread `i` takes `k` steps in which nothing fails; a character device gets the major
    number 7. -/
def acts (i k : Nat) : List (Event Call Choice) := List.replicate k (.act i { major := 7 })

end VmkLinux.Net.Refs
