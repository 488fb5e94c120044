/-
  VmkLinux/Pci/Model.lean
  =======================
  **PCI drivers and devices** (`vmklinux26/linux/pci/pci.c`, `vmklinux26/vmware/linux_pci.c`):
  `pci_match_device`, `pci_announce_device`, `pci_announce_device_to_drivers`,
  `__pci_register_driver`, `pci_unregister_driver`, `LinuxPCIDeviceInserted`,
  `LinuxPCIDeviceRemoved` and `LinuxPCIDeviceNotification`.

  The calls and the events come one after the other.  What a driver's `probe` returns, whether
  it leaves a network device and whether `LinNet_ConnectUplink` then fails is the `Answer` that
  a call or event is given for each driver and device.  The vmkernel sends the events of a
  device in order (`step`): it is inserted once, its owner changes from the one it has to
  another, and it is removed last; a handle is not used again.

  `calls` has no counterpart in the source: it lists the calls of `probe` and `remove`, the
  last one first.
-/
import VmkLinux.Sequence

namespace VmkLinux.Pci

open VmkLinux.Sequence

/-! ### Data -/

structure DeviceId where
  vendor : Nat
  device : Nat
  subvendor : Nat
  subdevice : Nat
  cls : Nat
  classMask : Nat
deriving DecidableEq, Repr

/-- What `vmk_PCIGetInfo` says that a driver is matched against. -/
structure Info where
  vendor : Nat := 0
  device : Nat := 0
  subsystemVendor : Nat := 0
  subsystemDevice : Nat := 0
  cls : Nat := 0
deriving DecidableEq, Repr

/-- `struct pci_driver`, with the module it belongs to; `idTable` is `none` for `NULL`. -/
structure Driver where
  idTable : Option (List DeviceId)
  hasRemove : Bool
  moduleID : Nat
deriving DecidableEq, Repr

inductive Owner where
  | unknown
  | host
  | kernel
  | module
  | vm
deriving DecidableEq, Repr

/-- A device; `moduleID` is `none` for `VMK_INVALID_MODULE_ID`.  `owner` is what the vmkernel
    has for it, `seen` says that it was inserted, and `live` that it was not removed since. -/
structure Dev where
  info : Info := {}
  driver : Option Nat := none
  moduleID : Option Nat := none
  owner : Owner := .unknown
  seen : Bool := false
  live : Bool := false
deriving DecidableEq, Repr

/-- A call of a driver. -/
inductive DriverCall where
  | probe (drv dev : Nat) (ok : Bool)
  | remove (drv dev : Nat)
deriving DecidableEq, Repr

structure Bus where
  devices : List Nat
  hiddenDevices : List Nat
  drivers : List Nat
  dev : Nat → Dev
  calls : List DriverCall

structure Answer where
  probe : Int := 0
  netdev : Bool := false
  uplinkFails : Bool := false
deriving DecidableEq, Repr

abbrev Answers := Nat → Nat → Answer

inductive Event where
  | registerDriver (drv : Nat) (busy : Nat → Bool) (answers : Answers)
  | unregisterDriver (drv : Nat)
  | inserted (d : Nat) (info : Info) (owner : Owner) (answers : Answers)
  | removed (d : Nat)
  | changedOwner (d : Nat) (old new : Owner) (answers : Answers)

def Bus.upd (s : Bus) (d : Nat) (f : Dev → Dev) : Bus :=
  { s with dev := fun e => if e = d then f (s.dev e) else s.dev e }

def Bus.log (s : Bus) (call : DriverCall) : Bus := { s with calls := call :: s.calls }

/-! ### Drivers -/

def anyId : Nat := 0xffffffff

def DeviceId.accepts (id : DeviceId) (dev : Info) : Bool :=
  (id.vendor = anyId || id.vendor = dev.vendor) &&
  (id.device = anyId || id.device = dev.device) &&
  (id.subvendor = anyId || id.subvendor = dev.subsystemVendor) &&
  (id.subdevice = anyId || id.subdevice = dev.subsystemDevice) &&
  (id.cls ^^^ dev.cls) &&& id.classMask = 0

/-- The table ends with an entry without vendor, subvendor and class mask. -/
def pciMatchDevice : List DeviceId → Info → Option DeviceId
  | [], _ => none
  | id :: ids, dev =>
      if id.vendor = 0 ∧ id.subvendor = 0 ∧ id.classMask = 0 then none
      else if id.accepts dev then some id
      else pciMatchDevice ids dev

def Driver.supports (drv : Driver) (dev : Info) : Bool :=
  match drv.idTable with
  | some ids => (pciMatchDevice ids dev).isSome
  | none => true

section Drivers

variable (D : Nat → Driver)

/-- `pci_announce_device`, with what it returns. -/
def announceDevice (a : Answer) (drv d : Nat) (s : Bus) : Bus × Bool :=
  if (D drv).supports (s.dev d).info = false then (s, false)
  else if 0 ≤ a.probe then
    if a.netdev && a.uplinkFails then
      -- the device keeps its driver
      if (D drv).hasRemove then
        (((s.upd d fun p => { p with driver := some drv }).log (.probe drv d true)).log
          (.remove drv d), false)
      else ((s.upd d fun p => { p with driver := some drv }).log (.probe drv d true), false)
    else
      ((s.upd d fun p => { p with driver := some drv, moduleID := some (D drv).moduleID }).log
        (.probe drv d true), true)
  else ((s.upd d fun p => { p with driver := none }).log (.probe drv d false), false)

/-- `pci_announce_device_to_drivers`, from a place in the list of drivers on. -/
def announceDeviceToDrivers (answers : Answers) (d : Nat) : List Nat → Bus → Bus
  | [], s => s
  | drv :: drvs, s =>
      if (D drv).hasRemove then
        if (announceDevice D (answers drv d) drv d s).2 then
          (announceDevice D (answers drv d) drv d s).1
        else announceDeviceToDrivers answers d drvs (announceDevice D (answers drv d) drv d s).1
      else announceDeviceToDrivers answers d drvs s

/-- One turn of the loop of `__pci_register_driver`; `busy` says that a resource of the device
    is `IORESOURCE_BUSY`. -/
def announceTo (drv : Nat) (busy : Nat → Bool) (answers : Answers) (s : Bus) (d : Nat) : Bus :=
  if (s.dev d).driver = none ∧ busy d = false then
    (announceDevice D (answers drv d) drv d s).1
  else s

def registerDriver (drv : Nat) (busy : Nat → Bool) (answers : Answers) (s : Bus) : Bus :=
  s.devices.foldl (announceTo D drv busy answers) { s with drivers := s.drivers ++ [drv] }

/-- One turn of the loop of `pci_unregister_driver`. -/
def unbind (drv : Nat) (s : Bus) (d : Nat) : Bus :=
  if (s.dev d).driver = some drv then
    if (D drv).hasRemove then
      (s.upd d fun p => { p with driver := none }).log (.remove drv d)
    else s.upd d fun p => { p with driver := none }
  else s

def unregisterDriver (drv : Nat) (s : Bus) : Bus :=
  s.devices.foldl (unbind D drv) { s with drivers := s.drivers.erase drv }

/-! ### Events -/

/-- The device is put at the end of its list. -/
def Bus.place (s : Bus) (d : Nat) (owner : Owner) : Bus :=
  if owner = .module then
    { s.upd d fun p => { p with owner := owner } with
      devices := s.devices.erase d ++ [d], hiddenDevices := s.hiddenDevices.erase d }
  else
    { s.upd d fun p => { p with owner := owner } with
      devices := s.devices.erase d, hiddenDevices := s.hiddenDevices.erase d ++ [d] }

/-- `LinuxPCIDeviceInserted`, after it has looked up the device, or made it. -/
def deviceInserted (d : Nat) (owner : Owner) (answers : Answers) (s : Bus) : Bus :=
  if owner = .module then
    announceDeviceToDrivers D answers d s.drivers (s.place d owner)
  else s.place d owner

/-- `LinuxPCIDeviceRemoved`, before it takes the device from its list. -/
def callRemove (d : Nat) (s : Bus) : Bus :=
  match (s.dev d).moduleID, (s.dev d).driver with
  | some _, some drv =>
      if (D drv).hasRemove then
        (s.upd d fun p => { p with moduleID := none }).log (.remove drv d)
      else s
  | _, _ => s

def deviceRemoved (d : Nat) (s : Bus) : Bus :=
  { (callRemove D d s).upd d fun p => { p with live := false } with
    devices := s.devices.erase d, hiddenDevices := s.hiddenDevices.erase d }

/-- An event or a call, with what the vmkernel and the drivers promise. -/
def step (event : Event) (s : Bus) : Option Bus :=
  match event with
  | .registerDriver drv busy answers =>
      if drv ∈ s.drivers then none else some (registerDriver D drv busy answers s)
  | .unregisterDriver drv =>
      if drv ∈ s.drivers then some (unregisterDriver D drv s) else none
  | .inserted d info owner answers =>
      if (s.dev d).seen then none
      else
        some (deviceInserted D d owner answers
          (s.upd d fun _ => { info := info, seen := true, live := true }))
  | .removed d => if (s.dev d).live then some (deviceRemoved D d s) else none
  | .changedOwner d old new answers =>
      if (s.dev d).live ∧ (s.dev d).owner = old ∧ old ≠ new then
        if new = .module then some (deviceInserted D d new answers s)
        else if old = .module then some ((callRemove D d s).place d new)
        else some (s.upd d fun p => { p with owner := new })
      else none

end Drivers

def initial : Bus where
  devices := []
  hiddenDevices := []
  drivers := []
  dev := fun _ => {}
  calls := []

end VmkLinux.Pci
