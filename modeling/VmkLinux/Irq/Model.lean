/-
  VmkLinux/Irq/Model.lean
  =======================
  **Registered devices and requested interrupts** (`vmklinux26/vmware/linux_stubs.c`):
  `Linux_RegisterDevice`, `Linux_UnregisterDevice`, `Linux_FindDevice`, `Linux_ReleaseDevice`,
  `vmklnx_request_irq` and `free_irq`, with `FindIRQInfo`, `AddIRQInfo` and `RemoveIRQInfo`.

  The calls come one after the other.  What `vmk_HeapAlloc`, `vmk_ModuleIncUseCount`,
  `vmk_AddInterruptHandler` and `vmk_VectorEnable` answer, and `vmk_ModuleStackTop`, are
  arguments of a call.  A `LinuxDevInfo` and an `IRQInfo` are known by a number that is used
  once; the contents of one that is freed stay as they were.  `devHashTable` is kept as one list:
  the bucket of an entry follows from its key, so the first entry of a key is the same in its
  bucket and in the list.

  `registered`, `finds` and `requests` have no counterpart in the source: they say which devices
  `Linux_RegisterDevice` has registered, which ones `Linux_FindDevice` has returned and the
  callers have not yet released, and which interrupts were requested and not yet freed.
-/
import VmkLinux.Sequence

namespace VmkLinux.Irq

open VmkLinux.Sequence

/-! ### Data -/

/-- `LinuxDevInfo`.  `refCount` is a `uint32_t`.  It is one more than the hash entries of the
    device, each of them a block of the heap, and the finds whose callers still hold it, each of
    them a call in progress: there is no room for 2^32 of these, so it does not wrap around. -/
structure DevInfo where
  dataStart : Nat := 0
  dataEnd : Nat := 0
  moduleID : Nat := 0
  refCount : Nat := 0
deriving DecidableEq, Repr

/-- `LinuxDevHashEntry`. -/
structure HashEntry where
  key : Nat
  dev : Nat
deriving DecidableEq, Repr

/-- `IRQInfo`; `deviceID` is 0 for `NULL`. -/
structure IRQInfo where
  deviceInfo : Option Nat := none
  deviceID : Nat := 0
  irq : Nat := 0
  moduleID : Nat := 0
deriving DecidableEq, Repr

structure ModuleIRQList where
  moduleID : Nat
  irqList : List Nat
deriving DecidableEq, Repr

/-- A request that has succeeded, with the `IRQInfo` that was made for it. -/
structure Request where
  irq : Nat
  devId : Nat
  info : Nat
deriving DecidableEq, Repr

structure State where
  dev : Nat → DevInfo
  nextDev : Nat
  freedDevs : List Nat
  deviceList : List Nat
  devHashTable : List HashEntry
  info : Nat → IRQInfo
  nextInfo : Nat
  freedInfos : List Nat
  irqMappings : List ModuleIRQList
  /-- The vectors and the `IRQInfo`s that `vmk_AddInterruptHandler` was given. -/
  handlers : List (Nat × Nat)
  registered : List Nat
  finds : List Nat
  requests : List Request

def State.setDev (s : State) (d : Nat) (f : DevInfo → DevInfo) : State :=
  { s with dev := fun e => if e = d then f (s.dev e) else s.dev e }

def State.setInfo (s : State) (i : Nat) (f : IRQInfo → IRQInfo) : State :=
  { s with info := fun j => if j = i then f (s.info j) else s.info j }

/-! ### Devices -/

def State.hold (s : State) (d : Nat) : State :=
  s.setDev d fun p => { p with refCount := p.refCount + 1 }

def State.drop (s : State) (d n : Nat) : State :=
  s.setDev d fun p => { p with refCount := p.refCount - n }

def addInfoInt (d data : Nat) (s : State) : State :=
  { s.hold d with devHashTable := ⟨data, d⟩ :: s.devHashTable }

def releaseDeviceInt (d : Nat) (s : State) : State :=
  if (s.dev d).refCount = 1 then { s.drop d 1 with freedDevs := d :: s.freedDevs }
  else s.drop d 1

def State.inRange (s : State) (data d : Nat) : Bool :=
  decide ((s.dev d).dataStart ≤ data ∧ data < (s.dev d).dataEnd)

/-- The device that `Linux_FindDeviceFast` finds. -/
def cached (data : Nat) (s : State) : Option Nat :=
  (s.devHashTable.find? fun he => he.key = data).map HashEntry.dev

/-- The device that `Linux_FindDeviceInt` returns. -/
def found (data : Nat) (s : State) : Option Nat :=
  match cached data s with
  | some d => some d
  | none => s.deviceList.find? (s.inRange data)

/-- `Linux_FindDeviceInt`; `memory` answers the allocation of a hash entry. -/
def findDeviceInt (data : Nat) (addIt memory : Bool) (s : State) : State :=
  match cached data s, found data s with
  | some d, _ => s.hold d
  | none, some d => if addIt && memory then (addInfoInt d data s).hold d else s.hold d
  | none, none => s

/-- `Linux_FindDevice`. -/
def findDevice (data : Nat) (addIt memory : Bool) (s : State) : State :=
  { findDeviceInt data addIt memory s with finds := (found data s).toList ++ s.finds }

/-- `Linux_ReleaseDevice`, by a caller that has found the device. -/
def releaseDevice (d : Nat) (s : State) : State :=
  { releaseDeviceInt d s with finds := s.finds.erase d }

/-! ### Interrupts -/

/-- `IRQ_DONT_KNOW`, as an `unsigned int`. -/
def irqDontKnow : Nat := 0xffffffff

/-- The tests of the loop of `FindIRQInfo`. -/
def IRQInfo.isFor (irq devId : Nat) (i : IRQInfo) : Bool :=
  if irq ≠ irqDontKnow ∧ irq ≠ i.irq then false
  else if irq = irqDontKnow ∧ i.deviceInfo ≠ none then false
  else decide (devId = i.deviceID) || (decide (devId = 0) && decide (i.deviceInfo = none))

/-- The interrupts of a module. -/
def irqListOf (moduleID : Nat) : List ModuleIRQList → List Nat
  | [] => []
  | ml :: mls => if ml.moduleID = moduleID then ml.irqList else irqListOf moduleID mls

def findIRQInfo (moduleID irq devId : Nat) (s : State) : Option Nat :=
  (irqListOf moduleID s.irqMappings).find? fun i => (s.info i).isFor irq devId

/-- The `IRQInfo` is put at the end of the module's list, which is made if there is none. -/
def linkIRQInfo (moduleID i : Nat) : List ModuleIRQList → List ModuleIRQList
  | [] => [⟨moduleID, [i]⟩]
  | ml :: mls =>
      if ml.moduleID = moduleID then { ml with irqList := ml.irqList ++ [i] } :: mls
      else ml :: linkIRQInfo moduleID i mls

/-- The `IRQInfo` is taken out of the module's list, which is deleted if it is empty then. -/
def unlinkIRQInfo (moduleID i : Nat) : List ModuleIRQList → List ModuleIRQList
  | [] => []
  | ml :: mls =>
      if ml.moduleID = moduleID then
        if ml.irqList.erase i = [] then mls else { ml with irqList := ml.irqList.erase i } :: mls
      else ml :: unlinkIRQInfo moduleID i mls

/-- `AddIRQInfo`, where it has the memory. -/
def addIRQInfo (moduleID irq devId : Nat) (devInfo : Option Nat) (s : State) : State :=
  { s.setInfo s.nextInfo fun _ => ⟨devInfo, devId, irq, moduleID⟩ with
    nextInfo := s.nextInfo + 1
    irqMappings := linkIRQInfo moduleID s.nextInfo s.irqMappings }

def removeIRQInfo (moduleID irq devId : Nat) (s : State) : State :=
  match findIRQInfo moduleID irq devId s with
  | none => s
  | some i => { s with irqMappings := unlinkIRQInfo moduleID i s.irqMappings }

/-- What the VMkernel answers to a `vmklnx_request_irq`: the memory for the `IRQInfo` and for the
    list of the module, `vmk_AddInterruptHandler` and `vmk_VectorEnable`. -/
structure Answers where
  infoMemory : Bool := true
  listMemory : Bool := true
  addHandler : Bool := true
  enable : Bool := true
deriving DecidableEq, Repr

/-- The module that a `dev_id` is looked up under. -/
def moduleOf (devId top : Nat) (s : State) : Nat :=
  match found devId s with
  | some d => (s.dev d).moduleID
  | none => top

/-- `AddIRQInfo` gets its memory. -/
def Answers.memory (a : Answers) (moduleID : Nat) (s : State) : Bool :=
  a.infoMemory && (a.listMemory || (s.irqMappings.map ModuleIRQList.moduleID).contains moduleID)

/-- `Linux_FindDevice` and `Linux_ReleaseDevice` of the same device. -/
def findAndRelease (data : Nat) (s : State) : State :=
  match found data s with
  | some d => releaseDeviceInt d (s.hold d)
  | none => s

/-- `vmklnx_request_irq`, with whether it returns 0. -/
def requestIrq (irq devId top : Nat) (a : Answers) (s : State) : State × Bool :=
  if a.memory (moduleOf devId top s) s then
    if a.addHandler && a.enable then
      ({ addIRQInfo (moduleOf devId top s) irq devId (found devId s) (findAndRelease devId s) with
          handlers := (irq, s.nextInfo) :: s.handlers
          requests := ⟨irq, devId, s.nextInfo⟩ :: s.requests }, true)
    else
      ({ removeIRQInfo (moduleOf devId top s) irq devId
            (addIRQInfo (moduleOf devId top s) irq devId (found devId s)
              (findAndRelease devId s)) with
          freedInfos := s.nextInfo :: s.freedInfos }, false)
  else (findAndRelease devId s, false)

/-- `free_irq`. -/
def freeIrq (irq devId top : Nat) (s : State) : State :=
  match findIRQInfo (moduleOf devId top s) irq devId s with
  | none => findAndRelease devId s
  | some i =>
      { removeIRQInfo (moduleOf devId top s) irq devId (findAndRelease devId s) with
        freedInfos := i :: s.freedInfos
        handlers := s.handlers.erase (irq, i) }

/-! ### Registration -/

/-- What a caller gives to `Linux_RegisterDevice`; `ide` says that `irqRegisterFunc` is
    `Linux_IdeRegisterIRQ`.  The last three are `vmk_ModuleIncUseCount` and the memory for the
    `LinuxDevInfo` and for its hash entry. -/
structure Registration where
  data : Nat
  dataLength : Nat
  moduleID : Nat
  ide : Bool := false
  useCount : Bool := true
  devMemory : Bool := true
  entryMemory : Bool := true
deriving DecidableEq, Repr

/-- An interrupt that was requested before the device was registered gets the device. -/
def attachIRQInfo (moduleID devId d : Nat) (s : State) : State :=
  match findIRQInfo moduleID irqDontKnow devId s with
  | none => s
  | some i => s.setInfo i fun p => { p with deviceInfo := some d }

/-- The device is linked into `deviceList`. -/
def newDevice (r : Registration) (s : State) : State :=
  { s.setDev s.nextDev fun _ => ⟨r.data, r.data + r.dataLength, r.moduleID, 1⟩ with
    nextDev := s.nextDev + 1
    deviceList := s.nextDev :: s.deviceList }

/-- `Linux_RegisterDevice`, with what it returns. -/
def registerDevice (r : Registration) (s : State) : State × Bool :=
  if r.useCount = false then (s, false)
  else if (found r.data s).isSome then (findAndRelease r.data s, false)
  else if r.devMemory = false then (s, false)
  else if r.entryMemory then
    ({ addInfoInt s.nextDev r.data
        (attachIRQInfo r.moduleID (if r.ide then 0 else r.data) s.nextDev (newDevice r s)) with
        registered := s.nextDev :: s.registered }, true)
  else
    -- the device stays on the list
    ({ attachIRQInfo r.moduleID (if r.ide then 0 else r.data) s.nextDev (newDevice r s) with
        freedDevs := s.nextDev :: s.freedDevs }, false)

/-- The entries of the device are taken out of the hash table. -/
def purge (d : Nat) (s : State) : State :=
  { s.drop d (s.devHashTable.countP fun he => he.dev = d) with
    devHashTable := s.devHashTable.filter fun he => he.dev ≠ d }

/-- `Linux_UnregisterDevice`, with what it returns. -/
def unregisterDevice (data : Nat) (s : State) : State × Bool :=
  match found data s with
  | none => (s, false)
  | some d =>
      if ((purge d (s.hold d)).dev d).refCount ≠ 2 then
        (releaseDeviceInt d (purge d (s.hold d)), false)
      else
        ({ releaseDeviceInt d ((purge d (s.hold d)).setDev d fun p => { p with refCount := 1 }) with
            deviceList := s.deviceList.erase d
            registered := s.registered.erase d }, true)

/-! ### Calls -/

inductive Call where
  | registerDevice (r : Registration)
  | unregisterDevice (data : Nat)
  | findDevice (data : Nat) (addIt memory : Bool)
  | releaseDevice (d : Nat)
  | requestIrq (irq devId top : Nat) (a : Answers)
  | freeIrq (irq devId top : Nat)
deriving DecidableEq, Repr

/-- What is released was found. -/
def step (call : Call) (s : State) : Option State :=
  match call with
  | .registerDevice r => some (registerDevice r s).1
  | .unregisterDevice data => some (unregisterDevice data s).1
  | .findDevice data addIt memory => some (findDevice data addIt memory s)
  | .releaseDevice d => if d ∈ s.finds then some (releaseDevice d s) else none
  | .requestIrq irq devId top a => some (requestIrq irq devId top a s).1
  | .freeIrq irq devId top =>
      some { freeIrq irq devId top s with
        requests := s.requests.filter fun r => !(r.irq = irq && r.devId = devId) }

def initial : State where
  dev := fun _ => {}
  nextDev := 0
  freedDevs := []
  deviceList := []
  devHashTable := []
  info := fun _ => {}
  nextInfo := 0
  freedInfos := []
  irqMappings := []
  handlers := []
  registered := []
  finds := []
  requests := []

end VmkLinux.Irq
