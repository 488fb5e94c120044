/-
  VmkLinux/Net/RegisterModel.lean
  ===============================
  **Registering a net device** (`vmklinux26/vmware/linux_net.c`): `register_netdev` with
  `dev_alloc_name` and `register_netdevice`, and `LinNet_ConnectUplink` with
  `netdev_name_adapter`, `netdev_query_capabilities` and `register_nic_chrdev`.

  A device and a PCI device are named by numbers.  An uplink is what it was connected with;
  its functions are a pointer, and the one table that there is, `linNetFunctions`, is part of
  the state.  Of the table only the entry that is ever written is here.

  What the driver and the vmkernel answer is a choice of the surroundings.  A driver registers
  a device that is neither on `dev_base` nor connected, and `LinNet_ConnectUplink` asserts that
  its device is not connected.
-/
import VmkLinux.Sequence
import VmkLinux.Errno

namespace VmkLinux.Net.Register

open VmkLinux.Sequence

/-! ### Data -/

/-- A name, up to the terminating zero. -/
abbrev Name := List UInt8

inductive RegState where
  | uninitialized
  | registered
  | unregistering
  | unregistered
  | released
  | earlyNapiAddFailed
deriving DecidableEq, Repr

inductive Capability where
  | hwTxVlan
  | hwRxVlan
  | ip4Csum
  | sg
  | sgSpanPages
  | highDma
  | tso
  | ip6Csum
  | tso6
  | tso256k
deriving DecidableEq, Repr

inductive LinkState where
  | down
  | up
deriving DecidableEq, Repr

/-- What a `getPCIProperties` of a `vmk_UplinkPropFunctions` can point to. -/
inductive PropFn where
  | getNICPCIProperties
deriving DecidableEq, Repr

structure UplinkFunctions where
  getPCIProperties : Option PropFn
deriving DecidableEq, Repr

/-- A `vmk_UplinkFunctions *`. -/
inductive FunctionsPtr where
  | linNetFunctions
deriving DecidableEq, Repr

/-- `vmk_UplinkConnectInfo`; the completion handler is always `vmklnx_net_skb_complete`. -/
structure ConnectInfo where
  devName : Name
  clientData : Nat
  moduleID : Nat
  functions : FunctionsPtr
  maxSGLength : Nat
  cap : List Capability
  complData : Nat
  hidden : Bool
deriving DecidableEq, Repr

/-- `init` is whether there is such a function; `present` is a bit of the state. -/
structure NetDevice where
  name : Name
  pdev : Option Nat
  moduleId : Nat := 0
  features : BitVec 64 := 0
  useDriverNamingDevice : Bool := false
  init : Bool := false
  regState : RegState := .uninitialized
  refcnt : Int := 0
  present : Bool := false
  iflink : Int := 0
  vlanGroup : Option Nat := none
  genCount : BitVec 64 := 0
  uplinkDev : Option ConnectInfo := none
  nicMajor : Int := 0
  linkSpeed : Int := 0
  fullDuplex : Int := 0
  linkState : LinkState := .down
  watchdogHitCnt : Nat := 0
  watchdogHitCfg : Nat := 0
  watchdogStats : Nat := 0
  watchdogPanic : Bool := false
  watchdogPeriodStart : BitVec 64 := 0
deriving DecidableEq, Repr

/-- `valid` is `LinuxPCI_IsValidPCIBusDev`, and `deviceName` the name that the vmkernel has for
    the device. -/
structure PciDev where
  name : Name := []
  deviceName : Name := []
  valid : Bool := true
deriving DecidableEq, Repr

structure System where
  dev : Nat → NetDevice
  pci : Nat → PciDev
  devBase : List Nat
  globalGenCount : BitVec 64
  nameCounter : Nat
  linNetFunctions : UplinkFunctions

def System.setDev (s : System) (d : Nat) (x : NetDevice) : System :=
  { s with dev := fun e => if e = d then x else s.dev e }

def System.setPci (s : System) (p : Nat) (x : PciDev) : System :=
  { s with pci := fun q => if q = p then x else s.pci q }

/-- What a `vmk_UplinkFunctions *` points to. -/
def System.table (s : System) : FunctionsPtr → UplinkFunctions
  | .linNetFunctions => s.linNetFunctions

inductive CharDevStatus where
  | ok (major : Int)
  | busy
  | failure
deriving DecidableEq, Repr

/-- What the surroundings answer in one call: `vmk_UplinkIsNameAvailable`, the driver's
    `init`, whether `vmk_WorldletCreate`, `vmk_UplinkConnected` and `vmk_UplinkOpen` succeed,
    `vmk_CharDevRegister`, the configuration parameters and `jiffies`. -/
structure Env where
  isNameAvailable : Name → Bool := fun _ => true
  init : Int := 0
  worldletCreate : Bool := true
  uplinkConnected : Bool := true
  charDevRegister : CharDevStatus := .ok 1
  uplinkOpen : Bool := true
  useHwIPv6Csum : Bool := false
  useHwCsumForIPv6Csum : Bool := false
  useHwTSO6 : Bool := false
  jiffies : BitVec 64 := 0

def maxSkbFrags : Nat := 24

def vmkPktFragsMaxLength : Nat := 24

def pktComplGenCountInit : BitVec 64 := 0x10000

def watchdogHitCntDefault : Nat := 5

/-! ### Names -/

/-- `"vmnic"`. -/
def vmnic : Name := [118, 109, 110, 105, 99]

/-- `"vmnic%d"`. -/
def vmnicFormat : Name := vmnic ++ [37, 100]

def decimal (n : Nat) : Name := (Nat.toDigits 10 n).map fun c => UInt8.ofNat c.toNat

/-- `strchr(name, '%')`. -/
def strchrPercent (name : Name) : Name := name.dropWhile fun c => c ≠ 37

/-- `snprintf(buf, 32, name, i)`, where `name` has one `%d` at most. -/
def snprintfName (name : Name) (i : Nat) : Name :=
  if name.contains 37 then
    ((name.takeWhile fun c => c ≠ 37) ++ decimal i ++ (strchrPercent name).drop 2).take 31
  else name.take 31

/-- The check of `dev_alloc_name` on the format. -/
def badFormat (name : Name) : Bool :=
  name.contains 37 &&
    (decide ((strchrPercent name)[1]? ≠ some 100) || ((strchrPercent name).drop 2).contains 37)

/-- `dev_alloc_name`. -/
def devAllocName (env : Env) (d : Nat) (name : Name) (s : System) : Int × System :=
  if badFormat name then (-einval, s)
  else
    match (List.range 100).find? fun i => env.isNameAvailable (snprintfName name i) with
    | some i => (i, s.setDev d { s.dev d with name := snprintfName name i })
    | none => (-enfile, s)

/-- `set_device_pci_name`. -/
def setDevicePciName (d : Nat) (pdev : Option Nat) (s : System) : System :=
  match pdev with
  | none => s
  | some p =>
      if (s.pci p).valid then
        s.setPci p { s.pci p with deviceName := (s.dev d).name, name := (s.dev d).name }
      else s

/-- `create_dev_name`: the name, and the state with the counter moved on. -/
def createDevName (s : System) : Name × System :=
  ((vmnic ++ decimal s.nameCounter).take 31, { s with nameCounter := s.nameCounter + 1 })

/-- `netdev_name_adapter`. -/
def netdevNameAdapter (env : Env) (d : Nat) (pdev : Option Nat) (s : System) : System :=
  match pdev with
  | none =>
      if (s.dev d).name ≠ [] then s
      else
        let (name, s) := createDevName s
        s.setDev d { s.dev d with name := name }
  | some p =>
      if (s.pci p).deviceName = [] then
        let (name, s) := createDevName s
        let s := s.setPci p { s.pci p with name := name, deviceName := name }
        s.setDev d { s.dev d with name := name }
      else if !env.isNameAvailable (s.pci p).deviceName then
        let (name, s) := createDevName s
        let s := s.setPci p { s.pci p with name := name }
        s.setDev d { s.dev d with name := name }
      else s.setDev d { s.dev d with name := (s.pci p).deviceName.take 31 }

/-! ### Capabilities -/

def NETIF_F_SG : BitVec 64 := 1

def NETIF_F_IP_CSUM : BitVec 64 := 2

def NETIF_F_HW_CSUM : BitVec 64 := 8

def NETIF_F_IPV6_CSUM : BitVec 64 := 16

def NETIF_F_HIGHDMA : BitVec 64 := 32

def NETIF_F_HW_VLAN_TX : BitVec 64 := 128

def NETIF_F_HW_VLAN_RX : BitVec 64 := 256

def NETIF_F_FRAG_CANT_SPAN_PAGES : BitVec 64 := 8192

def NETIF_F_HIDDEN_UPLINK : BitVec 64 := 32768

def NETIF_F_TSO : BitVec 64 := 1 <<< 16

def NETIF_F_TSO6 : BitVec 64 := 16 <<< 16

/-- `dev->features & f`. -/
def NetDevice.has (dev : NetDevice) (f : BitVec 64) : Bool := dev.features &&& f != 0

/-- `vmk_UplinkCapabilitySet`. -/
def uplinkCapabilitySet (caps : List Capability) (cap : Capability) (enable : Bool) :
    List Capability :=
  if enable then (if caps.contains cap then caps else caps ++ [cap])
  else caps.filter fun c => c ≠ cap

/-- The sets that `netdev_query_capabilities` makes one after the other, each with what it
    makes it for. -/
def capabilitySets (env : Env) (dev : NetDevice) : List (Bool × Capability × Bool) :=
  [(dev.has NETIF_F_HW_VLAN_TX, .hwTxVlan, true),
   (dev.has NETIF_F_HW_VLAN_RX, .hwRxVlan, true),
   (dev.has NETIF_F_IP_CSUM, .ip4Csum, true),
   (env.useHwIPv6Csum && dev.has NETIF_F_IPV6_CSUM, .ip6Csum, true),
   (dev.has NETIF_F_HW_CSUM, .ip4Csum, true),
   (dev.has NETIF_F_HW_CSUM && env.useHwCsumForIPv6Csum, .ip6Csum, true),
   (dev.has NETIF_F_SG && decide (vmkPktFragsMaxLength ≤ maxSkbFrags), .sg, true),
   (!dev.has NETIF_F_FRAG_CANT_SPAN_PAGES, .sgSpanPages, true),
   (dev.has NETIF_F_HIGHDMA, .highDma, true),
   (dev.has NETIF_F_TSO, .tso, true),
   (env.useHwTSO6 && dev.has NETIF_F_TSO6, .tso6, true),
   (true, .tso256k, true),
   (dev.has NETIF_F_TSO && !(dev.has NETIF_F_IP_CSUM || dev.has NETIF_F_HW_CSUM), .tso, false),
   (dev.has NETIF_F_TSO && (!dev.has NETIF_F_SG || dev.has NETIF_F_FRAG_CANT_SPAN_PAGES),
    .tso, false)]

/-- `netdev_query_capabilities`. -/
def netdevQueryCapabilities (env : Env) (dev : NetDevice) : List Capability :=
  (capabilitySets env dev).foldl
    (fun caps set => if set.1 then uplinkCapabilitySet caps set.2.1 set.2.2 else caps) []

/-! ### Registering -/

/-- `register_netdevice`. -/
def registerNetdevice (env : Env) (d : Nat) (s : System) : Int × System :=
  if (s.dev d).regState = .earlyNapiAddFailed then (-eio, s)
  else
    let s := s.setDev d { s.dev d with iflink := -1, vlanGroup := none }
    if (s.dev d).init ∧ env.init ≠ 0 then (-eio, s)
    -- netdev_poll_init
    else if !env.worldletCreate then (-enomem, s)
    else
      let genCount := s.globalGenCount
      let next := if genCount + 1 < pktComplGenCountInit then pktComplGenCountInit
        else genCount + 1
      let dev := s.dev d
      (0, { s.setDev d { dev with
              present := true, genCount := genCount, refcnt := dev.refcnt + 1,
              regState := .registered } with
            devBase := d :: s.devBase
            globalGenCount := next })

/-- `register_nic_chrdev`. -/
def registerNicChrdev (env : Env) (d : Nat) (s : System) : Int × System :=
  match env.charDevRegister with
  | .ok major => (0, s.setDev d { s.dev d with nicMajor := major })
  | .busy => (-ebusy, s)
  | .failure => (-einval, s)

/-- The `connectInfo` of `LinNet_ConnectUplink`. -/
def connectInfo (env : Env) (d : Nat) (dev : NetDevice) : ConnectInfo where
  devName := dev.name
  clientData := d
  moduleID := dev.moduleId
  functions := .linNetFunctions
  maxSGLength := maxSkbFrags + 1
  cap := netdevQueryCapabilities env dev
  complData := d
  hidden := dev.has NETIF_F_HIDDEN_UPLINK

/-- `connectInfo.functions->propFns.getPCIProperties = NULL`. -/
def System.clearPCIProperties (s : System) : FunctionsPtr → System
  | .linNetFunctions => { s with linNetFunctions.getPCIProperties := none }

/-- `LinNet_ConnectUplink`. -/
def connectUplink (env : Env) (d : Nat) (pdev : Option Nat) (s : System) : Int × System :=
  let s := if (s.dev d).useDriverNamingDevice then s else netdevNameAdapter env d pdev s
  let info := connectInfo env d (s.dev d)
  let s := if pdev = none then s.clearPCIProperties info.functions else s
  if !env.uplinkConnected then (-1, s)
  else
    registerNicChrdev env d
      (s.setDev d { s.dev d with
        uplinkDev := some info, linkSpeed := -1, fullDuplex := 0, linkState := .down
        watchdogHitCnt := 0, watchdogHitCfg := watchdogHitCntDefault, watchdogStats := 0
        watchdogPanic := true, watchdogPeriodStart := env.jiffies })

/-- The names that `register_netdev` expands: `none` is a name that stays. -/
def nameFormat (name : Name) : Option Name :=
  if name.contains 37 then some name
  else if name.head? = none ∨ name.head? = some 32 then some vmnicFormat
  else none

/-- `register_netdev`, up to the name. -/
def allocName (env : Env) (d : Nat) (s : System) : Int × System :=
  match nameFormat (s.dev d).name with
  | some format => devAllocName env d format s
  | none => (0, s)

/-- `register_netdev`, the part under the rtnl lock. -/
def registerLocked (env : Env) (d : Nat) (s : System) : Int × System :=
  let (err, s) := allocName env d s
  if 0 ≤ err then
    let s := if (s.dev d).useDriverNamingDevice then setDevicePciName d (s.dev d).pdev s else s
    registerNetdevice env d s
  else (err, s)

/-- `register_netdev`. -/
def registerNetdev (env : Env) (d : Nat) (s : System) : Int × System :=
  let (err, s) := registerLocked env d s
  if (s.dev d).pdev = none then
    let (ret, s) := connectUplink env d none s
    if ret ≠ 0 ∨ !env.uplinkOpen then (-eio, s) else (err, s)
  else (err, s)

/-! ### Sequences of calls -/

inductive Call where
  | registerNetdev (d : Nat) (env : Env)
  | connectUplink (d : Nat) (env : Env)

/-- What a call returns, and the state after it. -/
def Call.run (s : System) : Call → Int × System
  | .registerNetdev d env => Register.registerNetdev env d s
  | .connectUplink d env => Register.connectUplink env d (s.dev d).pdev s

/-- Neither registered nor connected. -/
def System.Fresh (s : System) (d : Nat) : Prop := d ∉ s.devBase ∧ (s.dev d).uplinkDev = none

instance (s : System) (d : Nat) : Decidable (s.Fresh d) := inferInstanceAs (Decidable (_ ∧ _))

def step (call : Call) (s : System) : Option System :=
  match call with
  | .registerNetdev d _ => if s.Fresh d then some (call.run s).2 else none
  | .connectUplink d _ => if (s.dev d).uplinkDev = none then some (call.run s).2 else none

/-- The state of a loaded vmklinux, with no device registered. -/
def boot (dev : Nat → NetDevice) (pci : Nat → PciDev) : System where
  dev := dev
  pci := pci
  devBase := []
  globalGenCount := pktComplGenCountInit
  nameCounter := 32
  linNetFunctions := { getPCIProperties := some .getNICPCIProperties }

end VmkLinux.Net.Register
