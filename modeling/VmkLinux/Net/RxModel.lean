/-
  VmkLinux/Net/RxModel.lean
  =========================
  **Receiving while the device is blocked** (`vmklinux26/vmware/linux_net.c`):
  `netif_rx_common` with all its exits, `vmklnx_net_skb_complete`, `BlockNetDev`,
  `UnblockNetDev`, `dev_close` and `dev_open` on one device.

  `dev_close` and `dev_open` run under the rtnl lock; everything else may run at any
  time, on any CPU.  A packet is named by the call of `netif_rx_common` that received it.
  The calls into the VMkernel that may fail, and the driver's `dev->open`, are choices of
  the surroundings.  The transmit half of `BlockNetDev` and `UnblockNetDev`
  (`Net.TxModel`) is one step here, taken at any time.

  `dev->genCount` is set when the device is registered and not changed afterwards.
-/
import Mathlib.Data.List.Perm.Subperm
import VmkLinux.Interleave

namespace VmkLinux.Net.Rx

open VmkLinux.Interleave

/-! ### Data -/

/-- `vmk_PktSetCompletionData`: the packet, and the device it belongs to. -/
structure Completion where
  pkt : Nat
  genCount : Nat
deriving DecidableEq, Repr

/-- What `netif_rx_common` reads of a socket buffer: its length, the length of its
    `frag_list`, and the tag that the hardware took off, if any. -/
structure SkBuff where
  len : Nat
  fragList : Nat := 0
  vlanTag : Option Nat := none
deriving DecidableEq, Repr

/-- The device.  `handedUp` are the packets with completion data that the stack has. -/
structure Shared where
  blocked : Bool
  start : Bool
  up : Bool
  rtnl : Bool
  rxInFlight : Int
  genCount : Nat
  handedUp : List Completion

inductive Pc where
  -- netif_rx_common
  | testLen
  | testBlocked
  | incInFlight
  | append
  | setCompletion
  | frameLenSet
  | vlanRxTag
  | handUp
  | dropDecInFlight
  -- vmklnx_net_skb_complete
  | complete
  | completeAssert
  -- BlockNetDev
  | blockTest
  | blockTx
  | blockSleep
  | blockRead
  -- UnblockNetDev
  | unblockTest
  | unblockAssert
  | unblockTx
  | unblockClear
  -- dev_close
  | closeLock
  | closeAssert
  | closeStop
  -- dev_open
  | openLock
  | openDev
  | openUp
  | rtnlUnlock
  | done
deriving DecidableEq, Repr

/-- Who called `BlockNetDev`. -/
inductive Caller where
  | uplink
  | devClose
  | devOpen
deriving DecidableEq, Repr

structure Thread where
  pc : Pc
  caller : Caller := .uplink
  pkt : Nat := 0
  skb : SkBuff := ⟨0, 0, none⟩
  fragsLeft : Nat := 0
  completion : Option Completion := none
  pktList : List Completion := []
  totalSleepMsec : UInt32 := 0
deriving DecidableEq, Repr

inductive Call where
  | netifRx (skb : SkBuff)
  | skbComplete (pktList : List Completion)
  | blockNetDev
  | unblockNetDev
  | devClose
  | devOpen
deriving DecidableEq, Repr

/-- A call into the VMkernel or the driver fails. -/
structure Choice where
  fails : Bool := false
deriving DecidableEq, Repr

/-! ### Steps -/

def vlanVidMask : Nat := 0xfff

def vlanMaxValidVid : Nat := 4094

/-- The packets of the list that are this device's. -/
def Shared.own (s : Shared) (pktList : List Completion) : List Completion :=
  pktList.filter fun p => decide (p.genCount = s.genCount)

section Model

variable (blockTotalSleepMsec : UInt32)

/-- The stack gives back what it has, each packet once; packets of other devices, and of
    earlier ones, may be among them. -/
def enter (me : Nat) (call : Call) (s : Shared) : Option (Shared × Thread) :=
  match call with
  | .netifRx skb => some (s, { pc := .testLen, pkt := me, skb := skb })
  | .skbComplete pktList =>
      if ∀ p ∈ s.own pktList, (s.own pktList).count p ≤ s.handedUp.count p then
        some ({ s with handedUp := s.handedUp.diff (s.own pktList) },
          { pc := .complete, pktList := pktList })
      else none
  | .blockNetDev => some (s, { pc := .blockTest })
  | .unblockNetDev => some (s, { pc := .unblockTest })
  | .devClose => some (s, { pc := .closeLock, caller := .devClose })
  | .devOpen => some (s, { pc := .openLock, caller := .devOpen })

/-- Where `BlockNetDev` returns to. -/
def Caller.next : Caller → Pc
  | .uplink => .done
  | .devClose => .closeAssert
  | .devOpen => .openUp

def step (a : Choice) (s : Shared) (t : Thread) : Option (Shared × Thread) :=
  match t.pc with
  | .testLen =>
      if t.skb.len = 0 then some (s, { t with pc := .done })
      else some (s, { t with pc := .testBlocked })
  | .testBlocked =>
      if s.blocked then some (s, { t with pc := .done })
      else some (s, { t with pc := .incInFlight })
  | .incInFlight =>
      if t.skb.fragList = 0 then
        some ({ s with rxInFlight := s.rxInFlight + 1 }, { t with pc := .frameLenSet })
      else
        some ({ s with rxInFlight := s.rxInFlight + 1 },
          { t with pc := .append, fragsLeft := t.skb.fragList })
  | .append =>
      match t.fragsLeft with
      | 0 => some (s, { t with pc := .setCompletion })
      | k + 1 =>
          if a.fails then some (s, { t with pc := .dropDecInFlight })
          else some (s, { t with fragsLeft := k })
  | .setCompletion =>
      -- needCompl
      some (s, { t with pc := .frameLenSet, completion := some ⟨t.pkt, s.genCount⟩ })
  | .frameLenSet =>
      if a.fails then some (s, { t with pc := .dropDecInFlight })
      else some (s, { t with pc := .vlanRxTag })
  | .vlanRxTag =>
      match t.skb.vlanTag with
      | none => some (s, { t with pc := .handUp })
      | some tag =>
          if tag &&& vlanVidMask > vlanMaxValidVid then
            some (s, { t with pc := .dropDecInFlight })
          else some (s, { t with pc := .handUp })
  | .handUp =>
      match t.completion with
      | none => some ({ s with rxInFlight := s.rxInFlight - 1 }, { t with pc := .done })
      | some p => some ({ s with handedUp := s.handedUp ++ [p] }, { t with pc := .done })
  | .dropDecInFlight =>
      some ({ s with rxInFlight := s.rxInFlight - 1 }, { t with pc := .done, completion := none })
  | .complete =>
      match t.pktList with
      | [] => some (s, { t with pc := .completeAssert })
      | p :: rest =>
          if p.genCount = s.genCount then
            some ({ s with rxInFlight := s.rxInFlight - 1 }, { t with pktList := rest })
          else some (s, { t with pktList := rest })
  | .completeAssert => some (s, { t with pc := .done })
  | .blockTest =>
      if s.blocked then some (s, { t with pc := t.caller.next })
      else some ({ s with blocked := true }, { t with pc := .blockTx })
  | .blockTx => some (s, { t with pc := .blockSleep, totalSleepMsec := blockTotalSleepMsec })
  | .blockSleep =>
      -- the sleeping time is unsigned
      if t.totalSleepMsec < 0 then some (s, { t with pc := t.caller.next })
      else some (s, { t with pc := .blockRead, totalSleepMsec := t.totalSleepMsec - 50 })
  | .blockRead =>
      if s.rxInFlight ≠ 0 then some (s, { t with pc := .blockSleep })
      else some (s, { t with pc := t.caller.next })
  | .unblockTest =>
      if s.blocked then some (s, { t with pc := .unblockAssert })
      else some (s, { t with pc := .done })
  | .unblockAssert => some (s, { t with pc := .unblockTx })
  | .unblockTx => some (s, { t with pc := .unblockClear })
  | .unblockClear => some ({ s with blocked := false }, { t with pc := .done })
  | .closeLock =>
      if s.rtnl then none else some ({ s with rtnl := true }, { t with pc := .blockTest })
  | .closeAssert => some (s, { t with pc := .closeStop })
  | .closeStop => some ({ s with start := false, up := false }, { t with pc := .rtnlUnlock })
  | .openLock =>
      if s.rtnl then none else some ({ s with rtnl := true }, { t with pc := .openDev })
  | .openDev =>
      if s.up then some (s, { t with pc := .rtnlUnlock })
      else
        if a.fails then some ({ s with start := false }, { t with pc := .rtnlUnlock })
        else some ({ s with start := true }, { t with pc := .blockTest })
  | .openUp => some ({ s with up := true }, { t with pc := .rtnlUnlock })
  | .rtnlUnlock => some ({ s with rtnl := false }, { t with pc := .done })
  | .done => none

def machine : Machine Shared Thread Call Choice where
  start := enter
  act := step blockTotalSleepMsec

end Model

/-- A device that is registered and not open yet. -/
def initial (genCount : Nat) : Config Shared Thread where
  shared :=
    { blocked := false, start := false, up := false, rtnl := false, rxInFlight := 0,
      genCount := genCount, handedUp := [] }
  pool := []

/-- Thread `i` takes `k` steps in which nothing fails. -/
def acts (i k : Nat) : List (Event Call Choice) := List.replicate k (.act i {})

end VmkLinux.Net.Rx
