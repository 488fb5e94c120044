/-
  VmkLinux/Net/MapPkt.lean
  ========================
  **From a packet to a socket buffer**: `map_pkt_to_skb` of `vmklinux26/vmware/linux_net.c`, with
  the Ethernet headers of `include/linux/etherdevice.h`.

  A packet is a list of fragments of machine memory; its frame is also mapped, and its first
  fragment is where the mapping starts.  Pointers into the mapping are offsets.  The fields of a
  socket buffer have the widths they have in the source.  What is reported of a packet that is
  refused is left out, as are the options of a debug build.
-/
import VmkLinux.Block.Bio
import VmkLinux.Net.Ipv6Walk

namespace VmkLinux.Net.MapPkt

open VmkLinux.ByteBuf VmkLinux.Block.Io

/-! ### Ethernet headers -/

def ETH_P_IP : Nat := 0x0800
def ETH_P_8021Q : Nat := 0x8100
def ETH_P_IPV6 : Nat := 0x86dd

inductive EthHeaderType where
  | dix
  | eth8021pq
  | eth8023
  | eth8021pq8023
deriving DecidableEq, Repr

def ethHeaderType (eh : Buf) : EthHeaderType :=
  if eh.be16 12 ≥ 1536 then
    if eh.be16 12 ≠ ETH_P_8021Q then .dix
    else if eh.be16 16 ≥ 1536 then .eth8021pq
    else .eth8021pq8023
  else .eth8023

/-- `sizeof` the header of each type. -/
def ethHeaderLen (eh : Buf) : BitVec 16 :=
  match ethHeaderType eh with
  | .dix => 14
  | .eth8021pq => 18
  | .eth8023 => 22
  | .eth8021pq8023 => 26

/-- `ntohs` of `eth_header_frame_type`. -/
def ethHeaderFrameType (eh : Buf) : Nat :=
  match ethHeaderType eh with
  | .dix => eh.be16 12
  | .eth8021pq => eh.be16 16
  | .eth8023 => eh.be16 20
  | .eth8021pq8023 => eh.be16 24

def ethHeaderIsIpv4 (eh : Buf) : Bool := ethHeaderFrameType eh = ETH_P_IP

/-! ### IP and TCP headers -/

/-- `iph->ihl * 4` of the header at `nh`. -/
def ipHdrLen (b : Buf) (nh : Nat) : Nat := b.u8 nh % 16 * 4

/-- `iph->protocol`. -/
def ipProtocol (b : Buf) (nh : Nat) : Nat := b.u8 (nh + 9)

/-- `tcp_hdrlen` of the header at `h`. -/
def tcpHdrlen (b : Buf) (h : Nat) : Nat := b.u8 (h + 12) / 16 * 4

/-- `th->cwr`. -/
def tcpCwr (b : Buf) (h : Nat) : Bool := b.u8 (h + 13) / 128 = 1

/-! ### Packets, devices and socket buffers -/

/-- `vmk_PktFrag`. -/
structure PktFrag where
  addr : BitVec 64
  length : BitVec 32
deriving DecidableEq, Repr

/-- What the functions of the vmkernel say of a packet; `mustTso` has the mss and
    `mustVlanTag` the id and the priority. -/
structure Pkt where
  frags : List PktFrag
  frameLen : BitVec 32
  frame : Buf
  mustVlanTag : Option (BitVec 16 × BitVec 8) := none
  mustTso : Option (BitVec 32) := none
  mustCsum : Bool := false

/-- What is read of a `net_device`; `hwVlanTx` is `NETIF_F_HW_VLAN_TX`. -/
structure NetDevice where
  mtu : BitVec 32
  hwVlanTx : Bool := true
deriving DecidableEq, Repr

/-- `struct skb_frag_struct`; a `struct page` is the number of the page. -/
structure SkbFrag where
  page : BitVec 64
  pageOffset : BitVec 16
  size : BitVec 16
deriving DecidableEq, Repr

/-- `struct sk_buff` with its `skb_shared_info`.  `head` is the machine address of the mapping;
    `nh`, `hraw` and `tail`, which is `end` too, are offsets from it; `csumHw` is whether
    `ip_summed` is `CHECKSUM_HW`. -/
structure SkBuff where
  queueMapping : BitVec 16 := 0
  head : BitVec 64 := 0
  len : BitVec 32 := 0
  dataLen : BitVec 32 := 0
  protocol : Nat := 0
  nh : Nat := 0
  hraw : Option Nat := none
  tail : BitVec 32 := 0
  vlanTag : Option (BitVec 16) := none
  gsoSize : BitVec 16 := 0
  gsoSegs : BitVec 16 := 0
  gsoType : BitVec 16 := 0
  csum : BitVec 32 := 0
  csumHw : Bool := false
  nrFrags : BitVec 16 := 0
  frags : List SkbFrag := []
deriving DecidableEq, Repr

def MAX_SKB_FRAGS : Nat := 24

def VLAN_1PTAG_SHIFT : Nat := 13

def SKB_GSO_TCPV4 : BitVec 16 := 1
def SKB_GSO_TCP_ECN : BitVec 16 := 8
def SKB_GSO_TCPV6 : BitVec 16 := 16

/-- How a part of the function ends that does not go on: it fails, or the kernel stops, at
    `BUG` or at a division by zero. -/
inductive Exit where
  | failure
  | noMemory
  | stop
deriving DecidableEq, Repr

/-! ### The headers -/

/-- The locals that the header setup leaves. -/
structure Headers where
  ehLen : BitVec 16
  pktIpv4 : Bool
  protocol : Nat
deriving DecidableEq, Repr

/-- `headLen`. -/
def headLen (pkt : Pkt) (frag : PktFrag) : BitVec 32 :=
  if frag.length < pkt.frameLen then frag.length else pkt.frameLen

/-- `skb->h.raw` and the locals. -/
def findHeaders (pkt : Pkt) (frag : PktFrag) : Option Nat × Headers :=
  let ehLen := ethHeaderLen pkt.frame
  let nh := ehLen.toNat
  if ethHeaderIsIpv4 pkt.frame then
    (some (nh + ipHdrLen pkt.frame nh),
      { ehLen := ehLen, pktIpv4 := true, protocol := ipProtocol pkt.frame nh })
  else if ethHeaderFrameType pkt.frame = ETH_P_IPV6 then
    let found := ipv6SetHraw pkt.frame (headLen pkt frag).toNat nh 0xff
    (found.raw, { ehLen := ehLen, pktIpv4 := false, protocol := found.protocol })
  else (none, { ehLen := ehLen, pktIpv4 := false, protocol := 0xff })

/-- The buffer when its headers are set up. -/
def setupSkb (pkt : Pkt) (frag : PktFrag) (queueMapping : BitVec 16) : SkBuff :=
  { queueMapping := queueMapping
    head := frag.addr
    len := pkt.frameLen
    protocol := ethHeaderFrameType pkt.frame
    nh := (ethHeaderLen pkt.frame).toNat
    hraw := (findHeaders pkt frag).1
    tail := headLen pkt frag }

/-- `vlan_put_tag`. -/
def vlanPutTag (dev : NetDevice) (pkt : Pkt) (skb : SkBuff) : Except Exit SkBuff :=
  match pkt.mustVlanTag with
  | none => .ok skb
  | some (vlanID, priority) =>
      if dev.hwVlanTx then
        .ok { skb with vlanTag := some (vlanID ||| priority.setWidth 16 <<< VLAN_1PTAG_SHIFT) }
      else .error .stop

/-! ### Segmentation and sizes -/

/-- `inetHdrLen`, an `unsigned short`. -/
def inetHdrLen (b : Buf) (nh hraw : Nat) : BitVec 16 :=
  BitVec.ofNat 16 (hraw + tcpHdrlen b hraw - nh)

/-- The branch for a packet that the device has to segment. -/
def setTso (dev : NetDevice) (pkt : Pkt) (hdr : Headers) (tsoMss : BitVec 32) (skb : SkBuff) :
    Except Exit SkBuff :=
  if !hdr.pktIpv4 ∧ skb.protocol ≠ ETH_P_IPV6 then .error .failure
  else
    match skb.hraw with
    | none => .error .failure
    | some hraw =>
        if hdr.protocol ≠ IPPROTO_TCP then .error .failure
        else
          let hdrLen := (inetHdrLen pkt.frame skb.nh hraw).setWidth 32
          if pkt.frameLen - hdr.ehLen.setWidth 32 - hdrLen ≤ tsoMss then .error .failure
          else if tsoMss + hdrLen > dev.mtu then .error .failure
          else if tsoMss = 0 then .error .stop
          else
            let gsoType := if hdr.pktIpv4 then SKB_GSO_TCPV4 else SKB_GSO_TCPV6
            .ok
              { skb with
                gsoSize := tsoMss.setWidth 16
                gsoSegs := ((skb.len + tsoMss - 1) / tsoMss).setWidth 16
                gsoType := if tcpCwr pkt.frame hraw then gsoType ||| SKB_GSO_TCP_ECN else gsoType }

/-- The branch for any other packet. -/
def checkSize (dev : NetDevice) (pkt : Pkt) (hdr : Headers) (skb : SkBuff) :
    Except Exit SkBuff :=
  if pkt.frameLen - hdr.ehLen.setWidth 32 > dev.mtu then .error .failure else .ok skb

def checkTso (dev : NetDevice) (pkt : Pkt) (hdr : Headers) (skb : SkBuff) : Except Exit SkBuff :=
  match pkt.mustTso with
  | some tsoMss => setTso dev pkt hdr tsoMss skb
  | none => checkSize dev pkt hdr skb

def setCsum (pkt : Pkt) (hdr : Headers) (skb : SkBuff) : SkBuff :=
  if pkt.mustCsum ∨ pkt.mustTso.isSome then
    if hdr.protocol = IPPROTO_TCP then { skb with csum := 16, csumHw := true }
    else if hdr.protocol = IPPROTO_UDP then { skb with csum := 6, csumHw := true }
    else { skb with csumHw := false }
  else { skb with csumHw := false }

/-! ### The fragments -/

/-- `min(frag.length, bytesLeft)`. -/
def clipped (frag : PktFrag) (bytesLeft : BitVec 32) : BitVec 32 :=
  if frag.length < bytesLeft then frag.length else bytesLeft

/-- The entry that is made of a fragment. -/
def skbFrag (frag : PktFrag) (bytesLeft : BitVec 32) : SkbFrag :=
  { page := physToPage frag.addr
    pageOffset := (offsetInPage frag.addr).setWidth 16
    size := (clipped frag bytesLeft).setWidth 16 }

/-- One round of the loop over the fragments. -/
def addFrag (skb : SkBuff) (f : SkbFrag) : SkBuff :=
  { skb with
    dataLen := skb.dataLen + f.size.setWidth 32
    nrFrags := skb.nrFrags + 1
    frags := skb.frags ++ [f] }

/-- The loop, with the fragments that `vmk_PktFragGet` still has; `n` is `i - sgInspected`. -/
def mapFrags : List PktFrag → Nat → BitVec 32 → SkBuff → Except Exit SkBuff
  | frags, n, bytesLeft, skb =>
      if bytesLeft = 0 then .ok skb
      else if n ≥ MAX_SKB_FRAGS then .error .failure
      else
        match frags with
        | [] => .error .failure
        | frag :: rest =>
            let f := skbFrag frag bytesLeft
            mapFrags rest (n + 1) (bytesLeft - f.size.setWidth 32) (addFrag skb f)

/-! ### The function -/

/-- What is done with a buffer that there is. -/
def fillSkb (dev : NetDevice) (pkt : Pkt) (queueMapping : BitVec 16) : Except Exit SkBuff :=
  match pkt.frags with
  | [] => .error .failure
  | frag :: rest =>
      match vlanPutTag dev pkt (setupSkb pkt frag queueMapping) with
      | .error e => .error e
      | .ok skb =>
          match checkTso dev pkt (findHeaders pkt frag).2 skb with
          | .error e => .error e
          | .ok skb =>
              mapFrags rest 0 (pkt.frameLen - headLen pkt frag)
                (setCsum pkt (findHeaders pkt frag).2 skb)

/-- What a call returns and stores in `*pskb`, and how many buffers are allocated after it;
    `error` is `none` for `VMK_OK`. -/
structure Result where
  error : Option Exit
  pskb : Option SkBuff
  allocated : Nat
deriving DecidableEq, Repr

/-- `map_pkt_to_skb`, when `allocated` buffers are allocated before; `memory` is whether
    `do_alloc_skb` has one more.  Nothing is returned where the kernel stops. -/
def mapPktToSkb (dev : NetDevice) (pkt : Pkt) (queueMapping : BitVec 16) (memory : Bool)
    (allocated : Nat) : Option Result :=
  if !memory then some { error := some .noMemory, pskb := none, allocated := allocated }
  else
    match fillSkb dev pkt queueMapping with
    | .ok skb => some { error := none, pskb := some skb, allocated := allocated + 1 }
    | .error .stop => none
    -- do_free_skb
    | .error e => some { error := some e, pskb := none, allocated := allocated + 1 - 1 }

end VmkLinux.Net.MapPkt
