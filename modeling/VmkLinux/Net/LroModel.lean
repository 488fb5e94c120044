/-
  VmkLinux/Net/LroModel.lean
  ==========================
  **Large receive offload**: `vmklinux26/linux/net/inet_lro.c` as `netif_receive_skb`
  drives it for one NAPI context, down to the header bytes that it reads and writes.

  An active `net_lro_desc` is a `Session`; an inactive one, which `lro_clear_desc` has set
  to zero, is `none`.  `lroDesc` may have any length.  A socket buffer that came through
  `netif_rx_common` is on `pktList` with the buffers of its `frag_list`; which ones
  `netif_rx_common` drops is up to the surroundings (`drops`).  Pointers into a frame are
  offsets from its first byte.

  The sessions of `lro_receive_skb` have no `vlan_group`.  Statistics, `truesize` and
  `next_frag`, which nothing here reads, are left out.
-/
import Mathlib.Algebra.GroupWithZero.Nat
import VmkLinux.ByteBuf

namespace VmkLinux.Net.Lro

open VmkLinux.ByteBuf

/-! ### Data -/

inductive IpSummed where
  | none
  | hw
  | unnecessary
deriving DecidableEq, Repr

/-- `struct vlan_skb_tx_cookie`, in `skb->cb`. -/
structure VlanCookie where
  magic : BitVec 32
  vlanTag : BitVec 32
deriving DecidableEq, Repr

/-- A received socket buffer.  `buf` is the memory from `skb->data` on, `headlen` how much
    of it is data (`skb_headlen`), and `fragList` the data of a `frag_list` that the driver
    put there. -/
structure SkBuff where
  buf : Buf
  headlen : BitVec 32
  fragList : List (List UInt8) := []
  ipSummed : IpSummed
  cb : VlanCookie := ⟨0, 0⟩
  lroReady : Bool := false
  gsoSize : BitVec 16 := 0

/-- `skb->len`. -/
def SkBuff.len (skb : SkBuff) : BitVec 32 :=
  skb.headlen + BitVec.ofNat 32 skb.fragList.flatten.length

/-- A socket buffer on the `frag_list` of an aggregated one, and how much `skb_pull` took
    off its front. -/
structure Frag where
  skb : SkBuff
  pulled : Nat

/-- An active `struct net_lro_desc`.  `parentLen` is `parent->len`; `parent->data_len` grows
    with it. -/
structure Session where
  parent : SkBuff
  parentLen : BitVec 32
  fragList : List Frag
  iph : Nat
  tcph : Nat
  tcpRcvTsecr : Nat
  tcpRcvTsval : Nat
  tcpAck : Nat
  tcpNextSeq : BitVec 32
  ipTotLen : BitVec 16
  tcpSawTstamp : Bool
  tcpWindow : Nat
  vlanTag : BitVec 16
  pktAggrCnt : Int
  mss : Int

/-- What goes up the stack; `largeTcpMss` is what `vmk_PktSetLargeTcpPacket` was given. -/
structure Packet where
  parent : SkBuff
  len : BitVec 32
  fragList : List Frag
  largeTcpMss : Option Int

structure Napi where
  lroDesc : List (Option Session)
  pktList : List Packet

/-- The fields of `struct net_lro_mgr` that a device may choose. -/
structure LroMgr where
  maxAggr : Int
  mtu : BitVec 32

/-! ### The Ethernet header -/

def ethP8021Q : Nat := 0x8100
def ethPIp : Nat := 0x0800
def vlanRxCookieMagic : BitVec 32 := 0x766c7278
def vlanTxCookieMagic : BitVec 32 := 0x564c414e

inductive EthHeaderType where
  | dix
  | ieee8021PQ
  | ieee8023
  | ieee8021PQ8023
deriving DecidableEq, Repr

def ethHeaderType (eh : Buf) : EthHeaderType :=
  if 1536 ≤ eh.be16 12 then
    if eh.be16 12 ≠ ethP8021Q then .dix
    else if 1536 ≤ eh.be16 16 then .ieee8021PQ
    else .ieee8021PQ8023
  else .ieee8023

def ethHeaderLen (eh : Buf) : Nat :=
  match ethHeaderType eh with
  | .dix => 14
  | .ieee8021PQ => 18
  | .ieee8023 => 22
  | .ieee8021PQ8023 => 26

def ethHeaderFrameType (eh : Buf) : Nat :=
  match ethHeaderType eh with
  | .dix => eh.be16 12
  | .ieee8021PQ => eh.be16 16
  | .ieee8023 => eh.be16 20
  | .ieee8021PQ8023 => eh.be16 24

def ethHeaderIsIpv4 (eh : Buf) : Bool := decide (ethHeaderFrameType eh = ethPIp)

/-- `__vlan_get_tag`, which leaves the tag alone when there is none in the frame. -/
def vlanGetTag (skb : SkBuff) (tag : BitVec 16) : BitVec 16 :=
  if skb.buf.be16 12 ≠ ethP8021Q then tag else BitVec.ofNat 16 (skb.buf.be16 14)

/-- `__vlan_hwaccel_get_tag`; `none` is its error, with the tag set to zero. -/
def vlanHwaccelGetTag (skb : SkBuff) : Option (BitVec 16) :=
  if skb.cb.magic = vlanTxCookieMagic then some (skb.cb.vlanTag.setWidth 16) else none

/-- `vlan_hwaccel_receive_skb`, up to the call of `netif_receive_skb`. -/
def vlanHwaccelReceive (skb : SkBuff) (tag : BitVec 16) : SkBuff :=
  { skb with cb := ⟨vlanRxCookieMagic, tag.setWidth 32⟩ }

/-! ### The IP and TCP headers -/

section Header

variable (b : Buf) (iph tcph : Nat)

def ihl : Nat := b.u8 iph % 16
def tos : Nat := b.u8 (iph + 1)
def totLen : Nat := b.be16 (iph + 2)
def fragOff : Nat := b.be16 (iph + 6)
def protocol : Nat := b.u8 (iph + 9)
def saddr : Nat := b.be32 (iph + 12)
def daddr : Nat := b.be32 (iph + 16)

def source : Nat := b.be16 tcph
def dest : Nat := b.be16 (tcph + 2)
def tcpSeq : Nat := b.be32 (tcph + 4)
def ackSeq : Nat := b.be32 (tcph + 8)
def doff : Nat := b.u8 (tcph + 12) / 16
def tcpFlags : Nat := b.u8 (tcph + 13)
def window : Nat := b.be16 (tcph + 14)

/-- The words of the TCP options. -/
def topt (k : Nat) : Nat := b.be32 (tcph + 20 + 4 * k)

/-- `TCP_PAYLOAD_LENGTH`; headers that do not fit make it negative. -/
def tcpPayloadLength : Int := totLen b iph - 4 * ihl b iph - 4 * doff b tcph

end Header

def ipprotoTcp : Nat := 6
def ipOffset : Nat := 0x1FFF
def ipMf : Nat := 0x2000

/-- `vmklnx_net_lro_get_skb_header`: the two headers of a TCP packet over IPv4, the TCP
    header behind an IP header without options. -/
def vmklnxNetLroGetSkbHeader (skb : SkBuff) : Option (Nat × Nat) :=
  if ethHeaderIsIpv4 skb.buf then
    if protocol skb.buf (ethHeaderLen skb.buf) = ipprotoTcp then
      some (ethHeaderLen skb.buf, 20 + ethHeaderLen skb.buf)
    else none
  else none

/-! ### Sessions -/

/-- `after` of the TCP sequence numbers. -/
def after (seq1 seq2 : Nat) : Bool :=
  decide ((BitVec.ofNat 32 seq2 - BitVec.ofNat 32 seq1).toInt < 0)

/-- The first option word of a timestamp: NOP, NOP, TIMESTAMP, length 10. -/
def toptTimestamp : Nat := 0x0101080a

/-- `lro_tcp_ip_check` returns 0. -/
def lroTcpIpCheck (b : Buf) (iph tcph : Nat) (len : BitVec 32) (lroDesc : Option Session) :
    Bool :=
  decide (BitVec.ofNat 32 (totLen b iph) = len) &&
  decide (fragOff b iph &&& (ipOffset ||| ipMf) = 0) &&
  decide (tcpPayloadLength b iph tcph ≠ 0) &&
  decide (ihl b iph = 5) &&
  -- ACK set, of the other flags only PSH
  decide (tcpFlags b tcph &&& 0xF7 = 0x10) &&
  decide (tos b iph % 4 ≠ 3) &&
  (decide (doff b tcph = 5) || decide (doff b tcph = 8)) &&
  (decide (doff b tcph ≠ 8) ||
    decide (topt b tcph 0 = toptTimestamp) &&
    (match lroDesc with
      | some desc => !after desc.tcpRcvTsval (topt b tcph 1)
      | none => true) &&
    decide (topt b tcph 2 ≠ 0))

def lroInitDesc (skb : SkBuff) (iph tcph : Nat) (vlanTag : BitVec 16) : Session :=
  { parent := skb, parentLen := skb.len, fragList := [], iph := iph, tcph := tcph,
    tcpNextSeq := BitVec.ofNat 32 (tcpSeq skb.buf tcph) +
      BitVec.ofInt 32 (tcpPayloadLength skb.buf iph tcph),
    tcpAck := ackSeq skb.buf tcph, tcpWindow := window skb.buf tcph, pktAggrCnt := 1,
    ipTotLen := BitVec.ofNat 16 (totLen skb.buf iph),
    tcpSawTstamp := decide (doff skb.buf tcph = 8),
    tcpRcvTsval := if doff skb.buf tcph = 8 then topt skb.buf tcph 1 else 0,
    tcpRcvTsecr := if doff skb.buf tcph = 8 then topt skb.buf tcph 2 else 0,
    mss := tcpPayloadLength skb.buf iph tcph, vlanTag := vlanTag }

/-- `skb_pull`, which does nothing when there is not that much. -/
def skbPull (skb : SkBuff) (len : BitVec 32) : Frag :=
  if skb.len < len then ⟨skb, 0⟩ else ⟨skb, len.toNat⟩

/-- `lro_add_packet` with `lro_add_common`. -/
def lroAddPacket (desc : Session) (skb : SkBuff) (iph tcph : Nat) : Session :=
  let tcpDataLen := tcpPayloadLength skb.buf iph tcph
  { desc with
    pktAggrCnt := desc.pktAggrCnt + 1
    ipTotLen := desc.ipTotLen + BitVec.ofInt 16 tcpDataLen
    tcpNextSeq := desc.tcpNextSeq + BitVec.ofInt 32 tcpDataLen
    tcpWindow := window skb.buf tcph
    tcpAck := ackSeq skb.buf tcph
    tcpRcvTsecr := if desc.tcpSawTstamp then topt skb.buf tcph 2 else desc.tcpRcvTsecr
    mss := max desc.mss tcpDataLen
    parentLen := desc.parentLen + BitVec.ofInt 32 tcpDataLen
    fragList := desc.fragList ++ [skbPull skb (skb.len - BitVec.ofInt 32 tcpDataLen)] }

/-- `lro_check_tcp_conn` returns 0. -/
def lroCheckTcpConn (desc : Session) (b : Buf) (iph tcph : Nat) : Bool :=
  decide (saddr desc.parent.buf desc.iph = saddr b iph) &&
  decide (daddr desc.parent.buf desc.iph = daddr b iph) &&
  decide (source desc.parent.buf desc.tcph = source b tcph) &&
  decide (dest desc.parent.buf desc.tcph = dest b tcph)

/-- An active descriptor of the connection. -/
def lroMatches (vlanTag : BitVec 16) (b : Buf) (iph tcph : Nat) : Option Session → Bool
  | some desc => decide (desc.vlanTag = vlanTag) && lroCheckTcpConn desc b iph tcph
  | none => false

def lroGetDesc (lroArr : List (Option Session)) (vlanTag : BitVec 16) (b : Buf)
    (iph tcph : Nat) : Option Nat :=
  match lroArr.findIdx? (lroMatches vlanTag b iph tcph) with
  | some i => some i
  | none => lroArr.findIdx? Option.isNone

/-- `ip_fast_csum`: the one's complement of the one's complement sum of the header. -/
def ipFastCsum (b : Buf) (iph : Nat) : Nat :=
  let sum := ((List.range (2 * ihl b iph)).map fun k => b.be16 (iph + 2 * k)).sum
  let sum := sum % 65536 + sum / 65536
  0xFFFF - (sum % 65536 + sum / 65536)

/-- `lro_update_tcp_ip_header`: the parent's memory after it. -/
def lroUpdateTcpIpHeader (desc : Session) : Buf :=
  let b := desc.parent.buf.store (desc.tcph + 8) (be32Bytes desc.tcpAck)
  let b := b.store (desc.tcph + 14) (be16Bytes desc.tcpWindow)
  let b := if desc.tcpSawTstamp then b.store (desc.tcph + 28) (be32Bytes desc.tcpRcvTsecr) else b
  let b := b.store (desc.iph + 2) (be16Bytes desc.ipTotLen.toNat)
  let b := b.store (desc.iph + 10) (be16Bytes 0)
  b.store (desc.iph + 10) (be16Bytes (ipFastCsum b desc.iph))

/-- What `lro_flush` passes to `netif_receive_skb`. -/
def lroFlushPacket (desc : Session) : Packet :=
  if 1 < desc.pktAggrCnt then
    { parent := { desc.parent with
        buf := lroUpdateTcpIpHeader desc, gsoSize := BitVec.ofInt 16 desc.mss, lroReady := true }
      len := desc.parentLen, fragList := desc.fragList, largeTcpMss := some desc.mss }
  else
    { parent := { desc.parent with gsoSize := BitVec.ofInt 16 desc.mss, lroReady := true }
      len := desc.parentLen, fragList := desc.fragList, largeTcpMss := none }

/-! ### Receiving -/

section Receive

variable (mgr : LroMgr) (drops : SkBuff → Bool)

/-- `netif_rx_common`, and `pktList` when it succeeds. -/
def Napi.post (napi : Napi) (packet : Packet) : Napi :=
  if drops packet.parent then napi else { napi with pktList := napi.pktList ++ [packet] }

/-- `lro_flush` of descriptor `i`. -/
def Napi.lroFlush (napi : Napi) (i : Nat) (desc : Session) : Napi :=
  { napi with lroDesc := napi.lroDesc.set i none }.post drops (lroFlushPacket desc)

/-- `__lro_proc_skb`: the context, and the socket buffer if it is to be posted. -/
def lroProcSkb (lroEnabled : Bool) (napi : Napi) (skb : SkBuff) (vlanTag : BitVec 16) :
    Napi × Option SkBuff :=
  if !lroEnabled || decide (skb.ipSummed ≠ .unnecessary) then (napi, some skb)
  else
    let out := some { skb with ipSummed := .unnecessary }
    match vmklnxNetLroGetSkbHeader skb with
    | none => (napi, out)
    | some (iph, tcph) =>
        match lroGetDesc napi.lroDesc vlanTag skb.buf iph tcph with
        | none => (napi, out)
        | some i =>
            let len := skb.len - BitVec.ofNat 32 (ethHeaderLen skb.buf)
            match (napi.lroDesc[i]?).join with
            | none =>
                if lroTcpIpCheck skb.buf iph tcph len none then
                  let skb := { skb with ipSummed := .unnecessary }
                  ({ napi with
                      lroDesc := napi.lroDesc.set i (some (lroInitDesc skb iph tcph vlanTag)) },
                    none)
                else (napi, out)
            | some desc =>
                if desc.tcpNextSeq ≠ BitVec.ofNat 32 (tcpSeq skb.buf tcph) then
                  (napi.lroFlush drops i desc, out)
                else if lroTcpIpCheck skb.buf iph tcph len (some desc) then
                  let desc := lroAddPacket desc skb iph tcph
                  let napi := { napi with lroDesc := napi.lroDesc.set i (some desc) }
                  if desc.pktAggrCnt ≥ mgr.maxAggr ∨ desc.parentLen > 0xFFFF - mgr.mtu then
                    (napi.lroFlush drops i desc, none)
                  else (napi, none)
                else (napi.lroFlush drops i desc, out)

/-- The tag as `lro_receive_skb` reads it. -/
def lroVlanTag (skb : SkBuff) : BitVec 16 := (vlanHwaccelGetTag skb).getD (vlanGetTag skb 0)

/-- `lro_receive_skb`, with the second call of `netif_receive_skb` for a socket buffer
    that is not aggregated. -/
def lroReceiveSkb (lroEnabled : Bool) (napi : Napi) (skb : SkBuff) : Napi :=
  match lroProcSkb mgr drops lroEnabled napi skb (lroVlanTag skb) with
  | (napi, some skb) => napi.post drops ⟨{ skb with lroReady := true }, skb.len, [], none⟩
  | (napi, none) => napi

/-- `netif_receive_skb` on a device with or without `NETIF_F_SW_LRO`. -/
def netifReceiveSkb (swLro lroEnabled : Bool) (napi : Napi) (skb : SkBuff) : Napi :=
  if !lroEnabled || swLro || skb.lroReady then napi.post drops ⟨skb, skb.len, [], none⟩
  else lroReceiveSkb mgr drops lroEnabled napi skb

/-- One iteration of `lro_flush_all`. -/
def lroFlushAt (napi : Napi) (i : Nat) : Napi :=
  match (napi.lroDesc[i]?).join with
  | some desc => napi.lroFlush drops i desc
  | none => napi

def lroFlushAll (napi : Napi) : Napi :=
  (List.range napi.lroDesc.length).foldl (lroFlushAt drops) napi

end Receive

/-! ### Runs -/

inductive Event where
  | receive (drops : SkBuff → Bool) (skb : SkBuff)
  | flushAll (drops : SkBuff → Bool)

def Event.drops : Event → SkBuff → Bool
  | .receive drops _ => drops
  | .flushAll drops => drops

/-- With LRO enabled, on a device without an implementation of its own. -/
def handle (mgr : LroMgr) (napi : Napi) : Event → Napi
  | .receive drops skb => netifReceiveSkb mgr drops false true napi skb
  | .flushAll drops => lroFlushAll drops napi

/-- The contexts that are reached from `napi_enable` with the events so far, each of which
    met `ok`. -/
inductive Reach (mgr : LroMgr) (ok : Napi → Event → Prop) : List Event → Napi → Prop
  | start (maxDesc : Nat) : Reach mgr ok [] ⟨List.replicate maxDesc none, []⟩
  | step {es : List Event} {napi : Napi} (h : Reach mgr ok es napi) (e : Event)
      (hok : ok napi e) : Reach mgr ok (es ++ [e]) (handle mgr napi e)

def runIf (mgr : LroMgr) (ok : Napi → Event → Bool) : List Event → Napi → Option Napi
  | [], napi => some napi
  | e :: es, napi => if ok napi e then runIf mgr ok es (handle mgr napi e) else none

theorem Reach.trans_runIf {mgr : LroMgr} {ok : Napi → Event → Bool} {es es' : List Event}
    {napi napi' : Napi} (h : Reach mgr (fun napi e => ok napi e = true) es napi)
    (hrun : runIf mgr ok es' napi = some napi') :
    Reach mgr (fun napi e => ok napi e = true) (es ++ es') napi' := by
  induction es' generalizing es napi with
  | nil =>
    cases hrun
    rwa [List.append_nil]
  | cons e es' ih =>
    unfold runIf at hrun
    split at hrun
    · rename_i hok
      have hnext := ih (h.step e hok) hrun
      rwa [List.append_assoc, List.singleton_append] at hnext
    · cases hrun

/-- A run that was computed, by what it shows at its end. -/
theorem exists_reach_of_runIf {O : Type} (mgr : LroMgr) (ok : Napi → Event → Bool)
    (es : List Event) (maxDesc : Nat) (obs : Napi → O) (o : O)
    (h : (runIf mgr ok es ⟨List.replicate maxDesc none, []⟩).map obs = some o) :
    ∃ napi, Reach mgr (fun napi e => ok napi e = true) es napi ∧ obs napi = o := by
  obtain ⟨napi, hrun, ho⟩ := Option.map_eq_some_iff.mp h
  exact ⟨napi, (Reach.start maxDesc).trans_runIf hrun, ho⟩

/-- The same without a condition on the events. -/
theorem exists_reach_of_run {O : Type} (mgr : LroMgr) (es : List Event) (maxDesc : Nat)
    (obs : Napi → O) (o : O)
    (h : (runIf mgr (fun _ _ => true) es ⟨List.replicate maxDesc none, []⟩).map obs = some o) :
    ∃ napi, Reach mgr (fun _ _ => True) es napi ∧ obs napi = o := by
  obtain ⟨napi, hreach, ho⟩ := exists_reach_of_runIf mgr _ es maxDesc obs o h
  simp only at hreach
  exact ⟨napi, hreach, ho⟩

end VmkLinux.Net.Lro
