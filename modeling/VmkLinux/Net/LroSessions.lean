/-
  VmkLinux/Net/LroSessions.lean
  =============================
  **Sessions keep VLANs and connections apart.**  `lro_get_desc` finds the session of a
  socket buffer by VLAN tag, addresses and ports, and what is merged has passed
  `lro_tcp_ip_check`, so its TCP header is where `vmklnx_net_lro_get_skb_header` takes it
  to be.  Addresses and ports of merged frames therefore agree with the parent's.

  The tag does not have to.  `vlan_hwaccel_receive_skb` marks a tag that the hardware took
  off with `VLAN_RX_COOKIE_MAGIC`, and `lro_receive_skb` looks for
  `VLAN_TX_COOKIE_MAGIC`: it reads such a frame as untagged.  `merged_apart` has as its
  condition that of two frames of a connection whose tags are read alike both are of one
  VLAN; `lro_get_desc`, which compares what was read, tells the others apart.
  `vlans_merged` is two frames without it.
-/
import VmkLinux.Net.LroModel

namespace VmkLinux.Net.Lro

open VmkLinux.ByteBuf

variable {mgr : LroMgr} {drops : SkBuff → Bool} {napi : Napi} {skb : SkBuff}

/-! ### What a frame is -/

/-- The VLAN tag of a frame: the one that the hardware took off, the one in the frame,
    or 0. -/
def SkBuff.vlanTag (skb : SkBuff) : BitVec 16 :=
  if skb.cb.magic = vlanRxCookieMagic then skb.cb.vlanTag.setWidth 16 else vlanGetTag skb 0

/-- VLAN tag, addresses and ports. -/
structure Endpoints where
  vlanTag : BitVec 16
  saddr : Nat
  daddr : Nat
  source : Nat
  dest : Nat
deriving Repr

theorem Endpoints.eq_iff (e e' : Endpoints) :
    (e.vlanTag = e'.vlanTag ∧ e.saddr = e'.saddr ∧ e.daddr = e'.daddr ∧ e.source = e'.source ∧
      e.dest = e'.dest) ↔ e = e' := by
  cases e
  cases e'
  simp

-- field by field: the derived instance is slow to evaluate on frames
instance : DecidableEq Endpoints := fun e e' => decidable_of_iff _ (Endpoints.eq_iff e e')

/-- The ports are behind the IP header with its options. -/
def SkBuff.endpoints (skb : SkBuff) : Endpoints :=
  let iph := ethHeaderLen skb.buf
  let tcph := iph + 4 * ihl skb.buf iph
  { vlanTag := skb.vlanTag, saddr := saddr skb.buf iph, daddr := daddr skb.buf iph,
    source := source skb.buf tcph, dest := dest skb.buf tcph }

/-- Addresses and ports alone. -/
def SkBuff.connection (skb : SkBuff) : Endpoints := { skb.endpoints with vlanTag := 0 }

/-- The same frame with the same tag; `netif_receive_skb` changes nothing else of it. -/
structure SkBuff.SameFrame (skb skb' : SkBuff) : Prop where
  buf : skb'.buf = skb.buf
  cb : skb'.cb = skb.cb
  fragList : skb'.fragList = skb.fragList
  headlen : skb'.headlen = skb.headlen

theorem SkBuff.SameFrame.refl (skb : SkBuff) : skb.SameFrame skb := ⟨rfl, rfl, rfl, rfl⟩

theorem SkBuff.SameFrame.endpoints {skb' : SkBuff} (h : skb.SameFrame skb') :
    skb'.endpoints = skb.endpoints := by
  simp only [SkBuff.endpoints, SkBuff.vlanTag, vlanGetTag, h.buf, h.cb]

/-! ### What `netif_receive_skb` can do -/

/-- `__lro_proc_skb` takes the frame for one of the session. -/
def recognises (skb : SkBuff) (desc : Session) : Bool :=
  !skb.lroReady && decide (skb.ipSummed = .unnecessary) &&
  match vmklnxNetLroGetSkbHeader skb with
  | some (iph, tcph) => lroMatches (lroVlanTag skb) skb.buf iph tcph (some desc)
  | none => false

/-- Where the frame is its own, with LRO enabled: posted by itself, the first of a new
    session, merged, or posted behind a session that it ends. -/
inductive Receives (drops : SkBuff → Bool) (napi : Napi) (skb : SkBuff) : Napi → Prop
  | posts {skb' : SkBuff} (hframe : skb.SameFrame skb')
      (hnew : ∀ desc, some desc ∈ napi.lroDesc → recognises skb desc = false) :
      Receives drops napi skb (napi.post drops ⟨skb', skb'.len, [], none⟩)
  | opens {skb' : SkBuff} {i iph tcph : Nat} (hframe : skb.SameFrame skb')
      (hready : skb.lroReady = false) (hsum : skb.ipSummed = .unnecessary)
      (hi : napi.lroDesc[i]? = some none)
      (hhdr : vmklnxNetLroGetSkbHeader skb = some (iph, tcph))
      (hcheck : lroTcpIpCheck skb.buf iph tcph
        (skb.len - BitVec.ofNat 32 (ethHeaderLen skb.buf)) none = true)
      (hnew : ∀ desc, some desc ∈ napi.lroDesc → recognises skb desc = false) :
      Receives drops napi skb { napi with
        lroDesc := napi.lroDesc.set i (some (lroInitDesc skb' iph tcph (lroVlanTag skb))) }
  | merges {i iph tcph : Nat} {desc : Session} (hi : napi.lroDesc[i]? = some (some desc))
      (hhdr : vmklnxNetLroGetSkbHeader skb = some (iph, tcph))
      (hown : recognises skb desc = true)
      (hseq : desc.tcpNextSeq = BitVec.ofNat 32 (tcpSeq skb.buf tcph))
      (hcheck : lroTcpIpCheck skb.buf iph tcph
        (skb.len - BitVec.ofNat 32 (ethHeaderLen skb.buf)) (some desc) = true) :
      Receives drops napi skb { napi with
        lroDesc := napi.lroDesc.set i (some (lroAddPacket desc skb iph tcph)) }
  | fills {i iph tcph : Nat} {desc : Session} (hi : napi.lroDesc[i]? = some (some desc))
      (hhdr : vmklnxNetLroGetSkbHeader skb = some (iph, tcph))
      (hown : recognises skb desc = true)
      (hseq : desc.tcpNextSeq = BitVec.ofNat 32 (tcpSeq skb.buf tcph))
      (hcheck : lroTcpIpCheck skb.buf iph tcph
        (skb.len - BitVec.ofNat 32 (ethHeaderLen skb.buf)) (some desc) = true) :
      Receives drops napi skb
        ({ napi with
          lroDesc := napi.lroDesc.set i (some (lroAddPacket desc skb iph tcph)) }.lroFlush
            drops i (lroAddPacket desc skb iph tcph))
  | ends {skb' : SkBuff} {i : Nat} {desc : Session} (hframe : skb.SameFrame skb')
      (hi : napi.lroDesc[i]? = some (some desc)) (hown : recognises skb desc = true) :
      Receives drops napi skb ((napi.lroFlush drops i desc).post drops ⟨skb', skb'.len, [], none⟩)

theorem lroGetDesc_some {lroArr : List (Option Session)} {tag : BitVec 16} {b : Buf}
    {iph tcph i : Nat} (h : lroGetDesc lroArr tag b iph tcph = some i) :
    (∃ desc, lroArr[i]? = some (some desc) ∧ lroMatches tag b iph tcph (some desc) = true) ∨
      (lroArr[i]? = some none ∧ ∀ desc ∈ lroArr, lroMatches tag b iph tcph desc = false) := by
  unfold lroGetDesc at h
  split at h
  · rename_i j hj
    cases h
    obtain ⟨hlt, hmatch, -⟩ := List.findIdx?_eq_some_iff_getElem.mp hj
    left
    cases hdesc : lroArr[i] with
    | none => simp [hdesc, lroMatches] at hmatch
    | some desc => exact ⟨desc, by simp [hlt, hdesc], by rwa [hdesc] at hmatch⟩
  · rename_i hnone
    obtain ⟨hlt, hfree, -⟩ := List.findIdx?_eq_some_iff_getElem.mp h
    right
    refine ⟨?_, List.findIdx?_eq_none_iff.mp hnone⟩
    simpa [hlt] using hfree

theorem lroGetDesc_none {lroArr : List (Option Session)} {tag : BitVec 16} {b : Buf}
    {iph tcph : Nat} (h : lroGetDesc lroArr tag b iph tcph = none) :
    ∀ desc ∈ lroArr, lroMatches tag b iph tcph desc = false := by
  unfold lroGetDesc at h
  split at h
  · cases h
  · rename_i hnone
    exact List.findIdx?_eq_none_iff.mp hnone

theorem recognises_eq {desc : Session} {iph tcph : Nat} (hready : skb.lroReady = false)
    (hsum : skb.ipSummed = .unnecessary)
    (hhdr : vmklnxNetLroGetSkbHeader skb = some (iph, tcph)) :
    recognises skb desc = lroMatches (lroVlanTag skb) skb.buf iph tcph (some desc) := by
  simp [recognises, hready, hsum, hhdr]

theorem recognises_of_no_header {desc : Session} (hhdr : vmklnxNetLroGetSkbHeader skb = none) :
    recognises skb desc = false := by
  simp [recognises, hhdr]

theorem netifReceiveSkb_receives (mgr : LroMgr) (drops : SkBuff → Bool) (napi : Napi)
    (skb : SkBuff) :
    Receives drops napi skb (netifReceiveSkb mgr drops false true napi skb) := by
  have hsame : ∀ (b : Bool) (k : IpSummed),
      skb.SameFrame { skb with lroReady := b, ipSummed := k } := fun _ _ => ⟨rfl, rfl, rfl, rfl⟩
  unfold netifReceiveSkb
  cases hready : skb.lroReady with
  | true =>
    refine .posts (.refl skb) fun desc _ => ?_
    simp [recognises, hready]
  | false =>
    simp only [Bool.not_true, Bool.or_self, Bool.false_eq_true, if_false]
    unfold lroReceiveSkb lroProcSkb
    by_cases hsum : skb.ipSummed = .unnecessary
    · simp only [Bool.not_true, hsum, ne_eq, not_true_eq_false, decide_false, Bool.or_self,
        Bool.false_eq_true, if_false]
      cases hhdr : vmklnxNetLroGetSkbHeader skb with
      | none => exact .posts (hsame true .unnecessary) fun _ _ => recognises_of_no_header hhdr
      | some hdr =>
        obtain ⟨iph, tcph⟩ := hdr
        have hrec : ∀ desc, recognises skb desc =
            lroMatches (lroVlanTag skb) skb.buf iph tcph (some desc) :=
          fun desc => recognises_eq hready hsum hhdr
        simp only
        cases hget : lroGetDesc napi.lroDesc (lroVlanTag skb) skb.buf iph tcph with
        | none =>
          refine .posts (hsame true .unnecessary) fun desc hmem => ?_
          rw [hrec]
          exact lroGetDesc_none hget _ hmem
        | some i =>
          rcases lroGetDesc_some hget with ⟨desc, hi, hmatch⟩ | ⟨hi, hnone⟩
          · -- the session that was found
            have hown : recognises skb desc = true := by rw [hrec, hmatch]
            have hends := @Receives.ends drops napi skb _ i desc (hsame true .unnecessary) hi hown
            simp only [hi, Option.join_some]
            by_cases hseq : desc.tcpNextSeq = BitVec.ofNat 32 (tcpSeq skb.buf tcph)
            · rw [if_neg (not_not.mpr hseq)]
              by_cases hcheck : lroTcpIpCheck skb.buf iph tcph
                  (skb.len - BitVec.ofNat 32 (ethHeaderLen skb.buf)) (some desc) = true
              · rw [if_pos hcheck]
                by_cases hfull : (lroAddPacket desc skb iph tcph).pktAggrCnt ≥ mgr.maxAggr ∨
                    (lroAddPacket desc skb iph tcph).parentLen > 0xFFFF - mgr.mtu
                · rw [if_pos hfull]
                  exact .fills hi hhdr hown hseq hcheck
                · rw [if_neg hfull]
                  exact .merges hi hhdr hown hseq hcheck
              · rw [if_neg hcheck]
                exact hends
            · rw [if_pos hseq]
              exact hends
          · -- a free descriptor
            have hnew : ∀ desc, some desc ∈ napi.lroDesc → recognises skb desc = false := by
              intro desc hmem
              rw [hrec]
              exact hnone _ hmem
            simp only [hi, Option.join_some]
            by_cases hcheck : lroTcpIpCheck skb.buf iph tcph
                (skb.len - BitVec.ofNat 32 (ethHeaderLen skb.buf)) none = true
            · rw [if_pos hcheck]
              exact .opens (hsame skb.lroReady .unnecessary) hready hsum hi hhdr hcheck hnew
            · rw [if_neg hcheck]
              exact .posts (hsame true .unnecessary) hnew
    · simp only [Bool.not_true, hsum, ne_eq, not_false_eq_true, decide_true, Bool.or_true,
        if_true]
      refine .posts (hsame true skb.ipSummed) fun desc _ => ?_
      simp [recognises, hsum]

/-! ### Headers -/

theorem lroGetSkbHeader_some {iph tcph : Nat}
    (h : vmklnxNetLroGetSkbHeader skb = some (iph, tcph)) :
    ethHeaderIsIpv4 skb.buf = true ∧ iph = ethHeaderLen skb.buf ∧ tcph = iph + 20 ∧
      protocol skb.buf iph = ipprotoTcp := by
  unfold vmklnxNetLroGetSkbHeader at h
  split at h
  · rename_i hip
    split at h
    · rename_i htcp
      simp only [Option.some.injEq, Prod.mk.injEq] at h
      obtain ⟨rfl, rfl⟩ := h
      exact ⟨hip, rfl, Nat.add_comm _ _, htcp⟩
    · cases h
  · cases h

/-- What has passed `lro_tcp_ip_check`, as far as the frame's shape goes. -/
structure Segment (b : Buf) (iph tcph : Nat) : Prop where
  fragOff : fragOff b iph &&& (ipOffset ||| ipMf) = 0
  ihl : ihl b iph = 5
  doff : doff b tcph = 5 ∨ doff b tcph = 8

theorem lroTcpIpCheck_segment {b : Buf} {iph tcph : Nat} {len : BitVec 32}
    {lroDesc : Option Session} (h : lroTcpIpCheck b iph tcph len lroDesc = true) :
    Segment b iph tcph ∧ BitVec.ofNat 32 (totLen b iph) = len := by
  simp only [lroTcpIpCheck, Bool.and_eq_true, decide_eq_true_eq, Bool.or_eq_true] at h
  obtain ⟨⟨⟨⟨⟨⟨⟨hlen, hfrag⟩, -⟩, hihl⟩, -⟩, -⟩, hdoff⟩, -⟩ := h
  exact ⟨⟨hfrag, hihl, hdoff⟩, hlen⟩

theorem endpoints_of_ihl {iph tcph : Nat} (hhdr : vmklnxNetLroGetSkbHeader skb = some (iph, tcph))
    (hihl : ihl skb.buf iph = 5) :
    skb.endpoints = ⟨skb.vlanTag, saddr skb.buf iph, daddr skb.buf iph, source skb.buf tcph,
      dest skb.buf tcph⟩ := by
  obtain ⟨-, hiph, htcph, -⟩ := lroGetSkbHeader_some hhdr
  subst hiph
  simp only [SkBuff.endpoints, hihl, htcph]

/-- The type of the Ethernet header is in the header. -/
theorem ethHeaderType_congr {b b' : Buf} (h : ∀ i < ethHeaderLen b, b' i = b i) :
    ethHeaderType b' = ethHeaderType b := by
  have hlen : 14 ≤ ethHeaderLen b := by
    unfold ethHeaderLen
    split <;> decide
  have htype : b'.be16 12 = b.be16 12 := be16_congr fun j hj => h _ (by omega)
  by_cases hvlan : 1536 ≤ b.be16 12 ∧ b.be16 12 = ethP8021Q
  · have hlen' : 18 ≤ ethHeaderLen b := by
      unfold ethHeaderLen ethHeaderType
      rw [if_pos hvlan.1, if_neg (not_not.mpr hvlan.2)]
      by_cases hencap : 1536 ≤ b.be16 16 <;> simp [hencap]
    have hencap : b'.be16 16 = b.be16 16 := be16_congr fun j hj => h _ (by omega)
    simp only [ethHeaderType, htype, hencap]
  · simp only [ethHeaderType, htype]
    grind

/-- So is the type of what follows. -/
theorem ethHeaderFrameType_congr {b b' : Buf} (h : ∀ i < ethHeaderLen b, b' i = b i) :
    ethHeaderFrameType b' = ethHeaderFrameType b := by
  unfold ethHeaderFrameType
  rw [ethHeaderType_congr h]
  unfold ethHeaderLen at h
  split <;> rename_i htype <;> rw [htype] at h <;> exact be16_congr fun j hj => h _ (by grind)

theorem lroGetSkbHeader_congr {skb' : SkBuff} {iph tcph : Nat}
    (hhdr : vmklnxNetLroGetSkbHeader skb = some (iph, tcph))
    (heth : ∀ i < iph, skb'.buf i = skb.buf i) (hproto : skb'.buf (iph + 9) = skb.buf (iph + 9)) :
    vmklnxNetLroGetSkbHeader skb' = some (iph, tcph) := by
  obtain ⟨hip, rfl, -, -⟩ := lroGetSkbHeader_some hhdr
  have hlen : ethHeaderLen skb'.buf = ethHeaderLen skb.buf := by
    unfold ethHeaderLen
    rw [ethHeaderType_congr heth]
  have hip' : ethHeaderIsIpv4 skb'.buf = ethHeaderIsIpv4 skb.buf := by
    unfold ethHeaderIsIpv4
    rw [ethHeaderFrameType_congr heth]
  have hproto' : protocol skb'.buf (ethHeaderLen skb.buf) =
      protocol skb.buf (ethHeaderLen skb.buf) := by
    simp only [protocol, Buf.u8, hproto]
  rw [← hhdr]
  unfold vmklnxNetLroGetSkbHeader
  rw [hlen, hip', hproto']

theorem ethHeaderLen_of_tagged {b : Buf} (h : b.be16 12 = ethP8021Q) : 18 ≤ ethHeaderLen b := by
  unfold ethHeaderLen ethHeaderType
  rw [h]
  by_cases hencap : 1536 ≤ b.be16 16 <;> simp [hencap, ethP8021Q]

/-- The bytes that a frame's addresses, ports and tag are read from. -/
theorem endpoints_congr {skb' : SkBuff} {iph : Nat} (hiph : iph = ethHeaderLen skb.buf)
    (hihl : ihl skb.buf iph = 5) (hcb : skb'.cb = skb.cb)
    (heth : ∀ i < iph, skb'.buf i = skb.buf i) (hver : skb'.buf iph = skb.buf iph)
    (hconn : ∀ j < 12, skb'.buf (iph + 12 + j) = skb.buf (iph + 12 + j)) :
    skb'.endpoints = skb.endpoints := by
  subst hiph
  have hlen : ethHeaderLen skb'.buf = ethHeaderLen skb.buf := by
    unfold ethHeaderLen
    rw [ethHeaderType_congr heth]
  have hconn' : ∀ k j, k + j < 12 → skb'.buf (ethHeaderLen skb.buf + 12 + k + j) =
      skb.buf (ethHeaderLen skb.buf + 12 + k + j) := by
    intro k j hk
    rw [Nat.add_assoc _ k j]
    exact hconn _ hk
  have hihl' : ihl skb'.buf (ethHeaderLen skb.buf) = 5 := by
    rw [← hihl]
    simp only [ihl, Buf.u8, hver]
  have hlen12 : 14 ≤ ethHeaderLen skb.buf := by
    unfold ethHeaderLen
    split <;> decide
  have htype : skb'.buf.be16 12 = skb.buf.be16 12 := be16_congr fun j hj => heth _ (by omega)
  have htag : vlanGetTag skb' 0 = vlanGetTag skb 0 := by
    unfold vlanGetTag
    rw [htype]
    by_cases htagged : skb.buf.be16 12 = ethP8021Q
    · have hlen18 := ethHeaderLen_of_tagged htagged
      rw [be16_congr fun j hj => heth (14 + j) (by omega)]
    · simp [htagged]
  have hvlan : skb'.vlanTag = skb.vlanTag := by
    unfold SkBuff.vlanTag
    rw [hcb, htag]
  have hsaddr := be32_congr fun j hj => hconn' 0 j (by omega)
  have hdaddr := be32_congr fun j hj => hconn' 4 j (by omega)
  have hsource := be16_congr fun j hj => hconn' 8 j (by omega)
  have hdest := be16_congr fun j hj => hconn' 10 j (by omega)
  simp only [SkBuff.endpoints, hvlan, hlen, hihl, hihl', saddr, daddr, source, dest]
  simp only [Nat.add_zero, Nat.add_assoc] at hsaddr hdaddr hsource hdest ⊢
  rw [hsaddr, hdaddr, hsource, hdest]

/-- `lro_update_tcp_ip_header` writes the acknowledgement, the window, the echoed
    timestamp, the length and the checksum. -/
theorem lroUpdateTcpIpHeader_outside {desc : Session} {i : Nat}
    (hack : i < desc.tcph + 8 ∨ desc.tcph + 12 ≤ i)
    (hwindow : i < desc.tcph + 14 ∨ desc.tcph + 16 ≤ i)
    (htsecr : desc.tcpSawTstamp = true → i < desc.tcph + 28 ∨ desc.tcph + 32 ≤ i)
    (htotLen : i < desc.iph + 2 ∨ desc.iph + 4 ≤ i)
    (hcheck : i < desc.iph + 10 ∨ desc.iph + 12 ≤ i) :
    lroUpdateTcpIpHeader desc i = desc.parent.buf i := by
  unfold lroUpdateTcpIpHeader
  rw [store_outside hcheck, store_outside hcheck, store_outside htotLen]
  split
  · rename_i hsaw
    rw [store_outside (htsecr hsaw), store_outside hwindow, store_outside hack]
  · rw [store_outside hwindow, store_outside hack]

/-! ### Sessions are sound -/

structure Session.Sound (desc : Session) : Prop where
  header : vmklnxNetLroGetSkbHeader desc.parent = some (desc.iph, desc.tcph)
  segment : Segment desc.parent.buf desc.iph desc.tcph
  vlanTag : desc.vlanTag = lroVlanTag desc.parent
  tstamp : desc.tcpSawTstamp = true → doff desc.parent.buf desc.tcph = 8
  count : desc.pktAggrCnt = 1 + desc.fragList.length

theorem lroFlushPacket_endpoints {desc : Session} (h : desc.Sound) :
    (lroFlushPacket desc).parent.endpoints = desc.parent.endpoints := by
  obtain ⟨-, hiph, htcph, -⟩ := lroGetSkbHeader_some h.header
  unfold lroFlushPacket
  split
  · refine endpoints_congr hiph h.segment.ihl rfl (fun i hi => ?_) ?_ fun j hj => ?_
    · exact lroUpdateTcpIpHeader_outside (by omega) (by omega) (fun _ => by omega) (by omega)
        (by omega)
    · exact lroUpdateTcpIpHeader_outside (by omega) (by omega) (fun _ => by omega) (by omega)
        (by omega)
    · exact lroUpdateTcpIpHeader_outside (by omega) (by omega) (fun _ => by omega) (by omega)
        (by omega)
  · exact SkBuff.SameFrame.endpoints ⟨rfl, rfl, rfl, rfl⟩

theorem SkBuff.SameFrame.header {skb' : SkBuff} (h : skb.SameFrame skb') :
    vmklnxNetLroGetSkbHeader skb' = vmklnxNetLroGetSkbHeader skb := by
  simp only [vmklnxNetLroGetSkbHeader, h.buf]

theorem SkBuff.SameFrame.lroVlanTag {skb' : SkBuff} (h : skb.SameFrame skb') :
    lroVlanTag skb' = Lro.lroVlanTag skb := by
  simp only [Lro.lroVlanTag, vlanHwaccelGetTag, vlanGetTag, h.buf, h.cb]

theorem lroInitDesc_sound {skb' : SkBuff} {iph tcph : Nat} {len : BitVec 32}
    (hframe : skb.SameFrame skb') (hhdr : vmklnxNetLroGetSkbHeader skb = some (iph, tcph))
    (hcheck : lroTcpIpCheck skb.buf iph tcph len none = true) :
    (lroInitDesc skb' iph tcph (lroVlanTag skb)).Sound where
  header := hframe.header.trans hhdr
  segment := by
    show Segment skb'.buf iph tcph
    rw [hframe.buf]
    exact (lroTcpIpCheck_segment hcheck).1
  vlanTag := hframe.lroVlanTag.symm
  tstamp h := by simpa [lroInitDesc] using h
  count := rfl

theorem lroAddPacket_sound {desc : Session} {iph tcph : Nat} (h : desc.Sound) :
    (lroAddPacket desc skb iph tcph).Sound where
  header := h.header
  segment := h.segment
  vlanTag := h.vlanTag
  tstamp := h.tstamp
  count := by
    simp only [lroAddPacket, h.count, List.length_append, List.length_singleton]
    push_cast
    omega

@[simp] theorem post_lroDesc (packet : Packet) :
    (napi.post drops packet).lroDesc = napi.lroDesc := by
  unfold Napi.post
  split <;> rfl

@[simp] theorem lroFlush_lroDesc (i : Nat) (desc : Session) :
    (napi.lroFlush drops i desc).lroDesc = napi.lroDesc.set i none := by
  simp [Napi.lroFlush]

@[simp] theorem lroFlushAt_lroDesc (i : Nat) :
    (lroFlushAt drops napi i).lroDesc = napi.lroDesc.set i none := by
  unfold lroFlushAt
  split
  · exact lroFlush_lroDesc _ _
  · rename_i hnone
    apply List.ext_getElem?
    intro j
    rw [List.getElem?_set]
    split
    · rename_i hij
      subst hij
      cases hi : napi.lroDesc[i]? with
      | none => simpa using hi
      | some d =>
        rw [hi, Option.join_some] at hnone
        simp [hnone, (List.getElem?_eq_some_iff.mp hi).1]
    · rfl

theorem foldl_lroFlushAt {is : List Nat} {j : Nat} {desc : Session}
    (h : (is.foldl (lroFlushAt drops) napi).lroDesc[j]? = some (some desc)) :
    j ∉ is ∧ napi.lroDesc[j]? = some (some desc) := by
  induction is generalizing napi with
  | nil => exact ⟨by simp, h⟩
  | cons i is ih =>
    obtain ⟨hj, hdesc⟩ := ih h
    rw [lroFlushAt_lroDesc, List.getElem?_set] at hdesc
    split at hdesc
    · split at hdesc <;> cases hdesc
    · rename_i hne
      exact ⟨by simp [hj, Ne.symm hne], hdesc⟩

/-- `lro_flush_all` leaves no session. -/
theorem lroFlushAll_inactive (desc : Session) :
    some desc ∉ (lroFlushAll drops napi).lroDesc := by
  intro hmem
  obtain ⟨j, hj⟩ := List.mem_iff_getElem?.mp hmem
  obtain ⟨hnot, hold⟩ := foldl_lroFlushAt hj
  exact hnot (List.mem_range.mpr (List.getElem?_eq_some_iff.mp hold).1)

theorem mem_post {p packet : Packet} (h : p ∈ (napi.post drops packet).pktList) :
    p ∈ napi.pktList ∨ p = packet := by
  unfold Napi.post at h
  split at h
  · exact .inl h
  · simpa using h

/-! ### An invariant of sessions and packets -/

/-- `P` holds of every session, and `Q` of every packet on `pktList`. -/
structure Napi.All (P : Session → Prop) (Q : Packet → Prop) (napi : Napi) : Prop where
  sessions : ∀ desc, some desc ∈ napi.lroDesc → P desc
  packets : ∀ p ∈ napi.pktList, Q p

section All

variable {P : Session → Prop} {Q : Packet → Prop}

theorem Napi.All.post {packet : Packet} (h : napi.All P Q) (hp : Q packet) :
    (napi.post drops packet).All P Q := by
  refine ⟨fun desc hmem => h.sessions desc (by simpa using hmem), fun p hmem => ?_⟩
  rcases mem_post hmem with hold | rfl
  · exact h.packets p hold
  · exact hp

theorem Napi.All.set {i : Nat} {desc : Session} (h : napi.All P Q) (hdesc : P desc) :
    { napi with lroDesc := napi.lroDesc.set i (some desc) }.All P Q := by
  refine ⟨fun desc' hmem => ?_, h.packets⟩
  rcases List.mem_or_eq_of_mem_set hmem with hold | heq
  · exact h.sessions desc' hold
  · exact Option.some.inj heq ▸ hdesc

theorem Napi.All.lroFlush {i : Nat} {desc : Session} (h : napi.All P Q)
    (hp : Q (lroFlushPacket desc)) : (napi.lroFlush drops i desc).All P Q := by
  refine Napi.All.post ⟨fun desc' hmem => ?_, h.packets⟩ hp
  rcases List.mem_or_eq_of_mem_set hmem with hold | heq
  · exact h.sessions desc' hold
  · cases heq

theorem Napi.All.lroFlushAll (hflush : ∀ desc, P desc → Q (lroFlushPacket desc))
    (h : napi.All P Q) : (lroFlushAll drops napi).All P Q := by
  unfold Lro.lroFlushAll
  generalize List.range napi.lroDesc.length = is
  -- over the iterations of the loop
  induction is generalizing napi with
  | nil => exact h
  | cons i is ih =>
    apply ih
    unfold lroFlushAt
    split
    · rename_i desc hi
      apply h.lroFlush
      apply hflush
      apply h.sessions
      rw [Option.join_eq_some_iff] at hi
      exact List.mem_of_getElem? hi
    · exact h

end All

/-! ### Merged frames -/

/-- What was merged has the parent's VLAN tag, addresses and ports. -/
def Merged (fragList : List Frag) (parent : SkBuff) : Prop :=
  ∀ frag ∈ fragList, frag.skb.endpoints = parent.endpoints

/-- `__lro_proc_skb` looks for a session of the frame. -/
def forLro (skb : SkBuff) : Bool :=
  !skb.lroReady && decide (skb.ipSummed = .unnecessary) && (vmklnxNetLroGetSkbHeader skb).isSome

/-- The frame is of the VLAN of the first frame of a session, or of another connection, or
    their tags are read as different ones. -/
def toldApart (napi : Napi) (skb : SkBuff) : Bool :=
  napi.lroDesc.all fun
    | some desc =>
        decide (desc.parent.connection ≠ skb.connection) ||
        decide (lroVlanTag desc.parent ≠ lroVlanTag skb) ||
        decide (desc.parent.vlanTag = skb.vlanTag)
    | none => true

/-- A condition on the tag of the frame that arrives, as it is and as `lro_receive_skb`
    reads it. -/
def tagsToldApart (napi : Napi) : Event → Bool
  | .receive _ skb => !forLro skb || toldApart napi skb
  | .flushAll _ => true

/-- The connection of a frame that is recognised. -/
theorem recognises_conn {desc : Session} {iph tcph : Nat} (h : recognises skb desc = true)
    (hhdr : vmklnxNetLroGetSkbHeader skb = some (iph, tcph)) :
    desc.vlanTag = lroVlanTag skb ∧
      saddr desc.parent.buf desc.iph = saddr skb.buf iph ∧
      daddr desc.parent.buf desc.iph = daddr skb.buf iph ∧
      source desc.parent.buf desc.tcph = source skb.buf tcph ∧
      dest desc.parent.buf desc.tcph = dest skb.buf tcph := by
  simp only [recognises, hhdr, lroMatches, lroCheckTcpConn, Bool.and_eq_true,
    decide_eq_true_eq] at h
  obtain ⟨-, htag, ⟨⟨hsaddr, hdaddr⟩, hsource⟩, hdest⟩ := h
  exact ⟨htag, hsaddr, hdaddr, hsource, hdest⟩

theorem forLro_of_recognises {desc : Session} (h : recognises skb desc = true) :
    forLro skb = true := by
  unfold recognises at h
  unfold forLro
  cases hhdr : vmklnxNetLroGetSkbHeader skb with
  | none => simp [hhdr] at h
  | some hdr =>
    simp only [hhdr, Bool.and_eq_true] at h
    rw [h.1.1, h.1.2]
    rfl

/-- What is recognised is of the session's connection, if its IP header has no options. -/
theorem connection_of_recognises {desc : Session} {iph tcph : Nat} (hsound : desc.Sound)
    (hown : recognises skb desc = true)
    (hhdr : vmklnxNetLroGetSkbHeader skb = some (iph, tcph)) (hihl : ihl skb.buf iph = 5) :
    desc.parent.connection = skb.connection := by
  obtain ⟨-, hsaddr, hdaddr, hsource, hdest⟩ := recognises_conn hown hhdr
  unfold SkBuff.connection
  rw [endpoints_of_ihl hhdr hihl, endpoints_of_ihl hsound.header hsound.segment.ihl, hsaddr,
    hdaddr, hsource, hdest]

theorem endpoints_of_connection {other : SkBuff} (hconn : other.connection = skb.connection)
    (htag : other.vlanTag = skb.vlanTag) : skb.endpoints = other.endpoints :=
  calc skb.endpoints = { skb.connection with vlanTag := skb.vlanTag } := rfl
    _ = { other.connection with vlanTag := other.vlanTag } := by rw [hconn, htag]
    _ = other.endpoints := rfl

theorem endpoints_of_recognises {desc : Session} {iph tcph : Nat} (hsound : desc.Sound)
    (hown : recognises skb desc = true) (hmem : some desc ∈ napi.lroDesc)
    (hhdr : vmklnxNetLroGetSkbHeader skb = some (iph, tcph)) (hihl : ihl skb.buf iph = 5)
    (hok : forLro skb = true → toldApart napi skb = true) :
    skb.endpoints = desc.parent.endpoints := by
  have hconn := connection_of_recognises hsound hown hhdr hihl
  -- the code has compared the tags as they were read
  have hread : lroVlanTag desc.parent = lroVlanTag skb :=
    hsound.vlanTag.symm.trans (recognises_conn hown hhdr).1
  have hdesc := List.all_eq_true.mp (hok (forLro_of_recognises hown)) _ hmem
  simp only [hconn, hread, ne_eq, not_true_eq_false, decide_false, Bool.false_or,
    decide_eq_true_eq] at hdesc
  exact endpoints_of_connection hconn hdesc

theorem skbPull_skb (len : BitVec 32) : (skbPull skb len).skb = skb := by
  unfold skbPull
  split <;> rfl

theorem merged_lroAddPacket {desc : Session} {iph tcph : Nat}
    (h : Merged desc.fragList desc.parent) (heq : skb.endpoints = desc.parent.endpoints) :
    Merged (lroAddPacket desc skb iph tcph).fragList (lroAddPacket desc skb iph tcph).parent := by
  intro frag hfrag
  simp only [lroAddPacket, List.mem_append, List.mem_singleton] at hfrag
  rcases hfrag with hold | rfl
  · exact h frag hold
  · rw [skbPull_skb]
    exact heq

theorem merged_lroFlushPacket {desc : Session} (hsound : desc.Sound)
    (h : Merged desc.fragList desc.parent) :
    Merged (lroFlushPacket desc).fragList (lroFlushPacket desc).parent := by
  intro frag hfrag
  rw [lroFlushPacket_endpoints hsound]
  apply h
  unfold lroFlushPacket at hfrag
  split at hfrag <;> exact hfrag

/-- Every session is sound and of one VLAN and connection, and so is every packet. -/
def KeptApart (napi : Napi) : Prop :=
  napi.All (fun desc => desc.Sound ∧ Merged desc.fragList desc.parent)
    fun p => Merged p.fragList p.parent

theorem keptApart_receive {napi' : Napi} (h : Receives drops napi skb napi')
    (hok : forLro skb = true → toldApart napi skb = true) (hI : KeptApart napi) :
    KeptApart napi' := by
  have hadd : ∀ {i iph tcph : Nat} {desc : Session}, napi.lroDesc[i]? = some (some desc) →
      vmklnxNetLroGetSkbHeader skb = some (iph, tcph) → recognises skb desc = true →
      ∀ {len : BitVec 32}, lroTcpIpCheck skb.buf iph tcph len (some desc) = true →
      (lroAddPacket desc skb iph tcph).Sound ∧
        Merged (lroAddPacket desc skb iph tcph).fragList
          (lroAddPacket desc skb iph tcph).parent := by
    intro i iph tcph desc hi hhdr hown len hcheck
    have hmem := List.mem_of_getElem? hi
    obtain ⟨hsound, hmerged⟩ := hI.sessions desc hmem
    have hihl := (lroTcpIpCheck_segment hcheck).1.ihl
    exact ⟨lroAddPacket_sound hsound,
      merged_lroAddPacket hmerged (endpoints_of_recognises hsound hown hmem hhdr hihl hok)⟩
  have hsingle : ∀ skb' : SkBuff, Merged [] skb' := fun _ _ hfrag => by cases hfrag
  cases h with
  | posts hframe hnew => exact hI.post (hsingle _)
  | opens hframe hready hsum hi hhdr hcheck hnew =>
    exact hI.set ⟨lroInitDesc_sound hframe hhdr hcheck, hsingle _⟩
  | merges hi hhdr hown hseq hcheck => exact hI.set (hadd hi hhdr hown hcheck)
  | fills hi hhdr hown hseq hcheck =>
    obtain ⟨hsound, hmerged⟩ := hadd hi hhdr hown hcheck
    exact (hI.set ⟨hsound, hmerged⟩).lroFlush (merged_lroFlushPacket hsound hmerged)
  | ends hframe hi hown =>
    obtain ⟨hsound, hmerged⟩ := hI.sessions _ (List.mem_of_getElem? hi)
    exact (hI.lroFlush (merged_lroFlushPacket hsound hmerged)).post (hsingle _)

theorem keptApart_of_reach {es : List Event}
    (h : Reach mgr (fun napi e => tagsToldApart napi e = true) es napi) :
    KeptApart napi := by
  induction h with
  | start maxDesc =>
    refine ⟨fun desc hmem => ?_, fun p hp => by cases hp⟩
    cases List.eq_of_mem_replicate hmem
  | step _ e hok ih =>
    cases e with
    | receive drops skb =>
      refine keptApart_receive (netifReceiveSkb_receives _ _ _ _) (fun hfor => ?_) ih
      simpa [tagsToldApart, hfor] using hok
    | flushAll drops =>
      exact ih.lroFlushAll fun desc hdesc => merged_lroFlushPacket hdesc.1 hdesc.2

/-- **VLANs and connections are kept apart.**  In every run in which a frame of another VLAN
    than the first frame of a session of its connection has its tag read as another, too:
    what is merged, in a session or in a packet on `pktList`, has the VLAN tag, the addresses
    and the ports of its parent. -/
theorem merged_apart {es : List Event}
    (h : Reach mgr (fun napi e => tagsToldApart napi e = true) es napi) :
    (∀ desc, some desc ∈ napi.lroDesc → ∀ frag ∈ desc.fragList,
      frag.skb.endpoints = desc.parent.endpoints) ∧
    ∀ p ∈ napi.pktList, ∀ frag ∈ p.fragList, frag.skb.endpoints = p.parent.endpoints := by
  have hI := keptApart_of_reach h
  exact ⟨fun desc hmem => (hI.sessions desc hmem).2, hI.packets⟩

/-- A segment from 10.0.0.1 port 12345 to 10.0.0.2 port 80, with one byte of payload. -/
def segment (seq payload : UInt8) : SkBuff where
  buf i := [2, 0, 0, 0, 0, 1, 2, 0, 0, 0, 0, 2, 8, 0,
    0x45, 0, 0, 41, 0, 1, 0x40, 0, 64, 6, 0, 0, 10, 0, 0, 1, 10, 0, 0, 2,
    0x30, 0x39, 0, 80, 0, 0, 0, seq, 0, 0, 0, 9, 0x50, 0x10, 1, 0, 0, 0, 0, 0, payload].getD i 0
  headlen := 55
  ipSummed := .unnecessary

/-- Two segments of VLAN 100 are merged. -/
theorem merged_apart_vlan :
    ∃ es napi, Reach ⟨16, 1500⟩ (fun napi e => tagsToldApart napi e = true) es napi ∧
      (∃ desc, some desc ∈ napi.lroDesc ∧ desc.fragList.length = 1) ∧
      ∀ desc, some desc ∈ napi.lroDesc → ∀ frag ∈ desc.fragList,
        frag.skb.endpoints = desc.parent.endpoints := by
  obtain ⟨napi, hreach, ho⟩ := exists_reach_of_runIf ⟨16, 1500⟩ tagsToldApart
    [.receive (fun _ => false) (vlanHwaccelReceive (segment 1 97) 100),
      .receive (fun _ => false) (vlanHwaccelReceive (segment 2 98) 100)] 8
    (fun napi => napi.lroDesc.any fun d => d.any fun desc => desc.fragList.length == 1) true
    (by decide)
  simp only [List.any_eq_true] at ho
  obtain ⟨d, hmem, hd⟩ := ho
  cases d with
  | none => cases hd
  | some desc =>
    exact ⟨_, napi, hreach, ⟨desc, hmem, by simpa using hd⟩, (merged_apart hreach).1⟩

/-- A segment of VLAN 200 is merged into one of VLAN 100. -/
theorem vlans_merged :
    ∃ es napi, Reach ⟨16, 1500⟩ (fun _ _ => True) es napi ∧
      ∃ desc, some desc ∈ napi.lroDesc ∧ ∃ frag ∈ desc.fragList,
        desc.parent.vlanTag = 100 ∧ frag.skb.vlanTag = 200 := by
  obtain ⟨napi, hreach, ho⟩ := exists_reach_of_run ⟨16, 1500⟩
    [.receive (fun _ => false) (vlanHwaccelReceive (segment 1 97) 100),
      .receive (fun _ => false) (vlanHwaccelReceive (segment 2 98) 200)] 8
    (fun napi => napi.lroDesc.any fun d => d.any fun desc => desc.fragList.any fun frag =>
      desc.parent.vlanTag == 100 && frag.skb.vlanTag == 200) true
    (by decide)
  simp only [List.any_eq_true] at ho
  obtain ⟨d, hmem, hd⟩ := ho
  cases d with
  | none => cases hd
  | some desc =>
    simp only [Option.any_some, List.any_eq_true, Bool.and_eq_true, beq_iff_eq] at hd
    exact ⟨_, napi, hreach, desc, hmem, hd⟩

end VmkLinux.Net.Lro
