/-
  VmkLinux/Net/MapPktChecks.lean
  ==============================
  **What reaches the driver**: the checks that `map_pkt_to_skb` makes of the sizes of a packet,
  in 16 and 32 bits, against the same sizes as numbers.
-/
import VmkLinux.Net.MapPktFrags

namespace VmkLinux.Net.MapPkt

open VmkLinux.ByteBuf

/-! ### Sane packets -/

/-- The length of the headers behind the one of Ethernet, as a number. -/
def headersLen (b : Buf) (nh hraw : Nat) : Int := hraw + tcpHdrlen b hraw - nh

/-- A packet that the device has to segment: its TCP header is in the linear part, there is more
    than one segment in it, each is within the MTU, and the device is told the right size. -/
structure SaneTso (dev : NetDevice) (pkt : Pkt) (skb : SkBuff) (tsoMss : BitVec 32)
    (hraw : Nat) : Prop where
  linear : hraw + tcpHdrlen pkt.frame hraw ≤ skb.tail.toNat
  payload : (pkt.frameLen.toNat : Int) - (ethHeaderLen pkt.frame).toNat -
    headersLen pkt.frame skb.nh hraw > tsoMss.toNat
  segment : (tsoMss.toNat : Int) + headersLen pkt.frame skb.nh hraw ≤ dev.mtu.toNat
  gsoSize : skb.gsoSize.toNat = tsoMss.toNat

/-- What the driver may rely on. -/
def Sane (dev : NetDevice) (pkt : Pkt) (skb : SkBuff) : Prop :=
  match pkt.mustTso with
  | some tsoMss => ∃ hraw, skb.hraw = some hraw ∧ SaneTso dev pkt skb tsoMss hraw
  | none =>
      (ethHeaderLen pkt.frame).toNat ≤ pkt.frameLen.toNat ∧
        pkt.frameLen.toNat ≤ dev.mtu.toNat + (ethHeaderLen pkt.frame).toNat

/-- Where the transport header of a packet is. -/
def Pkt.transport (pkt : Pkt) : Option Nat :=
  match pkt.frags with
  | [] => none
  | frag :: _ => (findHeaders pkt frag).1

/-- The bytes of the frame that the first fragment has. -/
def Pkt.linear (pkt : Pkt) : Nat :=
  match pkt.frags with
  | [] => 0
  | frag :: _ => min frag.length.toNat pkt.frameLen.toNat

/-- The first fragment has the TCP header as a whole and the mss fits in 16 bits, and so does
    the length of the headers, unless the packet is within its limits all the same. -/
structure FitsTso (dev : NetDevice) (pkt : Pkt) (tsoMss : BitVec 32) (hraw : Nat) : Prop where
  linear : hraw + tcpHdrlen pkt.frame hraw ≤ pkt.linear
  mss : tsoMss.toNat < 2 ^ 16
  headers : headersLen pkt.frame (ethHeaderLen pkt.frame).toNat hraw < 2 ^ 16 ∨
    (pkt.frameLen.toNat : Int) > hraw + tcpHdrlen pkt.frame hraw + tsoMss.toNat ∧
      (tsoMss.toNat : Int) + headersLen pkt.frame (ethHeaderLen pkt.frame).toNat hraw ≤
        dev.mtu.toNat

/-- The numbers of the packet are those that the checks have computed. -/
def Pkt.fits (dev : NetDevice) (pkt : Pkt) : Prop :=
  match pkt.mustTso with
  | some tsoMss => ∃ hraw, pkt.transport = some hraw ∧ FitsTso dev pkt tsoMss hraw
  | none => (ethHeaderLen pkt.frame).toNat ≤ pkt.frameLen.toNat

/-! ### What was checked -/

section Checked

variable {dev : NetDevice} {pkt : Pkt} {queueMapping : BitVec 16} {skb : SkBuff}

/-- A packet to be segmented has passed the checks. -/
theorem setTso_ok {hdr : Headers} {tsoMss : BitVec 32} {skb' : SkBuff}
    (h : setTso dev pkt hdr tsoMss skb = .ok skb') :
    ∃ hraw, skb.hraw = some hraw ∧
      tsoMss < pkt.frameLen - hdr.ehLen.setWidth 32 -
        (inetHdrLen pkt.frame skb.nh hraw).setWidth 32 ∧
      tsoMss + (inetHdrLen pkt.frame skb.nh hraw).setWidth 32 ≤ dev.mtu ∧
      skb'.gsoSize = tsoMss.setWidth 16 := by
  simp only [setTso] at h
  split at h
  · cases h
  · split at h
    · cases h
    · rename_i hraw hhraw
      split at h
      · cases h
      · split at h
        · cases h
        · rename_i hpayload
          split at h
          · cases h
          · rename_i hmtu
            split at h
            · cases h
            · cases h
              exact ⟨hraw, hhraw, BitVec.not_le.mp hpayload, BitVec.not_lt.mp hmtu, rfl⟩

/-- The transport header does not come before the network header. -/
theorem nh_le_transport {frag : PktFrag} {hraw : Nat}
    (h : (findHeaders pkt frag).1 = some hraw) : (ethHeaderLen pkt.frame).toNat ≤ hraw := by
  simp only [findHeaders] at h
  split at h
  · cases h
    exact Nat.le_add_right _ _
  · split at h
    · exact Nat.le_trans (Nat.le_add_right _ _) (le_ipv6SetHraw_raw h)
    · cases h

theorem findHeaders_ehLen (frag : PktFrag) :
    (findHeaders pkt frag).2.ehLen = ethHeaderLen pkt.frame := by
  simp only [findHeaders]
  split
  · rfl
  · split <;> rfl

/-- The headers, the linear part and the checks of a buffer that is filled. -/
theorem fillSkb_checked (h : fillSkb dev pkt queueMapping = .ok skb) :
    skb.nh = (ethHeaderLen pkt.frame).toNat ∧ skb.hraw = pkt.transport ∧
      skb.tail.toNat = pkt.linear ∧
      match pkt.mustTso with
      | some tsoMss => ∃ hraw, pkt.transport = some hraw ∧
          (ethHeaderLen pkt.frame).toNat ≤ hraw ∧
          tsoMss < pkt.frameLen - (ethHeaderLen pkt.frame).setWidth 32 -
            (inetHdrLen pkt.frame (ethHeaderLen pkt.frame).toNat hraw).setWidth 32 ∧
          tsoMss + (inetHdrLen pkt.frame (ethHeaderLen pkt.frame).toNat hraw).setWidth 32 ≤
            dev.mtu ∧
          skb.gsoSize = tsoMss.setWidth 16
      | none => pkt.frameLen - (ethHeaderLen pkt.frame).setWidth 32 ≤ dev.mtu := by
  obtain ⟨frag, rest, tag, skb₁, hfrags, htso, hmap⟩ := fillSkb_ok h
  obtain ⟨csum, hw, hcsum⟩ := setCsum_eq pkt (findHeaders pkt frag).2 skb₁
  rw [hcsum] at hmap
  obtain ⟨hskb, -, -⟩ := mapFrags_ok rest 0 _ _ skb (Nat.zero_le _) hmap
  rw [foldl_addFrag] at hskb
  have hsame : skb.nh = skb₁.nh ∧ skb.hraw = skb₁.hraw ∧ skb.tail = skb₁.tail ∧
      skb.gsoSize = skb₁.gsoSize := by
    subst hskb
    exact ⟨rfl, rfl, rfl, rfl⟩
  obtain ⟨hnh, hhraw, htail, hgso⟩ := hsame
  have htransport : pkt.transport = (findHeaders pkt frag).1 := by rw [Pkt.transport, hfrags]
  obtain ⟨size, segs, type, hset⟩ := checkTso_ok htso
  have hsetup : skb₁.nh = (ethHeaderLen pkt.frame).toNat ∧
      skb₁.hraw = (findHeaders pkt frag).1 ∧ skb₁.tail = headLen pkt frag := by
    subst hset
    exact ⟨rfl, rfl, rfl⟩
  refine ⟨hnh.trans hsetup.1, ?_, ?_, ?_⟩
  · rw [hhraw, hsetup.2.1, htransport]
  · rw [htail, hsetup.2.2, toNat_headLen, Pkt.linear, hfrags]
  · cases hmust : pkt.mustTso with
    | some tsoMss =>
      rw [checkTso, hmust] at htso
      obtain ⟨hraw, hfound, hpayload, hmtu, hsize⟩ := setTso_ok htso
      rw [findHeaders_ehLen] at hpayload
      refine ⟨hraw, htransport.trans hfound, nh_le_transport hfound, hpayload, hmtu, ?_⟩
      rw [hgso, hsize]
    | none =>
      rw [checkTso, hmust] at htso
      simp only [checkSize] at htso
      split at htso
      · cases htso
      · rename_i hsize
        rw [findHeaders_ehLen] at hsize
        exact BitVec.not_lt.mp hsize

end Checked

/-! ### Machine numbers and numbers -/

/-- The length of the headers as the code has it. -/
theorem toNat_inetHdrLen {b : Buf} {nh hraw : Nat} (hle : nh ≤ hraw)
    (h : headersLen b nh hraw < 2 ^ 16) :
    (((inetHdrLen b nh hraw).setWidth 32).toNat : Int) = headersLen b nh hraw := by
  rw [headersLen] at h ⊢
  rw [BitVec.toNat_setWidth, inetHdrLen, BitVec.toNat_ofNat]
  omega

section Numbers

variable {dev : NetDevice} {pkt : Pkt} {skb : SkBuff} {tsoMss : BitVec 32} {hraw : Nat}

theorem toNat_ehLen (b : Buf) :
    ((ethHeaderLen b).setWidth 32).toNat = (ethHeaderLen b).toNat := by
  have := (ethHeaderLen b).isLt
  rw [BitVec.toNat_setWidth]
  omega

theorem linear_le (pkt : Pkt) : pkt.linear ≤ pkt.frameLen.toNat := by
  unfold Pkt.linear
  split
  · exact Nat.zero_le _
  · exact Nat.min_le_right _ _

/-- The checks of a packet to be segmented are exact when its numbers fit. -/
theorem saneTso_iff (hnh : skb.nh = (ethHeaderLen pkt.frame).toNat)
    (htail : skb.tail.toNat = pkt.linear) (hle : (ethHeaderLen pkt.frame).toNat ≤ hraw)
    (hpayload : tsoMss < pkt.frameLen - (ethHeaderLen pkt.frame).setWidth 32 -
      (inetHdrLen pkt.frame (ethHeaderLen pkt.frame).toNat hraw).setWidth 32)
    (hmtu : tsoMss + (inetHdrLen pkt.frame (ethHeaderLen pkt.frame).toNat hraw).setWidth 32 ≤
      dev.mtu)
    (hgso : skb.gsoSize = tsoMss.setWidth 16) :
    SaneTso dev pkt skb tsoMss hraw ↔ FitsTso dev pkt tsoMss hraw := by
  have hgsoNat : skb.gsoSize.toNat = tsoMss.toNat % 2 ^ 16 := by
    rw [hgso, BitVec.toNat_setWidth]
  have hlinear := linear_le pkt
  constructor
  · rintro ⟨hlin, hpay, hseg, hsize⟩
    rw [hnh] at hpay hseg
    refine ⟨htail ▸ hlin, by omega, .inr ⟨?_, hseg⟩⟩
    rw [headersLen] at hpay
    omega
  · rintro ⟨hlin, hmss, hheaders⟩
    refine ⟨htail ▸ hlin, ?_, ?_, by omega⟩
    · rw [hnh]
      rcases hheaders with hsmall | ⟨hpay, -⟩
      · -- nothing wraps around, as the headers are within the frame
        have hlen := toNat_inetHdrLen hle hsmall
        rw [BitVec.lt_def, BitVec.toNat_sub, BitVec.toNat_sub, toNat_ehLen] at hpayload
        rw [headersLen] at hlen ⊢
        omega
      · rw [headersLen]
        omega
    · rw [hnh]
      rcases hheaders with hsmall | ⟨-, hseg⟩
      · have hlen := toNat_inetHdrLen hle hsmall
        rw [BitVec.le_def, BitVec.toNat_add] at hmtu
        omega
      · exact hseg

/-- The check of any other packet is exact when the frame has its Ethernet header. -/
theorem size_ok_iff
    (h : pkt.frameLen - (ethHeaderLen pkt.frame).setWidth 32 ≤ dev.mtu) :
    ((ethHeaderLen pkt.frame).toNat ≤ pkt.frameLen.toNat ∧
        pkt.frameLen.toNat ≤ dev.mtu.toNat + (ethHeaderLen pkt.frame).toNat) ↔
      (ethHeaderLen pkt.frame).toNat ≤ pkt.frameLen.toNat := by
  refine ⟨And.left, fun hframe => ⟨hframe, ?_⟩⟩
  rw [BitVec.le_def, BitVec.toNat_sub_of_le (by rwa [BitVec.le_def, toNat_ehLen]),
    toNat_ehLen] at h
  omega

end Numbers

/-- **What reaches the driver.**  A packet that is mapped is sane exactly when its numbers are
    those that the checks have computed: the TCP header of one to be segmented is in the first
    fragment and its mss and the length of its headers fit in 16 bits; any other has its Ethernet
    header. -/
theorem mapped_sane (dev : NetDevice) (pkt : Pkt) (queueMapping : BitVec 16) (memory : Bool)
    (allocated : Nat) (r : Result)
    (h : mapPktToSkb dev pkt queueMapping memory allocated = some r) (hok : r.error = none) :
    ∃ skb, r.pskb = some skb ∧ (Sane dev pkt skb ↔ pkt.fits dev) := by
  unfold mapPktToSkb at h
  split at h
  · cases h
    cases hok
  · split at h
    · rename_i skb hskb
      cases h
      refine ⟨skb, rfl, ?_⟩
      obtain ⟨hnh, hhraw, htail, hchecked⟩ := fillSkb_checked hskb
      unfold Sane Pkt.fits
      split at hchecked
      · rename_i tsoMss htso
        obtain ⟨hraw, htransport, hle, hpayload, hmtu, hgso⟩ := hchecked
        rw [hhraw, htransport]
        have hiff := saneTso_iff hnh htail hle hpayload hmtu hgso
        constructor
        · rintro ⟨hraw', heq, hsane⟩
          cases heq
          exact ⟨hraw, rfl, hiff.mp hsane⟩
        · rintro ⟨hraw', heq, hfits⟩
          cases heq
          exact ⟨hraw, rfl, hiff.mpr hfits⟩
      · exact size_ok_iff hchecked
    · cases h
    · cases h
      cases hok

/-- 4000 bytes of payload behind the headers. -/
def segmentedPkt : Pkt :=
  { frags := [⟨0x1000, 54⟩, ⟨0x5000, 4000⟩], frameLen := 4054, frame := tcpFrame
    mustTso := some 1448 }

theorem mapped_sane_segmented :
    ∃ skb, (mapPktToSkb device segmentedPkt 0 true 0).bind Result.pskb = some skb ∧
      Sane device segmentedPkt skb := by
  obtain ⟨skb, hskb, hsane⟩ := mapped_sane device segmentedPkt 0 true 0 _ rfl rfl
  have hfits : segmentedPkt.fits device :=
    ⟨34, rfl, by decide, by decide, .inl (by decide)⟩
  exact ⟨skb, hskb, hsane.mpr hfits⟩

/-- The same, with a first fragment of 40 bytes: of the TCP header 6 bytes are in it. -/
def splitPkt : Pkt :=
  { segmentedPkt with frags := [⟨0x1000, 40⟩, ⟨0x5000, 4014⟩] }

theorem header_not_linear :
    ¬ ∀ (dev : NetDevice) (pkt : Pkt) (queueMapping : BitVec 16) (memory : Bool)
      (allocated : Nat) (r : Result),
      mapPktToSkb dev pkt queueMapping memory allocated = some r → r.error = none →
        ∃ skb, r.pskb = some skb ∧ Sane dev pkt skb := by
  intro h
  obtain ⟨skb, hskb, hraw, hhraw, hsane⟩ := h device splitPkt 0 true 0 _ rfl rfl
  cases hskb
  cases hhraw
  exact absurd hsane.linear (by decide)

end VmkLinux.Net.MapPkt
