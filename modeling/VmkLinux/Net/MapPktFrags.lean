/-
  VmkLinux/Net/MapPktFrags.lean
  =============================
  **The bytes of a mapped packet**: what the linear part and the fragments of the buffer that
  `map_pkt_to_skb` makes have to do with the fragments of the packet.

  An entry of the buffer holds its size in 16 bits.  A fragment of which more is used loses the
  bytes that do not fit, and the loop goes on with the fragment behind it.
-/
import Mathlib.Algebra.Group.Int.Defs
import Mathlib.Algebra.Group.Nat.Defs
import Mathlib.Algebra.GroupWithZero.Nat
import VmkLinux.Net.MapPkt

namespace VmkLinux.Net.MapPkt

open VmkLinux.ByteBuf VmkLinux.Block.Io

/-! ### Bytes -/

/-- The machine addresses of a fragment. -/
def PktFrag.bytes (frag : PktFrag) : List (BitVec 64) := Block.Io.bytes frag.addr frag.length.toNat

/-- The machine addresses of the frame. -/
def Pkt.bytes (pkt : Pkt) : List (BitVec 64) :=
  (pkt.frags.flatMap PktFrag.bytes).take pkt.frameLen.toNat

def SkbFrag.addr (f : SkbFrag) : BitVec 64 := pageToPhys f.page + f.pageOffset.setWidth 64

def SkbFrag.bytes (f : SkbFrag) : List (BitVec 64) := Block.Io.bytes f.addr f.size.toNat

/-- The machine addresses of the linear part and of the fragments that count. -/
def SkBuff.bytes (skb : SkBuff) : List (BitVec 64) :=
  Block.Io.bytes skb.head skb.tail.toNat ++
    (skb.frags.take skb.nrFrags.toNat).flatMap SkbFrag.bytes

/-- The buffer is the frame, in order, and its counts are right. -/
structure SkBuff.Maps (skb : SkBuff) (pkt : Pkt) : Prop where
  bytes : skb.bytes = pkt.bytes
  nrFrags : skb.nrFrags.toNat ≤ MAX_SKB_FRAGS
  len : skb.len = pkt.frameLen
  linear : skb.len - skb.dataLen = skb.tail

/-- Of each fragment fewer than 2 ^ 16 bytes are used, when `left` bytes of the frame are left
    at the first. -/
def clipsFit : Nat → List PktFrag → Prop
  | _, [] => True
  | left, frag :: rest =>
      min frag.length.toNat left < 2 ^ 16 ∧ clipsFit (left - frag.length.toNat) rest

/-- This for the fragments behind the first, which is the linear part. -/
def Pkt.fragsFit (pkt : Pkt) : Prop :=
  match pkt.frags with
  | [] => True
  | frag :: rest => clipsFit (pkt.frameLen.toNat - frag.length.toNat) rest

/-! ### The entries that the loop makes -/

/-- The entries for `left` bytes. -/
def entries : List PktFrag → BitVec 32 → List SkbFrag
  | [], _ => []
  | frag :: rest, left =>
      if left = 0 then []
      else skbFrag frag left :: entries rest (left - (skbFrag frag left).size.setWidth 32)

/-- The bytes in some entries. -/
def total (fs : List SkbFrag) : Nat := (fs.map fun f => f.size.toNat).sum

section Entries

variable {frag : PktFrag} {rest : List PktFrag} {left : BitVec 32}

theorem toNat_clipped : (clipped frag left).toNat = min frag.length.toNat left.toNat := by
  unfold clipped
  split
  · rename_i h
    rw [BitVec.lt_def] at h
    omega
  · rename_i h
    rw [BitVec.lt_def] at h
    omega

theorem toNat_size :
    (skbFrag frag left).size.toNat = min frag.length.toNat left.toNat % 2 ^ 16 := by
  rw [skbFrag, BitVec.toNat_setWidth, toNat_clipped]

/-- What is left is counted right, whatever an entry holds. -/
theorem toNat_sub_size :
    (left - (skbFrag frag left).size.setWidth 32).toNat =
      left.toNat - (skbFrag frag left).size.toNat := by
  have hsize : (skbFrag frag left).size.toNat ≤ left.toNat := by
    rw [toNat_size]
    exact Nat.le_trans (Nat.mod_le _ _) (Nat.min_le_right _ _)
  have hwide : ((skbFrag frag left).size.setWidth 32).toNat = (skbFrag frag left).size.toNat := by
    rw [BitVec.toNat_setWidth]
    exact Nat.mod_eq_of_lt (by have := (skbFrag frag left).size.isLt; omega)
  rw [BitVec.toNat_sub_of_le (by rw [BitVec.le_def, hwide]; exact hsize), hwide]

theorem addr_skbFrag : (skbFrag frag left).addr = frag.addr := by
  rw [SkbFrag.addr, skbFrag, setWidth_offsetInPage (by decide), page_addr]

theorem bytes_skbFrag :
    (skbFrag frag left).bytes =
      Block.Io.bytes frag.addr (min frag.length.toNat left.toNat % 2 ^ 16) := by
  rw [SkbFrag.bytes, addr_skbFrag, toNat_size]

@[simp] theorem entries_zero (frags : List PktFrag) : entries frags 0 = [] := by
  cases frags with
  | nil => rfl
  | cons frag rest => exact if_pos rfl

theorem entries_cons (h : left ≠ 0) :
    entries (frag :: rest) left =
      skbFrag frag left :: entries rest (left - (skbFrag frag left).size.setWidth 32) := if_neg h

end Entries

/-- A loop that ends well has added the entries, no more than there is room for, and they hold
    as many bytes as were left. -/
theorem mapFrags_ok (frags : List PktFrag) : ∀ (n : Nat) (left : BitVec 32) (skb skb' : SkBuff),
    n ≤ MAX_SKB_FRAGS → mapFrags frags n left skb = .ok skb' →
      skb' = (entries frags left).foldl addFrag skb ∧
        n + (entries frags left).length ≤ MAX_SKB_FRAGS ∧
        total (entries frags left) = left.toNat := by
  induction frags with
  | nil =>
    intro n left skb skb' hn h
    rw [mapFrags] at h
    split at h
    · rename_i hleft
      cases h
      subst hleft
      exact ⟨rfl, hn, rfl⟩
    · split at h <;> cases h
  | cons frag rest ih =>
    intro n left skb skb' hn h
    rw [mapFrags] at h
    split at h
    · rename_i hleft
      cases h
      subst hleft
      rw [entries_zero]
      exact ⟨rfl, hn, rfl⟩
    · rename_i hleft
      split at h
      · cases h
      · rename_i hroom
        obtain ⟨hskb, hlength, htotal⟩ := ih (n + 1) _ _ skb' (by omega) h
        rw [entries_cons hleft]
        refine ⟨hskb, ?_, ?_⟩
        · rw [List.length_cons]
          omega
        · rw [toNat_sub_size] at htotal
          have hsize : (skbFrag frag left).size.toNat ≤ left.toNat := by
            rw [toNat_size]
            exact Nat.le_trans (Nat.mod_le _ _) (Nat.min_le_right _ _)
          rw [total] at htotal ⊢
          rw [List.map_cons, List.sum_cons, htotal]
          omega

/-- What the entries do to a buffer. -/
theorem foldl_addFrag (fs : List SkbFrag) : ∀ skb : SkBuff,
    fs.foldl addFrag skb =
      { skb with
        dataLen := skb.dataLen + BitVec.ofNat 32 (total fs)
        nrFrags := skb.nrFrags + BitVec.ofNat 16 fs.length
        frags := skb.frags ++ fs } := by
  induction fs with
  | nil =>
    intro skb
    simp [total]
  | cons f fs ih =>
    intro skb
    rw [List.foldl_cons, ih]
    have hsize : f.size.setWidth 32 = BitVec.ofNat 32 f.size.toNat := by
      rw [BitVec.ofNat_toNat]
    simp only [addFrag, total, List.map_cons, List.sum_cons, List.length_cons, hsize,
      BitVec.ofNat_add, List.append_assoc, List.singleton_append, BitVec.add_assoc]
    rw [BitVec.add_comm (BitVec.ofNat 16 fs.length) (BitVec.ofNat 16 1)]
    rfl

/-! ### The bytes of the entries -/

theorem take_bytes (addr : BitVec 64) (n k : Nat) :
    (Block.Io.bytes addr n).take k = Block.Io.bytes addr (min k n) := by
  rw [Block.Io.bytes, ← List.map_take, List.take_range]
  rfl

theorem length_flatMap_bytes (fs : List SkbFrag) :
    (fs.flatMap SkbFrag.bytes).length = total fs := by
  induction fs with
  | nil => rfl
  | cons f fs ih =>
    rw [List.flatMap_cons, List.length_append, ih, total, total, List.map_cons, List.sum_cons,
      SkbFrag.bytes, length_bytes]

theorem clipsFit_zero (frags : List PktFrag) : clipsFit 0 frags := by
  induction frags with
  | nil => exact trivial
  | cons frag rest ih =>
    refine ⟨by omega, ?_⟩
    rwa [Nat.zero_sub]

/-- The first `left` bytes of some fragments: those of the first one, and the rest. -/
theorem take_flatMap_cons (frag : PktFrag) (rest : List PktFrag) (left : Nat) :
    ((frag :: rest).flatMap PktFrag.bytes).take left =
      Block.Io.bytes frag.addr (min frag.length.toNat left) ++
        (rest.flatMap PktFrag.bytes).take (left - frag.length.toNat) := by
  rw [List.flatMap_cons, List.take_append, PktFrag.bytes, take_bytes, length_bytes,
    Nat.min_comm]

/-- An entry holds nothing that is not in a fragment. -/
theorem mem_fragments_of_mem_entries (frags : List PktFrag) : ∀ (left : BitVec 32)
    (x : BitVec 64), x ∈ (entries frags left).flatMap SkbFrag.bytes →
      x ∈ frags.flatMap PktFrag.bytes := by
  induction frags with
  | nil =>
    intro left x hx
    cases hx
  | cons frag rest ih =>
    intro left x hx
    by_cases hleft : left = 0
    · subst hleft
      rw [entries_zero] at hx
      cases hx
    · rw [entries_cons hleft, List.flatMap_cons, List.mem_append] at hx
      rw [List.flatMap_cons, List.mem_append]
      rcases hx with hx | hx
      · left
        have hle : min frag.length.toNat left.toNat % 2 ^ 16 ≤ frag.length.toNat :=
          Nat.le_trans (Nat.mod_le _ _) (Nat.min_le_left _ _)
        rw [bytes_skbFrag, ← Nat.min_eq_left hle, ← take_bytes] at hx
        exact List.mem_of_mem_take hx
      · right
        exact ih _ x hx

/-- Where every fragment fits, nothing is lost. -/
theorem bytes_of_fit (frags : List PktFrag) : ∀ left : BitVec 32, clipsFit left.toNat frags →
    (entries frags left).flatMap SkbFrag.bytes =
      (frags.flatMap PktFrag.bytes).take left.toNat := by
  induction frags with
  | nil =>
    intro left _
    exact List.take_nil.symm
  | cons frag rest ih =>
    intro left hfit
    by_cases hleft : left = 0
    · subst hleft
      rw [entries_zero]
      rfl
    · obtain ⟨hfirst, hrest⟩ := hfit
      have hnext : (left - (skbFrag frag left).size.setWidth 32).toNat =
          left.toNat - frag.length.toNat := by
        rw [toNat_sub_size, toNat_size, Nat.mod_eq_of_lt hfirst]
        omega
      rw [entries_cons hleft, List.flatMap_cons, bytes_skbFrag, Nat.mod_eq_of_lt hfirst,
        take_flatMap_cons, ← hnext, ih _ (by rwa [hnext])]

/-- Where one does not, the byte behind its entry is missing, unless it comes again later. -/
theorem fit_of_bytes (frags : List PktFrag) : ∀ left : BitVec 32,
    (frags.flatMap PktFrag.bytes).Nodup →
    (entries frags left).flatMap SkbFrag.bytes =
      (frags.flatMap PktFrag.bytes).take left.toNat →
    clipsFit left.toNat frags := by
  induction frags with
  | nil =>
    intro left _ _
    exact trivial
  | cons frag rest ih =>
    intro left hnodup hbytes
    by_cases hleft : left = 0
    · subst hleft
      exact clipsFit_zero _
    · rw [entries_cons hleft, List.flatMap_cons, bytes_skbFrag, take_flatMap_cons] at hbytes
      rw [List.flatMap_cons] at hnodup
      by_cases hfirst : min frag.length.toNat left.toNat < 2 ^ 16
      · have hnext : (left - (skbFrag frag left).size.setWidth 32).toNat =
            left.toNat - frag.length.toNat := by
          rw [toNat_sub_size, toNat_size, Nat.mod_eq_of_lt hfirst]
          omega
        rw [Nat.mod_eq_of_lt hfirst, ← hnext] at hbytes
        refine ⟨hfirst, ?_⟩
        rw [← hnext]
        exact ih _ (List.nodup_append.mp hnodup).2.1 (List.append_cancel_left hbytes)
      · -- the entries behind have to start with the byte that is lost
        exfalso
        have hmod : min frag.length.toNat left.toNat % 2 ^ 16 < 2 ^ 16 :=
          Nat.mod_lt _ (by decide)
        have hsplit := bytes_append frag.addr (min frag.length.toNat left.toNat % 2 ^ 16)
          (min frag.length.toNat left.toNat - min frag.length.toNat left.toNat % 2 ^ 16)
        rw [Nat.add_sub_of_le (Nat.mod_le _ _)] at hsplit
        rw [← hsplit, List.append_assoc] at hbytes
        have hlater := List.append_cancel_left hbytes
        obtain ⟨x, hx⟩ : ∃ x, x ∈ Block.Io.bytes
            (frag.addr + BitVec.ofNat 64 (min frag.length.toNat left.toNat % 2 ^ 16))
            (min frag.length.toNat left.toNat - min frag.length.toNat left.toNat % 2 ^ 16) := by
          apply List.exists_mem_of_length_pos
          rw [length_bytes]
          omega
        have hhere : x ∈ frag.bytes := by
          apply List.mem_of_mem_take (i := left.toNat)
          rw [PktFrag.bytes, take_bytes, Nat.min_comm, ← hsplit]
          exact List.mem_append_right _ hx
        have hagain : x ∈ rest.flatMap PktFrag.bytes := by
          apply mem_fragments_of_mem_entries rest
          rw [hlater]
          exact List.mem_append_left _ hx
        exact (List.nodup_append.mp hnodup).2.2 x hhere x hagain rfl

/-! ### The buffer as a whole -/

section Fill

variable {dev : NetDevice} {pkt : Pkt} {queueMapping : BitVec 16} {skb : SkBuff}

theorem vlanPutTag_ok {skb' : SkBuff} (h : vlanPutTag dev pkt skb = .ok skb') :
    ∃ tag, skb' = { skb with vlanTag := tag } := by
  unfold vlanPutTag at h
  split at h
  · cases h
    exact ⟨_, rfl⟩
  · split at h
    · cases h
      exact ⟨_, rfl⟩
    · cases h

theorem checkTso_ok {hdr : Headers} {skb' : SkBuff} (h : checkTso dev pkt hdr skb = .ok skb') :
    ∃ size segs type, skb' = { skb with gsoSize := size, gsoSegs := segs, gsoType := type } := by
  unfold checkTso at h
  split at h
  · simp only [setTso] at h
    repeat' split at h
    all_goals first
      | cases h; done
      | cases h; exact ⟨_, _, _, rfl⟩
  · simp only [checkSize] at h
    split at h
    · cases h
    · cases h
      exact ⟨_, _, _, rfl⟩

theorem setCsum_eq (pkt : Pkt) (hdr : Headers) (skb : SkBuff) :
    ∃ csum hw, setCsum pkt hdr skb = { skb with csum := csum, csumHw := hw } := by
  unfold setCsum
  repeat' split
  all_goals exact ⟨_, _, rfl⟩

/-- How a buffer is filled: headers and tag, the checks, the checksum and the fragments. -/
theorem fillSkb_ok (h : fillSkb dev pkt queueMapping = .ok skb) :
    ∃ frag rest tag skb₁, pkt.frags = frag :: rest ∧
      checkTso dev pkt (findHeaders pkt frag).2
        { setupSkb pkt frag queueMapping with vlanTag := tag } = .ok skb₁ ∧
      mapFrags rest 0 (pkt.frameLen - headLen pkt frag)
        (setCsum pkt (findHeaders pkt frag).2 skb₁) = .ok skb := by
  unfold fillSkb at h
  split at h
  · cases h
  · rename_i frag rest hfrags
    split at h
    · cases h
    · rename_i skb₀ hvlan
      obtain ⟨tag, rfl⟩ := vlanPutTag_ok hvlan
      split at h
      · cases h
      · rename_i skb₁ htso
        exact ⟨frag, rest, tag, skb₁, hfrags, htso, h⟩

theorem toNat_headLen (frag : PktFrag) :
    (headLen pkt frag).toNat = min frag.length.toNat pkt.frameLen.toNat := by
  unfold headLen
  split
  · rename_i hlt
    rw [BitVec.lt_def] at hlt
    omega
  · rename_i hlt
    rw [BitVec.lt_def] at hlt
    omega

/-- A buffer that is filled has its linear part, and the entries for the rest. -/
theorem fillSkb_frags (h : fillSkb dev pkt queueMapping = .ok skb) :
    ∃ frag rest, pkt.frags = frag :: rest ∧ skb.head = frag.addr ∧ skb.len = pkt.frameLen ∧
      skb.tail = headLen pkt frag ∧
      skb.frags = entries rest (pkt.frameLen - headLen pkt frag) ∧
      skb.frags.length ≤ MAX_SKB_FRAGS ∧ skb.nrFrags.toNat = skb.frags.length ∧
      skb.dataLen = pkt.frameLen - headLen pkt frag := by
  obtain ⟨frag, rest, tag, skb₁, hfrags, htso, hmap⟩ := fillSkb_ok h
  obtain ⟨size, segs, type, rfl⟩ := checkTso_ok htso
  obtain ⟨csum, hw, hcsum⟩ := setCsum_eq pkt (findHeaders pkt frag).2
    { setupSkb pkt frag queueMapping with
      vlanTag := tag, gsoSize := size, gsoSegs := segs, gsoType := type }
  rw [hcsum] at hmap
  obtain ⟨hskb, hlength, htotal⟩ := mapFrags_ok rest 0 _ _ skb (Nat.zero_le _) hmap
  rw [Nat.zero_add] at hlength
  have hsmall : MAX_SKB_FRAGS < 2 ^ 16 := by decide
  rw [foldl_addFrag] at hskb
  subst hskb
  refine ⟨frag, rest, hfrags, rfl, rfl, rfl, List.nil_append _, ?_, ?_, ?_⟩
  · exact hlength
  · change (0#16 + BitVec.ofNat 16 (entries rest _).length).toNat = (entries rest _).length
    rw [BitVec.zero_add, BitVec.toNat_ofNat]
    exact Nat.mod_eq_of_lt (by omega)
  · change 0#32 + BitVec.ofNat 32 (total (entries rest _)) = _
    rw [htotal, BitVec.zero_add, BitVec.ofNat_toNat, BitVec.setWidth_eq]

/-- The counts are always right, and the bytes where the fragments fit. -/
theorem fillSkb_maps_iff (h : fillSkb dev pkt queueMapping = .ok skb) :
    skb.Maps pkt ↔ skb.bytes = pkt.bytes := by
  obtain ⟨frag, rest, -, -, hlen, htail, -, hroom, hnr, hdata⟩ := fillSkb_frags h
  refine ⟨SkBuff.Maps.bytes, fun hbytes => ⟨hbytes, ?_, hlen, ?_⟩⟩
  · rw [hnr]
    exact hroom
  · rw [hlen, htail, hdata]
    rw [BitVec.sub_eq_iff_eq_add, BitVec.add_comm, BitVec.sub_add_cancel]

theorem fillSkb_bytes (h : fillSkb dev pkt queueMapping = .ok skb) :
    ∃ frag rest, pkt.frags = frag :: rest ∧
      (skb.bytes = pkt.bytes ↔
        (entries rest (pkt.frameLen - headLen pkt frag)).flatMap SkbFrag.bytes =
          (rest.flatMap PktFrag.bytes).take (pkt.frameLen - headLen pkt frag).toNat) ∧
      (pkt.frameLen - headLen pkt frag).toNat = pkt.frameLen.toNat - frag.length.toNat := by
  obtain ⟨frag, rest, hfrags, hhead, -, htail, hentries, -, hnr, -⟩ := fillSkb_frags h
  have hleft : (pkt.frameLen - headLen pkt frag).toNat =
      pkt.frameLen.toNat - frag.length.toNat := by
    have hle : headLen pkt frag ≤ pkt.frameLen := by
      rw [BitVec.le_def, toNat_headLen]
      exact Nat.min_le_right _ _
    rw [BitVec.toNat_sub_of_le hle, toNat_headLen]
    omega
  refine ⟨frag, rest, hfrags, ?_, hleft⟩
  rw [SkBuff.bytes, hnr, List.take_length, hhead, htail, toNat_headLen, hentries, Pkt.bytes,
    hfrags, take_flatMap_cons, hleft]
  exact List.append_right_inj _

end Fill

/-! ### The result -/

/-- A call that does not map the packet leaves nothing behind. -/
def Result.Clean (r : Result) (allocated : Nat) : Prop :=
  r.error ≠ none → r.pskb = none ∧ r.allocated = allocated

/-- **Mapping a packet.**  A call that fails frees its buffer and gives none.  One that succeeds
    gives a buffer with the bytes of the frame, in order, and with the right counts, if of each
    fragment fewer than 2 ^ 16 bytes are used; and where no two fragments share memory, only
    then. -/
theorem map_pkt_to_skb (dev : NetDevice) (pkt : Pkt) (queueMapping : BitVec 16) (memory : Bool)
    (allocated : Nat) (r : Result)
    (h : mapPktToSkb dev pkt queueMapping memory allocated = some r) :
    r.Clean allocated ∧
      (r.error = none → ∃ skb, r.pskb = some skb ∧ r.allocated = allocated + 1 ∧
        (pkt.fragsFit → skb.Maps pkt) ∧
        ((pkt.frags.flatMap PktFrag.bytes).Nodup → skb.Maps pkt → pkt.fragsFit)) := by
  unfold mapPktToSkb at h
  split at h
  · cases h
    exact ⟨fun _ => ⟨rfl, rfl⟩, fun herror => by cases herror⟩
  · split at h
    · rename_i skb hskb
      cases h
      refine ⟨fun herror => absurd rfl herror, fun _ => ⟨skb, rfl, rfl, ?_, ?_⟩⟩
      · intro hfit
        rw [fillSkb_maps_iff hskb]
        obtain ⟨frag, rest, hfrags, hbytes, hleft⟩ := fillSkb_bytes hskb
        rw [Pkt.fragsFit, hfrags] at hfit
        rw [hbytes]
        apply bytes_of_fit
        rw [hleft]
        exact hfit
      · intro hnodup hmaps
        obtain ⟨frag, rest, hfrags, hbytes, hleft⟩ := fillSkb_bytes hskb
        rw [hfrags, List.flatMap_cons] at hnodup
        rw [Pkt.fragsFit, hfrags]
        dsimp only
        rw [← hleft]
        apply fit_of_bytes _ _ (List.nodup_append.mp hnodup).2.1
        exact hbytes.mp hmaps.bytes
    · cases h
    · cases h
      exact ⟨fun _ => ⟨rfl, Nat.add_sub_cancel _ _⟩, fun herror => by cases herror⟩

/-! ### A frame of more than 64K -/

/-- An Ethernet frame with an IPv4 and a TCP header of 20 bytes each. -/
def tcpFrame : Buf
  | 12 => 0x08
  | 14 => 0x45
  | 23 => 6
  | 46 => 0x50
  | _ => 0

def device : NetDevice := { mtu := 1500 }

/-- Headers, and 100 bytes in a fragment of their own. -/
def smallPkt : Pkt :=
  { frags := [⟨0x1000, 54⟩, ⟨0x5000, 100⟩], frameLen := 154, frame := tcpFrame }

theorem map_pkt_to_skb_small :
    ∃ skb, (mapPktToSkb device smallPkt 0 true 0).bind Result.pskb = some skb ∧
      skb.Maps smallPkt := by
  obtain ⟨skb, hskb, -, hmaps, -⟩ :=
    (map_pkt_to_skb device smallPkt 0 true 0 _ rfl).2 rfl
  exact ⟨skb, hskb, hmaps ⟨by decide, trivial⟩⟩

/-- A packet to be segmented, with a fragment of 64K behind the headers; there is more behind
    it than the frame has. -/
def largePkt : Pkt :=
  { frags := [⟨0x1000, 54⟩, ⟨0x100000, 65536⟩, ⟨0x200000, 40000⟩, ⟨0x300000, 40000⟩]
    frameLen := 65590
    frame := tcpFrame
    mustTso := some 1448 }

theorem head?_bytes_append {addr : BitVec 64} {n : Nat} (l : List (BitVec 64)) (h : 0 < n) :
    (Block.Io.bytes addr n ++ l).head? = some addr := by
  obtain ⟨m, rfl⟩ := Nat.exists_eq_succ_of_ne_zero (Nat.ne_of_gt h)
  rw [Block.Io.bytes, List.range_succ_eq_map, List.map_cons, List.cons_append, List.head?_cons]
  exact congrArg some (BitVec.add_zero addr)

/-- The entry of 64K is empty, and the frame goes on with memory that is not of the frame. -/
theorem large_fragment_lost :
    ¬ ∀ (dev : NetDevice) (pkt : Pkt) (queueMapping : BitVec 16) (memory : Bool)
      (allocated : Nat) (r : Result),
      mapPktToSkb dev pkt queueMapping memory allocated = some r →
        r.Clean allocated ∧ (r.error = none → ∃ skb, r.pskb = some skb ∧ skb.Maps pkt) := by
  intro h
  have hrun : ∃ skb, fillSkb device largePkt 0 = .ok skb := ⟨_, rfl⟩
  obtain ⟨skb, hskb⟩ := hrun
  have hmap : mapPktToSkb device largePkt 0 true 0 =
      some { error := none, pskb := some skb, allocated := 1 } := by
    rw [mapPktToSkb, hskb]
    rfl
  obtain ⟨-, hok⟩ := h device largePkt 0 true 0 _ hmap
  obtain ⟨skb', hskb', hmaps⟩ := hok rfl
  cases hskb'
  obtain ⟨frag, rest, hfrags, hbytes, -⟩ := fillSkb_bytes hskb
  cases hfrags
  have hentries : entries [⟨0x100000, 65536⟩, ⟨0x200000, 40000⟩, ⟨0x300000, 40000⟩] 65536 =
      [⟨0x100, 0, 0⟩, ⟨0x200, 0, 40000⟩, ⟨0x300, 0, 25536⟩] := by decide
  have hall := hbytes.mp hmaps.bytes
  have hempty : SkbFrag.bytes ⟨0x100, 0, 0⟩ = [] := rfl
  change (entries _ 65536).flatMap _ = (List.flatMap _ _).take 65536 at hall
  rw [hentries, take_flatMap_cons, List.flatMap_cons, List.flatMap_cons, hempty,
    List.nil_append] at hall
  have hhead := congrArg List.head? hall
  rw [SkbFrag.bytes, head?_bytes_append _ (by decide), head?_bytes_append _ (by decide)] at hhead
  exact absurd hhead (by decide)

end VmkLinux.Net.MapPkt
