/-
  VmkLinux/Block/Segments.lean
  ============================
  **Mapping a request to a scatter list** (`vmklinux26/vmware/linux_block.c`): `blk_rq_map_sg`.

  A vector is merged into the last entry when it follows on the vector before it, ends in the
  window that that one starts in, and the entry stays within `max_segment_size`.  The first two
  tests look at the last vector only; that they hold of the whole entry is the invariant of the
  loop (`Open`).

  The length of an entry is an `unsigned int`, and so is the sum that is compared with
  `max_segment_size`: an entry that would reach `2 ^ 32` bytes passes the test and loses them
  (`transfer_lost`).
-/
import VmkLinux.Block.Bio

namespace VmkLinux.Block.Io

/-! ### `blk_rq_map_sg` -/

/-- The limits of a `request_queue_t`. -/
structure Limits where
  queueFlags : BitVec 64
  maxSegmentSize : BitVec 32
  segBoundaryMask : BitVec 64
deriving DecidableEq, Repr

/-- `struct scatterlist`. -/
structure Scatterlist where
  page : BitVec 64
  dmaAddress : BitVec 64
  length : BitVec 32
  offset : BitVec 32
deriving DecidableEq, Repr

/-- `QUEUE_FLAG_CLUSTER`. -/
def Limits.cluster (q : Limits) : Bool := decide (q.queueFlags &&& (1 <<< 0) ≠ 0)

/-- `BIOVEC_PHYS_MERGEABLE`. -/
def physMergeable (vec1 vec2 : BioVec) : Bool :=
  decide (bvecToPhys vec1 + vec1.bvLen.setWidth 64 = bvecToPhys vec2)

/-- `BIOVEC_SEG_BOUNDARY`. -/
def segBoundary (q : Limits) (b1 b2 : BioVec) : Bool :=
  decide (bvecToPhys b1 ||| q.segBoundaryMask =
    (bvecToPhys b2 + b2.bvLen.setWidth 64 - 1) ||| q.segBoundaryMask)

/-- The entries that are filled in, the last one first, and `bvprv`. -/
structure MapState where
  sg : List Scatterlist
  bvprv : Option BioVec
deriving DecidableEq, Repr

/-- The label `new_segment`. -/
def newSegment (bvec : BioVec) : Scatterlist :=
  { page := bvec.bvPage, dmaAddress := bvec.addr, length := bvec.bvLen, offset := bvec.bvOffset }

/-- One round of the inner loop. -/
def mapBvec (q : Limits) (st : MapState) (bvec : BioVec) : MapState :=
  let nbytes := bvec.bvLen
  match st.bvprv, st.sg with
  | some bvprv, last :: sg =>
      if q.cluster then
        if q.maxSegmentSize < last.length + nbytes then ⟨newSegment bvec :: st.sg, some bvec⟩
        else if physMergeable bvprv bvec = false then ⟨newSegment bvec :: st.sg, some bvec⟩
        else if segBoundary q bvprv bvec = false then ⟨newSegment bvec :: st.sg, some bvec⟩
        else ⟨{ last with length := last.length + nbytes } :: sg, some bvec⟩
      else ⟨newSegment bvec :: st.sg, some bvec⟩
  | _, _ => ⟨newSegment bvec :: st.sg, some bvec⟩

/-- `blk_rq_map_sg`: the `nsegs` entries that it fills in. -/
def blkRqMapSg (q : Limits) (rq : Request) : List Scatterlist :=
  let init : MapState := ⟨[], none⟩
  (rq.bios.foldl (fun st (bio : Bio) => bio.segments.foldl (mapBvec q) st) init).sg.reverse

/-! ### What it is to preserve -/

def Scatterlist.bytes (e : Scatterlist) : List (BitVec 64) := Io.bytes e.dmaAddress e.length.toNat

/-- The bytes lie in one window of the mask. -/
def Within (mask : BitVec 64) (l : List (BitVec 64)) : Prop :=
  ∀ a ∈ l, ∀ b ∈ l, a ||| mask = b ||| mask

/-- The entries are the transfer: the same bytes in the same order, in no more pieces, and
    within the limits that each piece of the request keeps. -/
structure Preserves (q : Limits) (rq : Request) (sg : List Scatterlist) : Prop where
  bytes : sg.flatMap Scatterlist.bytes = rq.bvecs.flatMap BioVec.bytes
  nsegs : sg.length ≤ rq.bvecs.length
  limits : (∀ v ∈ rq.bvecs, v.bvLen ≤ q.maxSegmentSize ∧ Within q.segBoundaryMask v.bytes) →
    ∀ e ∈ sg, e.length ≤ q.maxSegmentSize ∧ Within q.segBoundaryMask e.bytes

/-- `v` is merged after `prev` into an entry of `n` bytes, the sum taken as the code takes it. -/
def merges (q : Limits) (n : Nat) (prev v : BioVec) : Bool :=
  q.cluster && physMergeable prev v && segBoundary q prev v &&
    decide ((n + v.bvLen.toNat) % 2 ^ 32 ≤ q.maxSegmentSize.toNat)

/-- Some vector is merged into an entry that reaches `2 ^ 32` bytes with it; the entry has `n`
    bytes so far, and ends with `prev`. -/
def overflows (q : Limits) : Nat → BioVec → List BioVec → Bool
  | _, _, [] => false
  | n, prev, v :: vs =>
      if merges q n prev v then
        decide (2 ^ 32 ≤ n + v.bvLen.toNat) || overflows q (n + v.bvLen.toNat) v vs
      else overflows q v.bvLen.toNat v vs

/-- Some entry of the request's list would reach `2 ^ 32` bytes. -/
def Request.overflows (q : Limits) (rq : Request) : Bool :=
  match rq.bvecs with
  | [] => false
  | v :: vs => Io.overflows q v.bvLen.toNat v vs

/-! ### One vector -/

section Vectors

variable {q : Limits} {st : MapState} {last : Scatterlist} {sg : List Scatterlist}
  {prev v : BioVec} {seen vs : List BioVec} {n : Nat}

/-- The tests of the loop are those of `merges`. -/
theorem mapBvec_eq (hsg : st.sg = last :: sg) (hprev : st.bvprv = some prev) :
    mapBvec q st v =
      if merges q last.length.toNat prev v then
        ⟨{ last with length := last.length + v.bvLen } :: sg, some v⟩
      else ⟨newSegment v :: last :: sg, some v⟩ := by
  have hsum : q.maxSegmentSize < last.length + v.bvLen ↔
      ¬ (last.length.toNat + v.bvLen.toNat) % 2 ^ 32 ≤ q.maxSegmentSize.toNat := by
    rw [BitVec.lt_def, BitVec.toNat_add]
    omega
  unfold mapBvec merges
  rw [hprev, hsg]
  dsimp only
  cases q.cluster
  · simp
  · simp only [hsum, if_true, Bool.true_and, Bool.and_eq_true, decide_eq_true_eq]
    split
    · rename_i hlarge
      rw [if_neg fun hm => hlarge hm.2]
    · rename_i hlarge
      rw [not_not] at hlarge
      cases physMergeable prev v
      · simp
      · cases segBoundary q prev v
        · simp
        · simp only [Bool.true_eq_false, if_false]
          rw [if_pos ⟨⟨trivial, trivial⟩, hlarge⟩]

/-- A piece of the request that keeps the limits. -/
def BioVec.Fits (q : Limits) (v : BioVec) : Prop :=
  v.bvLen ≤ q.maxSegmentSize ∧ Within q.segBoundaryMask v.bytes

def Scatterlist.Fits (q : Limits) (e : Scatterlist) : Prop :=
  e.length ≤ q.maxSegmentSize ∧ Within q.segBoundaryMask e.bytes

/-- The invariant of the loop: the vectors `seen` are mapped, the last entry ends with `prev`
    and has `n` bytes, which is not more than it can count. -/
structure Open (q : Limits) (seen : List BioVec) (n : Nat) (prev : BioVec)
    (last : Scatterlist) (sg : List Scatterlist) : Prop where
  length : last.length.toNat = n
  ends : last.dmaAddress + BitVec.ofNat 64 n = prev.addr + prev.bvLen.setWidth 64
  starts : prev.addr ∈ last.bytes
  bytes : (last :: sg).reverse.flatMap Scatterlist.bytes = seen.flatMap BioVec.bytes
  count : (last :: sg).length ≤ seen.length
  limits : (∀ v ∈ seen, v.Fits q) → ∀ e ∈ last :: sg, e.Fits q

theorem mem_bytes (addr : BitVec 64) {k : Nat} (hk : k < n) :
    addr + BitVec.ofNat 64 k ∈ Io.bytes addr n :=
  List.mem_map.mpr ⟨k, List.mem_range.mpr hk, rfl⟩

theorem addr_mem_bytes (hlen : v.bvLen ≠ 0) : v.addr ∈ v.bytes := by
  have hpos : 0 < v.bvLen.toNat := Nat.pos_of_ne_zero fun h => hlen (BitVec.eq_of_toNat_eq h)
  have hmem : v.addr + BitVec.ofNat 64 0 ∈ v.bytes := mem_bytes v.addr hpos
  simpa using hmem

/-- The last byte of a vector. -/
theorem end_mem_bytes (hlen : v.bvLen ≠ 0) :
    v.addr + v.bvLen.setWidth 64 - 1 ∈ v.bytes := by
  have hpos : 0 < v.bvLen.toNat := Nat.pos_of_ne_zero fun h => hlen (BitVec.eq_of_toNat_eq h)
  have hmem : v.addr + BitVec.ofNat 64 (v.bvLen.toNat - 1) ∈ v.bytes :=
    mem_bytes v.addr (Nat.sub_lt hpos Nat.one_pos)
  have heq : v.addr + v.bvLen.setWidth 64 - 1 = v.addr + BitVec.ofNat 64 (v.bvLen.toNat - 1) := by
    have hlt := v.bvLen.isLt
    have hone : (1 : BitVec 64).toNat = 1 := rfl
    apply BitVec.eq_of_toNat_eq
    simp only [BitVec.toNat_add, BitVec.toNat_sub, BitVec.toNat_setWidth, BitVec.toNat_ofNat, hone]
    omega
  rw [heq]
  exact hmem

theorem open_new (hlen : v.bvLen ≠ 0) (hbytes : sg.reverse.flatMap Scatterlist.bytes =
      seen.flatMap BioVec.bytes) (hcount : sg.length ≤ seen.length)
    (hlimits : (∀ v ∈ seen, v.Fits q) → ∀ e ∈ sg, e.Fits q) :
    Open q (seen ++ [v]) v.bvLen.toNat v (newSegment v) sg where
  length := rfl
  ends := by rw [newSegment, BitVec.ofNat_toNat]
  starts := addr_mem_bytes hlen
  bytes := by
    rw [List.reverse_cons, List.flatMap_append, List.flatMap_append, hbytes]
    simp [newSegment, Scatterlist.bytes, BioVec.bytes]
  count := by
    rw [List.length_append, List.length_cons, List.length_singleton]
    omega
  limits := by
    intro hfits e he
    rcases List.mem_cons.mp he with rfl | he
    · exact hfits v (by simp)
    · exact hlimits (fun u hu => hfits u (List.mem_append_left _ hu)) e he

theorem merges_cases (h : merges q n prev v = true) :
    physMergeable prev v = true ∧ segBoundary q prev v = true ∧
      (n + v.bvLen.toNat) % 2 ^ 32 ≤ q.maxSegmentSize.toNat := by
  simp only [merges, Bool.and_eq_true, decide_eq_true_eq] at h
  exact ⟨h.1.1.2, h.1.2, h.2⟩

/-- Two pieces that follow each other and share a window. -/
theorem within_append {mask a b : BitVec 64} {l l' : List (BitVec 64)} (hl : Within mask l)
    (hl' : Within mask l') (ha : a ∈ l) (hb : b ∈ l') (hab : a ||| mask = b ||| mask) :
    Within mask (l ++ l') := by
  have hshare : ∀ c ∈ l ++ l', c ||| mask = a ||| mask := by
    intro c hc
    rcases List.mem_append.mp hc with hc | hc
    · exact hl c hc a ha
    · exact (hl' c hc b hb).trans hab.symm
  intro c hc d hd
  exact (hshare c hc).trans (hshare d hd).symm

/-- A merge that does not pass 32 bits keeps the invariant. -/
theorem open_merge (hO : Open q seen n prev last sg) (hlen : v.bvLen ≠ 0)
    (haddr : v.addr = bvecToPhys v) (hprev : prev.addr = bvecToPhys prev)
    (hmerges : merges q n prev v = true) (hfits : n + v.bvLen.toNat < 2 ^ 32) :
    Open q (seen ++ [v]) (n + v.bvLen.toNat) v { last with length := last.length + v.bvLen }
      sg := by
  obtain ⟨hphys, hboundary, hsize⟩ := merges_cases hmerges
  have hnext : last.dmaAddress + BitVec.ofNat 64 n = v.addr := by
    rw [hO.ends, haddr, hprev]
    exact of_decide_eq_true hphys
  have hlength : (last.length + v.bvLen).toNat = n + v.bvLen.toNat := by
    rw [BitVec.toNat_add, hO.length, Nat.mod_eq_of_lt hfits]
  have hbytes : Scatterlist.bytes { last with length := last.length + v.bvLen } =
      last.bytes ++ v.bytes := by
    rw [Scatterlist.bytes, hlength, ← bytes_append, hnext, Scatterlist.bytes, hO.length]
    rfl
  refine ⟨hlength, ?_, ?_, ?_, ?_, fun hall e he => ?_⟩
  · rw [BitVec.ofNat_add, ← BitVec.add_assoc, hnext, BitVec.ofNat_toNat]
  · rw [hbytes]
    exact List.mem_append_right _ (addr_mem_bytes hlen)
  · have hold := hO.bytes
    rw [List.reverse_cons, List.flatMap_append, List.flatMap_singleton] at hold ⊢
    rw [hbytes, ← List.append_assoc, hold, List.flatMap_append, List.flatMap_singleton]
  · have hcount := hO.count
    rw [List.length_append, List.length_singleton]
    exact Nat.le_succ_of_le hcount
  · have hkept := hO.limits fun u hu => hall u (List.mem_append_left _ hu)
    rcases List.mem_cons.mp he with rfl | he
    · have hv := hall v (by simp)
      refine ⟨?_, ?_⟩
      · rw [BitVec.le_def, hlength]
        rwa [Nat.mod_eq_of_lt hfits] at hsize
      · rw [hbytes]
        have hlast := hkept last (List.mem_cons_self ..)
        refine within_append hlast.2 hv.2 hO.starts (end_mem_bytes hlen) ?_
        rw [hprev, haddr]
        exact of_decide_eq_true hboundary
    · exact hkept e (List.mem_cons_of_mem _ he)

/-! ### The whole loop -/

/-- Where no entry passes 32 bits, the loop keeps the invariant. -/
theorem open_of_not_overflows (hO : Open q seen n prev last sg)
    (hprev : prev.addr = bvecToPhys prev) (hlen : ∀ v ∈ vs, v.bvLen ≠ 0)
    (haddr : ∀ v ∈ vs, v.addr = bvecToPhys v) (hnot : overflows q n prev vs = false) :
    ∃ n' prev' last' sg', (vs.foldl (mapBvec q) ⟨last :: sg, some prev⟩).sg = last' :: sg' ∧
      Open q (seen ++ vs) n' prev' last' sg' := by
  induction vs generalizing seen n prev last sg with
  | nil => exact ⟨n, prev, last, sg, rfl, by simpa using hO⟩
  | cons v vs ih =>
    have hlen' : ∀ u ∈ vs, u.bvLen ≠ 0 := fun u hu => hlen u (List.mem_cons_of_mem _ hu)
    have haddr' : ∀ u ∈ vs, u.addr = bvecToPhys u := fun u hu => haddr u (List.mem_cons_of_mem _ hu)
    have hv := hlen v (List.mem_cons_self ..)
    have hva := haddr v (List.mem_cons_self ..)
    have hseen : seen ++ v :: vs = seen ++ [v] ++ vs := by simp
    rw [List.foldl_cons, mapBvec_eq rfl rfl, hO.length, hseen]
    unfold overflows at hnot
    split at hnot
    · rename_i hmerges
      rw [Bool.or_eq_false_iff, decide_eq_false_iff_not, Nat.not_le] at hnot
      rw [if_pos hmerges]
      exact ih (open_merge hO hv hva hprev hmerges hnot.1) hva hlen' haddr' hnot.2
    · rename_i hmerges
      rw [if_neg hmerges]
      exact ih (open_new hv hO.bytes hO.count hO.limits) hva hlen' haddr' hnot

/-- The number of bytes in the entries. -/
def covered (sg : List Scatterlist) : Nat := (sg.map fun e => e.length.toNat).sum

def BioVec.total (vs : List BioVec) : Nat := (vs.map fun v => v.bvLen.toNat).sum

/-- No bytes are added. -/
theorem covered_le (vs : List BioVec) : ∀ last sg prev,
    covered (vs.foldl (mapBvec q) ⟨last :: sg, some prev⟩).sg ≤
      covered (last :: sg) + BioVec.total vs := by
  induction vs with
  | nil => exact fun last sg prev => Nat.le_add_right _ _
  | cons v vs ih =>
    intro last sg prev
    rw [List.foldl_cons, mapBvec_eq rfl rfl]
    split
    · have hsum := Nat.mod_le (last.length.toNat + v.bvLen.toNat) (2 ^ 32)
      have hle := ih { last with length := last.length + v.bvLen } sg v
      simp only [covered, BioVec.total, List.map_cons, List.sum_cons, BitVec.toNat_add] at hle ⊢
      omega
    · have hle := ih (newSegment v) (last :: sg) v
      simp only [covered, BioVec.total, List.map_cons, List.sum_cons, newSegment] at hle ⊢
      omega

/-- An entry that passes 32 bits loses bytes. -/
theorem covered_lt (vs : List BioVec) : ∀ last sg prev,
    overflows q last.length.toNat prev vs = true →
    covered (vs.foldl (mapBvec q) ⟨last :: sg, some prev⟩).sg <
      covered (last :: sg) + BioVec.total vs := by
  induction vs with
  | nil =>
    intro last sg prev h
    cases h
  | cons v vs ih =>
    intro last sg prev h
    unfold overflows at h
    rw [List.foldl_cons, mapBvec_eq rfl rfl]
    split at h
    · rename_i hmerges
      rw [if_pos hmerges]
      by_cases hlarge : 2 ^ 32 ≤ last.length.toNat + v.bvLen.toNat
      · have hlast := last.length.isLt
        have hv := v.bvLen.isLt
        have hle := covered_le (q := q) vs { last with length := last.length + v.bvLen } sg v
        simp only [covered, BioVec.total, List.map_cons, List.sum_cons, BitVec.toNat_add] at hle ⊢
        omega
      · have hsum : (last.length + v.bvLen).toNat = last.length.toNat + v.bvLen.toNat := by
          rw [BitVec.toNat_add, Nat.mod_eq_of_lt (Nat.not_le.mp hlarge)]
        rw [decide_eq_false hlarge, Bool.false_or, ← hsum] at h
        have hlt := ih { last with length := last.length + v.bvLen } sg v h
        simp only [covered, BioVec.total, List.map_cons, List.sum_cons, hsum] at hlt ⊢
        omega
    · rename_i hmerges
      rw [if_neg hmerges]
      have hlt := ih (newSegment v) (last :: sg) v h
      simp only [covered, BioVec.total, List.map_cons, List.sum_cons, newSegment] at hlt ⊢
      omega

theorem length_flatMap_bytes (sg : List Scatterlist) :
    (sg.reverse.flatMap Scatterlist.bytes).length = covered sg := by
  rw [List.length_flatMap, covered, ← List.sum_reverse, ← List.map_reverse]
  simp only [Scatterlist.bytes, length_bytes, List.reverse_reverse]

theorem length_flatMap_bvecs (vs : List BioVec) :
    (vs.flatMap BioVec.bytes).length = BioVec.total vs := by
  rw [List.length_flatMap, BioVec.total]
  simp only [BioVec.bytes, length_bytes]

end Vectors

theorem blkRqMapSg_eq (q : Limits) (rq : Request) :
    blkRqMapSg q rq = (rq.bvecs.foldl (mapBvec q) ⟨[], none⟩).sg.reverse := by
  rw [Request.bvecs, List.foldl_flatMap]
  rfl

/-- **The scatter list is the transfer**, exactly where no entry passes 32 bits. -/
theorem map_sg_preserves (q : Limits) (rq : Request) (hlen : ∀ v ∈ rq.bvecs, v.bvLen ≠ 0)
    (haddr : ∀ v ∈ rq.bvecs, v.addr = bvecToPhys v) :
    Preserves q rq (blkRqMapSg q rq) ↔ rq.overflows q = false := by
  rw [blkRqMapSg_eq]
  unfold Request.overflows
  cases hvs : rq.bvecs with
  | nil => exact iff_of_true ⟨by simp [hvs], by simp, fun _ e he => by simp at he⟩ rfl
  | cons v vs =>
    rw [hvs] at hlen haddr
    have hfirst : mapBvec q ⟨[], none⟩ v = ⟨[newSegment v], some v⟩ := rfl
    rw [List.foldl_cons, hfirst]
    constructor
    · intro hpreserves
      by_contra hover
      rw [Bool.not_eq_false] at hover
      have hlt := covered_lt vs (newSegment v) [] v hover
      have hbytes := congrArg List.length hpreserves.bytes
      have hone : covered [newSegment v] = v.bvLen.toNat := Nat.add_zero _
      have htotal : BioVec.total (v :: vs) = v.bvLen.toNat + BioVec.total vs := List.sum_cons
      rw [length_flatMap_bytes, length_flatMap_bvecs, hvs, htotal] at hbytes
      omega
    · intro hnot
      have hopen : Open q ([] ++ [v]) v.bvLen.toNat v (newSegment v) [] :=
        open_new (hlen v (List.mem_cons_self ..)) rfl (Nat.le_refl 0) fun _ e he => by simp at he
      obtain ⟨n, prev, last, sg, heq, hO⟩ := open_of_not_overflows hopen
        (haddr v (List.mem_cons_self ..)) (fun u hu => hlen u (List.mem_cons_of_mem _ hu))
        (fun u hu => haddr u (List.mem_cons_of_mem _ hu)) hnot
      rw [heq]
      refine ⟨hvs ▸ hO.bytes, ?_, fun hfits e he => ?_⟩
      · rw [List.length_reverse, hvs]
        exact hO.count
      · rw [hvs] at hfits
        exact hO.limits hfits e (List.mem_reverse.mp he)

/-- A request of one bio that transfers the given elements. -/
def requestOf (sgArray : List SgElem) : Request where
  bios := [buildBio sgArray ⟨0, true, .normalIo⟩ 0 true]
  sector := 0
  nrSectors := 0
  currentNrSectors := 0
  nrPhysSegments := 0
  nrHwSegments := 0
  errors := 0
  isRead := true

/-- The transfers of commands agree with their pages. -/
theorem addr_requestOf {sgArray : List SgElem} (hlen : sgArray.length < 2 ^ 16) :
    ∀ v ∈ (requestOf sgArray).bvecs, v.addr = bvecToPhys v := by
  intro v hv
  rw [Request.bvecs, requestOf, List.flatMap_singleton, segments_buildBio _ _ _ hlen] at hv
  obtain ⟨elem, -, rfl⟩ := List.mem_map.mp hv
  exact addr_bvec elem

/-- Three sectors, of which two are next to each other. -/
theorem map_sg_preserves_two_of_three :
    let q : Limits := ⟨1, 65536, 0xffffffff⟩
    let rq := requestOf [⟨0x1000, 512⟩, ⟨0x1200, 512⟩, ⟨0x3000, 512⟩]
    (blkRqMapSg q rq).length = 2 ∧ Preserves q rq (blkRqMapSg q rq) :=
  ⟨by decide, (map_sg_preserves _ _ (by decide) (addr_requestOf (by decide))).mpr (by decide)⟩

/-- Two pieces of `2 ^ 31` bytes next to each other are mapped to one entry without a byte. -/
theorem transfer_lost :
    ¬ ∀ (q : Limits) (rq : Request), (∀ v ∈ rq.bvecs, v.bvLen ≠ 0) →
      (∀ v ∈ rq.bvecs, v.addr = bvecToPhys v) → Preserves q rq (blkRqMapSg q rq) := by
  intro h
  let q : Limits := ⟨1, 65536, 0xffffffffffffffff⟩
  let rq := requestOf [⟨0, 0x80000000⟩, ⟨0x80000000, 0x80000000⟩]
  have hbytes := congrArg List.length (h q rq (by decide) (addr_requestOf (by decide))).bytes
  have hmapped : blkRqMapSg q rq = [⟨0, 0, 0, 0⟩] := by decide
  rw [hmapped, length_flatMap_bvecs] at hbytes
  exact absurd hbytes (by decide)

end VmkLinux.Block.Io
