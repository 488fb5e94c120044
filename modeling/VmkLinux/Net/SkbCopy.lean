/-
  VmkLinux/Net/SkbCopy.lean
  =========================
  **`skb_copy_bits` copies the content** of a socket buffer, from any offset on, and `skb_copy`
  makes a socket buffer with the same content.
-/
import VmkLinux.Net.SkbContent

namespace VmkLinux.Net.Reshape

/-! ### Pieces -/

/-- A piece with the bytes that can be copied out of it. -/
structure Piece.Reads (p : Piece) (c : List UInt8) : Prop where
  size : p.size = c.length
  read : ∀ rel n : Nat, rel + n ≤ c.length → p.read rel n = some ((c.drop rel).take n)

/-- One turn, `k` bytes behind the start of the piece. -/
theorem walk_cons {p : Piece} {c : List UInt8} (hp : p.Reads c) (pieces : List Piece) (start : Int)
    (k n : Nat) (copied : List UInt8) :
    walk (p :: pieces) ⟨start, start + k, n, copied⟩ =
      if k < c.length then
        if n ≤ c.length - k then some (copied ++ (c.drop k).take n)
        else walk pieces ⟨start + c.length, start + c.length + (0 : Nat),
          (n - (c.length - k) : Nat), copied ++ c.drop k⟩
      else walk pieces ⟨start + c.length, start + c.length + (k - c.length : Nat), n, copied⟩ := by
  have hsize := hp.size
  conv_lhs => rw [walk]
  dsimp only
  rw [hsize]
  by_cases hk : k < c.length
  · rw [if_pos hk, if_pos (by omega)]
    have hrel : start + (k : Int) - start = k := by omega
    rw [hrel]
    by_cases hn : n ≤ c.length - k
    · have hmin : min (start + (c.length : Int) - (start + k)) n = n := by omega
      rw [if_pos hn, hmin, hp.read k n (by omega), Int.sub_self]
      rfl
    · have hmin : min (start + (c.length : Int) - (start + k)) n =
          ((c.length - k : Nat) : Int) := by
        omega
      have hread := hp.read k (c.length - k) (by omega)
      rw [List.take_of_length_le (by simp)] at hread
      rw [if_neg hn, hmin, hread]
      dsimp only
      rw [if_neg (by omega)]
      congr 2
      · omega
      · omega
  · rw [if_neg hk, if_neg (by omega)]
    congr 2
    omega

variable {pieces : List Piece} {cs : List (List UInt8)}

/-- **The walk copies** what lies behind the offset. -/
theorem walk_eq (h : List.Forall₂ Piece.Reads pieces cs) :
    ∀ (start : Int) (k n : Nat) (copied : List UInt8), k + n ≤ cs.flatten.length →
      walk pieces ⟨start, start + k, n, copied⟩ =
        some (copied ++ (cs.flatten.drop k).take n) := by
  induction h with
  | nil =>
    intro start k n copied hle
    simp only [List.flatten_nil, List.length_nil] at hle
    obtain rfl : n = 0 := by omega
    simp [walk]
  | @cons p c pieces cs hp _ ih =>
    intro start k n copied hle
    simp only [List.flatten_cons, List.length_append] at hle ⊢
    rw [walk_cons hp]
    split
    · next hk =>
      have hdrop : (c ++ cs.flatten).drop k = c.drop k ++ cs.flatten :=
        List.drop_append_of_le_length (by omega)
      rw [hdrop]
      split
      · next hn =>
        rw [List.take_append_of_le_length (by rw [List.length_drop]; exact hn)]
      · next hn =>
        rw [ih _ 0 _ _ (by omega), List.drop_zero, List.take_append, List.length_drop,
          List.take_of_length_le (i := n) (by rw [List.length_drop]; omega), List.append_assoc]
    · next hk =>
      have hdrop : (c ++ cs.flatten).drop k = cs.flatten.drop (k - c.length) := by
        rw [List.drop_append, List.drop_eq_nil_of_le (by omega), List.nil_append]
      rw [ih _ _ _ _ (by omega), hdrop]

/-- It fails when there is not enough. -/
theorem walk_none (h : List.Forall₂ Piece.Reads pieces cs) :
    ∀ (start : Int) (k n : Nat) (copied : List UInt8), cs.flatten.length < k + n → 0 < n →
      walk pieces ⟨start, start + k, n, copied⟩ = none := by
  induction h with
  | nil =>
    intro start k n copied _ hn
    simp only [walk]
    rw [if_neg (by omega)]
  | @cons p c pieces cs hp _ ih =>
    intro start k n copied hlt hn
    simp only [List.flatten_cons, List.length_append] at hlt
    rw [walk_cons hp]
    split
    · split
      · omega
      · exact ih _ _ _ _ (by omega) (by omega)
    · exact ih _ _ _ _ (by omega) hn

/-! ### The pieces of a socket buffer -/

theorem toInt32_eq {n : Nat} (h : n < 2 ^ 31) : toInt32 n = n := by
  unfold toInt32
  rw [BitVec.toInt_eq_toNat_of_lt]
  · rw [BitVec.toNat_ofNat]
    omega
  · rw [BitVec.toNat_ofNat]
    omega

theorem linearPiece_reads {b : SkBuff} (h : Placed b) :
    (linearPiece b).Reads b.linear := by
  have hlen := h.length_linear
  have htail := h.tail_eq
  refine ⟨hlen.symm, fun rel n hle => ?_⟩
  have hto : ((b.data : Int) + rel).toNat = b.data + rel := by omega
  have hmin : min n (b.tail - (b.data + rel)) = n := by omega
  simp only [linearPiece, readLinear]
  rw [if_pos (by omega), hto, Int.toNat_natCast, SkBuff.linear, List.drop_drop, List.drop_take,
    List.take_take, hmin]

theorem fragPiece_reads (mem : Pages) (f : Frag) : (fragPiece mem f).Reads (f.bytes mem) := by
  refine ⟨(length_bytes mem f).symm, fun rel n hle => ?_⟩
  rw [length_bytes] at hle
  simp only [fragPiece, readFrag]
  rw [if_pos (by omega), Int.toNat_natCast, Int.toNat_natCast]
  congr 1
  apply List.ext_getElem
  · simp [Frag.bytes]
    omega
  · intro i hi hi'
    simp [Frag.bytes, Nat.add_assoc]

theorem fragPieces_reads (mem : Pages) (frags : List Frag) :
    List.Forall₂ Piece.Reads (frags.map (fragPiece mem)) (frags.map (Frag.bytes mem)) := by
  induction frags with
  | nil => exact .nil
  | cons f frags ih => exact .cons (fragPiece_reads mem f) ih

theorem flatten_frags (mem : Pages) (frags : List Frag) :
    (frags.map (Frag.bytes mem)).flatten = fragsBytes mem frags := rfl

theorem flatten_list (mem : Pages) (list : List Skb) :
    (list.map (Skb.content mem)).flatten = listContent mem list := by
  induction list with
  | nil => rfl
  | cons s list ih => simp [listContent, ih]

/-- A socket buffer as a piece of the one that refers to it. -/
def skbPiece (mem : Pages) (s : Skb) : Piece := ⟨s.buff.len, skbCopyBits mem s⟩

theorem listPieces_reads {mem : Pages} {list : List Skb}
    (h : ∀ s ∈ list, (skbPiece mem s).Reads (s.content mem)) :
    List.Forall₂ Piece.Reads (listPieces mem list) (list.map (Skb.content mem)) := by
  induction list with
  | nil => exact .nil
  | cons s list ih =>
    simp only [listPieces, List.map_cons]
    exact .cons (h s List.mem_cons_self) (ih fun t ht => h t (List.mem_cons_of_mem _ ht))

/-- The pieces of a socket buffer are its content. -/
theorem pieces_reads {mem : Pages} {b : SkBuff} {list : List Skb} {c : List UInt8}
    (hlinear : (linearPiece b).Reads c)
    (hlist : ∀ s ∈ list, (skbPiece mem s).Reads (s.content mem)) :
    ∃ cs, List.Forall₂ Piece.Reads
        (linearPiece b :: (b.frags.map (fragPiece mem) ++ listPieces mem list)) (c :: cs) ∧
      cs.flatten = fragsBytes mem b.frags ++ listContent mem list := by
  refine ⟨b.frags.map (Frag.bytes mem) ++ list.map (Skb.content mem), .cons hlinear ?_, ?_⟩
  · exact List.rel_append (fragPieces_reads mem b.frags) (listPieces_reads hlist)
  · rw [List.flatten_append, flatten_frags, flatten_list]

/-- What `skb_copy_bits` walks over. -/
theorem content_reads {mem : Pages} {b : SkBuff} {list : List Skb} (h : Placed b)
    (hlist : ∀ s ∈ list, (skbPiece mem s).Reads (s.content mem)) :
    ∃ cs, List.Forall₂ Piece.Reads
        (linearPiece b :: (b.frags.map (fragPiece mem) ++ listPieces mem list)) cs ∧
      cs.flatten = Skb.content mem (.mk b list) := by
  obtain ⟨cs, hreads, hcs⟩ := pieces_reads (linearPiece_reads h) hlist
  refine ⟨b.linear :: cs, hreads, ?_⟩
  rw [List.flatten_cons, hcs, Skb.content]

/-- **What `skb_copy_bits` copies.** -/
theorem skbPiece_reads (mem : Pages) {s : Skb} (h : s.WellFormed) (hlen : s.buff.len < 2 ^ 31) :
    (skbPiece mem s).Reads (s.content mem) := by
  induction s using Skb.induction with
  | h b list ih =>
    rw [Skb.buff_mk] at hlen
    refine ⟨(h.length_content mem).symm, fun rel n hle => ?_⟩
    obtain ⟨cs, hreads, hflat⟩ := content_reads h.here.toPlaced fun s hs =>
      ih s hs (h.of_mem s hs) (Nat.lt_of_le_of_lt (h.here.len_le_of_mem hs) hlen)
    have hwalk := walk_eq hreads 0 rel n [] (by rw [hflat]; exact hle)
    rw [h.length_content, Skb.buff] at hle
    rw [hflat, List.nil_append, Int.zero_add] at hwalk
    simp only [skbPiece, skbCopyBits]
    rw [if_neg, hwalk]
    rw [toInt32_eq hlen]
    omega

/-- From the end of the linear part on; the lengths need not be those of the parts. -/
theorem skbCopyBits_tail (mem : Pages) {b : SkBuff} {list : List Skb} (h : Placed b)
    (hlist : ∀ s ∈ list, (skbPiece mem s).Reads (s.content mem)) (hlen : b.len < 2 ^ 31)
    {n : Nat} (hle : b.headlen + n ≤ b.len) :
    skbCopyBits mem (.mk b list) b.headlen n =
      if n ≤ (fragsBytes mem b.frags ++ listContent mem list).length then
        some ((fragsBytes mem b.frags ++ listContent mem list).take n)
      else none := by
  have hlin := h.length_linear
  obtain ⟨cs, hreads, hflat⟩ := content_reads h hlist
  have hdrop : cs.flatten.drop b.headlen = fragsBytes mem b.frags ++ listContent mem list := by
    rw [hflat, Skb.content, List.drop_left' hlin]
  have hlength : cs.flatten.length =
      b.headlen + (fragsBytes mem b.frags ++ listContent mem list).length := by
    rw [hflat, Skb.content, List.length_append, hlin]
  have hstart : (b.headlen : Int) = 0 + b.headlen := (Int.zero_add _).symm
  simp only [skbCopyBits]
  rw [toInt32_eq hlen, if_neg (by omega), hstart]
  split
  · rw [walk_eq hreads 0 b.headlen n [] (by omega), hdrop, List.nil_append]
  · exact walk_none hreads 0 b.headlen n [] (by omega) (by omega)

/-! ### `skb_copy` -/

/-- The linear part from `head` on, with the headroom that `skb_copy` copies too. -/
def headPiece (b : SkBuff) : Piece := ⟨b.tail, fun rel n => readLinear b (-b.data + rel) n⟩

theorem headPiece_reads {b : SkBuff} (h : Placed b) :
    (headPiece b).Reads (b.head.take b.tail) := by
  have htail := h.tail_le
  have hlen : (b.head.take b.tail).length = b.tail := List.length_take_of_le htail
  refine ⟨hlen.symm, fun rel n hle => ?_⟩
  have hzero : (b.data : Int) + (-b.data + rel) = rel := by omega
  have hmin : min n (b.tail - rel) = n := by omega
  simp only [headPiece, readLinear]
  rw [hzero, if_pos (by omega), Int.toNat_natCast, Int.toNat_natCast, List.drop_take,
    List.take_take, hmin]

theorem walk_headPiece {b : SkBuff} (h : Placed b) (pieces : List Piece)
    (n : Int) : walk (linearPiece b :: pieces) ⟨0, -b.data, n, []⟩ =
      walk (headPiece b :: pieces) ⟨-b.data, -b.data + (0 : Nat), n, []⟩ := by
  have htail := h.tail_eq
  have hstop : (0 : Int) + (linearPiece b).size = -b.data + (headPiece b).size := by
    simp only [linearPiece, headPiece]
    omega
  simp only [walk]
  rw [hstop]
  simp [linearPiece, headPiece]

/-- With the headroom, it copies everything up to the end. -/
theorem skbCopyBits_headroom (mem : Pages) {b : SkBuff} {list : List Skb}
    (h : Skb.WellFormed (.mk b list)) (hlt : b.data + b.len < 2 ^ 31) :
    skbCopyBits mem (.mk b list) (-b.data) (toInt32 (b.data + b.len)) =
      some (b.head.take b.tail ++ (fragsBytes mem b.frags ++ listContent mem list)) := by
  have hhere := h.here
  have htail := hhere.tail_eq
  have hlen := hhere.len_eq
  have hle := hhere.tail_le
  have hdata := hhere.dataLen_eq
  have htake : (b.head.take b.tail).length = b.tail := List.length_take_of_le hle
  have hlist := fun s hs => skbPiece_reads mem (h.of_mem s hs)
    (Nat.lt_of_le_of_lt (hhere.len_le_of_mem hs) (by omega))
  obtain ⟨cs, hreads, hcs⟩ := pieces_reads (linearPiece_reads hhere.toPlaced) hlist
  have hreads' := List.Forall₂.cons (headPiece_reads hhere.toPlaced) (List.forall₂_cons.mp hreads).2
  have hflat : (b.head.take b.tail :: cs).flatten.length = b.data + b.len := by
    rw [List.flatten_cons, hcs, List.length_append, List.length_append, htake,
      length_fragsBytes, h.length_listContent]
    omega
  have hwalk := walk_eq hreads' (-b.data) 0 (b.data + b.len) [] (by omega)
  rw [List.drop_zero, List.take_of_length_le (by omega), List.nil_append, List.flatten_cons,
    hcs] at hwalk
  simp only [skbCopyBits]
  rw [@toInt32_eq b.len (by omega), toInt32_eq hlt, if_neg (by omega),
    walk_headPiece hhere.toPlaced, hwalk]

/-! ### A length that is not one -/

theorem walk_neg {pieces : List Piece}
    (h : ∀ p ∈ pieces, ∀ rel n : Int, n < 0 → p.read rel n = none) :
    ∀ c : Cursor, c.n < 0 → walk pieces c = none := by
  induction pieces with
  | nil =>
    intro c hc
    simp only [walk]
    rw [if_neg (by omega)]
  | cons p pieces ih =>
    intro c hc
    simp only [walk]
    split
    · next hcopy =>
      rw [h p List.mem_cons_self _ _ (by omega)]
    · exact ih (fun q hq => h q (List.mem_cons_of_mem _ hq)) _ hc

theorem listPieces_neg {mem : Pages} {list : List Skb}
    (h : ∀ s ∈ list, ∀ rel n : Int, n < 0 → skbCopyBits mem s rel n = none) :
    ∀ p ∈ listPieces mem list, ∀ rel n : Int, n < 0 → p.read rel n = none := by
  induction list with
  | nil =>
    intro p hp
    cases hp
  | cons s list ih =>
    intro p hp
    simp only [listPieces, List.mem_cons] at hp
    obtain rfl | hp := hp
    · exact h s List.mem_cons_self
    · exact ih (fun t ht => h t (List.mem_cons_of_mem _ ht)) p hp

theorem skbCopyBits_neg (mem : Pages) (s : Skb) :
    ∀ offset n : Int, n < 0 → skbCopyBits mem s offset n = none := by
  induction s using Skb.induction with
  | h b list ih =>
    intro offset n hn
    simp only [skbCopyBits]
    split
    · rfl
    · apply walk_neg _ _ hn
      intro p hp rel n hn
      simp only [List.mem_cons, List.mem_append, List.mem_map] at hp
      obtain rfl | ⟨f, _, rfl⟩ | hp := hp
      · simp only [linearPiece, readLinear]
        rw [if_neg (by omega)]
      · simp only [fragPiece, readFrag]
        rw [if_neg (by omega)]
      · exact listPieces_neg ih p hp rel n hn

/-- An `int` cannot hold it. -/
theorem toInt32_neg {n : Nat} (h : 2 ^ 31 ≤ n) (hlt : n < 2 ^ 32) : toInt32 n < 0 := by
  unfold toInt32
  rw [BitVec.toInt_neg_iff, BitVec.toNat_ofNat]
  omega

/-! ### When the content stays -/

/-- `skb_copy` makes a socket buffer with the same content, or has no memory for it. -/
def CopyKeeps (kernel : Kernel) (s : Skb) : Prop :=
  ∀ mem, match skbCopy kernel mem s with
    | .error _ => False
    | .ok none => kernel.skbAlloc = false ∨ ∃ size, kernel.pktAlloc size = none
    | .ok (some n) =>
        n.content mem = s.content mem ∧ n.buff.len = (n.content mem).length ∧ n.WellFormed

/-- The size that `skb_copy` asks for, an `unsigned int`. -/
def copySize (b : SkBuff) : Nat := (b.head.length + b.dataLen) % 2 ^ 32

/-- There is no memory; or what is copied fits an `int` and the size that is asked for. -/
def CopyFits (kernel : Kernel) (s : Skb) : Prop :=
  kernel.skbAlloc = false ∨ kernel.pktAlloc (copySize s.buff) = none ∨
    (s.buff.data + s.buff.len < 2 ^ 31 ∧ s.buff.data + s.buff.len ≤ copySize s.buff)

section Copy

variable {kernel : Kernel} {mem : Pages} {b : SkBuff} {list : List Skb} {pkt : Nat}
  {m : List UInt8}

/-- The copy, in the memory of its packet. -/
def SkBuff.copied (b : SkBuff) (pkt : Nat) (m bytes : List UInt8) : SkBuff :=
  { pkt := pkt
    len := b.len
    head := write m 0 bytes
    data := b.data
    tail := b.data + b.len
    mac := b.mac
    nh := b.nh
    h := b.h }

/-- What `skb_copy` does when it gets memory. -/
theorem skbCopy_some (hskb : kernel.skbAlloc = true)
    (hpkt : kernel.pktAlloc (copySize b) = some (pkt, m)) :
    skbCopy kernel mem (.mk b list) =
      if copySize b < b.data + b.len then .error .bug
      else
        match skbCopyBits mem (.mk b list) (-b.data) (toInt32 (b.data + b.len)) with
        | none => .error .bug
        | some bytes => .ok (some (.mk (b.copied pkt (m.take (copySize b)) bytes) [])) := by
  have hlen : (m.take (copySize b)).length = copySize b :=
    List.length_take_of_le (kernel.length_pktAlloc _ _ _ hpkt)
  simp only [skbCopy, Skb.buff, vmklnxNetAllocSkb]
  rw [← copySize, hpkt, if_pos hskb]
  simp only [hlen]
  rfl

/-- The bytes from `head` to the end of the content. -/
def headBytes (mem : Pages) (b : SkBuff) (list : List Skb) : List UInt8 :=
  b.head.take b.tail ++ (fragsBytes mem b.frags ++ listContent mem list)

theorem length_headBytes (h : Skb.WellFormed (.mk b list)) :
    (headBytes mem b list).length = b.data + b.len := by
  have htail := h.here.tail_eq
  have hlen := h.here.len_eq
  have htake : (b.head.take b.tail).length = b.tail := List.length_take_of_le h.here.tail_le
  rw [headBytes, List.length_append, List.length_append, htake, length_fragsBytes,
    h.length_listContent]
  omega

theorem drop_headBytes (h : Placed b) :
    (headBytes mem b list).drop b.data = Skb.content mem (.mk b list) := by
  have htail := h.tail_eq
  have htake : (b.head.take b.tail).length = b.tail := List.length_take_of_le h.tail_le
  rw [headBytes, List.drop_append_of_le_length (by omega)]
  rfl

theorem content_copied (h : Skb.WellFormed (.mk b list)) :
    Skb.content mem (.mk (b.copied pkt m (headBytes mem b list)) []) =
      Skb.content mem (.mk b list) := by
  have hwrite := take_write m (headBytes mem b list) (Nat.zero_le _)
  rw [Nat.zero_add, length_headBytes h, List.take_zero, List.nil_append] at hwrite
  have hlinear : (b.copied pkt m (headBytes mem b list)).linear = Skb.content mem (.mk b list) := by
    simp only [SkBuff.linear, SkBuff.copied, hwrite]
    exact drop_headBytes h.here.toPlaced
  rw [Skb.content, hlinear, SkBuff.copied, listContent, List.append_nil]
  exact List.append_nil _

theorem wellFormed_copied (h : Skb.WellFormed (.mk b list)) (hroom : b.data + b.len ≤ m.length) :
    Skb.WellFormed (.mk (b.copied pkt m (headBytes mem b list)) []) := by
  have hlength := @length_headBytes mem b list h
  refine .mk ⟨⟨rfl, ?_⟩, Nat.zero_le _, rfl, rfl, rfl, ?_⟩ ?_
  · simp only [SkBuff.copied]
    rw [length_write _ _ (by omega)]
    exact hroom
  · intro s hs
    cases hs
  · intro s hs
    cases hs

theorem copyKeeps_iff {s : Skb} (h : s.WellFormed) : CopyKeeps kernel s ↔ CopyFits kernel s := by
  obtain ⟨b, list⟩ := s
  unfold CopyFits
  rw [Skb.buff_mk]
  cases hskb : kernel.skbAlloc with
  | false =>
    refine ⟨fun _ => .inl rfl, fun _ mem => ?_⟩
    simp [skbCopy, vmklnxNetAllocSkb, hskb]
  | true =>
    cases hpkt : kernel.pktAlloc (copySize b) with
    | none =>
      refine ⟨fun _ => .inr (.inl rfl), fun _ mem => ?_⟩
      have hnone : skbCopy kernel mem (.mk b list) = .ok none := by
        simp only [skbCopy, Skb.buff, vmklnxNetAllocSkb]
        rw [← copySize, hpkt, if_pos hskb]
      rw [hnone]
      exact .inr ⟨_, hpkt⟩
    | some answer =>
      obtain ⟨pkt, m⟩ := answer
      have hlen : (m.take (copySize b)).length = copySize b :=
        List.length_take_of_le (kernel.length_pktAlloc _ _ _ hpkt)
      constructor
      · intro hkeeps
        have hzero := hkeeps fun _ _ => 0
        rw [skbCopy_some hskb hpkt] at hzero
        have hroom : ¬copySize b < b.data + b.len := by
          intro hover
          rw [if_pos hover] at hzero
          exact hzero
        refine .inr (.inr ⟨?_, Nat.not_lt.mp hroom⟩)
        by_contra hge
        have hmod : copySize b < 2 ^ 32 := Nat.mod_lt _ (by decide)
        have hneg := toInt32_neg (Nat.not_lt.mp hge) (by omega)
        rw [if_neg hroom, skbCopyBits_neg _ _ _ _ hneg] at hzero
        exact hzero
      · rintro (hno | hno | ⟨hlt, hroom⟩) mem
        · cases hno
        · cases hno
        · have hcopy := skbCopyBits_headroom mem h hlt
          rw [← headBytes] at hcopy
          rw [skbCopy_some hskb hpkt, if_neg (by omega), hcopy]
          have hcontent := @content_copied mem b list pkt (m.take (copySize b)) h
          refine ⟨hcontent, ?_, wellFormed_copied h (by omega)⟩
          rw [hcontent, h.length_content]
          rfl

end Copy

end VmkLinux.Net.Reshape
