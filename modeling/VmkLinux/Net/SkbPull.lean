/-
  VmkLinux/Net/SkbPull.lean
  =========================
  **`__pskb_pull_tail` keeps the content** of a socket buffer, and when it does not: the offset of
  the fragment that it cuts leaves 16 bits, the tailroom is too small and the head is expanded
  with a `frag_list` in use, or the socket buffer that it cuts is shared.
-/
import VmkLinux.Net.SkbExpand
import VmkLinux.Net.SkbCopy

namespace VmkLinux.Net.Reshape

/-! ### Fragments -/

/-- The offset of the fragment that is cut stays within 16 bits. -/
def FragsFit : List Frag → Nat → Prop
  | [], _ => True
  | f :: frags, eat =>
      if f.size.toNat ≤ eat then FragsFit frags (eat - f.size.toNat)
      else f.pageOffset.toNat + eat < 2 ^ 16

/-- Pages that tell an offset of 16 bits from a larger one. -/
def marked : Pages := fun _ i => if i < 2 ^ 16 then 0 else 1

section Frags

/-- The fragment that is cut. -/
def Frag.cut (f : Frag) (eat : Nat) : Frag :=
  { f with
    pageOffset := f.pageOffset + BitVec.ofNat 16 eat
    size := f.size - BitVec.ofNat 16 eat }

theorem pullFrags_zero (frags : List Frag) :
    fragsLen (pullFrags frags 0).1 = fragsLen frags ∧
      ∀ mem, fragsBytes mem (pullFrags frags 0).1 = fragsBytes mem frags := by
  induction frags with
  | nil => exact ⟨rfl, fun _ => rfl⟩
  | cons f frags ih =>
    simp only [pullFrags]
    split
    · next hf =>
      have hnil : ∀ mem, f.bytes mem = [] := by
        intro mem
        rw [← List.length_eq_zero_iff, length_bytes]
        omega
      rw [Nat.zero_sub]
      refine ⟨?_, fun mem => ?_⟩
      · rw [fragsLen_cons, ih.1]
        omega
      · rw [fragsBytes_cons, ih.2, hnil, List.nil_append]
    · refine ⟨?_, fun mem => ?_⟩
      · rw [if_pos trivial, fragsLen_cons, fragsLen_cons, ih.1]
      · rw [if_pos trivial, fragsBytes_cons, fragsBytes_cons, ih.2]

variable {f : Frag} {frags : List Frag} {eat : Nat}

theorem toNat_size_cut (h : eat < f.size.toNat) :
    (f.cut eat).size.toNat = f.size.toNat - eat := by
  have hlt := f.size.isLt
  have heat : (BitVec.ofNat 16 eat).toNat = eat := by
    rw [BitVec.toNat_ofNat]
    omega
  rw [Frag.cut, BitVec.toNat_sub_of_le (by rw [BitVec.le_def]; omega), heat]

theorem bytes_cut (mem : Pages) (h : eat < f.size.toNat)
    (hfit : f.pageOffset.toNat + eat < 2 ^ 16) :
    (f.cut eat).bytes mem = (f.bytes mem).drop eat := by
  have hsize := toNat_size_cut h
  have hoffset : (f.cut eat).pageOffset.toNat = f.pageOffset.toNat + eat := by
    rw [Frag.cut, BitVec.toNat_add, BitVec.toNat_ofNat]
    omega
  apply List.ext_getElem
  · rw [length_bytes, List.length_drop, length_bytes, hsize]
  · intro i hi hi'
    simp only [Frag.bytes, List.getElem_map, List.getElem_range, List.getElem_drop, hoffset,
      Nat.add_assoc]
    rfl

/-- Beyond 16 bits, the first byte is another one. -/
theorem bytes_cut_ne (h : eat < f.size.toNat) (hfit : 2 ^ 16 ≤ f.pageOffset.toNat + eat) :
    ((f.cut eat).bytes marked)[0]? ≠ ((f.bytes marked).drop eat)[0]? := by
  have hsize := toNat_size_cut h
  have hoffset : (f.cut eat).pageOffset.toNat < 65536 := (f.cut eat).pageOffset.isLt
  have hold : ¬f.pageOffset.toNat + eat < 65536 := by omega
  rw [List.getElem?_drop, Frag.bytes, Frag.bytes, hsize, List.getElem?_map, List.getElem?_map,
    List.getElem?_range (by omega), List.getElem?_range (by omega)]
  simp [marked, hoffset, hold]

theorem length_pullFrags (h : eat ≤ fragsLen frags) :
    fragsLen (pullFrags frags eat).1 = fragsLen frags - eat := by
  induction frags generalizing eat with
  | nil => simp [pullFrags, fragsLen]
  | cons f frags ih =>
    rw [fragsLen_cons] at h
    simp only [pullFrags]
    split
    · next hf =>
      rw [ih (by omega), fragsLen_cons]
      omega
    · next hf =>
      have hcut := toNat_size_cut (Nat.not_le.mp hf)
      rw [fragsLen_cons, fragsLen_cons, (pullFrags_zero frags).1]
      split
      · next hzero =>
        subst hzero
        rfl
      · rw [← Frag.cut, hcut]
        omega

theorem bytes_pullFrags (mem : Pages) (hfit : FragsFit frags eat) (h : eat ≤ fragsLen frags) :
    fragsBytes mem (pullFrags frags eat).1 = (fragsBytes mem frags).drop eat := by
  induction frags generalizing eat with
  | nil => simp [pullFrags, fragsBytes]
  | cons f frags ih =>
    rw [fragsLen_cons] at h
    simp only [FragsFit] at hfit
    simp only [pullFrags]
    split at hfit
    · next hf =>
      rw [if_pos hf, ih hfit (by omega), fragsBytes_cons,
        drop_append_behind _ _ (by rw [length_bytes]; exact hf), length_bytes]
    · next hf =>
      rw [if_neg hf, fragsBytes_cons, fragsBytes_cons, (pullFrags_zero frags).2,
        List.drop_append_of_le_length (by rw [length_bytes]; omega)]
      split
      · next hzero =>
        subst hzero
        rfl
      · rw [← Frag.cut, bytes_cut mem (Nat.not_le.mp hf) hfit]

theorem bytes_pullFrags_ne (hfit : ¬FragsFit frags eat) :
    fragsBytes marked (pullFrags frags eat).1 ≠ (fragsBytes marked frags).drop eat := by
  induction frags generalizing eat with
  | nil => simp [FragsFit] at hfit
  | cons f frags ih =>
    simp only [FragsFit] at hfit
    simp only [pullFrags]
    split at hfit
    · next hf =>
      rw [if_pos hf, fragsBytes_cons, drop_append_behind _ _ (by rw [length_bytes]; exact hf),
        length_bytes]
      exact ih hfit
    · next hf =>
      have hoffset := f.pageOffset.isLt
      have hcut := bytes_cut_ne (Nat.not_le.mp hf) (Nat.not_lt.mp hfit)
      have hsize := toNat_size_cut (Nat.not_le.mp hf)
      rw [if_neg hf, if_neg (by omega), fragsBytes_cons, fragsBytes_cons, ← Frag.cut,
        List.drop_append_of_le_length (by rw [length_bytes]; omega)]
      intro heq
      have hhead := congrArg (fun l : List UInt8 => l[0]?) heq
      rw [List.getElem?_append_left (by rw [length_bytes]; omega),
        List.getElem?_append_left (by rw [List.length_drop, length_bytes]; omega)] at hhead
      exact hcut hhead

theorem pullFrags_all (h : fragsLen frags ≤ eat) : (pullFrags frags eat).1 = [] := by
  induction frags generalizing eat with
  | nil => rfl
  | cons f frags ih =>
    rw [fragsLen_cons] at h
    simp only [pullFrags]
    rw [if_pos (by omega)]
    exact ih (by omega)

theorem fragsFit_all (h : fragsLen frags ≤ eat) : FragsFit frags eat := by
  induction frags generalizing eat with
  | nil => trivial
  | cons f frags ih =>
    rw [fragsLen_cons] at h
    simp only [FragsFit]
    rw [if_pos (by omega)]
    exact ih (by omega)

@[simp] theorem handles_pullFrags (frags : List Frag) :
    ∀ eat, handles (pullFrags frags eat).2 = [] := by
  induction frags with
  | nil => intro eat; rfl
  | cons f frags ih =>
    intro eat
    simp only [pullFrags]
    split
    · exact ih _
    · exact ih 0

theorem estimate_none (h : estimate frags eat = none) : eat ≤ fragsLen frags := by
  induction frags generalizing eat with
  | nil => cases h
  | cons f frags ih =>
    rw [fragsLen_cons]
    simp only [estimate] at h
    split at h
    · omega
    · have hle := ih h
      omega

theorem estimate_some {left : Nat} (h : estimate frags eat = some left) :
    eat = fragsLen frags + left := by
  induction frags generalizing eat with
  | nil =>
    cases h
    exact (Nat.zero_add _).symm
  | cons f frags ih =>
    rw [fragsLen_cons]
    simp only [estimate] at h
    split at h
    · cases h
    · have heq := ih h
      omega

theorem estimate_lt (h : fragsLen frags < eat) :
    estimate frags eat = some (eat - fragsLen frags) := by
  cases hest : estimate frags eat with
  | none =>
    have hle := estimate_none hest
    omega
  | some left =>
    have heq := estimate_some hest
    rw [heq, Nat.add_sub_cancel_left]

end Frags

/-! ### When the content stays -/

/-- The heap can run out of memory. -/
def NoMemory (kernel : Kernel) : Prop := ∃ n, kernel.heapAlloc n = none

/-- `eat + 128`. -/
def extraTail (b : SkBuff) (delta : Nat) : Nat := b.tail + delta - b.head.length + 128

/-- How far a head reaches that is expanded at its end, and its memory. -/
def newRoom (b : SkBuff) (ntail : Nat) : Nat :=
  min (expandSize b 0 ntail).toNat (Heap.heapSize ((expandSize b 0 ntail).signExtend 64)).toNat

mutual

/-- There is tailroom, or no memory for more, or no `frag_list` that could be lost; what is cut can
    be cut; and the length fits an `int`. -/
def PullFits (kernel : Kernel) : Skb → Nat → Prop
  | .mk b list, delta =>
      if b.tail + delta ≤ b.head.length then
        b.len < 2 ^ 31 ∧ FragsFit b.frags delta ∧
          (fragsLen b.frags < delta → ListFits kernel list (delta - fragsLen b.frags))
      else
        (kmalloc kernel (expandSize b 0 (extraTail b delta)) = none ∧ NoMemory kernel) ∨
          (b.len < 2 ^ 31 ∧ b.tail + delta ≤ newRoom b (extraTail b delta) ∧ listLen list = 0 ∧
            FragsFit b.frags delta)

def ListFits (kernel : Kernel) : List Skb → Nat → Prop
  | [], _ => True
  | .mk b l :: list, eat =>
      if eat = 0 then True
      else if b.len ≤ eat then ListFits kernel list (eat - b.len)
      else b.users = 1 ∧ (b.headlen < eat → PullFits kernel (.mk b l) (eat - b.headlen))

end

/-! ### `pskb_pull` -/

section Advance

variable {s : Skb} {eat : Nat}

theorem content_advance (mem : Pages) (h : eat ≤ s.buff.linear.length) :
    (advance eat s).content mem = (s.content mem).drop eat := by
  obtain ⟨b, list⟩ := s
  rw [Skb.buff_mk] at h
  rw [Skb.content, List.drop_append_of_le_length h, SkBuff.linear, List.drop_drop]
  rfl

theorem wellFormed_advance (h : s.WellFormed) (heat : eat ≤ s.buff.headlen) :
    (advance eat s).WellFormed := by
  obtain ⟨b, list⟩ := s
  rw [Skb.buff_mk] at heat
  have htail := h.here.tail_eq
  have hle := h.here.dataLen_le
  have hheadlen : b.headlen = b.len - b.dataLen := rfl
  refine .mk ⟨⟨?_, h.here.tail_le⟩, ?_, h.here.dataLen_eq, h.here.dataref, h.here.fragsref,
    h.here.users⟩ h.of_mem
  · simp only [SkBuff.headlen]
    omega
  · dsimp only
    omega

@[simp] theorem users_advance : (advance eat s).buff.users = s.buff.users := by
  cases s
  rfl

@[simp] theorem len_advance : (advance eat s).buff.len = s.buff.len - eat := by
  cases s
  rfl

@[simp] theorem pkts_advance : (advance eat s).pkts = s.pkts := by
  cases s
  rfl

end Advance

/-- What `__pskb_pull_tail` does: the same content, with `delta` bytes of it moved into the linear
    part, unless there was no memory. -/
structure Pulled (kernel : Kernel) (mem : Pages) (s : Skb) (delta : Nat) (ok : Bool) (s' : Skb)
    (log : List Release) : Prop where
  wellFormed : s'.WellFormed
  users : s'.buff.users = s.buff.users
  length : s'.buff.len = s.buff.len
  content : s'.content mem = s.content mem
  headlen : ok = true → s'.buff.headlen = s.buff.headlen + delta
  memory : ok = false → NoMemory kernel
  released : Released s.pkts s'.pkts log

/-- What is left of socket buffers of which `eat` bytes are eaten, unless there was no memory. -/
structure Left (kernel : Kernel) (mem : Pages) (list : List Skb) (eat : Nat) (ok : Bool)
    (list' : List Skb) (log : List Release) : Prop where
  wellFormed : ∀ s ∈ list', s.WellFormed
  users : ∀ s ∈ list', 1 ≤ s.buff.users
  length : listLen list' = listLen list - if ok then eat else 0
  content : listContent mem list' = (listContent mem list).drop (if ok then eat else 0)
  memory : ok = false → NoMemory kernel
  released : Released (listPkts list) (listPkts list') log

/-- `__pskb_pull_tail` does so with a socket buffer, wherever it can be expected to. -/
def PullsWell (kernel : Kernel) (mem : Pages) (s : Skb) : Prop :=
  s.buff.users = 1 → ∀ delta ≤ s.buff.dataLen, PullFits kernel s delta →
    ∃ ok s' log, pskbPullTail kernel mem s delta = .ok (ok, s', log) ∧
      Pulled kernel mem s delta ok s' log

section Lists

variable {kernel : Kernel} {mem : Pages} {list : List Skb} {eat : Nat}

theorem map_fst_withPull (list : List Skb) : (withPull kernel mem list).map Prod.fst = list := by
  induction list with
  | nil => rfl
  | cons s list ih => simp [withPull, ih]

/-- More than the linear part. -/
theorem pskbPull_deep {s : Skb} (pullTail : Nat → Pull) (hlt : eat < s.buff.len)
    (hhead : s.buff.headlen < eat) :
    pskbPull s pullTail eat =
      match pullTail (eat - s.buff.headlen) with
      | .error e => .error e
      | .ok (ok, s', log) => .ok (ok, if ok then advance eat s' else s', log) := by
  rw [pskbPull, if_neg (by omega), if_pos hhead]
  cases pullTail (eat - s.buff.headlen) with
  | error e => rfl
  | ok r =>
    obtain ⟨ok, s', log⟩ := r
    cases ok with
    | false => rfl
    | true => rfl

theorem pskbPull_ok {b : SkBuff} {l : List Skb} (h : Skb.WellFormed (.mk b l))
    (hwell : PullsWell kernel mem (.mk b l)) (husers : b.users = 1) (hlt : eat < b.len)
    (hfits : b.headlen < eat → PullFits kernel (.mk b l) (eat - b.headlen)) :
    ∃ ok s' log, pskbPull (.mk b l) (pskbPullTail kernel mem (.mk b l)) eat = .ok (ok, s', log) ∧
      s'.buff.users = b.users ∧ s'.WellFormed ∧
      s'.buff.len = b.len - (if ok then eat else 0) ∧
      s'.content mem = (Skb.content mem (.mk b l)).drop (if ok then eat else 0) ∧
      (ok = false → NoMemory kernel) ∧
      Released (Skb.pkts (.mk b l)) s'.pkts log := by
  have hle := h.here.dataLen_le
  have hheadlen : b.headlen = b.len - b.dataLen := rfl
  by_cases hhead : b.headlen < eat
  · obtain ⟨ok, s', log, hpull, hs⟩ := hwell husers (eat - b.headlen)
      (by rw [Skb.buff_mk]; omega) (hfits hhead)
    rw [pskbPull_deep _ hlt hhead, Skb.buff_mk, hpull]
    cases ok with
    | false => exact ⟨false, s', log, rfl, hs.users, hs.wellFormed, hs.length, hs.content,
        hs.memory, hs.released⟩
    | true =>
      have hs' := hs.headlen rfl
      rw [Skb.buff_mk] at hs'
      have heat : eat ≤ s'.buff.headlen := by omega
      refine ⟨true, advance eat s', log, rfl, ?_, wellFormed_advance hs.wellFormed heat, ?_, ?_, ?_,
        ?_⟩
      · rw [users_advance]
        exact hs.users
      · rw [len_advance, hs.length]
        rfl
      · obtain ⟨b', l'⟩ := s'
        rw [content_advance, hs.content]
        · rfl
        · rw [Skb.buff_mk, hs.wellFormed.here.length_linear]
          exact heat
      · intro hok
        cases hok
      · rw [pkts_advance]
        exact hs.released
  · have heat : eat ≤ b.headlen := by omega
    have heq : pskbPull (.mk b l) (pskbPullTail kernel mem (.mk b l)) eat =
        .ok (true, advance eat (.mk b l), []) := by
      rw [pskbPull, Skb.buff_mk, if_neg (by omega), if_neg hhead]
    rw [heq]
    refine ⟨true, _, [], rfl, users_advance, wellFormed_advance h heat, len_advance, ?_, ?_, ?_⟩
    · rw [content_advance]
      · rfl
      · rw [Skb.buff_mk, h.here.length_linear]
        exact heat
    · intro hok
      cases hok
    · intro p
      rw [pkts_advance]
      simp

/-- The socket buffers that the loop over `frag_list` leaves, -/
def Eaten.left (e : Eaten) : List Skb := if e.ok then e.rest else e.eaten ++ e.rest

/-- and what is released by the end of the pull. -/
def Eaten.released (e : Eaten) : List Release := e.log ++ if e.ok then dropList e.eaten else []

theorem left_cut {s s' : Skb} {ok : Bool} {log : List Release} (h : s.WellFormed)
    (hform : ∀ t ∈ list, t.WellFormed) (husers : ∀ t ∈ list, 1 ≤ t.buff.users)
    (hlt : eat < s.buff.len) (husers' : 1 ≤ s'.buff.users) (hs' : s'.WellFormed)
    (hlen : s'.buff.len = s.buff.len - (if ok then eat else 0))
    (hcontent : s'.content mem = (s.content mem).drop (if ok then eat else 0))
    (hmemory : ok = false → NoMemory kernel)
    (hreleased : Released s.pkts s'.pkts log) :
    Left kernel mem (s :: list) eat ok (s' :: list) log := by
  have hoff : (if ok then eat else 0) ≤ s.buff.len := by
    split
    · omega
    · exact Nat.zero_le _
  refine ⟨?_, ?_, ?_, ?_, hmemory, ?_⟩
  · intro t ht
    cases ht with
    | head => exact hs'
    | tail _ ht => exact hform t ht
  · intro t ht
    cases ht with
    | head => exact husers'
    | tail _ ht => exact husers t ht
  · rw [listLen_cons, listLen_cons, hlen]
    omega
  · rw [listContent, listContent, hcontent,
      List.drop_append_of_le_length (by rw [h.length_content]; exact hoff)]
  · intro p
    have hp := hreleased p
    simp only [listPkts, List.count_append]
    omega

theorem left_whole {s : Skb} {e : Eaten} (h : s.WellFormed) (husers : 1 ≤ s.buff.users)
    (hle : s.buff.len ≤ eat)
    (he : Left kernel mem list (eat - s.buff.len) e.ok e.left e.released) :
    Left kernel mem (s :: list) eat e.ok ({ e with eaten := s :: e.eaten } : Eaten).left
      ({ e with eaten := s :: e.eaten } : Eaten).released := by
  obtain ⟨ok, eaten, rest, log⟩ := e
  have hlength := h.length_content mem
  cases ok with
  | true =>
    simp only [Eaten.left, Eaten.released, ↓reduceIte] at he ⊢
    refine ⟨he.wellFormed, he.users, ?_, ?_, he.memory, ?_⟩
    · have heq := he.length
      simp only [↓reduceIte] at heq ⊢
      rw [heq, listLen_cons]
      omega
    · have heq := he.content
      simp only [↓reduceIte] at heq ⊢
      rw [heq, listContent, drop_append_behind _ _ (by omega), hlength]
    · intro p
      have hp := he.released p
      have hs := count_kfreeSkb p s
      simp only [dropList, listPkts, handles_append, List.count_append] at hp ⊢
      omega
  | false =>
    simp only [Eaten.left, Eaten.released, Bool.false_eq_true, ↓reduceIte] at he ⊢
    refine ⟨?_, ?_, ?_, ?_, he.memory, ?_⟩
    · intro t ht
      cases ht with
      | head => exact h
      | tail _ ht => exact he.wellFormed t ht
    · intro t ht
      cases ht with
      | head => exact husers
      | tail _ ht => exact he.users t ht
    · have heq := he.length
      simp only [Bool.false_eq_true, ↓reduceIte, Nat.sub_zero] at heq ⊢
      rw [List.cons_append, listLen_cons, listLen_cons, heq]
    · have heq := he.content
      simp only [Bool.false_eq_true, ↓reduceIte, List.drop_zero] at heq ⊢
      rw [List.cons_append, listContent, listContent, heq]
    · intro p
      have hp := he.released p
      simp only [List.cons_append, listPkts, List.count_append] at hp ⊢
      omega

/-- **The loop over `frag_list`.** -/
theorem eatList_ok (hwell : ∀ s ∈ list, PullsWell kernel mem s) :
    ∀ {eat : Nat}, (∀ s ∈ list, s.WellFormed) → (∀ s ∈ list, 1 ≤ s.buff.users) → 0 < eat →
      eat ≤ listLen list → ListFits kernel list eat →
      ∃ e, eatList (withPull kernel mem list) eat = .ok e ∧
        Left kernel mem list eat e.ok e.left e.released := by
  induction list with
  | nil =>
    intro eat _ _ hpos hle _
    simp only [listLen, List.map_nil, List.sum_nil] at hle
    omega
  | cons s list ih =>
    obtain ⟨b, l⟩ := s
    intro eat hform husers hpos hle hfits
    have hs := hform _ List.mem_cons_self
    have hform' := fun t ht => hform t (List.mem_cons_of_mem _ ht)
    have husers' := fun t ht => husers t (List.mem_cons_of_mem _ ht)
    have hsusers := husers _ List.mem_cons_self
    rw [listLen_cons, Skb.buff_mk] at hle
    simp only [ListFits] at hfits
    rw [if_neg (by omega)] at hfits
    simp only [withPull, eatList, Skb.buff_mk, map_fst_withPull]
    by_cases hwhole : b.len ≤ eat
    · rw [if_pos hwhole] at hfits
      rw [if_pos hwhole]
      by_cases hall : eat - b.len = 0
      · rw [if_pos hall]
        refine ⟨_, rfl, ?_⟩
        apply @left_whole kernel mem list eat (.mk b l) ⟨true, [], list, []⟩ hs hsusers hwhole
        rw [Skb.buff_mk, hall]
        exact ⟨hform', husers', rfl, rfl, fun hok => Bool.noConfusion hok,
          fun p => by simp [Eaten.released, Eaten.left, dropList]⟩
      · rw [if_neg hall]
        obtain ⟨e, heat, he⟩ := ih (fun t ht => hwell t (List.mem_cons_of_mem _ ht)) hform' husers'
          (Nat.pos_of_ne_zero hall) (by omega) hfits
        rw [heat]
        exact ⟨_, rfl, left_whole hs hsusers hwhole he⟩
    · rw [if_neg hwhole] at hfits
      obtain ⟨ok, s', log, hpull, hs'users, hs', hlen, hcontent, hmemory, hreleased⟩ :=
        pskbPull_ok hs (hwell _ List.mem_cons_self) hfits.1 (by omega) hfits.2
      rw [if_neg hwhole, if_neg (by omega), hpull]
      refine ⟨_, rfl, ?_⟩
      have hleft := left_cut hs hform' husers' (by rw [Skb.buff_mk]; omega) (by omega) hs' hlen
        hcontent hmemory hreleased
      cases ok with
      | true => simpa [Eaten.left, Eaten.released, dropList] using hleft
      | false => simpa [Eaten.left, Eaten.released] using hleft

end Lists

/-! ### `__pskb_pull_tail` -/

section Pull

variable {kernel : Kernel} {mem : Pages} {b : SkBuff} {list list' : List Skb} {delta : Nat}

/-- The bytes behind the linear part. -/
def restBytes (mem : Pages) (b : SkBuff) (list : List Skb) : List UInt8 :=
  fragsBytes mem b.frags ++ listContent mem list

/-- The socket buffer with the bytes that `skb_copy_bits` put behind its tail. -/
def SkBuff.filled (mem : Pages) (b : SkBuff) (list : List Skb) (delta : Nat) : SkBuff :=
  { b with head := write b.head b.tail ((restBytes mem b list).take delta) }

theorem length_restBytes (h : Skb.WellFormed (.mk b list)) :
    (restBytes mem b list).length = b.dataLen := by
  rw [restBytes, List.length_append, length_fragsBytes, h.length_listContent, h.here.dataLen_eq]

theorem linear_filled (h : Placed b) : (b.filled mem list delta).linear = b.linear := by
  have hle := h.tail_le
  have hlen : (b.head.take b.tail).length = b.tail := List.length_take_of_le hle
  simp only [SkBuff.linear, SkBuff.filled, write, List.append_assoc]
  rw [List.take_left' hlen]

theorem length_head_filled (hroom : b.tail + delta ≤ b.head.length) :
    (b.filled mem list delta).head.length = b.head.length := by
  apply length_write
  rw [List.length_take]
  omega

/-- The linear part after the tail has moved. -/
theorem linear_pulled (h : Placed b) (hdelta : delta ≤ (restBytes mem b list).length) :
    ((b.filled mem list delta).head.take (b.tail + delta)).drop b.data =
      b.linear ++ (restBytes mem b list).take delta := by
  have hle := h.tail_le
  have heq := h.tail_eq
  have hlen : ((restBytes mem b list).take delta).length = delta :=
    List.length_take_of_le hdelta
  have htail : (b.head.take b.tail).length = b.tail := List.length_take_of_le hle
  have hwrite := take_write b.head ((restBytes mem b list).take delta) hle
  rw [hlen] at hwrite
  simp only [SkBuff.filled]
  rw [hwrite, List.drop_append_of_le_length (by omega), SkBuff.linear]

/-- `pull_pages`, with what the `frag_list` has become. -/
def pulledSkb (mem : Pages) (b : SkBuff) (list list' : List Skb) (delta : Nat) : Skb :=
  (pullPages (b.filled mem list delta) list' delta).1

theorem content_pulled (h : Placed b) (hdelta : delta ≤ (restBytes mem b list).length) :
    (pulledSkb mem b list list' delta).content mem =
      b.linear ++ ((restBytes mem b list).take delta ++
        (fragsBytes mem (pullFrags b.frags delta).1 ++ listContent mem list')) := by
  simp only [pulledSkb, pullPages, Skb.content, SkBuff.linear]
  rw [← List.append_assoc (b.head.take b.tail |>.drop b.data), ← SkBuff.linear,
    ← linear_pulled h hdelta]
  rfl

theorem length_linear_pulled (h : Placed b) (hdelta : delta ≤ (restBytes mem b list).length) :
    (pulledSkb mem b list list' delta).buff.linear.length = b.headlen + delta := by
  have hlin := congrArg List.length (linear_pulled h hdelta)
  rw [List.length_append, h.length_linear, List.length_take_of_le hdelta] at hlin
  exact hlin

/-- What `pull_pages` leaves, when the rest of the content is in order. -/
theorem pulled_pages (h : Skb.WellFormed (.mk b list)) (hroom : b.tail + delta ≤ b.head.length)
    (hdelta : delta ≤ b.dataLen) (hform : ∀ s ∈ list', s.WellFormed)
    (husers : ∀ s ∈ list', 1 ≤ s.buff.users)
    (hlen : fragsLen (pullFrags b.frags delta).1 + listLen list' = b.dataLen - delta)
    (hrest : fragsBytes mem (pullFrags b.frags delta).1 ++ listContent mem list' =
      (restBytes mem b list).drop delta) {log : List Release}
    (hreleased : Released (listPkts list) (listPkts list') log) :
    Pulled kernel mem (.mk b list) delta true (pulledSkb mem b list list' delta) log := by
  have hle := h.here.dataLen_le
  have htail := h.here.tail_eq
  have hheadlen : b.headlen = b.len - b.dataLen := rfl
  have hlength : delta ≤ (restBytes mem b list).length := by
    rw [length_restBytes h]
    exact hdelta
  have hhead : (pulledSkb mem b list list' delta).buff.headlen = b.headlen + delta := by
    simp only [pulledSkb, pullPages, Skb.buff_mk, SkBuff.filled, SkBuff.headlen]
    omega
  refine ⟨.mk ⟨⟨?_, ?_⟩, ?_, hlen.symm, h.here.dataref, h.here.fragsref, husers⟩ hform, rfl, rfl,
    ?_, fun _ => hhead, fun hok => (nomatch hok), ?_⟩
  · simp only [SkBuff.headlen, SkBuff.filled]
    omega
  · rw [length_head_filled hroom]
    exact hroom
  · simp only [SkBuff.filled]
    omega
  · rw [content_pulled h.here.toPlaced hlength, hrest, List.take_append_drop, Skb.content,
      restBytes]
  · intro p
    have hp := hreleased p
    simp only [pulledSkb, pullPages, Skb.pkts, SkBuff.filled]
    rw [List.count_cons, List.count_cons]
    omega

theorem pulled_frags (h : Skb.WellFormed (.mk b list)) (hroom : b.tail + delta ≤ b.head.length)
    (hdelta : delta ≤ fragsLen b.frags) (hfit : FragsFit b.frags delta) :
    Pulled kernel mem (.mk b list) delta true (pulledSkb mem b list list delta)
      (pullFrags b.frags delta).2 := by
  have heq := h.here.dataLen_eq
  apply pulled_pages h hroom (by omega) h.of_mem h.here.users
  · rw [length_pullFrags hdelta]
    omega
  · rw [bytes_pullFrags mem hfit hdelta, restBytes,
      List.drop_append_of_le_length (by rw [length_fragsBytes]; exact hdelta)]
  · intro p
    simp

/-- With tailroom, the rest is what happens to the fragments and the `frag_list`. -/
theorem pskbPullTail_room (h : Skb.WellFormed (.mk b list)) (hlen : b.len < 2 ^ 31)
    (hdelta : delta ≤ b.dataLen) (hroom : b.tail + delta ≤ b.head.length) :
    pskbPullTail kernel mem (.mk b list) delta =
      pullFragList (b.filled mem list delta) (withPull kernel mem list) delta := by
  have hle := h.here.dataLen_le
  have hheadlen : b.headlen = b.len - b.dataLen := rfl
  have hrest := @length_restBytes mem b list h
  have hbytes : ((restBytes mem b list).take delta).length = delta :=
    List.length_take_of_le (by omega)
  have hcopy := skbCopyBits_tail mem h.here.toPlaced (fun s hs => skbPiece_reads mem
    (h.of_mem s hs) (Nat.lt_of_le_of_lt (h.here.len_le_of_mem hs) hlen)) hlen
    (n := delta) (by omega)
  rw [← restBytes, if_pos (by omega)] at hcopy
  have hsame : (if list.isEmpty then [] else withPull kernel mem list) =
      withPull kernel mem list := by
    cases list with
    | nil => rfl
    | cons s list => rfl
  rw [pskbPullTail, pullBody, makeRoom, if_neg (by omega), map_fst_withPull]
  simp only [ne_eq, not_true_eq_false, ↓reduceIte, hcopy, hsame, hbytes]
  rw [if_neg (by omega), ← SkBuff.filled]
  cases pullFragList (b.filled mem list delta) (withPull kernel mem list) delta with
  | error e => rfl
  | ok r => rfl

section Expand

variable {m : List UInt8}

theorem pskbPullTail_none (husers : b.users = 1) (hroom : ¬b.tail + delta ≤ b.head.length)
    (hm : kmalloc kernel (expandSize b 0 (extraTail b delta)) = none) :
    pskbPullTail kernel mem (.mk b list) delta = .ok (false, .mk b list, []) := by
  rw [pskbPullTail, pullBody, makeRoom, if_pos (by omega), map_fst_withPull, ← extraTail,
    pskbExpandHead_none husers hm]
  simp [enomem]

/-- Without tailroom the `frag_list` is lost, and the kernel stops if it is needed. -/
theorem pskbPullTail_some (h : Skb.WellFormed (.mk b list)) (husers : b.users = 1)
    (hlen : b.len < 2 ^ 31) (hdelta : delta ≤ b.dataLen) (hroom : ¬b.tail + delta ≤ b.head.length)
    (hm : kmalloc kernel (expandSize b 0 (extraTail b delta)) = some m)
    (htail : 0 + b.tail ≤ m.length) :
    pskbPullTail kernel mem (.mk b list) delta =
      if delta ≤ fragsLen b.frags then
        if (newHead b 0 (extraTail b delta) m).length < b.tail + delta then .error .fault
        else
          .ok (true, pulledSkb mem (b.expanded 0 (extraTail b delta) m) [] [] delta,
            (if b.mhead then [.head] else []) ++ (pullFrags b.frags delta).2)
      else .error .bug := by
  have hle := h.here.dataLen_le
  have hheadlen : b.headlen = b.len - b.dataLen := rfl
  have hplaced := @placed_expanded b list 0 (extraTail b delta) m h.here htail
  rw [pskbPullTail, pullBody, makeRoom, if_pos (by omega), map_fst_withPull, ← extraTail,
    pskbExpandHead_some h.here husers htail hm]
  have hnew : (b.expanded 0 (extraTail b delta) m).head = newHead b 0 (extraTail b delta) m := rfl
  have htail' : (b.expanded 0 (extraTail b delta) m).tail = b.tail := rfl
  have hwithin : b.headlen + delta ≤ b.len := by omega
  have hcopy := @skbCopyBits_tail mem (b.expanded 0 (extraTail b delta) m) [] hplaced
    (fun s hs => nomatch hs) hlen delta hwithin
  rw [← restBytes] at hcopy
  have hrest : (restBytes mem (b.expanded 0 (extraTail b delta) m) []).length =
      fragsLen b.frags := by
    rw [restBytes, List.length_append, length_fragsBytes]
    rfl
  rw [hrest] at hcopy
  by_cases hd : delta ≤ fragsLen b.frags
  · rw [if_pos hd] at hcopy ⊢
    have hbytes : ((restBytes mem (b.expanded 0 (extraTail b delta) m) []).take delta).length =
        delta := List.length_take_of_le (by omega)
    simp only [ne_eq, not_true_eq_false, ↓reduceIte, hcopy, hbytes, hnew, htail']
    rfl
  · rw [if_neg hd] at hcopy ⊢
    simp only [ne_eq, not_true_eq_false, ↓reduceIte, hcopy]

theorem pskbPullTail_fault (husers : b.users = 1) (hroom : ¬b.tail + delta ≤ b.head.length)
    (hm : kmalloc kernel (expandSize b 0 (extraTail b delta)) = some m)
    (htail : m.length < 0 + b.tail) :
    pskbPullTail kernel mem (.mk b list) delta = .error .fault := by
  rw [pskbPullTail, pullBody, makeRoom, if_pos (by omega), map_fst_withPull, ← extraTail,
    pskbExpandHead_fault husers htail hm]

/-- A length that does not fit an `int` is not copied. -/
theorem skbCopyBits_long (hlong : 2 ^ 31 ≤ b.len) (hlt : b.len < 2 ^ 32) :
    skbCopyBits mem (.mk b list) b.headlen delta = none := by
  have hneg := toInt32_neg hlong hlt
  simp only [skbCopyBits]
  rw [if_pos (by omega)]

theorem pskbPullTail_long (h : Skb.WellFormed (.mk b list)) (husers : b.users = 1)
    (hlong : 2 ^ 31 ≤ b.len) (hlt : b.len < 2 ^ 32)
    (hm : b.tail + delta ≤ b.head.length ∨
      ∃ m, kmalloc kernel (expandSize b 0 (extraTail b delta)) = some m ∧ 0 + b.tail ≤ m.length) :
    pskbPullTail kernel mem (.mk b list) delta = .error .bug := by
  rw [pskbPullTail, pullBody, makeRoom, map_fst_withPull]
  by_cases hroom : b.tail + delta ≤ b.head.length
  · rw [if_neg (by omega)]
    simp only [ne_eq, not_true_eq_false, ↓reduceIte]
    rw [skbCopyBits_long hlong hlt]
  · obtain hno | ⟨m, hm, htail⟩ := hm
    · exact absurd hno hroom
    · rw [if_pos (by omega), ← extraTail, pskbExpandHead_some h.here husers htail hm]
      have hcopy := @skbCopyBits_long mem (b.expanded 0 (extraTail b delta) m) [] delta hlong hlt
      simp only [ne_eq, not_true_eq_false, ↓reduceIte]
      rw [hcopy]

end Expand

/-- When the fragments have enough. -/
theorem pullFragList_frags
    (h : list.isEmpty = true ∨ ∀ left, estimate b.frags delta ≠ some (left + 1)) :
    pullFragList (b.filled mem list delta) (withPull kernel mem list) delta =
      .ok (true, pulledSkb mem b list list delta, (pullFrags b.frags delta).2) := by
  unfold pullFragList
  cases list with
  | nil => rfl
  | cons s list =>
    have hmap := @map_fst_withPull kernel mem (s :: list)
    have hempty : (withPull kernel mem (s :: list)).isEmpty = false := rfl
    have hfrags : (b.filled mem (s :: list) delta).frags = b.frags := rfl
    rw [hempty, hfrags, hmap]
    cases hest : estimate b.frags delta with
    | none => rfl
    | some left =>
      cases left with
      | zero => rfl
      | succ left =>
        obtain hnil | hno := h
        · cases hnil
        · exact absurd hest (hno left)

/-- When the `frag_list` has to give. -/
theorem pullFragList_list {left : Nat} (hlist : list.isEmpty = false)
    (h : estimate b.frags delta = some (left + 1)) :
    pullFragList (b.filled mem list delta) (withPull kernel mem list) delta =
      match eatList (withPull kernel mem list) (left + 1) with
      | .error e => .error e
      | .ok ⟨false, eaten, rest, log⟩ =>
          .ok (false, .mk (b.filled mem list delta) (eaten ++ rest), log)
      | .ok ⟨true, eaten, rest, log⟩ =>
          .ok (true, pulledSkb mem b list rest delta,
            log ++ dropList eaten ++ (pullFrags b.frags delta).2) := by
  cases list with
  | nil => cases hlist
  | cons s list =>
    unfold pullFragList
    have hempty : (withPull kernel mem (s :: list)).isEmpty = false := rfl
    have hfrags : (b.filled mem (s :: list) delta).frags = b.frags := rfl
    rw [hempty, hfrags, h]
    rfl

theorem wellFormed_filled (h : Skb.WellFormed (.mk b list))
    (hroom : b.tail + delta ≤ b.head.length) (hform : ∀ s ∈ list', s.WellFormed)
    (husers : ∀ s ∈ list', 1 ≤ s.buff.users) (hlen : listLen list' = listLen list) :
    Skb.WellFormed (.mk (b.filled mem list delta) list') := by
  refine .mk ⟨⟨h.here.tail_eq, ?_⟩, h.here.dataLen_le, ?_, h.here.dataref, h.here.fragsref,
    husers⟩ hform
  · rw [length_head_filled hroom]
    exact h.here.tail_le
  · rw [hlen]
    exact h.here.dataLen_eq

/-- When the socket buffers of the `frag_list` gave what the fragments had not, -/
theorem pulled_rest (h : Skb.WellFormed (.mk b list)) (hroom : b.tail + delta ≤ b.head.length)
    (hdelta : delta ≤ b.dataLen) (hall : fragsLen b.frags ≤ delta) {log : List Release}
    (he : Left kernel mem list (delta - fragsLen b.frags) true list' log) :
    Pulled kernel mem (.mk b list) delta true (pulledSkb mem b list list' delta)
      (log ++ (pullFrags b.frags delta).2) := by
  have heq := h.here.dataLen_eq
  have hlen := he.length
  have hcontent := he.content
  simp only [↓reduceIte] at hlen hcontent
  apply pulled_pages h hroom hdelta he.wellFormed he.users
  · rw [pullFrags_all hall, hlen]
    have hnil : fragsLen [] = 0 := rfl
    omega
  · rw [pullFrags_all hall, hcontent, restBytes,
      drop_append_behind _ _ (by rw [length_fragsBytes]; exact hall), length_fragsBytes]
    rfl
  · intro p
    have hp := he.released p
    rw [handles_append, handles_pullFrags, List.append_nil]
    exact hp

/-- and when one of them had no memory. -/
theorem pulled_filled (h : Skb.WellFormed (.mk b list)) (hroom : b.tail + delta ≤ b.head.length)
    {eat : Nat} {log : List Release} (he : Left kernel mem list eat false list' log) :
    Pulled kernel mem (.mk b list) delta false (.mk (b.filled mem list delta) list') log := by
  have hlen := he.length
  have hcontent := he.content
  simp only [Bool.false_eq_true, ↓reduceIte, Nat.sub_zero, List.drop_zero] at hlen hcontent
  refine ⟨wellFormed_filled h hroom he.wellFormed he.users hlen, rfl, rfl, ?_,
    fun hok => (nomatch hok), he.memory, ?_⟩
  · rw [Skb.content, Skb.content, linear_filled h.here.toPlaced, hcontent]
    rfl
  · intro p
    have hp := he.released p
    simp only [Skb.pkts, SkBuff.filled]
    rw [List.count_cons, List.count_cons]
    omega

/-- **The pull, where there is tailroom.** -/
theorem pullFragList_ok (h : Skb.WellFormed (.mk b list)) (hroom : b.tail + delta ≤ b.head.length)
    (hdelta : delta ≤ b.dataLen) (hfit : FragsFit b.frags delta)
    (hfits : fragsLen b.frags < delta → ListFits kernel list (delta - fragsLen b.frags))
    (hwell : ∀ s ∈ list, PullsWell kernel mem s) :
    ∃ ok s' log, pullFragList (b.filled mem list delta) (withPull kernel mem list) delta =
        .ok (ok, s', log) ∧ Pulled kernel mem (.mk b list) delta ok s' log := by
  have heq := h.here.dataLen_eq
  by_cases hfrags : list.isEmpty = true ∨ ∀ left, estimate b.frags delta ≠ some (left + 1)
  · rw [pullFragList_frags hfrags]
    refine ⟨_, _, _, rfl, pulled_frags h hroom ?_ hfit⟩
    obtain hnil | hno := hfrags
    · rw [List.isEmpty_iff] at hnil
      subst hnil
      have hzero : listLen [] = 0 := rfl
      omega
    · cases hest : estimate b.frags delta with
      | none => exact estimate_none hest
      | some left =>
        have hsum := estimate_some hest
        cases left with
        | zero => omega
        | succ left => exact absurd hest (hno left)
  · simp only [not_or, not_forall, ne_eq, not_not, Bool.not_eq_true] at hfrags
    obtain ⟨hlist, left, hest⟩ := hfrags
    have hsum := estimate_some hest
    have hleft : left + 1 = delta - fragsLen b.frags := by omega
    have hfits' := hfits (by omega)
    obtain ⟨⟨ok, eaten, rest, log⟩, heat, he⟩ := eatList_ok hwell h.of_mem h.here.users
      (by omega) (by omega) hfits'
    rw [pullFragList_list hlist hest, hleft, heat]
    cases ok with
    | true => exact ⟨_, _, _, rfl, pulled_rest h hroom hdelta (by omega) he⟩
    | false =>
      simp only [Eaten.left, Eaten.released, Bool.false_eq_true, ↓reduceIte, List.append_nil] at he
      exact ⟨_, _, _, rfl, pulled_filled h hroom he⟩

/-- Expanded to make room, without a `frag_list` that has content. -/
theorem pulled_expanded {m : List UInt8} (h : Skb.WellFormed (.mk b list))
    (hdelta : delta ≤ b.dataLen) (hlist : listLen list = 0) (hfit : FragsFit b.frags delta)
    (htail : 0 + b.tail ≤ m.length)
    (hroom : b.tail + delta ≤ (newHead b 0 (extraTail b delta) m).length) :
    Pulled kernel mem (.mk b list) delta true
      (pulledSkb mem (b.expanded 0 (extraTail b delta) m) [] [] delta)
      ((if b.mhead then [.head] else []) ++ (pullFrags b.frags delta).2) := by
  have heq := h.here.dataLen_eq
  have hform := @formed_expanded b list 0 (extraTail b delta) m h.here hlist htail
  have hcontent := @content_expanded b list 0 (extraTail b delta) m h.here htail mem
  have hnil : listContent mem list = [] := by
    rw [← List.length_eq_zero_iff, h.length_listContent, hlist]
  rw [hnil, List.append_nil] at hcontent
  have hfrags : delta ≤ fragsLen (b.expanded 0 (extraTail b delta) m).frags := by
    simp only [SkBuff.expanded]
    omega
  have hs := @pulled_frags kernel mem (b.expanded 0 (extraTail b delta) m) [] delta
    (Skb.All.mk hform fun s hs => absurd hs List.not_mem_nil) hroom hfrags hfit
  refine ⟨hs.wellFormed, hs.users, hs.length, hs.content.trans hcontent.symm, hs.headlen, hs.memory,
    fun p => ?_⟩
  have hp := hs.released p
  have hlog : handles (if b.mhead then [.head] else []) = [] := by
    split
    · rfl
    · rfl
  have hpkt : (b.expanded 0 (extraTail b delta) m).pkt = b.pkt := rfl
  have hsame : (b.expanded 0 (extraTail b delta) m).frags = b.frags := rfl
  rw [Skb.pkts, hpkt, hsame, listPkts, List.count_cons, List.count_nil] at hp
  rw [handles_append, hlog, List.nil_append, Skb.pkts, List.count_cons]
  omega

/-- The room is that of the new head. -/
theorem le_newRoom_iff {m : List UInt8} (h : Formed b list)
    (hroom : ¬b.tail + delta ≤ b.head.length)
    (hm : kmalloc kernel (expandSize b 0 (extraTail b delta)) = some m)
    (htail : 0 + b.tail ≤ m.length) :
    b.tail + delta ≤ newRoom b (extraTail b delta) ↔
      b.tail + delta ≤ (newHead b 0 (extraTail b delta) m).length := by
  have hle := h.tail_le
  rw [length_newHead h htail, newRoom, ← length_kmalloc hm]
  omega

theorem noMemory_of (hroom : ¬b.tail + delta ≤ b.head.length)
    (hnew : b.tail + delta ≤ newRoom b (extraTail b delta))
    (hm : kmalloc kernel (expandSize b 0 (extraTail b delta)) = none) : NoMemory kernel := by
  have hle := Nat.le_trans hnew (Nat.min_le_left _ _)
  have hpos : expandSize b 0 (extraTail b delta) ≠ 0 := by
    intro hzero
    rw [hzero] at hle
    have h0 : (0 : BitVec 32).toNat = 0 := rfl
    omega
  rw [kmalloc_of_ne hpos] at hm
  exact ⟨_, hm⟩

/-- **`__pskb_pull_tail` keeps the content** wherever it can be expected to. -/
theorem pullsWell {s : Skb} (h : s.WellFormed) : PullsWell kernel mem s := by
  induction s using Skb.induction with
  | h b list ih =>
    intro husers delta hdelta hfits
    rw [Skb.buff_mk] at husers hdelta
    have hle := h.here.dataLen_le
    have heq := h.here.dataLen_eq
    have hheadlen : b.headlen = b.len - b.dataLen := rfl
    simp only [PullFits] at hfits
    split at hfits
    · next hroom =>
      obtain ⟨hlen, hfit, hlist⟩ := hfits
      rw [pskbPullTail_room h hlen hdelta hroom]
      exact pullFragList_ok h hroom hdelta hfit hlist fun s hs => ih s hs (h.of_mem s hs)
    · next hroom =>
      cases hm : kmalloc kernel (expandSize b 0 (extraTail b delta)) with
      | none =>
        rw [hm] at hfits
        have hmemory : NoMemory kernel := by
          obtain hnone | ⟨hlen, hnew, _⟩ := hfits
          · exact hnone.2
          · exact noMemory_of hroom hnew hm
        exact ⟨_, _, _, pskbPullTail_none husers hroom hm, h, rfl, rfl, rfl,
          fun hok => (nomatch hok), fun _ => hmemory, fun p => by simp⟩
      | some m =>
        obtain ⟨hnone, _⟩ | ⟨hlen, hnew, hlist, hfit⟩ := hfits
        · rw [hm] at hnone
          cases hnone
        · have htail : 0 + b.tail ≤ m.length := by
            have hroom := Nat.le_trans hnew (Nat.min_le_right _ _)
            rw [← length_kmalloc hm] at hroom
            omega
          rw [le_newRoom_iff h.here hroom hm htail] at hnew
          have hpull := @pskbPullTail_some kernel mem b list delta m h husers hlen hdelta hroom hm
            htail
          rw [if_pos (by omega), if_neg (by omega)] at hpull
          exact ⟨_, _, _, hpull, pulled_expanded h hdelta hlist hfit htail hnew⟩

theorem drop_content (h : Placed b) :
    (Skb.content mem (.mk b list)).drop (b.headlen + delta) =
      (restBytes mem b list).drop delta := by
  have hlin := h.length_linear
  rw [Skb.content, drop_append_behind _ _ (by omega), hlin, Nat.add_sub_cancel_left, restBytes]

theorem drop_content_pulled (h : Placed b) (hdelta : delta ≤ (restBytes mem b list).length) :
    ((pulledSkb mem b list list' delta).content mem).drop (b.headlen + delta) =
      fragsBytes mem (pullFrags b.frags delta).1 ++ listContent mem list' := by
  have hlin := h.length_linear
  have hlen : ((restBytes mem b list).take delta).length = delta := List.length_take_of_le hdelta
  rw [content_pulled h hdelta, drop_append_behind _ _ (by omega), hlin, Nat.add_sub_cancel_left,
    List.drop_left' hlen]

end Pull

/-! ### When it does not -/

/-- What a pull that loses or mixes up bytes leaves behind the linear part; or it fails for no
    reason. -/
structure Spoiled (kernel : Kernel) (s : Skb) (delta : Nat) (ok : Bool) (s' : Skb) : Prop where
  memory : ok = false → ¬NoMemory kernel
  linear : ok = true → s'.buff.linear.length = s.buff.headlen + delta
  content : ok = true → (s'.content marked).drop (s.buff.headlen + delta) ≠
    (s.content marked).drop (s.buff.headlen + delta)

/-- Where it cannot be expected to keep the content, `__pskb_pull_tail` does not. -/
def PullsBadly (kernel : Kernel) (s : Skb) : Prop :=
  s.buff.users = 1 → ∀ delta ≤ s.buff.dataLen, ¬PullFits kernel s delta →
    ∀ ok s' log, pskbPullTail kernel marked s delta = .ok (ok, s', log) →
      Spoiled kernel s delta ok s'

section Bad

variable {kernel : Kernel} {b : SkBuff} {list : List Skb} {delta : Nat}

theorem listFits_zero (list : List Skb) : ListFits kernel list 0 := by
  cases list with
  | nil => trivial
  | cons s list =>
    cases s
    simp [ListFits]

/-- What the loop over `frag_list` leaves then. -/
structure EatenBadly (kernel : Kernel) (list : List Skb) (eat : Nat) (e : Eaten) : Prop where
  memory : e.ok = false → ¬NoMemory kernel
  content : e.ok = true → listContent marked e.rest ≠ (listContent marked list).drop eat

theorem eatenBadly_cut {s s' : Skb} {eat : Nat} {ok : Bool} {log : List Release}
    (hs : s.WellFormed) (hhead : s.buff.headlen < eat) (hlt : eat < s.buff.len)
    (hspoiled : Spoiled kernel s (eat - s.buff.headlen) ok s') :
    EatenBadly kernel (s :: list) eat
      ⟨ok, [], (if ok then advance eat s' else s') :: list, log⟩ := by
  refine ⟨hspoiled.memory, fun hok heq => hspoiled.content hok ?_⟩
  obtain rfl : ok = true := hok
  have hlength := hs.length_content marked
  have hsum : s.buff.headlen + (eat - s.buff.headlen) = eat := by omega
  have hlinear := hspoiled.linear rfl
  rw [hsum] at hlinear ⊢
  rw [if_pos rfl, listContent, listContent, content_advance marked (by omega),
    List.drop_append_of_le_length (by omega)] at heq
  exact List.append_cancel_right heq

theorem eatList_bad (hbad : ∀ s ∈ list, PullsBadly kernel s) :
    ∀ {eat : Nat} {e : Eaten}, (∀ s ∈ list, s.WellFormed) → ¬ListFits kernel list eat →
      eatList (withPull kernel marked list) eat = .ok e → EatenBadly kernel list eat e := by
  induction list with
  | nil =>
    intro eat e _ hfits
    exact absurd trivial hfits
  | cons s list ih =>
    obtain ⟨b, l⟩ := s
    intro eat e hform hfits heat
    have hs := hform _ List.mem_cons_self
    have hlength := hs.length_content marked
    rw [Skb.buff_mk] at hlength
    simp only [ListFits] at hfits
    simp only [withPull, eatList, Skb.buff_mk, map_fst_withPull] at heat
    have hpos : eat ≠ 0 := by
      rintro rfl
      simp at hfits
    rw [if_neg hpos] at hfits
    by_cases hwhole : b.len ≤ eat
    · rw [if_pos hwhole] at hfits heat
      have hleft : eat - b.len ≠ 0 := by
        intro hzero
        rw [hzero] at hfits
        exact hfits (listFits_zero list)
      rw [if_neg hleft] at heat
      split at heat
      · cases heat
      · next e' he' =>
        have hrest := ih (fun t ht => hbad t (List.mem_cons_of_mem _ ht))
          (fun t ht => hform t (List.mem_cons_of_mem _ ht)) hfits he'
        obtain rfl := Except.ok.inj heat
        refine ⟨hrest.memory, fun hok => ?_⟩
        rw [listContent, drop_append_behind _ _ (by omega), hlength]
        exact hrest.content hok
    · rw [if_neg hwhole] at hfits heat
      by_cases husers : b.users = 1
      · simp only [husers, true_and, Classical.not_imp] at hfits
        obtain ⟨hhead, hfits⟩ := hfits
        have hle := hs.here.dataLen_le
        have hheadlen : b.headlen = b.len - b.dataLen := rfl
        rw [if_neg (by omega), pskbPull_deep _ (Nat.not_le.mp hwhole) hhead, Skb.buff_mk] at heat
        cases hpull : pskbPullTail kernel marked (.mk b l) (eat - b.headlen) with
        | error stop =>
          rw [hpull] at heat
          cases heat
        | ok r =>
          obtain ⟨ok, s', log⟩ := r
          have hspoiled := hbad _ List.mem_cons_self husers (eat - b.headlen)
            (by rw [Skb.buff_mk]; omega) hfits ok s' log hpull
          rw [hpull] at heat
          obtain rfl := Except.ok.inj heat
          exact eatenBadly_cut hs hhead (Nat.not_le.mp hwhole) hspoiled
      · rw [if_pos husers] at heat
        cases heat

/-- Expanded to make room, a socket buffer has lost its `frag_list`. -/
theorem spoiled_expanded {m : List UInt8} (h : Skb.WellFormed (.mk b list))
    (htail : 0 + b.tail ≤ m.length) (hfrags : delta ≤ fragsLen b.frags)
    (hlist : ¬(listLen list = 0 ∧ FragsFit b.frags delta)) :
    Spoiled kernel (.mk b list) delta true
      (pulledSkb marked (b.expanded 0 (extraTail b delta) m) [] [] delta) := by
  have hplaced := @placed_expanded b list 0 (extraTail b delta) m h.here htail
  generalize hbe : b.expanded 0 (extraTail b delta) m = be at *
  have hhead : be.headlen = b.headlen := by
    subst hbe
    rfl
  have hsame : be.frags = b.frags := by
    subst hbe
    rfl
  have hrest : (restBytes marked be []).length = fragsLen b.frags := by
    rw [restBytes, List.length_append, length_fragsBytes, hsame]
    rfl
  have hlinear := @length_linear_pulled marked be [] [] delta hplaced (by omega)
  refine ⟨fun hok => (nomatch hok), fun _ => by rw [hlinear, hhead]; rfl, fun _ heq => hlist ?_⟩
  rw [Skb.buff_mk, drop_content h.here.toPlaced, ← hhead,
    drop_content_pulled hplaced (by omega), hsame, listContent, List.append_nil, restBytes,
    List.drop_append_of_le_length (by rw [length_fragsBytes]; exact hfrags)] at heq
  have hlen := congrArg List.length heq
  rw [List.length_append, length_fragsBytes, length_pullFrags hfrags, List.length_drop,
    length_fragsBytes, h.length_listContent] at hlen
  have hzero : listLen list = 0 := by omega
  have hnil : listContent marked list = [] := by
    rw [← List.length_eq_zero_iff, h.length_listContent, hzero]
  refine ⟨hzero, ?_⟩
  by_contra hfit
  rw [hnil, List.append_nil] at heq
  exact bytes_pullFrags_ne hfit heq

/-- With tailroom. -/
theorem pullFragList_bad (h : Skb.WellFormed (.mk b list)) (hdelta : delta ≤ b.dataLen)
    (hfits : ¬(FragsFit b.frags delta ∧
      (fragsLen b.frags < delta → ListFits kernel list (delta - fragsLen b.frags))))
    (hbad : ∀ s ∈ list, PullsBadly kernel s) {ok : Bool} {s' : Skb} {log : List Release}
    (hpull : pullFragList (b.filled marked list delta) (withPull kernel marked list) delta =
      .ok (ok, s', log)) : Spoiled kernel (.mk b list) delta ok s' := by
  have hrest := @length_restBytes marked b list h
  by_cases hfit : FragsFit b.frags delta
  · simp only [hfit, true_and, Classical.not_imp] at hfits
    obtain ⟨hlt, hlistfits⟩ := hfits
    have hest := estimate_lt hlt
    cases hleft : delta - fragsLen b.frags with
    | zero => omega
    | succ left =>
      rw [hleft] at hest hlistfits
      have hlist : list.isEmpty = false := by
        cases list with
        | nil => exact absurd trivial hlistfits
        | cons s list => rfl
      rw [pullFragList_list hlist hest] at hpull
      cases heat : eatList (withPull kernel marked list) (left + 1) with
      | error stop =>
        rw [heat] at hpull
        cases hpull
      | ok e =>
        have hne := eatList_bad hbad h.of_mem hlistfits heat
        obtain ⟨ok', eaten, rest, log'⟩ := e
        rw [heat] at hpull
        cases ok' with
        | false =>
          simp only [Except.ok.injEq, Prod.mk.injEq] at hpull
          obtain ⟨rfl, _, _⟩ := hpull
          exact ⟨fun _ => hne.memory rfl, fun hok => (nomatch hok), fun hok => (nomatch hok)⟩
        | true =>
          simp only [Except.ok.injEq, Prod.mk.injEq] at hpull
          obtain ⟨rfl, rfl, _⟩ := hpull
          refine ⟨fun hok => (nomatch hok),
            fun _ => length_linear_pulled h.here.toPlaced (by omega),
            fun _ hsame => hne.content rfl ?_⟩
          rw [Skb.buff_mk, drop_content_pulled h.here.toPlaced (by omega),
            drop_content h.here.toPlaced, restBytes, pullFrags_all (by omega),
            drop_append_behind _ _ (by rw [length_fragsBytes]; omega), length_fragsBytes,
            hleft] at hsame
          exact hsame
  · have hlt : delta < fragsLen b.frags := by
      by_contra hge
      exact hfit (fragsFit_all (by omega))
    rw [pullFragList_frags (.inr fun left hest => by
      have hsum := estimate_some hest
      omega)] at hpull
    simp only [Except.ok.injEq, Prod.mk.injEq] at hpull
    obtain ⟨rfl, rfl, _⟩ := hpull
    refine ⟨fun hok => (nomatch hok), fun _ => length_linear_pulled h.here.toPlaced (by omega),
      fun _ hsame => ?_⟩
    rw [Skb.buff_mk, drop_content_pulled h.here.toPlaced (by omega),
      drop_content h.here.toPlaced, restBytes,
      List.drop_append_of_le_length (by rw [length_fragsBytes]; omega)] at hsame
    exact bytes_pullFrags_ne hfit (List.append_cancel_right hsame)

/-- **Where `__pskb_pull_tail` cannot be expected to keep the content, it does not**, or it stops
    the kernel. -/
theorem pullsBadly {s : Skb} (h : s.WellFormed) (hlt : s.buff.len < 2 ^ 32) :
    PullsBadly kernel s := by
  induction s using Skb.induction with
  | h b list ih =>
    intro husers delta hdelta hfits ok s' log hpull
    rw [Skb.buff_mk] at husers hdelta hlt
    have hbad := fun s hs => ih s hs (h.of_mem s hs)
      (Nat.lt_of_le_of_lt (h.here.len_le_of_mem hs) hlt)
    simp only [PullFits] at hfits
    split at hfits
    · next hroom =>
      by_cases hlen : b.len < 2 ^ 31
      · rw [pskbPullTail_room h hlen hdelta hroom] at hpull
        exact pullFragList_bad h hdelta (fun hboth => hfits ⟨hlen, hboth⟩) hbad hpull
      · rw [pskbPullTail_long h husers (Nat.not_lt.mp hlen) hlt (.inl hroom)] at hpull
        cases hpull
    · next hroom =>
      obtain ⟨hnone, hnew⟩ := not_or.mp hfits
      cases hm : kmalloc kernel (expandSize b 0 (extraTail b delta)) with
      | none =>
        rw [pskbPullTail_none husers hroom hm] at hpull
        simp only [Except.ok.injEq, Prod.mk.injEq] at hpull
        obtain ⟨rfl, _, _⟩ := hpull
        exact ⟨fun _ hno => hnone ⟨hm, hno⟩, fun hok => (nomatch hok), fun hok => (nomatch hok)⟩
      | some m =>
        by_cases htail : 0 + b.tail ≤ m.length
        · by_cases hlen : b.len < 2 ^ 31
          · rw [pskbPullTail_some h husers hlen hdelta hroom hm htail] at hpull
            split at hpull
            · next hfrags =>
              split at hpull
              · cases hpull
              · next hfault =>
                simp only [Except.ok.injEq, Prod.mk.injEq] at hpull
                obtain ⟨rfl, rfl, _⟩ := hpull
                refine spoiled_expanded h htail hfrags fun hlist => hnew ⟨hlen, ?_, hlist⟩
                rw [le_newRoom_iff h.here hroom hm htail]
                exact Nat.not_lt.mp hfault
            · cases hpull
          · rw [pskbPullTail_long h husers (Nat.not_lt.mp hlen) hlt
              (.inr ⟨m, hm, htail⟩)] at hpull
            cases hpull
        · rw [pskbPullTail_fault husers hroom hm (Nat.not_le.mp htail)] at hpull
          cases hpull

end Bad

theorem linear_of_content {mem : Pages} {s s' : Skb} {n : Nat} (h : s'.WellFormed)
    (hcontent : s'.content mem = s.content mem) (hn : s'.buff.headlen = n) :
    s'.buff.linear = (s.content mem).take n := by
  obtain ⟨b, list⟩ := s'
  have hlin := h.here.length_linear
  rw [Skb.buff_mk] at hn
  rw [← hcontent, Skb.content, List.take_left' (by omega)]
  rfl

/-- `__pskb_pull_tail` keeps the content and moves `delta` bytes of it into the linear part, or
    has no memory for that. -/
def PullKeeps (kernel : Kernel) (s : Skb) (delta : Nat) : Prop :=
  ∀ mem, match pskbPullTail kernel mem s delta with
    | .error _ => False
    | .ok (ok, s', log) => s'.Consistent mem log ∧ s'.content mem = s.content mem ∧
        if ok then s'.buff.linear = (s.content mem).take (s.buff.headlen + delta)
        else NoMemory kernel

theorem pullKeeps_iff {kernel : Kernel} {s : Skb} {delta : Nat} (h : s.WellFormed)
    (hlt : s.buff.len < 2 ^ 32) (hpkts : s.pkts.Nodup) (husers : s.buff.users = 1)
    (hdelta : delta ≤ s.buff.dataLen) : PullKeeps kernel s delta ↔ PullFits kernel s delta := by
  constructor
  · intro hkeeps
    by_contra hfits
    have hmarked := hkeeps marked
    split at hmarked
    · exact hmarked
    · next ok s' log hpull =>
      have hspoiled := pullsBadly h hlt husers delta hdelta hfits ok s' log hpull
      cases ok with
      | false => exact hspoiled.memory rfl hmarked.2.2
      | true =>
        apply hspoiled.content rfl
        rw [hmarked.2.1]
  · intro hfits mem
    obtain ⟨ok, s', log, hpull, hs⟩ := @pullsWell kernel mem s h husers delta hdelta hfits
    rw [hpull]
    refine ⟨⟨?_, hs.released.not_mem hpkts⟩, hs.content, ?_⟩
    · exact (hs.wellFormed.length_content mem).symm
    · cases ok with
      | true => exact linear_of_content hs.wellFormed hs.content (hs.headlen rfl)
      | false => exact hs.memory rfl

end VmkLinux.Net.Reshape
