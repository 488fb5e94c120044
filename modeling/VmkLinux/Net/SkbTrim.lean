/-
  VmkLinux/Net/SkbTrim.lean
  =========================
  **`___pskb_trim` keeps the first bytes** of a socket buffer, unless it comes to a socket buffer
  of a `frag_list` that is shared: there it stops the kernel.
-/
import VmkLinux.Net.SkbContent

namespace VmkLinux.Net.Reshape

/-! ### Fragments -/

section Frags

variable (mem : Pages)

theorem bytes_trimmed {f : Frag} {n : Nat} (h : n ≤ f.size.toNat) :
    ({ f with size := BitVec.ofNat 16 n } : Frag).bytes mem = (f.bytes mem).take n := by
  have hlt := f.size.isLt
  have hsize : (BitVec.ofNat 16 n).toNat = n := by
    rw [BitVec.toNat_ofNat]
    omega
  simp only [Frag.bytes, hsize]
  rw [← List.map_take, List.take_range, Nat.min_eq_left h]

theorem trimFrags_none {frags : List Frag} : ∀ {offset len : Nat}, offset < len →
    (trimFrags frags offset len = none ↔ offset + fragsLen frags < len) := by
  induction frags with
  | nil =>
    intro offset len hlt
    simpa [trimFrags, fragsLen] using hlt
  | cons f frags ih =>
    intro offset len hlt
    simp only [trimFrags, fragsLen_cons]
    split
    · next hf =>
      rw [Option.map_eq_none_iff, ih hf, Nat.add_assoc]
    · next hf =>
      simp only [reduceCtorEq, false_iff]
      omega

/-- What the loop over the fragments keeps. -/
theorem trimFrags_some {frags : List Frag} : ∀ {offset len : Nat} {kept put : List Frag},
    offset < len → trimFrags frags offset len = some (kept, put) →
      fragsLen kept = len - offset ∧
        fragsBytes mem kept = (fragsBytes mem frags).take (len - offset) := by
  induction frags with
  | nil =>
    intro offset len kept put _ h
    cases h
  | cons f frags ih =>
    intro offset len kept put hlt h
    simp only [trimFrags] at h
    split at h
    · next hf =>
      obtain ⟨r, hr, hkept⟩ := Option.map_eq_some_iff.mp h
      obtain ⟨rfl, rfl⟩ := Prod.mk.inj hkept
      obtain ⟨hlen, hbytes⟩ := ih hf hr
      constructor
      · rw [fragsLen_cons, hlen]
        omega
      · have hle : (f.bytes mem).length ≤ len - offset := by
          rw [length_bytes]
          omega
        rw [fragsBytes_cons, fragsBytes_cons, hbytes, take_append_behind _ _ hle, length_bytes,
          Nat.sub_add_eq]
    · next hf =>
      obtain ⟨rfl, rfl⟩ := Prod.mk.inj (Option.some.inj h)
      have hle : len - offset ≤ f.size.toNat := by omega
      have hsize := congrArg List.length (bytes_trimmed mem hle)
      rw [length_bytes, List.length_take, length_bytes, Nat.min_eq_left hle] at hsize
      constructor
      · rw [fragsLen_cons, hsize]
        rfl
      · rw [fragsBytes_cons, fragsBytes_cons, bytes_trimmed mem hle,
          List.take_append_of_le_length (by rw [length_bytes]; exact hle)]
        exact List.append_nil _

end Frags

/-! ### What is left -/

/-- `s'` is `s`, trimmed to `len`. -/
structure Trimmed (s s' : Skb) (len : Nat) (log : List Release) : Prop where
  wellFormed : s'.WellFormed
  users : s'.buff.users = s.buff.users
  length : s'.buff.len = len
  content : ∀ mem, s'.content mem = (s.content mem).take len
  released : Released s.pkts s'.pkts log

/-- `list'` is `list`, trimmed to `len`. -/
structure ListTrimmed (list list' : List Skb) (len : Nat) (log : List Release) : Prop where
  wellFormed : ∀ s ∈ list', s.WellFormed
  users : ∀ s ∈ list', 1 ≤ s.buff.users
  length : listLen list' = len
  content : ∀ mem, listContent mem list' = (listContent mem list).take len
  released : Released (listPkts list) (listPkts list') log

section Done

variable {b : SkBuff} {list list' : List Skb} {len : Nat}

/-- Up to the linear part. -/
theorem linear_cut (h : Formed b list) (hlen : len ≤ b.headlen) :
    (b.head.take (b.data + len)).drop b.data = b.linear.take len := by
  have heq := h.tail_eq
  have hmin : min len (b.tail - b.data) = len := by omega
  rw [SkBuff.linear, List.drop_take, List.drop_take, List.take_take, hmin,
    Nat.add_sub_cancel_left]

theorem content_take (mem : Pages) (h : Formed b list) (hlen : b.headlen ≤ len) :
    (Skb.content mem (.mk b list)).take len =
      b.linear ++ (fragsBytes mem b.frags ++ listContent mem list).take (len - b.headlen) := by
  rw [Skb.content, take_append_behind _ _ (by rw [h.length_linear]; exact hlen), h.length_linear]

theorem trimmed_linear (h : Skb.WellFormed (.mk b list)) (hlen : len ≤ b.headlen) :
    Trimmed (.mk b list) (.mk (trimDone { b with frags := [] } len) []) len
      (putPages b.frags ++ dropList list) := by
  have hhead : ({ b with frags := [] } : SkBuff).headlen = b.headlen := rfl
  have hlin := h.here.length_linear
  have heq := h.here.tail_eq
  have hle := h.here.tail_le
  unfold trimDone
  rw [if_neg (by omega)]
  refine ⟨.mk ⟨⟨rfl, ?_⟩, Nat.zero_le _, rfl, h.here.dataref, h.here.fragsref, ?_⟩ ?_, rfl, rfl,
    ?_, ?_⟩
  · dsimp only
    omega
  · intro s hs
    cases hs
  · intro s hs
    cases hs
  · intro mem
    rw [Skb.content, Skb.content, List.take_append_of_le_length (by omega),
      ← linear_cut h.here hlen]
    simp [SkBuff.linear, fragsBytes, listContent]
  · intro p
    have hdrop := count_dropList p list
    simp only [handles_append, handles_putPages, List.nil_append, Skb.pkts, listPkts]
    rw [List.count_cons, List.count_cons, List.count_nil]
    omega

theorem trimmed_behind (h : Skb.WellFormed (.mk b list)) (hlt : b.headlen < len)
    (hle : len ≤ b.len) (kept : List Frag) {log : List Release}
    (hlist : ∀ s ∈ list', s.WellFormed) (husers : ∀ s ∈ list', 1 ≤ s.buff.users)
    (hlen : fragsLen kept + listLen list' = len - b.headlen)
    (hcontent : ∀ mem, fragsBytes mem kept ++ listContent mem list' =
      (fragsBytes mem b.frags ++ listContent mem list).take (len - b.headlen))
    (hreleased : Released (listPkts list) (listPkts list') log) :
    Trimmed (.mk b list) (.mk (trimDone { b with frags := kept } len) list') len log := by
  have hhead : ({ b with frags := kept } : SkBuff).headlen = b.headlen := rfl
  have heq := h.here.tail_eq
  have hdata := h.here.dataLen_le
  have hheadlen : b.headlen = b.len - b.dataLen := rfl
  unfold trimDone
  rw [if_pos (by omega)]
  refine ⟨.mk ⟨⟨?_, h.here.tail_le⟩, ?_, ?_, h.here.dataref, h.here.fragsref, husers⟩ hlist, rfl,
    rfl, ?_, ?_⟩
  · simp only [SkBuff.headlen]
    omega
  · dsimp only
    omega
  · dsimp only
    omega
  · intro mem
    rw [content_take mem h.here (by omega), ← hcontent mem, Skb.content]
    rfl
  · intro p
    have hp := hreleased p
    simp only [Skb.pkts]
    rw [List.count_cons, List.count_cons]
    omega

end Done

/-! ### When the bytes stay -/

mutual

/-- No socket buffer that `___pskb_trim` comes to is shared. -/
def TrimUnshared : Skb → Nat → Prop
  | .mk b list, len =>
      b.headlen + fragsLen b.frags < len →
        ListUnshared list (b.headlen + fragsLen b.frags) len

def ListUnshared : List Skb → Nat → Nat → Prop
  | [], _, _ => True
  | .mk b l :: list, offset, len =>
      b.users = 1 ∧
        (offset + b.len < len → ListUnshared list (offset + b.len) len) ∧
        (len < offset + b.len → b.dataLen ≠ 0 → TrimUnshared (.mk b l) (len - offset))

end

section Trim

variable {s : Skb} {list : List Skb}

/-- A linear socket buffer is trimmed by `__skb_trim`. -/
theorem trimmed_skbTrim {b : SkBuff} (len : Nat) (h : Skb.WellFormed (.mk b list))
    (hdata : b.dataLen = 0) (hlen : len ≤ b.len) :
    Trimmed (.mk b list) (.mk (skbTrim b len) list) len [] := by
  have heq := h.here.dataLen_eq
  have htail := h.here.tail_eq
  have hle := h.here.tail_le
  have hlin := h.here.length_linear
  have hheadlen : b.headlen = b.len - b.dataLen := rfl
  have hrest : ∀ mem, fragsBytes mem b.frags ++ listContent mem list = [] := by
    intro mem
    rw [← List.length_eq_zero_iff, List.length_append, length_fragsBytes, h.length_listContent]
    omega
  unfold skbTrim
  rw [if_neg (by omega)]
  refine ⟨.mk ⟨⟨?_, ?_⟩, ?_, heq, h.here.dataref, h.here.fragsref, h.here.users⟩ h.of_mem, rfl, rfl,
    ?_, fun p => by simp [Skb.pkts]⟩
  · simp only [SkBuff.headlen]
    omega
  · dsimp only
    omega
  · dsimp only
    omega
  · intro mem
    rw [Skb.content, Skb.content, hrest mem, List.append_nil, List.append_nil,
      ← linear_cut h.here (by omega)]
    rfl

/-- The first socket buffers of a `frag_list` stay, and the rest of it is dropped. -/
theorem listTrimmed_last {s s' : Skb} {log : List Release} {len : Nat} (h : s.WellFormed)
    (husers : s.buff.users = 1) (hlen : len ≤ s.buff.len) (hs : Trimmed s s' len log) :
    ListTrimmed (s :: list) [s'] len (log ++ dropList list) := by
  refine ⟨?_, ?_, ?_, ?_, ?_⟩
  · intro t ht
    rw [List.mem_singleton.mp ht]
    exact hs.wellFormed
  · intro t ht
    rw [List.mem_singleton.mp ht, hs.users]
    omega
  · rw [listLen_cons, hs.length]
    rfl
  · intro mem
    rw [listContent, listContent, listContent, List.append_nil, hs.content,
      List.take_append_of_le_length (by rw [h.length_content]; exact hlen)]
  · intro p
    have hp := hs.released p
    have hdrop := count_dropList p list
    simp only [listPkts, handles_append, List.count_append, List.append_nil]
    omega

theorem listTrimmed_cons {s : Skb} {list' : List Skb} {log : List Release} {len : Nat}
    (h : s.WellFormed) (husers : s.buff.users = 1) (hlen : s.buff.len ≤ len)
    (hlist : ListTrimmed list list' (len - s.buff.len) log) :
    ListTrimmed (s :: list) (s :: list') len log := by
  refine ⟨?_, ?_, ?_, ?_, ?_⟩
  · intro t ht
    cases ht with
    | head => exact h
    | tail _ ht => exact hlist.wellFormed t ht
  · intro t ht
    cases ht with
    | head => omega
    | tail _ ht => exact hlist.users t ht
  · rw [listLen_cons, hlist.length]
    omega
  · intro mem
    have hlength := h.length_content mem
    rw [listContent, listContent, hlist.content, take_append_behind _ _ (by omega), hlength]
  · intro p
    have hp := hlist.released p
    simp only [listPkts, List.count_append]
    omega

/-- The loop over a `frag_list`, given what a trim does to its socket buffers. -/
theorem trimList_ok (ih : ∀ s ∈ list, ∀ len ≤ s.buff.len, TrimUnshared s len →
      ∃ s' log, pskbTrim s len = .ok (s', log) ∧ Trimmed s s' len log) :
    ∀ {offset len : Nat}, (∀ s ∈ list, s.WellFormed) → offset < len →
      len - offset ≤ listLen list → ListUnshared list offset len →
      ∃ list' log, trimList list offset len = .ok (list', log) ∧
        ListTrimmed list list' (len - offset) log := by
  induction list with
  | nil =>
    intro offset len _ hlt hle _
    simp only [listLen, List.map_nil, List.sum_nil] at hle
    omega
  | cons s list ihlist =>
    obtain ⟨b, l⟩ := s
    intro offset len hform hlt hle hfree
    have hwf := hform _ List.mem_cons_self
    rw [listLen_cons, Skb.buff] at hle
    simp only [ListUnshared] at hfree
    obtain ⟨husers, hnext, hlast⟩ := hfree
    simp only [trimList]
    rw [if_neg (by omega)]
    split
    · next hlt' =>
      obtain ⟨list', log, htrim, hlist⟩ := ihlist (fun t ht => ih t (List.mem_cons_of_mem _ ht))
        (fun t ht => hform t (List.mem_cons_of_mem _ ht)) hlt' (by omega) (hnext hlt')
      rw [htrim]
      refine ⟨_, _, rfl, listTrimmed_cons hwf husers ?_ ?_⟩
      · simp only [Skb.buff]
        omega
      · rw [Skb.buff, ← Nat.sub_add_eq]
        exact hlist
    · next hge =>
      split
      · next hgt =>
        split
        · next hdata =>
          obtain ⟨s', log, htrim, hs⟩ := ih _ List.mem_cons_self (len - offset)
            (by simp only [Skb.buff]; omega) (hlast hgt hdata)
          rw [htrim]
          exact ⟨_, _, rfl, listTrimmed_last hwf husers (by simp only [Skb.buff]; omega) hs⟩
        · next hdata =>
          have hs := trimmed_skbTrim (len - offset) hwf (by omega) (by omega)
          exact ⟨_, _, rfl, listTrimmed_last hwf husers (by simp only [Skb.buff]; omega) hs⟩
      · next hge' =>
        have hall : len - offset = b.len := by omega
        have hs : Trimmed (.mk b l) (.mk b l) (len - offset) [] := by
          refine ⟨hwf, rfl, hall.symm, fun mem => ?_, fun p => by simp⟩
          rw [List.take_of_length_le]
          rw [hwf.length_content, Skb.buff, hall]
        exact ⟨_, _, rfl, listTrimmed_last hwf husers (by simp only [Skb.buff]; omega) hs⟩

/-- **`___pskb_trim` keeps the first bytes.** -/
theorem pskbTrim_ok : ∀ {len : Nat}, s.WellFormed → len ≤ s.buff.len → TrimUnshared s len →
    ∃ s' log, pskbTrim s len = .ok (s', log) ∧ Trimmed s s' len log := by
  induction s using Skb.induction with
  | h b list ih =>
    intro len h hle hfree
    simp only [Skb.buff] at hle
    have hlen := h.here.len_eq
    simp only [pskbTrim]
    split
    · next hhead => exact ⟨_, _, rfl, trimmed_linear h hhead⟩
    · next hhead =>
      have hlt : b.headlen < len := by omega
      split
      · next kept put hfrags =>
        have hle' : ¬b.headlen + fragsLen b.frags < len := by
          rw [← trimFrags_none hlt, hfrags]
          simp
        refine ⟨_, _, rfl, trimmed_behind h hlt hle kept ?_ ?_ ?_ ?_ ?_⟩
        · intro s hs
          cases hs
        · intro s hs
          cases hs
        · exact (trimFrags_some (fun _ _ => 0) hlt hfrags).1
        · intro mem
          rw [(trimFrags_some mem hlt hfrags).2, List.take_append_of_le_length]
          · exact List.append_nil _
          · rw [length_fragsBytes]
            omega
        · intro p
          have hdrop := count_dropList p list
          simpa [listPkts] using hdrop
      · next hfrags =>
        have hlt' := (trimFrags_none hlt).mp hfrags
        simp only [TrimUnshared] at hfree
        obtain ⟨list', log, htrim, hlist⟩ := trimList_ok
          (fun s hs len hlen hfree => ih s hs (h.of_mem s hs) hlen hfree) h.of_mem hlt'
          (by omega) (hfree hlt')
        rw [htrim]
        refine ⟨_, _, rfl, trimmed_behind h hlt hle b.frags hlist.wellFormed hlist.users ?_ ?_
          hlist.released⟩
        · rw [hlist.length]
          omega
        · intro mem
          have hle : (fragsBytes mem b.frags).length ≤ len - b.headlen := by
            rw [length_fragsBytes]
            omega
          rw [hlist.content, take_append_behind _ _ hle, length_fragsBytes, Nat.sub_add_eq]

/-- The loop over a `frag_list` that comes to a shared one, given what a trim does to its socket
    buffers. -/
theorem trimList_bug (ih : ∀ s ∈ list, ∀ len ≤ s.buff.len, ¬TrimUnshared s len →
      pskbTrim s len = .error .bug) :
    ∀ {offset len : Nat}, ¬ListUnshared list offset len →
      trimList list offset len = .error .bug := by
  induction list with
  | nil =>
    intro offset len hshared
    simp [ListUnshared] at hshared
  | cons s list ihlist =>
    obtain ⟨b, l⟩ := s
    intro offset len hshared
    simp only [trimList]
    by_cases husers : b.users = 1
    · rw [if_neg (by omega)]
      simp only [ListUnshared, husers, true_and] at hshared
      split
      · next hlt =>
        have hnext : ¬ListUnshared list (offset + b.len) len := by
          intro hnext
          exact hshared ⟨fun _ => hnext, fun h => by omega⟩
        rw [ihlist (fun t ht => ih t (List.mem_cons_of_mem _ ht)) hnext]
      · next hge =>
        have hlast : ¬(len < offset + b.len → b.dataLen ≠ 0 →
            TrimUnshared (.mk b l) (len - offset)) := by
          intro hlast
          exact hshared ⟨fun h => by omega, hlast⟩
        simp only [Classical.not_imp] at hlast
        obtain ⟨hgt, hdata, htrim⟩ := hlast
        rw [if_pos hgt, if_pos hdata,
          ih _ List.mem_cons_self _ (by simp only [Skb.buff]; omega) htrim]
    · rw [if_pos husers]

/-- `___pskb_trim` stops the kernel at a shared one. -/
theorem pskbTrim_bug : ∀ {len : Nat}, s.WellFormed → len ≤ s.buff.len → ¬TrimUnshared s len →
    pskbTrim s len = .error .bug := by
  induction s using Skb.induction with
  | h b list ih =>
    intro len h _ hshared
    simp only [TrimUnshared, Classical.not_imp] at hshared
    obtain ⟨hlt, hshared⟩ := hshared
    have hfrags := (trimFrags_none (by omega)).mpr hlt
    simp only [pskbTrim]
    rw [if_neg (by omega), hfrags]
    dsimp only
    rw [trimList_bug (fun s hs len hlen => ih s hs (h.of_mem s hs) hlen) hshared]

/-- `___pskb_trim` leaves the first bytes. -/
def TrimKeeps (s : Skb) (len : Nat) : Prop :=
  ∀ mem, match pskbTrim s len with
    | .error _ => False
    | .ok (s', log) => s'.Consistent mem log ∧ s'.content mem = (s.content mem).take len

theorem trimKeeps_iff {len : Nat} (h : s.WellFormed) (hpkts : s.pkts.Nodup)
    (hle : len ≤ s.buff.len) : TrimKeeps s len ↔ TrimUnshared s len := by
  unfold TrimKeeps
  by_cases hfree : TrimUnshared s len
  · obtain ⟨s', log, htrim, hs⟩ := pskbTrim_ok h hle hfree
    rw [htrim]
    refine ⟨fun _ => hfree, fun _ mem => ⟨⟨?_, hs.released.not_mem hpkts⟩, hs.content mem⟩⟩
    exact (hs.wellFormed.length_content mem).symm
  · rw [pskbTrim_bug h hle hfree]
    refine ⟨fun hkeeps => ?_, fun h => absurd h hfree⟩
    exact (hkeeps fun _ _ => 0).elim

end Trim

end VmkLinux.Net.Reshape
