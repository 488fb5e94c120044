/-
  VmkLinux/Net/SkbReshape.lean
  ============================
  **When reshaping a socket buffer keeps its bytes**: `pskb_expand_head`, `__pskb_pull_tail`,
  `___pskb_trim` and `skb_copy` of a socket buffer with one user.
-/
import VmkLinux.Net.SkbPull
import VmkLinux.Net.SkbTrim

namespace VmkLinux.Net.Reshape

/-- **Reshaping keeps the bytes**, exactly where each function can be expected to. -/
theorem reshape_keeps (kernel : Kernel) {s : Skb} (h : s.WellFormed) (hlt : s.buff.len < 2 ^ 32)
    (hpkts : s.pkts.Nodup) (husers : s.buff.users = 1) :
    (∀ nhead ntail, ExpandKeeps kernel s nhead ntail ↔ ExpandFits kernel s nhead ntail) ∧
    (∀ delta ≤ s.buff.dataLen, PullKeeps kernel s delta ↔ PullFits kernel s delta) ∧
    (∀ len ≤ s.buff.len, TrimKeeps s len ↔ TrimUnshared s len) ∧
    (CopyKeeps kernel s ↔ CopyFits kernel s) := by
  refine ⟨?_, ?_, ?_, copyKeeps_iff h⟩
  · intro nhead ntail
    exact expandKeeps_iff h husers
  · intro delta hdelta
    exact pullKeeps_iff h hlt hpkts husers hdelta
  · intro len hlen
    exact trimKeeps_iff h hpkts hlen

/-- A vmkernel that never runs out of memory. -/
def plenty : Kernel where
  heapAlloc n := some (List.replicate n 0)
  skbAlloc := true
  pktAlloc n := some (7, List.replicate n 0)
  length_heapAlloc := by
    rintro n m h
    obtain rfl := Option.some.inj h
    exact List.length_replicate
  length_pktAlloc := by
    rintro n p m h
    obtain ⟨rfl, rfl⟩ := Prod.mk.inj (Option.some.inj h)
    exact Nat.le_of_eq List.length_replicate.symm

theorem kmalloc_plenty {size : BitVec 32} (h : size ≠ 0) : kmalloc plenty size ≠ none := by
  rw [kmalloc_of_ne h]
  exact Option.some_ne_none _

theorem not_noMemory_plenty : ¬NoMemory plenty := by
  rintro ⟨n, hn⟩
  cases hn

/-- Four bytes behind two of headroom, and two in a page. -/
def paged : Skb :=
  .mk
    { pkt := 0
      len := 6
      dataLen := 2
      head := [0, 0, 1, 2, 3, 4, 0, 0]
      data := 2
      tail := 6
      frags := [⟨1, 0, 2⟩] } []

/-- A page fragment, with tailroom for it. -/
theorem reshape_keeps_paged :
    ExpandKeeps plenty paged 16 0 ∧ PullKeeps plenty paged 1 ∧ TrimKeeps paged 5 ∧
      CopyKeeps plenty paged := by
  have hform : paged.WellFormed := by
    refine .mk ⟨⟨rfl, by decide⟩, by decide, rfl, rfl, rfl, fun s hs => (nomatch hs)⟩ ?_
    intro s hs
    cases hs
  obtain ⟨hexpand, hpull, htrim, hcopy⟩ :=
    reshape_keeps plenty hform (by decide) (by decide) rfl
  have hfits := (@expandFits_iff plenty 16 0 paged hform (by decide)).mpr (.inr rfl)
  refine ⟨(hexpand 16 0).mpr hfits, (hpull 1 (by decide)).mpr ?_, (htrim 5 (by decide)).mpr ?_,
    hcopy.mpr (.inr (.inr ⟨by decide, by decide⟩))⟩
  · simp only [paged, PullFits]
    rw [if_pos (by decide)]
    refine ⟨by decide, ?_, fun h => absurd h (by decide)⟩
    simp [FragsFit]
  · simp only [paged, TrimUnshared]
    exact fun _ => trivial

/-- One linear byte, without tailroom, and a socket buffer with another one. -/
def chained : Skb :=
  .mk { pkt := 0, len := 2, dataLen := 1, head := [8], tail := 1 }
    [.mk { pkt := 1, len := 1, head := [9], tail := 1 } []]

/-- With a `frag_list`, `pskb_expand_head` returns 0 and has lost it, and `__pskb_pull_tail`, which
    expands the head first, stops the kernel. -/
theorem frag_list_lost :
    chained.WellFormed ∧ chained.buff.users = 1 ∧
      ¬ExpandKeeps plenty chained 0 0 ∧ ¬PullKeeps plenty chained 1 := by
  have hform : chained.WellFormed := by
    refine .mk ⟨⟨rfl, by decide⟩, by decide, rfl, rfl, rfl, ?_⟩ ?_
    · intro s hs
      obtain rfl := List.mem_singleton.mp hs
      decide
    · intro s hs
      obtain rfl := List.mem_singleton.mp hs
      refine .mk ⟨⟨rfl, by decide⟩, by decide, rfl, rfl, rfl, fun s hs => (nomatch hs)⟩ ?_
      intro s hs
      cases hs
  have hle : 1 ≤ chained.buff.dataLen := Nat.le_refl 1
  have hiff := @pullKeeps_iff plenty chained 1 hform (by decide) (by decide) rfl hle
  refine ⟨hform, rfl, ?_, ?_⟩
  · rw [expandKeeps_iff hform rfl]
    rintro (hnone | ⟨hlist, _⟩)
    · exact kmalloc_plenty (by decide) hnone
    · exact absurd hlist (by decide)
  · rw [hiff]
    simp only [chained, PullFits]
    rw [if_neg (by decide)]
    rintro (⟨_, hno⟩ | ⟨_, _, hlist, _⟩)
    · exact not_noMemory_plenty hno
    · exact absurd hlist (by decide)

end VmkLinux.Net.Reshape
