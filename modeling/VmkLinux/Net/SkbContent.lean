/-
  VmkLinux/Net/SkbContent.lean
  ============================
  **The content of a socket buffer**: its linear bytes, then those of its page fragments, then
  those of the socket buffers of its `frag_list`; what holds of a socket buffer that is well
  formed, and what releasing one gives up.
-/
import VmkLinux.Net.SkbModel
import Mathlib.Algebra.Order.BigOperators.Group.List
import Mathlib.Data.List.Nodup
import Mathlib.Tactic.IntervalCases

namespace VmkLinux.Net.Reshape

/-! ### Content -/

/-- `[data, tail)`. -/
def SkBuff.linear (b : SkBuff) : List UInt8 := (b.head.take b.tail).drop b.data

def Frag.bytes (mem : Pages) (f : Frag) : List UInt8 :=
  (List.range f.size.toNat).map fun i => mem f.page (f.pageOffset.toNat + i)

def fragsBytes (mem : Pages) (frags : List Frag) : List UInt8 := frags.flatMap (Frag.bytes mem)

mutual

/-- What a socket buffer has to say. -/
def Skb.content (mem : Pages) : Skb → List UInt8
  | .mk b list => b.linear ++ (fragsBytes mem b.frags ++ listContent mem list)

def listContent (mem : Pages) : List Skb → List UInt8
  | [] => []
  | s :: list => s.content mem ++ listContent mem list

end

mutual

/-- The packet handles that a socket buffer refers to. -/
def Skb.pkts : Skb → List Nat
  | .mk b list => b.pkt :: listPkts list

def listPkts : List Skb → List Nat
  | [] => []
  | s :: list => s.pkts ++ listPkts list

end

def listLen (list : List Skb) : Nat := (list.map fun s => s.buff.len).sum

/-- The packet handles among what was released. -/
def handles (log : List Release) : List Nat :=
  log.filterMap fun r =>
    match r with
    | .pkt p => some p
    | .page _ => none
    | .head => none

/-- After a function the length is that of the content, and no packet handle was released that is
    still referred to. -/
def Skb.Consistent (mem : Pages) (s : Skb) (log : List Release) : Prop :=
  s.buff.len = (s.content mem).length ∧ ∀ p ∈ handles log, p ∉ s.pkts

/-- Something holds of a socket buffer and, down the `frag_list`s, of all that it refers to. -/
inductive Skb.All (P : SkBuff → List Skb → Prop) : Skb → Prop
  | mk {b : SkBuff} {list : List Skb} :
      P b list → (∀ s ∈ list, Skb.All P s) → Skb.All P (.mk b list)

/-- The pointers are in order. -/
structure Placed (b : SkBuff) : Prop where
  tail_eq : b.data + b.headlen = b.tail
  tail_le : b.tail ≤ b.head.length

/-- The lengths are those of the parts, too, and nobody shares the data. -/
structure Formed (b : SkBuff) (list : List Skb) : Prop extends Placed b where
  dataLen_le : b.dataLen ≤ b.len
  dataLen_eq : b.dataLen = fragsLen b.frags + listLen list
  dataref : b.dataref = 1
  fragsref : b.fragsref = 1
  users : ∀ s ∈ list, 1 ≤ s.buff.users

def Skb.WellFormed (s : Skb) : Prop := s.All Formed

@[simp] theorem Skb.buff_mk (b : SkBuff) (list : List Skb) : (Skb.mk b list).buff = b := rfl

/-- Induction over a socket buffer and those it refers to. -/
theorem Skb.induction {P : Skb → Prop} (h : ∀ b list, (∀ s ∈ list, P s) → P (.mk b list)) :
    ∀ s, P s := by
  apply @Skb.rec P (fun list => ∀ s ∈ list, P s)
  · exact h
  · intro s hs
    cases hs
  · intro s list hs hlist t ht
    cases ht with
    | head => exact hs
    | tail _ ht => exact hlist t ht

section All

variable {P : SkBuff → List Skb → Prop} {b : SkBuff} {list : List Skb}

theorem Skb.All.here (h : Skb.All P (.mk b list)) : P b list := by
  cases h with
  | mk h _ => exact h

theorem Skb.All.of_mem (h : Skb.All P (.mk b list)) : ∀ s ∈ list, Skb.All P s := by
  cases h with
  | mk _ h => exact h

end All

/-! ### Lengths -/

section Lengths

variable (mem : Pages)

@[simp] theorem length_bytes (f : Frag) : (f.bytes mem).length = f.size.toNat := by
  simp [Frag.bytes]

@[simp] theorem fragsBytes_cons (f : Frag) (frags : List Frag) :
    fragsBytes mem (f :: frags) = f.bytes mem ++ fragsBytes mem frags := rfl

@[simp] theorem fragsLen_cons (f : Frag) (frags : List Frag) :
    fragsLen (f :: frags) = f.size.toNat + fragsLen frags := by
  simp [fragsLen]

@[simp] theorem length_fragsBytes (frags : List Frag) :
    (fragsBytes mem frags).length = fragsLen frags := by
  induction frags with
  | nil => rfl
  | cons f frags ih => simp [ih]

@[simp] theorem listLen_cons (s : Skb) (list : List Skb) :
    listLen (s :: list) = s.buff.len + listLen list := by
  simp [listLen]

variable {b : SkBuff} {list : List Skb}

theorem Formed.len_eq (h : Formed b list) :
    b.len = b.headlen + (fragsLen b.frags + listLen list) := by
  have hle := h.dataLen_le
  have heq := h.dataLen_eq
  unfold SkBuff.headlen
  omega

theorem Placed.length_linear (h : Placed b) : b.linear.length = b.headlen := by
  have htail := h.tail_eq
  have hle := h.tail_le
  simp only [SkBuff.linear, List.length_drop, List.length_take]
  omega

theorem length_listContent (h : ∀ s ∈ list, (s.content mem).length = s.buff.len) :
    (listContent mem list).length = listLen list := by
  induction list with
  | nil => rfl
  | cons s list ih =>
    have hs := h s List.mem_cons_self
    have hlist := ih fun t ht => h t (List.mem_cons_of_mem _ ht)
    simp [listContent, hs, hlist]

theorem Skb.WellFormed.of_mem (h : Skb.WellFormed (.mk b list)) : ∀ s ∈ list, s.WellFormed :=
  Skb.All.of_mem h

/-- **`len` is the length of the content.** -/
theorem Skb.WellFormed.length_content {s : Skb} (h : s.WellFormed) :
    (s.content mem).length = s.buff.len := by
  induction s using Skb.induction with
  | h b list ih =>
    have hlist := length_listContent mem fun t ht => ih t ht (h.of_mem t ht)
    simp only [Skb.content, List.length_append, h.here.length_linear, length_fragsBytes, hlist,
      Skb.buff]
    exact h.here.len_eq.symm

theorem Formed.len_le_of_mem (h : Formed b list) {s : Skb} (hs : s ∈ list) :
    s.buff.len ≤ b.len := by
  have hle := h.dataLen_le
  have heq := h.dataLen_eq
  have hsum := List.single_le_sum (fun _ _ => Nat.zero_le _) _
    (List.mem_map_of_mem (f := fun s => s.buff.len) hs)
  unfold listLen at heq
  omega

theorem Skb.WellFormed.length_listContent (h : Skb.WellFormed (.mk b list)) :
    (listContent mem list).length = listLen list :=
  Reshape.length_listContent mem fun s hs => (h.of_mem s hs).length_content mem

end Lengths

/-! ### Memory -/

section Memory

variable (buf bytes : List UInt8) {off n : Nat}

theorem take_append_behind (h : buf.length ≤ n) :
    (buf ++ bytes).take n = buf ++ bytes.take (n - buf.length) := by
  rw [List.take_append, List.take_of_length_le h]

theorem drop_append_behind (h : buf.length ≤ n) :
    (buf ++ bytes).drop n = bytes.drop (n - buf.length) := by
  rw [List.drop_append, List.drop_eq_nil_of_le h, List.nil_append]

theorem length_write (h : off + bytes.length ≤ buf.length) :
    (write buf off bytes).length = buf.length := by
  simp only [write, List.length_append, List.length_take, List.length_drop]
  omega

/-- Up to the end of what was written. -/
theorem take_write (h : off ≤ buf.length) :
    (write buf off bytes).take (off + bytes.length) = buf.take off ++ bytes := by
  apply List.take_left'
  simp only [List.length_append, List.length_take]
  omega

end Memory

/-! ### Releasing -/

section Releases

@[simp] theorem handles_append (log log' : List Release) :
    handles (log ++ log') = handles log ++ handles log' := List.filterMap_append

@[simp] theorem handles_nil : handles [] = [] := rfl

@[simp] theorem handles_page (p : Nat) (log : List Release) :
    handles (.page p :: log) = handles log := rfl

@[simp] theorem handles_putPages (frags : List Frag) : handles (putPages frags) = [] := by
  induction frags with
  | nil => rfl
  | cons f frags ih => exact ih

theorem count_releaseOwn (b : SkBuff) (p : Nat) :
    (handles (releaseOwn b).2).count p ≤ [b.pkt].count p := by
  unfold releaseOwn
  split
  · split
    · rfl
    · simp [handles]
  · split
    · rfl
    · simp [handles]

mutual

/-- Nothing is released that is not referred to, nor twice. -/
theorem count_kfreeSkb (p : Nat) : ∀ s : Skb, (handles (kfreeSkb s)).count p ≤ s.pkts.count p
  | .mk b list => by
      have hown := count_releaseOwn b p
      have hlist := count_dropList p list
      simp only [kfreeSkb, Skb.pkts]
      split
      · simp only [handles_append, List.count_append]
        rw [← List.singleton_append, List.count_append]
        omega
      · simp

theorem count_dropList (p : Nat) : ∀ list : List Skb,
    (handles (dropList list)).count p ≤ (listPkts list).count p
  | [] => by simp [dropList]
  | s :: list => by
      have hs := count_kfreeSkb p s
      have hlist := count_dropList p list
      simp only [dropList, listPkts, handles_append, List.count_append]
      omega

end

/-- What is left and what was released, together, is no more than there was. -/
def Released (before after : List Nat) (log : List Release) : Prop :=
  ∀ p, (handles log).count p + after.count p ≤ before.count p

/-- **No handle is released that is still referred to**, where each is referred to once. -/
theorem Released.not_mem {before after : List Nat} {log : List Release}
    (h : Released before after log) (hnodup : before.Nodup) :
    ∀ p ∈ handles log, p ∉ after := by
  intro p hlog hafter
  have hone := List.nodup_iff_count_le_one.mp hnodup p
  have hlog' := List.count_pos_iff.mpr hlog
  have hafter' := List.count_pos_iff.mpr hafter
  have hle := h p
  omega

theorem kfreeSkb_skbGet {s : Skb} (h : 1 ≤ s.buff.users) : kfreeSkb (skbGet s) = [] := by
  cases s with
  | mk b list =>
    simp only [Skb.buff] at h
    simp only [skbGet, kfreeSkb]
    rw [if_neg (by simp; omega)]

/-- The reference that `skb_clone_fraglist` takes is all that is given up. -/
theorem dropList_skbCloneFraglist {list : List Skb} (h : ∀ s ∈ list, 1 ≤ s.buff.users) :
    dropList (skbCloneFraglist list) = [] := by
  induction list with
  | nil => rfl
  | cons s list ih =>
    have hlist := ih fun t ht => h t (List.mem_cons_of_mem _ ht)
    simp only [skbCloneFraglist] at hlist
    simp [skbCloneFraglist, dropList, kfreeSkb_skbGet (h s List.mem_cons_self), hlist]

end Releases

end VmkLinux.Net.Reshape
