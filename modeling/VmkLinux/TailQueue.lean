/-
  VmkLinux/TailQueue.lean
  =======================
  **Singly linked queues with a tail pointer.**

  The queue is a pointer to the first node, a `next` field in every node, and a
  pointer to the field that the next node has to be stored in: the pointer to the
  first node when the queue is empty, the `next` field of the last node otherwise.
  `Represents` says which list of nodes a queue stands for; `Represents.push` and
  `Represents.pop` say what the two operations do to that list.
-/
import Mathlib.Data.List.Basic
import Mathlib.Logic.Function.Basic

namespace VmkLinux

/-- The pointer-to-pointer at the end of the queue. -/
inductive TailPtr (α : Type) where
  | first
  | next (a : α)
deriving DecidableEq, Repr

structure TailQueue (α : Type) where
  first : Option α
  tail : TailPtr α
  next : α → Option α

namespace TailQueue

variable {α : Type} [DecidableEq α]

def empty : TailQueue α := ⟨none, .first, fun _ => none⟩

/-- Store `a` through the tail pointer and let that point at the field of `a`. -/
def push (q : TailQueue α) (a : α) : TailQueue α :=
  let next := Function.update q.next a none
  match q.tail with
  | .first => ⟨some a, .next a, next⟩
  | .next b => ⟨q.first, .next a, Function.update next b (some a)⟩

/-- Unlink `a`, the first node. -/
def pop (q : TailQueue α) (a : α) : TailQueue α :=
  { q with
    first := q.next a
    tail := if q.tail = .next a then .first else q.tail }

/-- Following `next` from `p` visits the nodes of the list and ends. -/
inductive Chain (next : α → Option α) : Option α → List α → Prop
  | nil : Chain next none []
  | cons {a : α} {l : List α} : Chain next (next a) l → Chain next (some a) (a :: l)

/-- The tail pointer of a queue that stands for `l`. -/
def tailOf (l : List α) : TailPtr α :=
  match l.getLast? with
  | none => .first
  | some a => .next a

/-- The queue stands for the list `l` of distinct nodes. -/
structure Represents (q : TailQueue α) (l : List α) : Prop where
  chain : Chain q.next q.first l
  tail : q.tail = tailOf l
  nodup : l.Nodup

omit [DecidableEq α] in
theorem tailOf_append (l : List α) (a : α) : tailOf (l ++ [a]) = .next a := by
  simp [tailOf]

omit [DecidableEq α] in
theorem tailOf_eq_next {l : List α} {a : α} (h : tailOf l = .next a) :
    ∃ l', l = l' ++ [a] := by
  unfold tailOf at h
  split at h
  · cases h
  · rename_i b hb
    cases h
    exact ⟨l.dropLast, (List.dropLast_append_getLast? a hb).symm⟩

/-- Writing a `next` field outside the chain changes nothing. -/
theorem Chain.update {next : α → Option α} {p : Option α} {l : List α} {b : α} (v : Option α)
    (h : Chain next p l) (hb : b ∉ l) : Chain (Function.update next b v) p l := by
  induction h with
  | nil => exact .nil
  | @cons a l _ ih =>
    rw [List.mem_cons, not_or] at hb
    apply Chain.cons
    rw [Function.update_of_ne (fun h => hb.1 h.symm)]
    exact ih hb.2

/-- A node in front of a chain. -/
theorem Chain.push {next : α → Option α} {p : Option α} {l : List α} {a : α}
    (h : Chain next p l) (ha : a ∉ l) : Chain (Function.update next a p) (some a) (a :: l) := by
  apply Chain.cons
  rw [Function.update_self]
  exact h.update p ha

/-- Writing the last `next` field extends the chain. -/
theorem Chain.snoc {next : α → Option α} {p : Option α} {l : List α} {a b : α}
    (h : Chain next p (l ++ [b])) (hb : b ∉ l) (ha : next a = none) (hab : a ≠ b) :
    Chain (Function.update next b (some a)) p (l ++ [b] ++ [a]) := by
  induction l generalizing p with
  | nil =>
    cases h
    apply Chain.cons
    rw [Function.update_self]
    apply Chain.cons
    rw [Function.update_of_ne hab, ha]
    exact .nil
  | cons c l ih =>
    cases h with
    | cons hrest =>
      rw [List.mem_cons, not_or] at hb
      apply Chain.cons
      rw [Function.update_of_ne (fun h => hb.1 h.symm)]
      exact ih hrest hb.2

omit [DecidableEq α] in
theorem represents_empty : Represents (empty : TailQueue α) [] :=
  ⟨.nil, rfl, List.nodup_nil⟩

omit [DecidableEq α] in
theorem Represents.first {q : TailQueue α} {l : List α} (h : Represents q l) :
    q.first = l.head? := by
  cases l with
  | nil =>
    have hchain := h.chain
    generalize hp : q.first = p at hchain
    cases hchain
    rfl
  | cons a l =>
    have hchain := h.chain
    generalize hp : q.first = p at hchain
    cases hchain
    rfl

/-- A new node goes to the end. -/
theorem Represents.push {q : TailQueue α} {l : List α} {a : α} (h : Represents q l)
    (ha : a ∉ l) : Represents (q.push a) (l ++ [a]) := by
  have hnodup : (l ++ [a]).Nodup := by
    rw [List.nodup_append]
    refine ⟨h.nodup, List.nodup_cons.mpr ⟨List.not_mem_nil, List.nodup_nil⟩, ?_⟩
    intro x hx y hy hxy
    rw [List.mem_singleton] at hy
    exact ha (hy ▸ hxy ▸ hx)
  have hold := h.chain.update none ha
  unfold TailQueue.push
  cases htail : q.tail with
  | first =>
    have hnil : l = [] := by
      by_contra hne
      have hlast := List.getLast?_eq_some_getLast hne
      rw [h.tail, tailOf, hlast] at htail
      cases htail
    subst hnil
    refine ⟨?_, (tailOf_append [] a).symm, hnodup⟩
    apply Chain.cons
    simp only [Function.update_self]
    exact .nil
  | next b =>
    rw [h.tail] at htail
    obtain ⟨l', rfl⟩ := tailOf_eq_next htail
    have hb : b ∉ l' := by
      have hdisj := (List.nodup_append.mp h.nodup).2.2
      intro hmem
      exact hdisj b hmem b List.mem_cons_self rfl
    have hab : a ≠ b := by
      rintro rfl
      exact ha (List.mem_append_right _ List.mem_cons_self)
    refine ⟨?_, (tailOf_append _ a).symm, hnodup⟩
    exact Chain.snoc hold hb (Function.update_self ..) hab

/-- The first node goes. -/
theorem Represents.pop {q : TailQueue α} {l : List α} {a : α} (h : Represents q (a :: l)) :
    Represents (q.pop a) l := by
  have hnodup := List.nodup_cons.mp h.nodup
  constructor
  · have hchain := h.chain
    generalize q.first = p at hchain
    cases hchain with
    | cons hrest => exact hrest
  · have htail := h.tail
    change (if q.tail = .next a then TailPtr.first else q.tail) = tailOf l
    cases l with
    | nil =>
      have hone : tailOf [a] = .next a := tailOf_append [] a
      rw [htail, hone, if_pos rfl]
      rfl
    | cons b l =>
      have hlast : ∃ d, (b :: l).getLast? = some d ∧ d ∈ b :: l :=
        ⟨_, List.getLast?_eq_some_getLast (by simp), List.getLast_mem (by simp)⟩
      obtain ⟨d, hd, hmem⟩ := hlast
      have htail' : tailOf (a :: b :: l) = .next d := by
        simp only [tailOf, List.getLast?_cons_cons, hd]
      have hda : d ≠ a := fun heq => hnodup.1 (heq ▸ hmem)
      rw [htail, htail', if_neg (by simpa using hda)]
      simp only [tailOf, hd]
  · exact hnodup.2

end TailQueue

end VmkLinux
