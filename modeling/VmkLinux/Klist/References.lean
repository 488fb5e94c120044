/-
  VmkLinux/Klist/References.lean
  ==============================
  **The life of a node.**

  `Node` is what a klist is for, seen from one of its nodes: it is initialised, put on the
  list, held by its owner and by the iterations that stand at it, and released when the
  last of them has let go.  `Node.Step` says which of these can happen to it next, and
  `Node.Sound` is what they keep.  Every step of the machine takes every node one step of
  its life (`step_node`), so each node is sound in whatever order the callers go on.

  `klist_iter_init_node` takes its reference without the lock.  Where somebody holds the
  node at that moment (`startHeld`) its count is not zero and cannot get there meanwhile;
  where nobody does, the node may be gone (`unheld_start_poisons`).
-/
import VmkLinux.Klist.Model

namespace VmkLinux.Klist

open VmkLinux.Interleave

/-! ### One node -/

/-- A node, with the number of calls that are adding it, hold a reference to it, are
    releasing it, and have still to call `put` for it. -/
structure Node where
  ref : Nat
  adding : Nat
  holding : Nat
  owned : Nat
  linked : Nat
  releasing : Nat
  putting : Nat
  get : Nat
  put : Nat
  removed : Bool
  attached : Bool

namespace Node

inductive Step : Node → Node → Prop
  | same (x : Node) : Step x x
  | init {x : Node} (h : x.get = 0) :
      Step x { x with ref := 1, adding := x.adding + 1, get := x.get + 1, attached := true }
  | add {x : Node} {k : Nat} (h : x.adding = k + 1) :
      Step x { x with adding := k, linked := x.linked + 1, owned := 1 }
  | disown {x : Node} (h : x.owned = 1) :
      Step x { x with owned := 0, holding := x.holding + 1 }
  | acquire {x : Node} (h : 0 < x.holding + x.owned) :
      Step x { x with ref := x.ref + 1, holding := x.holding + 1 }
  | drop {x : Node} {k : Nat} (h : x.holding = k + 1) (hmore : x.ref ≠ 1) :
      Step x { x with ref := x.ref - 1, holding := k }
  | last {x : Node} {k : Nat} (h : x.holding = k + 1) (hlast : x.ref = 1) :
      Step x { x with ref := x.ref - 1, holding := k, releasing := x.releasing + 1 }
  | release {x : Node} {k : Nat} (h : x.releasing = k + 1) :
      Step x { x with
        linked := x.linked - 1, releasing := k, putting := x.putting + 1, removed := true,
        attached := false }
  | put {x : Node} {k : Nat} (h : x.putting = k + 1) :
      Step x { x with putting := k, put := x.put + 1 }

/-- A node is on the list, or on its way there, exactly as long as somebody holds it or is
    releasing it. -/
structure Sound (x : Node) : Prop where
  ref_eq : x.ref = x.adding + x.holding + x.owned
  linked_eq : x.adding + x.linked = if x.ref = 0 then x.releasing else 1
  releasing_le : x.releasing ≤ 1
  releasing_of_ref : x.ref ≠ 0 → x.releasing = 0
  alone : x.adding = 0 ∨ x.holding + x.owned = 0
  get_eq : x.get = x.adding + x.linked + x.putting + x.put
  get_le : x.get ≤ 1
  removed_iff : x.removed = true ↔ x.get = 1 ∧ x.adding + x.linked = 0
  attached_iff : x.attached = true ↔ x.adding + x.linked = 1

theorem Step.sound {x y : Node} (h : Step x y) (hx : x.Sound) : y.Sound := by
  obtain ⟨href, hlinked, hle, hreleasing, halone, hget, hone, hremoved, hattached⟩ := hx
  cases h with
  | same => exact ⟨href, hlinked, hle, hreleasing, halone, hget, hone, hremoved, hattached⟩
  | init h => refine ⟨?_, ?_, ?_, ?_, ?_, ?_, ?_, ?_, ?_⟩ <;> dsimp only <;> grind
  | add h => refine ⟨?_, ?_, ?_, ?_, ?_, ?_, ?_, ?_, ?_⟩ <;> dsimp only <;> grind
  | disown h => refine ⟨?_, ?_, ?_, ?_, ?_, ?_, ?_, ?_, ?_⟩ <;> dsimp only <;> grind
  | acquire h => refine ⟨?_, ?_, ?_, ?_, ?_, ?_, ?_, ?_, ?_⟩ <;> dsimp only <;> grind
  | drop h hmore => refine ⟨?_, ?_, ?_, ?_, ?_, ?_, ?_, ?_, ?_⟩ <;> dsimp only <;> grind
  | last h hlast => refine ⟨?_, ?_, ?_, ?_, ?_, ?_, ?_, ?_, ?_⟩ <;> dsimp only <;> grind
  | release h => refine ⟨?_, ?_, ?_, ?_, ?_, ?_, ?_, ?_, ?_⟩ <;> dsimp only <;> grind
  | put h => refine ⟨?_, ?_, ?_, ?_, ?_, ?_, ?_, ?_, ?_⟩ <;> dsimp only <;> grind

/-- A released node stays released. -/
theorem Step.removed {x y : Node} (h : Step x y) (hx : x.removed = true) : y.removed = true := by
  cases h with
  | release => rfl
  | _ => exact hx

/-- A node that is on the list and not being released is held. -/
theorem Sound.held {x : Node} (h : x.Sound) (hlinked : 0 < x.linked)
    (hreleasing : x.releasing = 0) : 0 < x.holding + x.owned := by
  obtain ⟨href, heq, -, -, halone, -, -, -, -⟩ := h
  split at heq <;> omega

/-- A node that is held, or being released, is on the list. -/
theorem Sound.linked {x : Node} (h : x.Sound)
    (hbusy : 0 < x.holding + x.owned ∨ 0 < x.releasing) : 0 < x.linked := by
  obtain ⟨href, heq, -, hreleasing, halone, -, -, -, -⟩ := h
  split at heq <;> omega

end Node

/-! ### The nodes of the machine -/

/-- The calls that are adding the node `n`. -/
def Pc.adding (n : Nat) : Pc → Nat
  | .add m _ => if m = n then 1 else 0
  | _ => 0

/-- The calls that hold a reference to `n`: its owner's, and those of the iterations. -/
def Pc.holding (n : Nat) : Pc → Nat
  | .del m _ | .iter (some m) _ | .nextPut _ (some m) _ => if m = n then 1 else 0
  | _ => 0

/-- The calls that are in `klist_release` for `n`. -/
def Pc.releasing (n : Nat) : Pc → Nat
  | .delRelease m _ | .nextRelease m _ _ => if m = n then 1 else 0
  | _ => 0

/-- The calls that have released `n` and not called `put` yet. -/
def Pc.putting (n : Nat) : Pc → Nat
  | .delPut m _ | .nextPut m _ _ => if m = n then 1 else 0
  | _ => 0

/-- The calls that hold `k_lock` between two steps. -/
def Pc.locks : Pc → Nat
  | .delRelease _ _ | .nextRelease _ _ _ => 1
  | _ => 0

theorem Pc.releasing_le (n : Nat) (pc : Pc) : pc.releasing n ≤ pc.locks := by
  cases pc with
  | delRelease m caller =>
    simp only [Pc.releasing, Pc.locks]
    split <;> omega
  | nextRelease m next w =>
    simp only [Pc.releasing, Pc.locks]
    split <;> omega
  | _ => exact Nat.le_refl 0

/-- The node `n`, with its counts over the calls. -/
def node (s : Shared) (n adding holding releasing putting : Nat) : Node where
  ref := s.ref n
  adding := adding
  holding := holding
  owned := (s.owned n).toNat
  linked := s.list.count n
  releasing := releasing
  putting := putting
  get := s.get n
  put := s.put n
  removed := s.removed n
  attached := s.attached n

def nodeOf (c : Config Shared Pc) (n : Nat) : Node :=
  node c.shared n (total (Pc.adding n) c.pool) (total (Pc.holding n) c.pool)
    (total (Pc.releasing n) c.pool) (total (Pc.putting n) c.pool)

/-- Whether somebody has a reference to the node: its owner, or a call. -/
def Held (c : Config Shared Pc) (n : Nat) : Prop :=
  c.shared.owned n = true ∨ ∃ (i : Nat) (pc : Pc), c.pool[i]? = some pc ∧ 0 < pc.holding n

theorem held_iff {c : Config Shared Pc} {n : Nat} :
    Held c n ↔ 0 < (nodeOf c n).holding + (nodeOf c n).owned := by
  simp only [nodeOf, node]
  constructor
  · rintro (howned | ⟨i, pc, hi, hholds⟩)
    · rw [howned, Bool.toNat_true]
      omega
    · have hle := le_total (Pc.holding n) hi
      omega
  · intro hpos
    cases howned : c.shared.owned n with
    | true => exact .inl howned
    | false =>
      rw [howned, Bool.toNat_false] at hpos
      exact .inr (exists_of_total_pos hpos)

instance (c : Config Shared Pc) (n : Nat) : Decidable (Held c n) := decidable_of_iff' _ held_iff

/-- Where an iteration starts from a node, somebody holds that node: the caller itself, as
    its owner or through another iteration, or one that the caller relies on. -/
def startHeld (c : Config Shared Pc) : Event Call Choice → Bool
  | .start (.iterInitNode (some n)) => decide (Held c n)
  | _ => true

/-! ### What the steps do to a node -/

/-- A caller that holds `n` counts its reference down. -/
theorem krefDec_node (s : Shared) (n m adding holding releasing putting : Nat) :
    Node.Step (node s m adding (holding + if n = m then 1 else 0) releasing putting)
      (node (krefDec s n) m adding holding
        (releasing + if s.ref n = 1 ∧ n = m then 1 else 0) putting) := by
  by_cases hm : n = m
  · subst hm
    by_cases hlast : s.ref n = 1
    · simpa [node, krefDec, hlast] using
        Node.Step.last (x := node s n adding (holding + 1) releasing putting) rfl hlast
    · simpa [node, krefDec, hlast] using
        Node.Step.drop (x := node s n adding (holding + 1) releasing putting) rfl hlast
  · simpa [node, krefDec, hm, Function.update_of_ne (Ne.symm hm)] using
      Node.Step.same (node s m adding holding releasing putting)

theorem release_node (s : Shared) (n m adding holding releasing putting : Nat) :
    Node.Step (node s m adding holding (releasing + if n = m then 1 else 0) putting)
      (node (release s n) m adding holding releasing
        (putting + if n = m then 1 else 0)) := by
  by_cases hm : n = m
  · subst hm
    simpa [node, release] using
      Node.Step.release (x := node s n adding holding (releasing + 1) putting) rfl
  · have hne := Ne.symm hm
    simpa [node, release, hm, Function.update_of_ne hne, List.count_erase_of_ne hne] using
      Node.Step.same (node s m adding holding releasing putting)

theorem krefGet_node {s : Shared} {n m holding : Nat}
    (h : n = m → 0 < holding + (s.owned n).toNat) (adding releasing putting : Nat) :
    Node.Step (node s m adding holding releasing putting)
      (node (krefGet s n) m adding (holding + if n = m then 1 else 0) releasing putting) := by
  by_cases hm : n = m
  · subst hm
    simpa [node, krefGet] using
      Node.Step.acquire (x := node s n adding holding releasing putting) (h rfl)
  · simpa [node, krefGet, hm, Function.update_of_ne (Ne.symm hm)] using
      Node.Step.same (node s m adding holding releasing putting)

theorem take_node {s : Shared} (next : Option Nat) {m holding : Nat}
    (h : next = some m → 0 < holding + (s.owned m).toNat) (adding releasing putting : Nat) :
    Node.Step (node s m adding holding releasing putting)
      (node (take s next) m adding (holding + if next = some m then 1 else 0) releasing
        putting) := by
  cases next with
  | none => simpa [take] using Node.Step.same (node s m adding holding releasing putting)
  | some n =>
    simp only [Option.some.injEq] at h ⊢
    exact krefGet_node (fun hm => hm ▸ h hm) adding releasing putting

theorem take_other {s : Shared} {next : Option Nat} {m : Nat} (hm : next ≠ some m)
    (adding holding releasing putting : Nat) :
    node (take s next) m adding holding releasing putting =
      node s m adding holding releasing putting := by
  cases next with
  | none => rfl
  | some n =>
    have hmn : m ≠ n := fun heq => hm (congrArg some heq.symm)
    simp [node, take, krefGet, Function.update_of_ne hmn]

/-- `add_head` and `add_tail`. -/
theorem add_node (s : Shared) (tail : Bool) (n m adding holding releasing putting : Nat) :
    Node.Step (node s m (adding + if n = m then 1 else 0) holding releasing putting)
      (node { s with
        list := if tail then s.list ++ [n] else n :: s.list
        owned := Function.update s.owned n true } m adding holding releasing putting) := by
  by_cases hm : n = m
  · subst hm
    have hadd := Node.Step.add (x := node s n (adding + 1) holding releasing putting) rfl
    cases tail with
    | false => simpa [node] using hadd
    | true => simpa [node] using hadd
  · have hsame := Node.Step.same (node s m adding holding releasing putting)
    have hne := Ne.symm hm
    cases tail with
    | false => simpa [node, hm, Function.update_of_ne hne, List.count_cons] using hsame
    | true =>
      simpa [node, hm, Function.update_of_ne hne, List.count_append, List.count_cons] using hsame

/-- A call of `put`. -/
theorem put_node (s : Shared) (n m adding holding releasing putting : Nat) :
    Node.Step (node s m adding holding releasing (putting + if n = m then 1 else 0))
      (node { s with put := Function.update s.put n (s.put n + 1) } m adding holding releasing
        putting) := by
  by_cases hm : n = m
  · subst hm
    simpa [node] using Node.Step.put (x := node s n adding holding releasing (putting + 1)) rfl
  · simpa [node, hm, Function.update_of_ne (Ne.symm hm)] using
      Node.Step.same (node s m adding holding releasing putting)

theorem after_subset {n m : Nat} {list : List Nat} (h : m ∈ after n list) : m ∈ list := by
  induction list with
  | nil => cases h
  | cons k list ih =>
    unfold after at h
    split at h
    · exact List.mem_cons_of_mem _ h
    · exact List.mem_cons_of_mem _ (ih h)

theorem after_append {n : Nat} {l₁ l₂ : List Nat} (h : n ∉ l₁) :
    after n (l₁ ++ n :: l₂) = l₂ := by
  induction l₁ with
  | nil => exact if_pos rfl
  | cons k l₁ ih =>
    rw [List.mem_cons, not_or] at h
    rw [List.cons_append, after, if_neg (Ne.symm h.1), ih h.2]

theorem not_mem_after {n : Nat} {list : List Nat} (h : list.Nodup) : n ∉ after n list := by
  by_cases hmem : n ∈ list
  · obtain ⟨l₁, l₂, rfl⟩ := List.append_of_mem hmem
    obtain ⟨-, hnodup, hdisjoint⟩ := List.nodup_append.mp h
    rw [after_append fun hn => hdisjoint n hn n List.mem_cons_self rfl]
    exact (List.nodup_cons.mp hnodup).1
  · exact fun h => hmem (after_subset h)

theorem following_mem {s : Shared} {cur : Option Nat} {m : Nat} (h : following s cur = some m)
    (hnodup : s.list.Nodup) : m ∈ s.list ∧ cur ≠ some m := by
  cases cur with
  | none => exact ⟨List.mem_of_head? h, fun heq => by cases heq⟩
  | some n =>
    have hmem := List.mem_of_head? h
    refine ⟨after_subset hmem, fun heq => ?_⟩
    rw [← Option.some.inj heq] at hmem
    exact not_mem_after hnodup hmem

@[simp] theorem For.back_weights (caller : For) (n m : Nat) :
    (caller.back n).adding m = 0 ∧ (caller.back n).holding m = 0 ∧
      (caller.back n).releasing m = 0 ∧ (caller.back n).putting m = 0 ∧
      (caller.back n).locks = 0 := by
  cases caller with
  | del => exact ⟨rfl, rfl, rfl, rfl, rfl⟩
  | remove => exact ⟨rfl, rfl, rfl, rfl, rfl⟩
  | iterExit => exact ⟨rfl, rfl, rfl, rfl, rfl⟩

@[simp] theorem Pc.next_weights (w : Walk) (cur : Option Nat) (m : Nat) :
    (Pc.next w cur).adding m = 0 ∧
      (Pc.next w cur).holding m = (if cur = some m then 1 else 0) ∧
      (Pc.next w cur).releasing m = 0 ∧ (Pc.next w cur).putting m = 0 ∧
      (Pc.next w cur).locks = 0 := by
  cases cur with
  | none => exact ⟨rfl, rfl, rfl, rfl, rfl⟩
  | some n => exact ⟨rfl, by simp [Pc.next, Pc.holding], rfl, rfl, rfl⟩

/-- The critical section of `klist_next`, for the node it leaves, the node it goes on to,
    and the others. -/
theorem klistNext_node {s : Shared} {cur : Option Nat} {m holding : Nat} (hnodup : s.list.Nodup)
    (hheld : m ∈ s.list → cur ≠ some m → 0 < holding + (s.owned m).toNat) (w : Walk)
    (adding releasing putting : Nat) :
    Node.Step (node s m adding (holding + if cur = some m then 1 else 0) releasing putting)
      (node (klistNext s w cur).1 m (adding + (klistNext s w cur).2.adding m)
        (holding + (klistNext s w cur).2.holding m)
        (releasing + (klistNext s w cur).2.releasing m)
        (putting + (klistNext s w cur).2.putting m)) := by
  have hfollowing : following s cur = some m → 0 < holding + (s.owned m).toNat := fun hm =>
    hheld (following_mem hm hnodup).1 (following_mem hm hnodup).2
  obtain ⟨hadding, hholding, hreleasing, hputting, -⟩ := Pc.next_weights w (following s cur) m
  cases cur with
  | none =>
    simp only [klistNext, hadding, hholding, hreleasing, hputting]
    exact take_node _ hfollowing adding releasing putting
  | some n =>
    have hdec := krefDec_node (readNext s n) n m adding holding releasing putting
    by_cases hlast : s.ref n = 1
    · simpa [klistNext, hlast, Pc.adding, Pc.holding, Pc.releasing, Pc.putting, readNext, node]
        using hdec
    · simp only [klistNext, if_neg hlast, hadding, hholding, hreleasing, hputting]
      by_cases hm : following s (some n) = some m
      · have hne : n ≠ m := fun heq => (following_mem hm hnodup).2 (congrArg some heq)
        have htake := take_node (s := krefDec (readNext s n) n) (following s (some n))
          hfollowing adding releasing putting
        simpa [hm, hne, node, krefDec, readNext, Function.update_of_ne (Ne.symm hne)] using htake
      · rw [take_other hm, if_neg hm]
        simpa [readNext, hlast, node] using hdec

/-- `next` is still what comes after the node that a call of `klist_next` releases. -/
def Pc.Reads (s : Shared) : Pc → Prop
  | .nextRelease n next _ => next = following s (some n)
  | _ => True

theorem Pc.Reads.congr {s s' : Shared} {pc : Pc} (h : pc.Reads s) (hlist : s'.list = s.list) :
    pc.Reads s' := by
  cases pc with
  | nextRelease n next w =>
    show next = (after n s'.list).head?
    rw [hlist]
    exact h
  | _ => trivial

/-- Every step of a call takes every node one step of its life. -/
theorem step_node {a : Choice} {s s' : Shared} {pc pc' : Pc} {m holding : Nat}
    (h : step a s pc = some (s', pc')) (hnodup : s.list.Nodup) (hreads : pc.Reads s)
    (hheld : m ∈ s.list → (s.locked = false ∨ 0 < pc.locks) → pc.releasing m = 0 →
      0 < holding + pc.holding m + (s.owned m).toNat) (adding releasing putting : Nat) :
    Node.Step
      (node s m (adding + pc.adding m) (holding + pc.holding m) (releasing + pc.releasing m)
        (putting + pc.putting m))
      (node s' m (adding + pc'.adding m) (holding + pc'.holding m) (releasing + pc'.releasing m)
        (putting + pc'.putting m)) := by
  cases pc with
  | add n tail =>
    obtain ⟨-, heq⟩ := Option.ite_none_left_eq_some.mp h
    obtain ⟨rfl, rfl⟩ := Prod.mk.inj (Option.some.inj heq)
    exact add_node s tail n m adding holding releasing putting
  | del n caller =>
    obtain ⟨-, heq⟩ := Option.ite_none_left_eq_some.mp h
    have hdec := krefDec_node s n m adding holding releasing putting
    obtain ⟨hadding, hholding, hreleasing, hputting, -⟩ := caller.back_weights n m
    by_cases hlast : s.ref n = 1
    · rw [if_pos hlast] at heq
      obtain ⟨rfl, rfl⟩ := Prod.mk.inj (Option.some.inj heq)
      simpa [Pc.adding, Pc.holding, Pc.releasing, Pc.putting, hlast, node] using hdec
    · rw [if_neg hlast] at heq
      obtain ⟨rfl, rfl⟩ := Prod.mk.inj (Option.some.inj heq)
      simp only [hadding, hholding, hreleasing, hputting]
      simpa [Pc.adding, Pc.holding, Pc.releasing, Pc.putting, hlast] using hdec
  | delRelease n caller =>
    obtain ⟨rfl, rfl⟩ := Prod.mk.inj (Option.some.inj h)
    exact release_node s n m adding holding releasing putting
  | delPut n caller =>
    obtain ⟨rfl, rfl⟩ := Prod.mk.inj (Option.some.inj h)
    obtain ⟨hadding, hholding, hreleasing, hputting, -⟩ := caller.back_weights n m
    rw [hadding, hholding, hreleasing, hputting]
    exact put_node s n m adding holding releasing putting
  | waits n =>
    obtain ⟨-, heq⟩ := Option.ite_none_right_eq_some.mp h
    obtain ⟨rfl, rfl⟩ := Prod.mk.inj (Option.some.inj heq)
    exact .same _
  | iter cur w =>
    cases a with
    | next =>
      obtain ⟨hfree, heq⟩ := Option.ite_none_left_eq_some.mp h
      rw [Bool.not_eq_true] at hfree
      obtain ⟨rfl, rfl⟩ := Prod.ext_iff.mp (Option.some.inj heq)
      have hheld' : m ∈ s.list → cur ≠ some m → 0 < holding + (s.owned m).toNat := by
        intro hmem hne
        have hpos := hheld hmem (.inl hfree) rfl
        cases cur with
        | none => exact hpos
        | some n =>
          have hnm : n ≠ m := fun heq => hne (congrArg some heq)
          simpa [Pc.holding, hnm] using hpos
      have hnext := klistNext_node hnodup hheld' w adding releasing putting
      cases cur with
      | none => exact hnext
      | some n => simpa [Pc.adding, Pc.holding, Pc.releasing, Pc.putting] using hnext
    | exit =>
      cases cur with
      | none =>
        obtain ⟨rfl, rfl⟩ := Prod.mk.inj (Option.some.inj h)
        exact .same _
      | some n =>
        obtain ⟨rfl, rfl⟩ := Prod.mk.inj (Option.some.inj h)
        exact .same _
  | nextRelease n next w =>
    obtain ⟨rfl, rfl⟩ := Prod.mk.inj (Option.some.inj h)
    have hrelease := release_node s n m adding holding releasing putting
    by_cases hm : next = some m
    · obtain ⟨hmem, hne⟩ := following_mem (hreads.symm.trans hm) hnodup
      have hnm : n ≠ m := fun heq => hne (congrArg some heq)
      have hpos := hheld hmem (.inr Nat.one_pos) (if_neg hnm)
      have htake := take_node (s := release s n) next (fun _ => hpos) adding releasing putting
      have hmn := Ne.symm hnm
      simpa [hm, hnm, node, release, Pc.adding, Pc.holding, Pc.releasing, Pc.putting,
        Function.update_of_ne hmn, List.count_erase_of_ne hmn] using htake
    · have hholding : (Pc.nextPut n next w).holding m = 0 := by
        cases next with
        | none => rfl
        | some k => exact if_neg fun heq => hm (congrArg some heq)
      rw [hholding]
      exact (take_other hm ..).symm ▸ hrelease
  | nextPut n cur w =>
    obtain ⟨rfl, rfl⟩ := Prod.mk.inj (Option.some.inj h)
    have hput := put_node s n m adding (holding + if cur = some m then 1 else 0) releasing putting
    obtain ⟨hadding, hholding, hreleasing, hputting, -⟩ := Pc.next_weights w cur m
    rw [hadding, hholding, hreleasing, hputting]
    cases cur with
    | none => exact hput
    | some k => simpa [Pc.adding, Pc.holding, Pc.releasing, Pc.putting] using hput
  | added => cases h
  | deleted => cases h
  | removed n => cases h
  | ended w => cases h
  | exited => cases h

/-- A call begins a node's life, or takes it one step on. -/
theorem enter_node {me : Nat} {s s' : Shared} {call : Call} {pc : Pc} {m holding : Nat}
    (h : enter me s call = some (s', pc)) (hnew : s.get me = 0)
    (hheld : call = .iterInitNode (some m) → 0 < holding + (s.owned m).toNat)
    (adding releasing putting : Nat) :
    Node.Step (node s m adding holding releasing putting)
      (node s' m (adding + pc.adding m) (holding + pc.holding m) (releasing + pc.releasing m)
        (putting + pc.putting m)) := by
  have hsame := Node.Step.same (node s m adding holding releasing putting)
  have hdisown : ∀ n, s.owned n = true →
      Node.Step (node s m adding holding releasing putting)
        (node { s with owned := Function.update s.owned n false } m adding
          (holding + if n = m then 1 else 0) releasing putting) := by
    intro n howned
    by_cases hm : n = m
    · subst hm
      simpa [node] using Node.Step.disown (x := node s n adding holding releasing putting)
        (by simp [node, howned])
    · simpa [node, hm, Function.update_of_ne (Ne.symm hm)] using hsame
  cases call with
  | add tail =>
    obtain ⟨rfl, rfl⟩ := Prod.mk.inj (Option.some.inj h)
    by_cases hm : me = m
    · subst hm
      simpa [node, nodeInit, Pc.adding, Pc.holding, Pc.releasing, Pc.putting] using
        Node.Step.init (x := node s me adding holding releasing putting) hnew
    · simpa [node, nodeInit, Pc.adding, Pc.holding, Pc.releasing, Pc.putting, hm,
        Function.update_of_ne (Ne.symm hm)] using hsame
  | del n =>
    obtain ⟨howned, heq⟩ := Option.ite_none_right_eq_some.mp h
    obtain ⟨rfl, rfl⟩ := Prod.mk.inj (Option.some.inj heq)
    exact hdisown n howned
  | remove n =>
    obtain ⟨howned, heq⟩ := Option.ite_none_right_eq_some.mp h
    obtain ⟨rfl, rfl⟩ := Prod.mk.inj (Option.some.inj heq)
    exact hdisown n howned
  | iterInitNode start =>
    cases start with
    | none =>
      obtain ⟨rfl, rfl⟩ := Prod.mk.inj (Option.some.inj h)
      exact hsame
    | some n =>
      obtain ⟨rfl, rfl⟩ := Prod.mk.inj (Option.some.inj h)
      refine krefGet_node (fun hm => ?_) adding releasing putting
      subst hm
      exact hheld rfl

/-! ### All nodes -/

/-- Every node is sound, nothing has been made for the calls to come, and who is in
    `klist_release` has the lock. -/
structure Refs (c : Config Shared Pc) : Prop where
  sound : ∀ n, (nodeOf c n).Sound
  new : ∀ n, c.pool.length ≤ n → c.shared.get n = 0
  clean : c.shared.poisoned = false
  lock : total Pc.locks c.pool = c.shared.locked.toNat
  reads : Each (fun _ pc => pc.Reads c.shared) c.pool

theorem Refs.nodup {c : Config Shared Pc} (h : Refs c) : c.shared.list.Nodup := by
  refine List.nodup_iff_count_le_one.mpr fun n => ?_
  obtain ⟨-, hlinked, hle, -, -, -, -, -, -⟩ := h.sound n
  have hcount : (nodeOf c n).linked = c.shared.list.count n := rfl
  split at hlinked <;> omega

/-- Who holds a reference to a node, or releases it, finds it on the list. -/
theorem Refs.linked {c : Config Shared Pc} (h : Refs c) {i n : Nat} {pc : Pc}
    (hi : c.pool[i]? = some pc) (hbusy : 0 < pc.holding n + pc.releasing n) :
    n ∈ c.shared.list := by
  have hholding := le_total (Pc.holding n) hi
  have hreleasing := le_total (Pc.releasing n) hi
  refine List.count_pos_iff.mp ((h.sound n).linked ?_)
  simp only [nodeOf, node]
  omega

theorem total_releasing_le (n : Nat) (pool : List Pc) :
    total (Pc.releasing n) pool ≤ total Pc.locks pool :=
  total_le_total fun pc _ => pc.releasing_le n

/-- With the lock free, or in its own hands, a call finds the other nodes of the list held. -/
theorem Refs.held {c : Config Shared Pc} (h : Refs c) {i m : Nat} {pc : Pc}
    (hi : c.pool[i]? = some pc) (hmem : m ∈ c.shared.list)
    (hfree : c.shared.locked = false ∨ 0 < pc.locks) (hnot : pc.releasing m = 0) :
    0 < others (Pc.holding m) c.pool i + pc.holding m + (c.shared.owned m).toNat := by
  have hlock := h.lock
  have hle : c.shared.locked.toNat ≤ 1 := Bool.toNat_le _
  have hothers : others (Pc.releasing m) c.pool i ≤ others Pc.locks c.pool i :=
    total_le_total fun pc _ => pc.releasing_le m
  rw [total_eq_others _ hi] at hlock
  have hnone : (nodeOf c m).releasing = 0 := by
    simp only [nodeOf, node, total_eq_others _ hi]
    rcases hfree with hfree | hfree
    · rw [hfree, Bool.toNat_false] at hlock
      omega
    · omega
  have hpos := (h.sound m).held (List.count_pos_iff.mpr hmem) hnone
  simpa only [nodeOf, node, total_eq_others _ hi] using hpos

theorem Refs.act_node {c : Config Shared Pc} (h : Refs c) {i : Nat} {a : Choice} {s' : Shared}
    {pc pc' : Pc} (hi : c.pool[i]? = some pc) (hstep : step a c.shared pc = some (s', pc'))
    (n : Nat) : Node.Step (nodeOf c n) (nodeOf ⟨s', c.pool.set i pc'⟩ n) := by
  have hnode := step_node hstep h.nodup (h.reads i pc hi) (fun hmem hfree hnot =>
    h.held (m := n) hi hmem hfree hnot) (others (Pc.adding n) c.pool i)
    (others (Pc.releasing n) c.pool i) (others (Pc.putting n) c.pool i)
  simpa only [nodeOf, total_eq_others _ hi, total_set _ _ hi] using hnode

theorem Refs.start_node {c : Config Shared Pc} (h : Refs c) {call : Call} {s' : Shared} {pc : Pc}
    (hok : startHeld c (.start call) = true)
    (henter : enter c.pool.length c.shared call = some (s', pc)) (n : Nat) :
    Node.Step (nodeOf c n) (nodeOf ⟨s', c.pool ++ [pc]⟩ n) := by
  have hheld : call = .iterInitNode (some n) →
      0 < total (Pc.holding n) c.pool + (c.shared.owned n).toNat := by
    rintro rfl
    exact held_iff.mp (of_decide_eq_true hok)
  have hnode := enter_node henter (h.new _ (Nat.le_refl _)) hheld (total (Pc.adding n) c.pool)
    (total (Pc.releasing n) c.pool) (total (Pc.putting n) c.pool)
  simpa only [nodeOf, total_append] using hnode

theorem take_kept (s : Shared) (cur : Option Nat) :
    (take s cur).get = s.get ∧ (take s cur).poisoned = s.poisoned ∧
      (take s cur).locked = s.locked ∧ (take s cur).list = s.list ∧
      (take s cur).removed = s.removed := by
  cases cur with
  | none => exact ⟨rfl, rfl, rfl, rfl, rfl⟩
  | some n => exact ⟨rfl, rfl, rfl, rfl, rfl⟩

/-- `klist_next` initialises and releases nothing, takes the lock along where it has a node
    to release, and reads the `next` of the node it stands at. -/
theorem klistNext_kept (s : Shared) (w : Walk) (cur : Option Nat) :
    (klistNext s w cur).1.get = s.get ∧ (klistNext s w cur).1.list = s.list ∧
      (klistNext s w cur).1.removed = s.removed ∧
      ((∀ n, cur = some n → n ∈ s.list) → (klistNext s w cur).1.poisoned = s.poisoned) ∧
      (s.locked = false →
        (klistNext s w cur).1.locked.toNat = (klistNext s w cur).2.locks) ∧
      (klistNext s w cur).2.Reads s := by
  obtain ⟨-, -, -, -, hlocks⟩ := Pc.next_weights w (following s cur) 0
  have hreads : (Pc.next w (following s cur)).Reads s := by
    cases following s cur <;> trivial
  cases cur with
  | none =>
    obtain ⟨hget, hclean, hlocked, hlist, hremoved⟩ := take_kept s (following s none)
    refine ⟨hget, hlist, hremoved, fun _ => hclean, fun hfree => ?_, hreads⟩
    rw [klistNext, hlocked, hfree, hlocks]
    rfl
  | some n =>
    by_cases hlast : s.ref n = 1
    · simp only [klistNext, if_pos hlast]
      refine ⟨rfl, rfl, rfl, fun hmem => ?_, fun _ => rfl, rfl⟩
      simp [krefDec, readNext, hmem n rfl]
    · obtain ⟨hget, hclean, hlocked, hlist, hremoved⟩ :=
        take_kept (krefDec (readNext s n) n) (following s (some n))
      simp only [klistNext, if_neg hlast]
      refine ⟨hget, hlist, hremoved, fun hmem => hclean.trans ?_, fun hfree => ?_, hreads⟩
      · simp [krefDec, readNext, hmem n rfl]
      · rw [hlocked, hlocks]
        exact congrArg Bool.toNat hfree

/-- What a step of a call does to the lock, and to what the lock guards. -/
structure Kept (s s' : Shared) (pc pc' : Pc) : Prop where
  get : s'.get = s.get
  clean : s'.poisoned = s.poisoned
  lock : s'.locked.toNat + pc.locks = s.locked.toNat + pc'.locks
  reads : pc'.Reads s'
  list : s.locked = true → pc.locks = 0 → s'.list = s.list

theorem step_kept {a : Choice} {s s' : Shared} {pc pc' : Pc} (h : step a s pc = some (s', pc'))
    (hlinked : ∀ n, 0 < pc.holding n → n ∈ s.list) (hlock : 0 < pc.locks → s.locked = true) :
    Kept s s' pc pc' := by
  have hback : ∀ (caller : For) (n : Nat), (caller.back n).Reads s' := by
    intro caller n
    cases caller <;> trivial
  cases pc with
  | add n tail =>
    obtain ⟨hfree, heq⟩ := Option.ite_none_left_eq_some.mp h
    obtain ⟨rfl, rfl⟩ := Prod.mk.inj (Option.some.inj heq)
    exact ⟨rfl, rfl, rfl, trivial, fun hlocked => absurd hlocked hfree⟩
  | del n caller =>
    obtain ⟨hfree, heq⟩ := Option.ite_none_left_eq_some.mp h
    obtain ⟨-, -, -, -, hlocks⟩ := caller.back_weights n 0
    split at heq
    · obtain ⟨rfl, rfl⟩ := Prod.mk.inj (Option.some.inj heq)
      rw [Bool.not_eq_true] at hfree
      exact ⟨rfl, rfl, by rw [hfree]; rfl, trivial, fun _ _ => rfl⟩
    · obtain ⟨rfl, rfl⟩ := Prod.mk.inj (Option.some.inj heq)
      exact ⟨rfl, rfl, by rw [hlocks]; rfl, hback caller n, fun _ _ => rfl⟩
  | delRelease n caller =>
    obtain ⟨rfl, rfl⟩ := Prod.mk.inj (Option.some.inj h)
    exact ⟨rfl, rfl, by rw [hlock Nat.one_pos]; rfl, trivial, fun _ hlocks => by cases hlocks⟩
  | delPut n caller =>
    obtain ⟨-, -, -, -, hlocks⟩ := caller.back_weights n 0
    obtain ⟨rfl, rfl⟩ := Prod.mk.inj (Option.some.inj h)
    exact ⟨rfl, rfl, by rw [hlocks]; rfl, hback caller n, fun _ _ => rfl⟩
  | waits n =>
    obtain ⟨-, heq⟩ := Option.ite_none_right_eq_some.mp h
    obtain ⟨rfl, rfl⟩ := Prod.mk.inj (Option.some.inj heq)
    exact ⟨rfl, rfl, rfl, trivial, fun _ _ => rfl⟩
  | iter cur w =>
    cases a with
    | next =>
      obtain ⟨hfree, heq⟩ := Option.ite_none_left_eq_some.mp h
      rw [Bool.not_eq_true] at hfree
      obtain ⟨rfl, rfl⟩ := Prod.ext_iff.mp (Option.some.inj heq)
      obtain ⟨hget, hlist, -, hclean, hlocks, hreads⟩ := klistNext_kept s w cur
      refine ⟨hget, hclean ?_, ?_, hreads.congr hlist, fun _ _ => hlist⟩
      · rintro n rfl
        exact hlinked n (by simp [Pc.holding])
      · rw [hlocks hfree, hfree, Bool.toNat_false]
        exact Nat.add_comm _ _
    | exit =>
      cases cur with
      | none =>
        obtain ⟨rfl, rfl⟩ := Prod.mk.inj (Option.some.inj h)
        exact ⟨rfl, rfl, rfl, trivial, fun _ _ => rfl⟩
      | some n =>
        obtain ⟨rfl, rfl⟩ := Prod.mk.inj (Option.some.inj h)
        exact ⟨rfl, rfl, rfl, trivial, fun _ _ => rfl⟩
  | nextRelease n next w =>
    obtain ⟨hget, hclean, -, -, -⟩ := take_kept (release s n) next
    obtain ⟨rfl, rfl⟩ := Prod.mk.inj (Option.some.inj h)
    exact ⟨hget, hclean, by rw [hlock Nat.one_pos]; rfl, trivial, fun _ hlocks => by cases hlocks⟩
  | nextPut n cur w =>
    obtain ⟨-, -, -, -, hlocks⟩ := Pc.next_weights w cur 0
    obtain ⟨rfl, rfl⟩ := Prod.mk.inj (Option.some.inj h)
    refine ⟨rfl, rfl, by rw [hlocks]; rfl, ?_, fun _ _ => rfl⟩
    cases cur <;> trivial
  | added => cases h
  | deleted => cases h
  | removed n => cases h
  | ended w => cases h
  | exited => cases h

/-- A start initialises no node but its own, and changes neither the list nor the lock. -/
theorem enter_kept {me : Nat} {s s' : Shared} {call : Call} {pc : Pc}
    (h : enter me s call = some (s', pc)) :
    (∀ n, n ≠ me → s'.get n = s.get n) ∧ s'.poisoned = s.poisoned ∧ s'.locked = s.locked ∧
      s'.list = s.list ∧ s'.removed = s.removed ∧ pc.locks = 0 ∧ pc.Reads s' := by
  cases call with
  | add tail =>
    obtain ⟨rfl, rfl⟩ := Prod.mk.inj (Option.some.inj h)
    exact ⟨fun n hn => Function.update_of_ne hn .., rfl, rfl, rfl, rfl, rfl, trivial⟩
  | del n =>
    obtain ⟨-, heq⟩ := Option.ite_none_right_eq_some.mp h
    obtain ⟨rfl, rfl⟩ := Prod.mk.inj (Option.some.inj heq)
    exact ⟨fun _ _ => rfl, rfl, rfl, rfl, rfl, rfl, trivial⟩
  | remove n =>
    obtain ⟨-, heq⟩ := Option.ite_none_right_eq_some.mp h
    obtain ⟨rfl, rfl⟩ := Prod.mk.inj (Option.some.inj heq)
    exact ⟨fun _ _ => rfl, rfl, rfl, rfl, rfl, rfl, trivial⟩
  | iterInitNode start =>
    cases start with
    | none =>
      obtain ⟨rfl, rfl⟩ := Prod.mk.inj (Option.some.inj h)
      exact ⟨fun _ _ => rfl, rfl, rfl, rfl, rfl, rfl, trivial⟩
    | some n =>
      obtain ⟨rfl, rfl⟩ := Prod.mk.inj (Option.some.inj h)
      exact ⟨fun _ _ => rfl, rfl, rfl, rfl, rfl, rfl, trivial⟩

theorem Refs.enter {c : Config Shared Pc} (h : Refs c) {call : Call} {s : Shared} {pc : Pc}
    (hok : startHeld c (.start call) = true)
    (henter : enter c.pool.length c.shared call = some (s, pc)) : Refs ⟨s, c.pool ++ [pc]⟩ := by
  obtain ⟨hget, hclean, hlocked, hlist, -, hlocks, hreads⟩ := enter_kept henter
  refine ⟨fun n => (h.start_node hok henter n).sound (h.sound n), fun n hn => ?_,
    hclean.trans h.clean, ?_, ?_⟩
  · rw [List.length_append, List.length_singleton] at hn
    exact (hget n (by omega)).trans (h.new n (by omega))
  · rw [total_append, hlocks, Nat.add_zero, h.lock, hlocked]
  · exact h.reads.append (fun j u _ hu => hu.congr hlist) hreads

theorem Refs.step {c : Config Shared Pc} (h : Refs c) {i : Nat} {a : Choice} {s : Shared}
    {pc pc' : Pc} (hi : c.pool[i]? = some pc) (hstep : step a c.shared pc = some (s, pc')) :
    Refs ⟨s, c.pool.set i pc'⟩ := by
  have hsum := h.lock
  rw [total_eq_others _ hi] at hsum
  have hone := Bool.toNat_le c.shared.locked
  have hkept := step_kept hstep (fun n hn => h.linked hi (Nat.add_pos_left hn _)) fun hpos => by
    by_contra hfree
    rw [Bool.not_eq_true] at hfree
    rw [hfree, Bool.toNat_false] at hsum
    omega
  refine ⟨fun n => (h.act_node hi hstep n).sound (h.sound n), fun n hn => ?_,
    hkept.clean.trans h.clean, ?_, ?_⟩
  · rw [List.length_set] at hn
    exact (congrFun hkept.get n).trans (h.new n hn)
  · rw [total_set _ _ hi]
    have hlock := hkept.lock
    dsimp only
    omega
  · refine h.reads.set (fun j u hj hu hreads => ?_) hkept.reads
    -- a call that releases a node has the lock, and no other call changes the list then
    cases u with
    | nextRelease n next w =>
      have hle := le_others Pc.locks hj hu
      simp only [Pc.locks] at hle
      have hlocked : c.shared.locked = true := by
        by_contra hfree
        rw [Bool.not_eq_true] at hfree
        rw [hfree, Bool.toNat_false] at hsum
        omega
      exact hreads.congr (hkept.list hlocked (by omega))
    | _ => trivial

theorem refs_of_reach {c : Config Shared Pc}
    (h : machine.Reach (fun c e => startHeld c e = true) initial c) : Refs c := by
  refine Machine.Reach.invariant Refs ?_ ?_ ?_ h
  · refine ⟨fun n => ?_, fun n _ => rfl, rfl, rfl, each_nil _⟩
    refine ⟨rfl, ?_, Nat.zero_le _, ?_, .inl rfl, rfl, Nat.zero_le _, ?_, ?_⟩ <;>
      simp [nodeOf, node, initial, klistInit]
  · intro c call s pc _ hI hok henter
    exact hI.enter hok henter
  · intro c i a pc s pc' _ hI _ hi hstep
    exact hI.step hi hstep

/-- `wait_for_completion` returns after the release. -/
theorem removed_of_step {a : Choice} {s s' : Shared} {pc : Pc} {n : Nat}
    (h : step a s pc = some (s', .removed n)) : s'.removed n = true := by
  have hback : ∀ (caller : For) (m : Nat), caller.back m ≠ .removed n := by
    intro caller m heq
    cases caller <;> cases heq
  have hnext : ∀ (w : Walk) (cur : Option Nat), Pc.next w cur ≠ .removed n := by
    intro w cur heq
    cases cur <;> cases heq
  cases pc with
  | add m tail =>
    obtain ⟨-, heq⟩ := Option.ite_none_left_eq_some.mp h
    cases (Prod.mk.inj (Option.some.inj heq)).2
  | del m caller =>
    obtain ⟨-, heq⟩ := Option.ite_none_left_eq_some.mp h
    split at heq
    · cases (Prod.mk.inj (Option.some.inj heq)).2
    · exact absurd (Prod.mk.inj (Option.some.inj heq)).2 (hback caller m)
  | delRelease m caller => cases (Prod.mk.inj (Option.some.inj h)).2
  | delPut m caller => exact absurd (Prod.mk.inj (Option.some.inj h)).2 (hback caller m)
  | waits m =>
    obtain ⟨hdone, heq⟩ := Option.ite_none_right_eq_some.mp h
    obtain ⟨rfl, hpc⟩ := Prod.mk.inj (Option.some.inj heq)
    cases hpc
    exact hdone
  | iter cur w =>
    cases a with
    | next =>
      obtain ⟨-, heq⟩ := Option.ite_none_left_eq_some.mp h
      have hpc := (Prod.ext_iff.mp (Option.some.inj heq)).2
      cases cur with
      | none => exact absurd hpc (hnext w _)
      | some m =>
        by_cases hlast : s.ref m = 1
        · simp [klistNext, hlast] at hpc
        · simp only [klistNext, if_neg hlast] at hpc
          exact absurd hpc (hnext w _)
    | exit =>
      cases cur with
      | none => cases (Prod.mk.inj (Option.some.inj h)).2
      | some m => cases (Prod.mk.inj (Option.some.inj h)).2
  | nextRelease m next w => cases (Prod.mk.inj (Option.some.inj h)).2
  | nextPut m cur w => exact absurd (Prod.mk.inj (Option.some.inj h)).2 (hnext w cur)
  | added => cases h
  | deleted => cases h
  | removed m => cases h
  | ended w => cases h
  | exited => cases h

/-- A release is seen by all: `klist_remove` returns after it, and it is not taken back. -/
theorem removed_of_reach {c : Config Shared Pc}
    (h : machine.Reach (fun c e => startHeld c e = true) initial c) :
    Each (fun _ pc => ∀ n, pc = .removed n → c.shared.removed n = true) c.pool := by
  refine Machine.Reach.invariant
    (fun c => Each (fun _ pc => ∀ n, pc = .removed n → c.shared.removed n = true) c.pool)
    (each_nil _) ?_ ?_ h
  · intro c call s pc hc hI hok henter
    have hlife := (refs_of_reach hc).start_node hok henter
    refine hI.append (fun j u _ hu n hn => (hlife n).removed (hu n hn)) fun n hn => ?_
    cases call with
    | add tail => cases (Prod.mk.inj (Option.some.inj henter)).2.trans hn
    | del m =>
      obtain ⟨-, heq⟩ := Option.ite_none_right_eq_some.mp henter
      cases (Prod.mk.inj (Option.some.inj heq)).2.trans hn
    | remove m =>
      obtain ⟨-, heq⟩ := Option.ite_none_right_eq_some.mp henter
      cases (Prod.mk.inj (Option.some.inj heq)).2.trans hn
    | iterInitNode start =>
      cases start with
      | none => cases (Prod.mk.inj (Option.some.inj henter)).2.trans hn
      | some m => cases (Prod.mk.inj (Option.some.inj henter)).2.trans hn
  · intro c i a pc s pc' hc hI _ hi hstep
    have hlife := (refs_of_reach hc).act_node hi hstep
    refine hI.set (fun j u _ _ hu n hn => (hlife n).removed (hu n hn)) fun n hn => ?_
    rw [hn] at hstep
    exact removed_of_step hstep

/-- **References of a klist.**  In whatever order nodes are added, deleted, removed and
    walked over, where each iteration starts at the head or at a node that somebody holds, no
    iteration reads the `next` of a node that is off the list; a node that its owner or a
    call has a reference to is on the list, and with the lock free no other is; `klist_remove`
    returns only when nobody has one; and `get` is called once for a node, `put` at most
    once, after the last reference is gone. -/
theorem klist_references {c : Config Shared Pc}
    (h : machine.Reach (fun c e => startHeld c e = true) initial c) :
    c.shared.poisoned = false ∧
    (∀ n, Held c n → n ∈ c.shared.list) ∧
    (c.shared.locked = false → ∀ n ∈ c.shared.list, Held c n) ∧
    (∀ (i n : Nat), c.pool[i]? = some (Pc.removed n) → ¬Held c n) ∧
    (∀ n, c.shared.get n ≤ 1 ∧ c.shared.put n ≤ 1 ∧
      (0 < c.shared.put n → c.shared.get n = 1 ∧ ¬Held c n)) := by
  have hrefs := refs_of_reach h
  refine ⟨hrefs.clean, fun n hheld => ?_, fun hfree n hmem => ?_, fun i n hi hheld => ?_,
    fun n => ?_⟩
  · exact List.count_pos_iff.mp ((hrefs.sound n).linked (.inl (held_iff.mp hheld)))
  · have hnone : (nodeOf c n).releasing = 0 := by
      have hle := total_releasing_le n c.pool
      rw [hrefs.lock, hfree] at hle
      exact Nat.le_zero.mp hle
    exact held_iff.mpr ((hrefs.sound n).held (List.count_pos_iff.mpr hmem) hnone)
  · have hlinked := (hrefs.sound n).linked (.inl (held_iff.mp hheld))
    have hgone := (hrefs.sound n).removed_iff.mp (removed_of_reach h i _ hi n rfl)
    omega
  · have hsound := hrefs.sound n
    have hget := hsound.get_eq
    have hone := hsound.get_le
    have hgetOf : (nodeOf c n).get = c.shared.get n := rfl
    have hputOf : (nodeOf c n).put = c.shared.put n := rfl
    refine ⟨by omega, by omega, fun hput => ⟨by omega, fun hheld => ?_⟩⟩
    have hlinked := hsound.linked (.inl (held_iff.mp hheld))
    omega

/-- An iteration starts from a node while `klist_remove` waits for another one to leave it. -/
def removedUnderWalk : List (Event Call Choice) :=
  [.start (.add true), .act 0 .next, .start (.add true), .act 1 .next, .start (.iterInitNode none),
    .act 2 .next, .start (.remove 0), .act 3 .next, .start (.iterInitNode (some 0)), .act 2 .next,
    .act 4 .next, .act 4 .next, .act 4 .next, .act 3 .next]

theorem klist_references_removed :
    ∃ c, machine.Reach (fun c e => startHeld c e = true) initial c ∧
      c.pool[3]? = some (.removed 0) ∧ ¬Held c 0 := by
  obtain ⟨c, hc, hpool⟩ := machine.exists_reach_of_runIf startHeld removedUnderWalk initial
    (fun c => c.pool[3]?) (some (.removed 0)) rfl
  exact ⟨c, hc, hpool, (klist_references hc).2.2.2.1 3 0 hpool⟩

/-- An iteration starts from a node that `klist_remove` has counted down to zero. -/
def unheldStart : List (Event Call Choice) :=
  [.start (.add true), .act 0 .next, .start (.remove 0), .act 1 .next,
    .start (.iterInitNode (some 0)), .act 1 .next, .act 1 .next, .act 1 .next, .act 2 .next]

/-- Where nobody holds the node, `klist_remove` returns and the iteration reads its `next`. -/
theorem unheld_start_poisons :
    ∃ c, machine.Reachable initial c ∧ c.pool[1]? = some (.removed 0) ∧
      c.shared.poisoned = true := by
  obtain ⟨c, hc, hpool⟩ := machine.exists_reachable_of_run unheldStart initial
    (fun c => (c.pool[1]?, c.shared.poisoned)) (some (.removed 0), true) rfl
  obtain ⟨hremoved, hpoisoned⟩ := Prod.mk.inj hpool
  exact ⟨c, hc, hremoved, hpoisoned⟩

end VmkLinux.Klist
