/-
  VmkLinux/OrderedChain.lean
  ==========================
  **Chains that are kept in order**: lists whose elements stand in a relation from left to right,
  and the place where a search for a new element stops.

  A search passes the elements before its place and stops at the first that comes after it.  Where
  the relation is transitive it need not look further: what follows comes after it as well
  (`forall_of_head`).  With an order on keys a chain stands for a finite map (`lookup`), and
  linking and unlinking are its updates.
-/
import Mathlib.Logic.Function.Basic
import Mathlib.Data.List.Basic

namespace VmkLinux.OrderedChain

variable {α : Type}

section Relation

variable {R : α → α → Prop} {x y : α} {below above ys : List α}

theorem pairwise_link (h : (below ++ above).Pairwise R) (hbelow : ∀ a ∈ below, R a x)
    (habove : ∀ b ∈ above, R x b) : (below ++ x :: above).Pairwise R := by
  obtain ⟨hb, ha, hba⟩ := List.pairwise_append.mp h
  apply List.pairwise_append.mpr
  refine ⟨hb, List.pairwise_cons.mpr ⟨habove, ha⟩, ?_⟩
  intro a ha' b hb'
  rcases List.mem_cons.mp hb' with rfl | hb'
  · exact hbelow a ha'
  · exact hba a ha' b hb'

theorem pairwise_unlink (h : (below ++ x :: above).Pairwise R) : (below ++ above).Pairwise R := by
  have hless : (below ++ above).Sublist (below ++ x :: above) :=
    (List.Sublist.refl below).append (List.sublist_cons_self x above)
  exact List.Pairwise.sublist hless h

/-- What is before the first element is before all of them. -/
theorem forall_of_head (htrans : ∀ a b c, R a b → R b c → R a c) (h : (y :: ys).Pairwise R)
    (hx : R x y) : ∀ b ∈ y :: ys, R x b := by
  intro b hb
  rcases List.mem_cons.mp hb with rfl | hb
  · exact hx
  · exact htrans x y b hx (List.rel_of_pairwise_cons h hb)

end Relation

/-! ### Keys -/

section Keys

variable {K : Type} (key : α → K)

section Map

variable [DecidableEq K]

/-- The map that a chain stands for. -/
def lookup (l : List α) (k : K) : Option α := l.find? fun a => key a = k

variable {key} {x : α} {l below above : List α} {k : K}

theorem lookup_eq_none_iff : lookup key l k = none ↔ ∀ a ∈ l, key a ≠ k := by
  simp [lookup]

theorem lookup_append (k : K) :
    lookup key (below ++ above) k = (lookup key below k).or (lookup key above k) :=
  List.find?_append

theorem lookup_cons_of_ne (h : key x ≠ k) : lookup key (x :: above) k = lookup key above k := by
  simp [lookup, h]

theorem lookup_cons_self : lookup key (x :: above) (key x) = some x := by simp [lookup]

theorem mem_of_lookup_eq_some (h : lookup key l k = some x) : x ∈ l ∧ key x = k :=
  ⟨List.mem_of_find?_eq_some h, by simpa using List.find?_some h⟩

end Map

variable [LT K]

/-- The keys go up. -/
def Increasing (l : List α) : Prop := l.Pairwise fun a b => key a < key b

variable {key} [Std.Irrefl (fun a b : K => a < b)] {x : α} {below above : List α} {k : K}

/-- The keys of the others. -/
theorem ne_of_mem_of_increasing (h : Increasing key (below ++ x :: above)) :
    ∀ a ∈ below ++ above, key a ≠ key x := by
  obtain ⟨-, hx, hbelow⟩ := List.pairwise_append.mp h
  intro a ha
  rcases List.mem_append.mp ha with ha | ha
  · exact Std.ne_of_lt (hbelow a ha x List.mem_cons_self)
  · exact (Std.ne_of_lt (List.rel_of_pairwise_cons hx ha)).symm

variable [DecidableEq K]

/-- A search may stop at the first larger key. -/
theorem lookup_of_lt_head {y : α} {ys : List α} (htrans : ∀ a b c : K, a < b → b < c → a < c)
    (h : Increasing key (y :: ys)) (hk : k < key y) : lookup key (y :: ys) k = none := by
  rw [lookup_eq_none_iff]
  intro a ha
  rcases List.mem_cons.mp ha with rfl | ha
  · exact (Std.ne_of_lt hk).symm
  · exact (Std.ne_of_lt (htrans k (key y) (key a) hk (List.rel_of_pairwise_cons h ha))).symm

theorem lookup_link (h : Increasing key (below ++ x :: above)) :
    lookup key (below ++ x :: above)
      = Function.update (lookup key (below ++ above)) (key x) (some x) := by
  funext k
  by_cases hk : k = key x
  · subst hk
    have hbelow : lookup key below (key x) = none := lookup_eq_none_iff.mpr fun a ha =>
      ne_of_mem_of_increasing h a (List.mem_append_left above ha)
    rw [Function.update_self, lookup_append, hbelow, lookup_cons_self]
    rfl
  · rw [Function.update_of_ne hk, lookup_append, lookup_append, lookup_cons_of_ne (Ne.symm hk)]

theorem lookup_unlink (h : Increasing key (below ++ x :: above)) :
    lookup key (below ++ above)
      = Function.update (lookup key (below ++ x :: above)) (key x) none := by
  have habsent : lookup key (below ++ above) (key x) = none :=
    lookup_eq_none_iff.mpr (ne_of_mem_of_increasing h)
  rw [lookup_link h, Function.update_idem, ← habsent, Function.update_eq_self]

end Keys

end VmkLinux.OrderedChain
