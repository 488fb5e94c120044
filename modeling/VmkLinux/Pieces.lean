/-
  VmkLinux/Pieces.lean
  ====================
  **Work done piece by piece**: a loop over pieces of at most `size`, each of which is a loop over
  single steps, does the steps one after the other (`loop_eq`).

  A step may fail as it is written in a piece, and is then shown to be one that does not; what the
  steps store is read off in the end (`steps_update`).
-/
import Mathlib.Algebra.Group.Int.Defs
import Mathlib.Algebra.Group.Nat.Defs
import Mathlib.Algebra.GroupWithZero.Nat
import Mathlib.Data.List.Basic

namespace VmkLinux.Pieces

variable {M : Type}

/-- `step i` for the `n` numbers from `off` on. -/
def steps (step : Nat → M → M) (off n : Nat) (m : M) : M :=
  (List.range' off n).foldl (fun m i => step i m) m

/-- `n` steps that may fail, numbered from 0. -/
def piece (n : Nat) (step : Nat → M → Option M) (m : M) : Option M :=
  (List.range n).foldlM (fun m j => step j m) m

/-- `part off n` for one piece after the other; `left` is what is left of `length`. -/
def loop (size : Nat) [NeZero size] (part : Nat → Nat → M → Option M) (length left : Nat) (m : M) :
    Option M :=
  if left = 0 then some m
  else
    match part (length - left) (min left size) m with
    | none => none
    | some m => loop size part length (left - min left size) m
termination_by left
decreasing_by
  have hsize := Nat.pos_of_neZero size
  omega

section Steps

variable {step : Nat → M → M} {off n k : Nat} {m : M}

theorem steps_succ : steps step off (n + 1) m = step (off + n) (steps step off n m) := by
  rw [steps, List.range'_1_concat, List.foldl_append]
  rfl

theorem steps_add : steps step off (n + k) m = steps step (off + n) k (steps step off n m) := by
  rw [steps, ← List.range'_append_1, List.foldl_append]
  rfl

theorem steps_congr {step' : Nat → M → M} (h : ∀ i < n, ∀ m, step i m = step' i m) :
    steps step 0 n m = steps step' 0 n m := by
  induction n with
  | zero => rfl
  | succ n ih =>
    rw [steps_succ, steps_succ, ih fun i hi => h i (Nat.lt_succ_of_lt hi), Nat.zero_add]
    exact h n (Nat.lt_succ_self n) _

theorem piece_eq {part : Nat → M → Option M}
    (h : ∀ j < n, ∀ m, part j m = some (step (off + j) m)) :
    piece n part m = some (steps step off n m) := by
  induction n with
  | zero => rfl
  | succ n ih =>
    have hinit : piece n part m = some (steps step off n m) :=
      ih fun j hj => h j (Nat.lt_succ_of_lt hj)
    rw [piece] at hinit ⊢
    rw [List.range_succ, List.foldlM_append, hinit, steps_succ]
    simp [h n (Nat.lt_succ_self n)]

/-- The invariant is that the steps before the piece have been done: they are a multiple of
    `size`. -/
theorem loop_eq {size length left : Nat} [NeZero size] {part : Nat → Nat → M → Option M}
    (h : ∀ off n m, size ∣ off → n ≤ size → off + n ≤ length →
      part off n m = some (steps step off n m))
    (hle : left ≤ length) (hdvd : size ∣ length - left) :
    loop size part length left m = some (steps step (length - left) left m) := by
  induction left using Nat.strongRecOn generalizing m with
  | ind left ih =>
    rw [loop]
    split
    · rename_i hzero
      rw [hzero]
      rfl
    · rename_i hleft
      have hsize := Nat.pos_of_neZero size
      rw [h _ _ m hdvd (Nat.min_le_right _ _) (by omega)]
      dsimp only
      rcases Nat.le_total left size with hlast | hmore
      · rw [Nat.min_eq_left hlast, Nat.sub_self, loop, if_pos rfl]
      · have hoff : length - (left - size) = length - left + size := by omega
        have hdvd' : size ∣ length - (left - size) := by
          rw [hoff]
          exact Nat.dvd_add hdvd (Nat.dvd_refl size)
        rw [Nat.min_eq_right hmore, ih (left - size) (by omega) (by omega) hdvd', hoff,
          ← steps_add, Nat.add_sub_cancel' hmore]

theorem loop_all {size length : Nat} [NeZero size] {part : Nat → Nat → M → Option M}
    (h : ∀ off n m, size ∣ off → n ≤ size → off + n ≤ length →
      part off n m = some (steps step off n m)) :
    loop size part length length m = some (steps step 0 length m) := by
  have hall := loop_eq (m := m) h (Nat.le_refl length)
  rw [Nat.sub_self] at hall
  exact hall (Nat.dvd_zero size)

end Steps

section Update

variable {β : Type} {v : Nat → β} {f : Nat → Nat} {n base a : Nat} {m : Nat → β}

/-- Stores to consecutive places. -/
theorem steps_update : steps (fun i m => Function.update m (base + i) (v i)) 0 n m a =
    if base ≤ a ∧ a < base + n then v (a - base) else m a := by
  induction n with
  | zero => rw [if_neg (by omega)]; rfl
  | succ n ih =>
    rw [steps_succ, Nat.zero_add]
    rcases eq_or_ne a (base + n) with rfl | hne
    · rw [Function.update_self, if_pos (by omega), Nat.add_sub_cancel_left]
    · have hlt : (base ≤ a ∧ a < base + (n + 1)) ↔ (base ≤ a ∧ a < base + n) := by omega
      rw [Function.update_of_ne hne, ih]
      simp only [hlt]

/-- Stores of one value, to any places. -/
theorem steps_update_const {c : β} {i : Nat} (hi : i < n) :
    steps (fun i m => Function.update m (f i) c) 0 n m (f i) = c := by
  induction n with
  | zero => exact absurd hi (Nat.not_lt_zero i)
  | succ n ih =>
    rw [steps_succ, Nat.zero_add]
    rcases eq_or_ne (f i) (f n) with heq | hne
    · rw [heq, Function.update_self]
    · have hlt : i < n := by
        refine Nat.lt_of_le_of_ne (Nat.le_of_lt_succ hi) ?_
        rintro rfl
        exact hne rfl
      rw [Function.update_of_ne hne, ih hlt]

end Update

end VmkLinux.Pieces
