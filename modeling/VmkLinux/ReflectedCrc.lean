/-
  VmkLinux/ReflectedCrc.lean
  ==========================
  **Reflected CRCs**: a register of any width takes the bits of a message at its low end, over
  any polynomial.

  `ofBits` takes one bit after the other.  Taking the bits of a word is the same as adding the
  word to the register and shifting out as many bits as it has (`ofBits_bitsOf`), so that a word
  may be taken at once.  Shifting out is linear over xor (`shiftOuts_xor`), and where the low bits
  are clear it only shifts (`shiftOuts_of_clear`): what comes of the low `k` bits can stand in a
  table (`shiftOuts_split`).
-/
import Mathlib.Logic.Function.Iterate

namespace VmkLinux.ReflectedCrc

variable {w : Nat} (poly : BitVec w)

/-! ### Definitions -/

/-- The bits of a word, the low end first. -/
def bitsOf {n : Nat} (x : BitVec n) : List Bool := (List.range n).map x.getLsbD

/-- The register after one bit of a message. -/
def takeBit (r : BitVec w) (bit : Bool) : BitVec w :=
  (r >>> 1) ^^^ if r.getLsbD 0 ^^ bit then poly else 0

/-- The register after all the bits of a message. -/
def ofBits (r : BitVec w) (message : List Bool) : BitVec w := message.foldl (takeBit poly) r

/-- One bit is shifted out of the register. -/
def shiftOut (r : BitVec w) : BitVec w := (r >>> 1) ^^^ if r.getLsbD 0 then poly else 0

/-! ### Messages -/

theorem ofBits_append (r : BitVec w) (xs ys : List Bool) :
    ofBits poly r (xs ++ ys) = ofBits poly (ofBits poly r xs) ys := List.foldl_append

theorem bitsOf_append {m n : Nat} (x : BitVec m) (y : BitVec n) :
    bitsOf (x ++ y) = bitsOf y ++ bitsOf x := by
  have hrange : List.range (m + n) = List.range n ++ (List.range m).map (n + ·) := by
    rw [Nat.add_comm m n, List.range_add]
  rw [bitsOf, hrange, List.map_append, List.map_map]
  congr 1
  · apply List.map_congr_left
    intro i hi
    rw [BitVec.getLsbD_append, if_pos (List.mem_range.mp hi)]
  · apply List.map_congr_left
    intro i _
    simp [BitVec.getLsbD_append]

theorem takeBit_eq (r x : BitVec w) :
    takeBit poly r (x.getLsbD 0) ^^^ (x >>> 1) = shiftOut poly (r ^^^ x) := by
  unfold takeBit shiftOut
  rw [BitVec.getLsbD_xor, BitVec.ushiftRight_xor_distrib, BitVec.xor_assoc, BitVec.xor_assoc,
    BitVec.xor_comm (x >>> 1)]

/-- Induction on the number of bits: the word moves down as the register does. -/
theorem ofBits_range (n : Nat) (r x : BitVec w) (hx : ∀ i, n ≤ i → x.getLsbD i = false) :
    ofBits poly r ((List.range n).map x.getLsbD) = (shiftOut poly)^[n] (r ^^^ x) := by
  induction n generalizing r x with
  | zero =>
    have hzero : x = 0#w := BitVec.eq_of_getLsbD_eq fun i _ => by
      rw [hx i (Nat.zero_le i), BitVec.getLsbD_zero]
    rw [hzero, BitVec.xor_zero]
    rfl
  | succ n ih =>
    have htail : ((List.range n).map Nat.succ).map x.getLsbD
        = (List.range n).map (x >>> 1).getLsbD := by
      rw [List.map_map]
      apply List.map_congr_left
      intro i _
      rw [BitVec.getLsbD_ushiftRight, Nat.add_comm]
      rfl
    have hshifted : ∀ i, n ≤ i → (x >>> 1).getLsbD i = false := by
      intro i hi
      rw [BitVec.getLsbD_ushiftRight]
      exact hx (1 + i) (by omega)
    rw [List.range_succ_eq_map, List.map_cons, htail, Function.iterate_succ_apply, ← takeBit_eq]
    exact ih _ _ hshifted

/-- A word that is no wider than the register may be taken at once. -/
theorem ofBits_bitsOf {n : Nat} (r : BitVec w) (x : BitVec n) (hn : n ≤ w) :
    ofBits poly r (bitsOf x) = (shiftOut poly)^[n] (r ^^^ x.setWidth w) := by
  have hbits : bitsOf x = (List.range n).map (x.setWidth w).getLsbD := by
    apply List.map_congr_left
    intro i hi
    have hlt : i < w := Nat.lt_of_lt_of_le (List.mem_range.mp hi) hn
    rw [BitVec.getLsbD_setWidth, decide_eq_true hlt, Bool.true_and]
  rw [hbits]
  apply ofBits_range
  intro i hi
  rw [BitVec.getLsbD_setWidth, BitVec.getLsbD_of_ge x i hi, Bool.and_false]

/-! ### Linearity -/

theorem ite_xor (a b : Bool) :
    (if a ^^ b then poly else 0)
      = (if a then poly else 0) ^^^ (if b then poly else 0) := by
  cases a <;> cases b <;> simp

theorem shiftOut_xor (x y : BitVec w) :
    shiftOut poly (x ^^^ y) = shiftOut poly x ^^^ shiftOut poly y := by
  unfold shiftOut
  rw [BitVec.getLsbD_xor, BitVec.ushiftRight_xor_distrib, ite_xor]
  ac_rfl

theorem shiftOuts_xor (k : Nat) (x y : BitVec w) :
    (shiftOut poly)^[k] (x ^^^ y) = (shiftOut poly)^[k] x ^^^ (shiftOut poly)^[k] y := by
  induction k generalizing x y with
  | zero => rfl
  | succ k ih =>
    rw [Function.iterate_succ_apply, shiftOut_xor, ih]
    rfl

theorem shiftOuts_of_clear (k : Nat) (x : BitVec w) (hx : ∀ i, i < k → x.getLsbD i = false) :
    (shiftOut poly)^[k] x = x >>> k := by
  induction k generalizing x with
  | zero => rfl
  | succ k ih =>
    have hout : shiftOut poly x = x >>> 1 := by
      rw [shiftOut, hx 0 (Nat.succ_pos k)]
      exact BitVec.xor_zero
    have hclear : ∀ i, i < k → (x >>> 1).getLsbD i = false := by
      intro i hi
      rw [BitVec.getLsbD_ushiftRight]
      exact hx (1 + i) (by omega)
    rw [Function.iterate_succ_apply, hout, ih _ hclear, ← BitVec.shiftRight_add, Nat.add_comm]

/-- The low `k` bits come out through the polynomial, and the others only move down. -/
theorem shiftOuts_split (k : Nat) (x : BitVec w) :
    (shiftOut poly)^[k] x = (shiftOut poly)^[k] ((x.setWidth k).setWidth w) ^^^ (x >>> k) := by
  have hparts : x = (x.setWidth k).setWidth w ^^^ ((x >>> k) <<< k) := by
    apply BitVec.eq_of_getLsbD_eq
    intro i hi
    rw [BitVec.getLsbD_xor, BitVec.getLsbD_setWidth, BitVec.getLsbD_setWidth,
      BitVec.getLsbD_shiftLeft, BitVec.getLsbD_ushiftRight, decide_eq_true hi]
    by_cases hk : i < k
    · simp [hk]
    · simp [hk, Nat.add_sub_cancel' (Nat.le_of_not_lt hk)]
  have hclear : ∀ i, i < k → ((x >>> k) <<< k).getLsbD i = false := by
    intro i hi
    rw [BitVec.getLsbD_shiftLeft, decide_eq_true hi, Bool.not_true, Bool.and_false,
      Bool.false_and]
  have hhigh : ((x >>> k) <<< k) >>> k = x >>> k := by
    apply BitVec.eq_of_getLsbD_eq
    intro i _
    rw [BitVec.getLsbD_ushiftRight, BitVec.getLsbD_shiftLeft, BitVec.getLsbD_ushiftRight]
    by_cases hlt : k + i < w
    · simp [hlt]
    · simp [hlt, BitVec.getLsbD_of_ge x (k + i) (Nat.le_of_not_lt hlt)]
  calc (shiftOut poly)^[k] x
      = (shiftOut poly)^[k] ((x.setWidth k).setWidth w ^^^ ((x >>> k) <<< k)) := by rw [← hparts]
    _ = (shiftOut poly)^[k] ((x.setWidth k).setWidth w) ^^^ (x >>> k) := by
        rw [shiftOuts_xor, shiftOuts_of_clear poly k _ hclear, hhigh]

end VmkLinux.ReflectedCrc
