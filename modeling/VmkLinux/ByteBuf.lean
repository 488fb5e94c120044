/-
  VmkLinux/ByteBuf.lean
  =====================
  **Byte buffers**: memory from some address on, read and written in network byte order.

  A buffer has no end of its own, so that a read past the data that was put there gives
  what happens to stand in memory.  Whoever holds a buffer knows how many of its bytes
  count, and takes them with `slice`.
-/
import Mathlib.Data.List.Basic

namespace VmkLinux.ByteBuf

/-- The byte at each offset. -/
def Buf := Nat → UInt8

namespace Buf

variable (b : Buf)

def u8 (off : Nat) : Nat := (b off).toNat

/-- A 16 bit number in network byte order. -/
def be16 (off : Nat) : Nat := 256 * b.u8 off + b.u8 (off + 1)

/-- A 32 bit number in network byte order. -/
def be32 (off : Nat) : Nat := 65536 * b.be16 off + b.be16 (off + 2)

/-- The `len` bytes from `off` on. -/
def slice (off len : Nat) : List UInt8 := (List.range len).map fun i => b (off + i)

/-- The buffer after `bytes` were written at `off`. -/
def store (off : Nat) (bytes : List UInt8) : Buf :=
  fun i => if i < off then b i else bytes.getD (i - off) (b i)

end Buf

/-- The bytes of a 16 bit number in network byte order. -/
def be16Bytes (n : Nat) : List UInt8 := [UInt8.ofNat (n / 256), UInt8.ofNat n]

def be32Bytes (n : Nat) : List UInt8 := be16Bytes (n / 65536) ++ be16Bytes n

@[simp] theorem length_be16Bytes (n : Nat) : (be16Bytes n).length = 2 := rfl

@[simp] theorem length_be32Bytes (n : Nat) : (be32Bytes n).length = 4 := rfl

/-! ### What a store leaves alone -/

section Store

variable {b b' : Buf} {off i : Nat} {bytes : List UInt8}

theorem store_before (h : i < off) : b.store off bytes i = b i := if_pos h

theorem store_after (h : off + bytes.length ≤ i) : b.store off bytes i = b i := by
  unfold Buf.store
  split
  · rfl
  · rw [List.getD_eq_getElem?_getD, List.getElem?_eq_none (by omega), Option.getD_none]

theorem store_outside (h : i < off ∨ off + bytes.length ≤ i) : b.store off bytes i = b i := by
  rcases h with h | h
  · exact store_before h
  · exact store_after h

theorem be16_lt : b.be16 i < 65536 := by
  have hhigh : b.u8 i < 256 := (b i).toNat_lt
  have hlow : b.u8 (i + 1) < 256 := (b (i + 1)).toNat_lt
  unfold Buf.be16
  omega

theorem be16_congr (h : ∀ j < 2, b (i + j) = b' (i + j)) : b.be16 i = b'.be16 i := by
  have h₀ := h 0 (by omega)
  have h₁ := h 1 (by omega)
  simp only [Buf.be16, Buf.u8, Nat.add_zero] at h₀ h₁ ⊢
  rw [h₀, h₁]

theorem be32_congr (h : ∀ j < 4, b (i + j) = b' (i + j)) : b.be32 i = b'.be32 i := by
  have hhigh : b.be16 i = b'.be16 i := be16_congr fun j hj => h j (by omega)
  have hlow : b.be16 (i + 2) = b'.be16 (i + 2) := be16_congr fun j hj => by
    rw [Nat.add_assoc]
    exact h (2 + j) (by omega)
  unfold Buf.be32
  rw [hhigh, hlow]

end Store

/-! ### Slices -/

section Slice

variable {b b' : Buf} {off len k : Nat}

@[simp] theorem length_slice : (b.slice off len).length = len := by simp [Buf.slice]

theorem slice_congr (h : ∀ i, off ≤ i → i < off + len → b i = b' i) :
    b.slice off len = b'.slice off len := by
  apply List.map_congr_left
  intro i hi
  exact h _ (by omega) (by have := List.mem_range.mp hi; omega)

theorem drop_slice : (b.slice off len).drop k = b.slice (off + k) (len - k) := by
  apply List.ext_getElem
  · simp
  · intro i h₁ h₂
    simp [Buf.slice, Nat.add_assoc]

end Slice

end VmkLinux.ByteBuf
