/-
  VmkLinux/Net/Crc32.lean
  =======================
  **The Ethernet CRC** (`vmklinux26/vmware/linux_net.c`): `crc32_le` with its table, which takes
  four bytes at a time and then the rest one by one.

  The specification is the register that takes the message bit by bit, the low bit of each byte
  first.  The index of the loops is an `int`, so that it comes back from 2^31 as a negative
  number; a read outside of the frame is `none`.
-/
import Mathlib.Algebra.Group.Nat.Defs
import Mathlib.Order.Fin.Basic
import VmkLinux.ReflectedCrc

namespace VmkLinux.Net.Crc32

open VmkLinux.ReflectedCrc

/-! ### The code -/

/-- `eth_crc32_poly_le`. -/
def ethCrc32PolyLe : BitVec 32 := 0xedb88320

/-- `eth_crc32_poly_tbl_le`. -/
abbrev Table := Vector (BitVec 32) 256

/-- The inner loop of `LinNetComputeEthCRCTableLE`, from `i` on. -/
def tableEntry (i : Fin 256) : BitVec 32 :=
  (List.range 8).foldl
    (fun crc _ => (crc >>> 1) ^^^ if crc &&& 0x1 ≠ 0 then ethCrc32PolyLe else 0)
    (BitVec.ofNat 32 i)

def linNetComputeEthCRCTableLE (table : Table) : Table :=
  (List.finRange 256).foldl (fun table (i : Fin 256) => table.set i (tableEntry i)) table

theorem and_0xff_lt (x : BitVec 32) : (x &&& 0xff).toNat < 256 := by
  rw [BitVec.toNat_and]
  exact Nat.lt_of_le_of_lt Nat.and_le_right (by decide)

/-- `eth_crc32_poly_tbl_le[x & 0xff]`. -/
def Table.at (table : Table) (x : BitVec 32) : BitVec 32 := table.get ⟨_, and_0xff_lt x⟩

/-- `frame[i]`. -/
def frameAt (frame : List (BitVec 8)) (i : Int) : Option (BitVec 8) :=
  if 0 ≤ i then frame[i.toNat]? else none

/-- `*(unsigned *)&frame[i]`, on a little-endian machine. -/
def wordAt (frame : List (BitVec 8)) (i : Int) : Option (BitVec 32) := do
  let b0 ← frameAt frame i
  let b1 ← frameAt frame (i + 1)
  let b2 ← frameAt frame (i + 2)
  let b3 ← frameAt frame (i + 3)
  return b3 ++ b2 ++ b1 ++ b0

theorem lt_of_frameAt {frame : List (BitVec 8)} {i : BitVec 32} {b : BitVec 8}
    (h : frameAt frame i.toInt = some b) : i.toNat < frame.length ∧ i.toNat < 2 ^ 31 := by
  unfold frameAt at h
  split at h
  · obtain ⟨hlt, -⟩ := List.getElem?_eq_some_iff.mp h
    rw [BitVec.toInt_eq_toNat_cond] at *
    split at hlt <;> omega
  · exact absurd h nofun

theorem frameAt_of_wordAt {frame : List (BitVec 8)} {i : Int} {word : BitVec 32}
    (h : wordAt frame i = some word) : ∃ b, frameAt frame i = some b := by
  obtain ⟨b, hb, -⟩ := Option.bind_eq_some_iff.mp h
  exact ⟨b, hb⟩

theorem toNat_next {i : BitVec 32} (n : BitVec 32) (hi : i.toNat < 2 ^ 31) (hn : n.toNat < 2 ^ 31) :
    (i + n).toNat = i.toNat + n.toNat := BitVec.toNat_add_of_lt (by omega)

/-- One step of the loop over `j`, or the body of the second loop. -/
def tableStep (table : Table) (crc index : BitVec 32) : BitVec 32 :=
  table.at index ^^^ (crc >>> 8)

/-- The body of the first loop, from the word that was read on. -/
def wordStep (table : Table) (crc word : BitVec 32) : BitVec 32 :=
  (List.range 4).foldl (fun crc _ => tableStep table crc crc) (crc ^^^ word)

/-- The first loop of `LinNetComputeEthCRCLE`: `crc` and `i` at its end. -/
def wordLoop (table : Table) (frame : List (BitVec 8)) (frameLen crc i : BitVec 32) :
    Option (BitVec 32 × BitVec 32) :=
  if i + 4 ≤ frameLen then
    match h : wordAt frame i.toInt with
    | none => none
    | some word => wordLoop table frame frameLen (wordStep table crc word) (i + 4)
  else some (crc, i)
termination_by frame.length - i.toNat
decreasing_by
  obtain ⟨_, hb⟩ := frameAt_of_wordAt h
  have hi := lt_of_frameAt hb
  have hnext := toNat_next 4 hi.2 (by decide)
  have hfour : (4 : BitVec 32).toNat = 4 := rfl
  omega

/-- The second loop. -/
def byteLoop (table : Table) (frame : List (BitVec 8)) (frameLen crc i : BitVec 32) :
    Option (BitVec 32) :=
  if i < frameLen then
    match h : frameAt frame i.toInt with
    | none => none
    | some b =>
        byteLoop table frame frameLen (tableStep table crc (crc ^^^ b.setWidth 32)) (i + 1)
  else some crc
termination_by frame.length - i.toNat
decreasing_by
  have hi := lt_of_frameAt h
  have hnext := toNat_next 1 hi.2 (by decide)
  have hone : (1 : BitVec 32).toNat = 1 := rfl
  omega

def linNetComputeEthCRCLE (table : Table) (crc : BitVec 32) (frame : List (BitVec 8))
    (frameLen : BitVec 32) : Option (BitVec 32) := do
  let (crc, i) ← wordLoop table frame frameLen crc 0
  byteLoop table frame frameLen crc i

/-- `crc32_le`; `len` is a `size_t`. -/
def crc32Le (table : Table) (crc : BitVec 32) (p : List (BitVec 8)) (len : BitVec 64) :
    Option (BitVec 32) :=
  linNetComputeEthCRCLE table crc p (len.setWidth 32)

/-! ### The table -/

/-- The CRC of some bytes, bit by bit. -/
def bitwise (seed : BitVec 32) (bytes : List (BitVec 8)) : BitVec 32 :=
  ofBits ethCrc32PolyLe seed (bytes.flatMap bitsOf)

theorem and_one_ne_zero_iff (crc : BitVec 32) : crc &&& 0x1 ≠ 0 ↔ crc.getLsbD 0 = true := by
  have hmask : crc &&& 1#32 = BitVec.setWidth 32 (BitVec.ofBool (crc.getLsbD 0)) :=
    BitVec.and_one_eq_setWidth_ofBool_getLsbD
  change ¬ crc &&& 1#32 = 0#32 ↔ _
  rw [hmask]
  cases crc.getLsbD 0 <;> decide

theorem tableEntry_eq (i : Fin 256) :
    tableEntry i = (shiftOut ethCrc32PolyLe)^[8] (BitVec.ofNat 32 i) := by
  have hbody : (fun crc : BitVec 32 =>
      (crc >>> 1) ^^^ if crc &&& 0x1 ≠ 0 then ethCrc32PolyLe else 0) =
      shiftOut ethCrc32PolyLe := by
    funext crc
    simp only [shiftOut, and_one_ne_zero_iff]
  rw [tableEntry, List.foldl_const, List.length_range, hbody]

/-- The entries that a loop of stores has passed, and those that it has not. -/
theorem get_foldl_set (entry : Fin 256 → BitVec 32) (is : List (Fin 256)) (table : Table)
    (j : Fin 256) :
    (is.foldl (fun (table : Table) (i : Fin 256) => table.set i (entry i)) table).get j
      = if j ∈ is then entry j else table.get j := by
  induction is generalizing table with
  | nil => rfl
  | cons i is ih =>
    rw [List.foldl_cons, ih]
    by_cases hmem : j ∈ is
    · rw [if_pos hmem, if_pos (List.mem_cons_of_mem i hmem)]
    · rw [if_neg hmem]
      by_cases hij : j = i
      · subst hij
        rw [if_pos List.mem_cons_self]
        exact Vector.getElem_set_self j.isLt
      · have hne : (i : Nat) ≠ j := fun h => hij (Fin.ext h.symm)
        rw [if_neg (List.not_mem_cons_of_ne_of_not_mem hij hmem)]
        exact Vector.getElem_set_ne i.isLt j.isLt hne

/-- `LinNetComputeEthCRCTableLE` leaves nothing of the table that was there. -/
theorem at_linNetComputeEthCRCTableLE (table : Table) (x : BitVec 32) :
    (linNetComputeEthCRCTableLE table).at x
      = (shiftOut ethCrc32PolyLe)^[8] ((x.setWidth 8).setWidth 32) := by
  have hindex : BitVec.ofNat 32 (x &&& 0xff).toNat = (x.setWidth 8).setWidth 32 := by
    rw [BitVec.ofNat_toNat, BitVec.setWidth_eq]
    apply BitVec.eq_of_toNat_eq
    have hmask : (0xff : BitVec 32).toNat = 2 ^ 8 - 1 := rfl
    rw [BitVec.toNat_and, hmask, Nat.and_two_pow_sub_one_eq_mod, BitVec.toNat_setWidth,
      BitVec.toNat_setWidth]
    omega
  rw [Table.at, linNetComputeEthCRCTableLE, get_foldl_set, if_pos (List.mem_finRange _),
    tableEntry_eq, ← hindex]

/-! ### The steps -/

section Loops

variable (table : Table)

theorem tableStep_eq {crc index : BitVec 32} (h : index >>> 8 = crc >>> 8) :
    tableStep (linNetComputeEthCRCTableLE table) crc index
      = (shiftOut ethCrc32PolyLe)^[8] index := by
  rw [tableStep, at_linNetComputeEthCRCTableLE, ← h, ← shiftOuts_split]

theorem byteStep_eq (crc : BitVec 32) (b : BitVec 8) :
    tableStep (linNetComputeEthCRCTableLE table) crc (crc ^^^ b.setWidth 32)
      = ofBits ethCrc32PolyLe crc (bitsOf b) := by
  have hshift : b.setWidth 32 >>> 8 = 0#32 := by
    apply BitVec.eq_of_toNat_eq
    have hlt := b.isLt
    rw [BitVec.toNat_ushiftRight, BitVec.toNat_setWidth, BitVec.toNat_ofNat,
      Nat.shiftRight_eq_div_pow]
    omega
  have hhigh : (crc ^^^ b.setWidth 32) >>> 8 = crc >>> 8 := by
    rw [BitVec.ushiftRight_xor_distrib, hshift, BitVec.xor_zero]
  rw [tableStep_eq table hhigh, ofBits_bitsOf ethCrc32PolyLe crc b (by decide)]

theorem wordStep_eq (crc word : BitVec 32) :
    wordStep (linNetComputeEthCRCTableLE table) crc word
      = ofBits ethCrc32PolyLe crc (bitsOf word) := by
  have hbody : (fun crc => tableStep (linNetComputeEthCRCTableLE table) crc crc)
      = (shiftOut ethCrc32PolyLe)^[8] := funext fun crc => tableStep_eq table rfl
  rw [wordStep, List.foldl_const, List.length_range, hbody, ← Function.iterate_mul,
    ofBits_bitsOf ethCrc32PolyLe crc word (by decide), BitVec.setWidth_eq]

/-! ### The loops -/

theorem frameAt_natCast (frame : List (BitVec 8)) (n : Nat) : frameAt frame n = frame[n]? :=
  if_pos (Int.natCast_nonneg n)

theorem toInt_eq {i : BitVec 32} (hi : i.toNat < 2 ^ 31) : i.toInt = i.toNat := by
  rw [BitVec.toInt_eq_toNat_cond, if_pos (by omega)]

theorem wordAt_eq {frame : List (BitVec 8)} {n : Nat} (h : n + 4 ≤ frame.length) :
    ∃ word, wordAt frame n = some word
      ∧ (frame.drop n).flatMap bitsOf = bitsOf word ++ (frame.drop (n + 4)).flatMap bitsOf := by
  have hread : ∀ k (hk : k < 4), frameAt frame (n + k : Nat) = some frame[n + k] := by
    intro k hk
    rw [frameAt_natCast, List.getElem?_eq_getElem]
  refine ⟨frame[n + 3] ++ frame[n + 2] ++ frame[n + 1] ++ frame[n], ?_, ?_⟩
  · have h0 : frameAt frame n = some frame[n] := hread 0 (by decide)
    have h1 : frameAt frame (n + 1) = some frame[n + 1] := hread 1 (by decide)
    have h2 : frameAt frame (n + 2) = some frame[n + 2] := hread 2 (by decide)
    have h3 : frameAt frame (n + 3) = some frame[n + 3] := hread 3 (by decide)
    simp only [wordAt, h0, h1, h2, h3]
    rfl
  · rw [bitsOf_append, bitsOf_append, bitsOf_append, List.drop_eq_getElem_cons (by omega),
      List.drop_eq_getElem_cons (by omega), List.drop_eq_getElem_cons (by omega),
      List.drop_eq_getElem_cons (by omega)]
    simp only [List.flatMap_cons, List.append_assoc]

/-- Induction along the second loop. -/
theorem byteLoop_eq {frame : List (BitVec 8)} {frameLen : BitVec 32}
    (hlen : frameLen.toNat = frame.length) (hbound : frame.length < 2 ^ 31)
    (crc i : BitVec 32) (hi : i.toNat ≤ frame.length) :
    byteLoop (linNetComputeEthCRCTableLE table) frame frameLen crc i
      = some (bitwise crc (frame.drop i.toNat)) := by
  induction crc, i using byteLoop.induct (linNetComputeEthCRCTableLE table) frame frameLen with
  | case1 crc i hlt hnone =>
    rw [BitVec.lt_def, hlen] at hlt
    rw [toInt_eq (by omega), frameAt_natCast, List.getElem?_eq_getElem hlt] at hnone
    exact absurd hnone nofun
  | case2 crc i hlt b hb ih =>
    have hin : i.toNat < frame.length := (lt_of_frameAt hb).1
    have hnext : (i + 1).toNat = i.toNat + 1 := toNat_next 1 (lt_of_frameAt hb).2 (by decide)
    have hread : frame[i.toNat] = b := by
      rw [toInt_eq (lt_of_frameAt hb).2, frameAt_natCast, List.getElem?_eq_getElem hin] at hb
      exact Option.some.inj hb
    rw [byteLoop, if_pos hlt]
    split
    · next hnone => exact absurd (hnone.symm.trans hb) nofun
    · next b' hb' =>
      obtain rfl : b' = b := Option.some.inj (hb'.symm.trans hb)
      rw [ih (by omega), hnext, byteStep_eq, bitwise, bitwise, ← ofBits_append,
        List.drop_eq_getElem_cons hin, List.flatMap_cons, hread]
  | case3 crc i hge =>
    rw [BitVec.lt_def, hlen] at hge
    rw [byteLoop, if_neg (by rwa [BitVec.lt_def, hlen]), List.drop_of_length_le (by omega)]
    rfl

/-- Induction along the first loop, which leaves the rest to the second. -/
theorem loops_eq {frame : List (BitVec 8)} {frameLen : BitVec 32}
    (hlen : frameLen.toNat = frame.length) (hbound : frame.length < 2 ^ 31)
    (crc i : BitVec 32) (hi : i.toNat ≤ frame.length) :
    ((wordLoop (linNetComputeEthCRCTableLE table) frame frameLen crc i).bind fun r =>
        byteLoop (linNetComputeEthCRCTableLE table) frame frameLen r.1 r.2)
      = some (bitwise crc (frame.drop i.toNat)) := by
  have hnext : (i + 4).toNat = i.toNat + 4 := toNat_next 4 (by omega) (by decide)
  induction crc, i using wordLoop.induct (linNetComputeEthCRCTableLE table) frame frameLen with
  | case1 crc i hle hnone =>
    rw [BitVec.le_def, hlen, hnext] at hle
    obtain ⟨word, hword, -⟩ := wordAt_eq hle
    rw [toInt_eq (by omega), hword] at hnone
    exact absurd hnone nofun
  | case2 crc i hle word hword ih =>
    have hin : i.toNat + 4 ≤ frame.length := by rwa [BitVec.le_def, hlen, hnext] at hle
    obtain ⟨word', hread, hbits⟩ := wordAt_eq hin
    have hsame : word' = word := by
      rw [toInt_eq (by omega), hread] at hword
      exact Option.some.inj hword
    rw [wordLoop, if_pos hle]
    split
    · next hnone => exact absurd (hnone.symm.trans hword) nofun
    · next word'' hword'' =>
      obtain rfl : word'' = word := Option.some.inj (hword''.symm.trans hword)
      rw [ih (by omega) (toNat_next 4 (by omega) (by decide)), hnext, wordStep_eq, bitwise, bitwise,
        ← ofBits_append, hbits, hsame]
  | case3 crc i hgt =>
    rw [wordLoop, if_neg hgt]
    exact byteLoop_eq table hlen hbound crc i hi

end Loops

/-! ### The CRC -/

/-- `crc32_le` of a whole string. -/
def crcOf (table : Table) (crc : BitVec 32) (p : List (BitVec 8)) : Option (BitVec 32) :=
  crc32Le table crc p (BitVec.ofNat 64 p.length)

theorem crcOf_eq (table : Table) (crc : BitVec 32) {p : List (BitVec 8)} (hp : p.length < 2 ^ 31) :
    crcOf (linNetComputeEthCRCTableLE table) crc p = some (bitwise crc p) := by
  have hlen : ((BitVec.ofNat 64 p.length).setWidth 32).toNat = p.length := by
    rw [BitVec.toNat_setWidth, BitVec.toNat_ofNat]
    omega
  exact loops_eq table hlen hp crc 0 (Nat.zero_le _)

theorem bitwise_append (seed : BitVec 32) (a b : List (BitVec 8)) :
    bitwise seed (a ++ b) = bitwise (bitwise seed a) b := by
  rw [bitwise, List.flatMap_append, ofBits_append]
  rfl

/-- `crc32_le` is the CRC bit by bit, and a string may be taken in two parts. -/
theorem crc32_le_bitwise (table : Table) (seed : BitVec 32) (a b : List (BitVec 8))
    (h : (a ++ b).length < 2 ^ 31) :
    crcOf (linNetComputeEthCRCTableLE table) seed (a ++ b) = some (bitwise seed (a ++ b)) ∧
      ((crcOf (linNetComputeEthCRCTableLE table) seed a).bind fun crc =>
          crcOf (linNetComputeEthCRCTableLE table) crc b)
        = crcOf (linNetComputeEthCRCTableLE table) seed (a ++ b) := by
  have hparts : a.length + b.length < 2 ^ 31 := by rwa [List.length_append] at h
  have ha : a.length < 2 ^ 31 := by omega
  have hb : b.length < 2 ^ 31 := by omega
  refine ⟨crcOf_eq table seed h, ?_⟩
  rw [crcOf_eq table seed h, crcOf_eq table seed ha, bitwise_append]
  exact crcOf_eq table _ hb

/-- The digits from 1 to 9, the usual check of a CRC, in a string of four and one of five. -/
theorem crc32_le_bitwise_digits :
    crcOf (linNetComputeEthCRCTableLE (Vector.replicate 256 0)) 0xffffffff
        [0x31, 0x32, 0x33, 0x34, 0x35, 0x36, 0x37, 0x38, 0x39] = some 0x340bc6d9 ∧
      ((crcOf (linNetComputeEthCRCTableLE (Vector.replicate 256 0)) 0xffffffff
          [0x31, 0x32, 0x33, 0x34]).bind fun crc =>
          crcOf (linNetComputeEthCRCTableLE (Vector.replicate 256 0)) crc
            [0x35, 0x36, 0x37, 0x38, 0x39]) = some 0x340bc6d9 := by
  obtain ⟨hwhole, hparts⟩ := crc32_le_bitwise (Vector.replicate 256 0) 0xffffffff
    [0x31, 0x32, 0x33, 0x34] [0x35, 0x36, 0x37, 0x38, 0x39] (by decide)
  have hcrc : bitwise 0xffffffff [0x31, 0x32, 0x33, 0x34, 0x35, 0x36, 0x37, 0x38, 0x39]
      = 0x340bc6d9 := by decide +kernel
  have hdigits := hwhole.trans (congrArg some hcrc)
  exact ⟨hdigits, hparts.trans hdigits⟩

end VmkLinux.Net.Crc32
