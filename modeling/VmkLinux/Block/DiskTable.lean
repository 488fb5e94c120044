/-
  VmkLinux/Block/DiskTable.lean
  =============================
  **The table of block disks** (`vmklinux26/vmware/linux_block.c`): `add_disk` and
  `resetup_one_dev` on the adapter of one major number.

  The index of a disk is its first minor number shifted by the logarithm of `minors`; the size of
  the table is a power of two with `minors` itself in the exponent, which gives a table for 16
  minors only, of 16 disks; and the guard admits an index that is the size.  Each call computes
  that size anew, while the table keeps the size it was made with (`disk_table_in_bounds`).
-/
import Mathlib.Tactic.IntervalCases
import VmkLinux.Heap.Kmalloc
import VmkLinux.Sequence

namespace VmkLinux.Block.DiskTable

open VmkLinux.Sequence VmkLinux.Heap

/-! ### The code -/

/-- `struct gendisk`; `ptr` and `fops` are pointers. -/
structure Gendisk where
  ptr : Nat
  firstMinor : BitVec 32
  minors : BitVec 32
  fops : Nat := 0
deriving DecidableEq, Repr

/-- `LinuxBlockDisk`. -/
structure LinuxBlockDisk where
  exists_ : Bool := false
  cdrom : Bool := false
  capacityValid : Bool := false
  capacity : BitVec 32 := 0
  targetId : BitVec 32 := 0
  gd : Option Gendisk := none
deriving DecidableEq, Repr

/-- `LinuxBlockAdapter` of one major number. -/
structure LinuxBlockAdapter where
  ops : Option Nat := none
  minorShift : BitVec 32 := -1
  maxDisks : BitVec 32 := 0
  disks : Option (List LinuxBlockDisk) := none
deriving DecidableEq, Repr

/-- `ffs`. -/
def ffs (x : BitVec 32) : Nat :=
  match (List.range 32).find? x.getLsbD with
  | none => 0
  | some i => i + 1

/-- `MAX_NR`. -/
def maxNr (dev : Gendisk) : BitVec 32 := shiftOne (20 - dev.minors.toInt)

/-- The table for `resetup_one_dev`: the one that is there, or a new one; `none` where the function
    returns without it. -/
def tableFor (dev : Gendisk) (alloc : Bool) (bd : LinuxBlockAdapter) :
    Option (LinuxBlockAdapter × List LinuxBlockDisk) :=
  match bd.disks with
  | some disks => some (bd, disks)
  | none =>
      if (maxNr dev).toInt ≤ 0 ∨ 256 < (maxNr dev).toInt then none
      else if alloc = false then none
      else
        let disks := List.replicate (maxNr dev).toNat {}
        some ({ bd with disks := some disks, maxDisks := maxNr dev }, disks)

/-- `disks[drive]`. -/
def entryAt (disks : List LinuxBlockDisk) (drive : BitVec 32) : Option LinuxBlockDisk :=
  if 0 ≤ drive.toInt then disks[drive.toInt.toNat]? else none

/-- `resetup_one_dev`; `none` is an access outside of the table. -/
def resetupOneDev (dev : Gendisk) (drive : BitVec 32) (alloc : Bool) (bd : LinuxBlockAdapter) :
    Option LinuxBlockAdapter :=
  if (maxNr dev).toInt < drive.toInt then some bd
  else
    match tableFor dev alloc bd with
    | none => some bd
    | some (bd, disks) =>
        match entryAt disks drive with
        | none => none
        | some entry =>
            if entry.exists_ then some bd
            else
              let entry : LinuxBlockDisk :=
                { exists_ := true, targetId := drive, cdrom := false, capacityValid := false
                  capacity := 0, gd := some dev }
              some { bd with disks := some (disks.set drive.toInt.toNat entry) }

/-- `bd->minor_shift` that `add_disk` stores. -/
def minorShift (gp : Gendisk) : BitVec 32 := BitVec.ofInt 32 (ffs gp.minors - 1)

/-- `gp->first_minor >> bd->minor_shift`, with the amount modulo 32. -/
def drive (gp : Gendisk) : BitVec 32 :=
  gp.firstMinor.sshiftRight ((minorShift gp).toNat % 32)

/-- `add_disk`. -/
def addDisk (gp : Gendisk) (alloc : Bool) (bd : LinuxBlockAdapter) : Option LinuxBlockAdapter :=
  resetupOneDev gp (drive gp) alloc
    { bd with ops := some (bd.ops.getD gp.fops), minorShift := minorShift gp }

/-! ### Calls -/

/-- `minors` is a power of two, and the first minor number has no more than `MINORBITS` bits. -/
def Gendisk.Proper (gp : Gendisk) : Prop :=
  (∃ k < 31, gp.minors = BitVec.ofNat 32 (2 ^ k)) ∧ gp.firstMinor.toNat < 2 ^ 20

instance (gp : Gendisk) : Decidable gp.Proper := inferInstanceAs (Decidable (_ ∧ _))

/-- A disk, and whether there is memory for a table. -/
abbrev Call := Gendisk × Bool

def step (call : Call) (bd : LinuxBlockAdapter) : Option LinuxBlockAdapter :=
  if call.1.Proper then addDisk call.1 call.2 bd else none

/-! ### Sizes and indexes -/

/-- There is a table for 16 minors only. -/
theorem maxNr_usable_iff {k : Nat} (hk : k < 31) (gp : Gendisk)
    (h : gp.minors = BitVec.ofNat 32 (2 ^ k)) :
    ¬((maxNr gp).toInt ≤ 0 ∨ 256 < (maxNr gp).toInt) ↔ k = 4 := by
  rw [maxNr, h]
  interval_cases k <;> decide

theorem minorShift_eq {k : Nat} (hk : k < 31) (gp : Gendisk)
    (h : gp.minors = BitVec.ofNat 32 (2 ^ k)) : (minorShift gp).toNat % 32 = k := by
  rw [minorShift, h]
  interval_cases k <;> decide

theorem maxNr_sixteen {gp : Gendisk} (h : gp.minors = 16) : maxNr gp = 16 := by
  rw [maxNr, h]
  decide

theorem toNat_minors {k : Nat} (hk : k < 31) {gp : Gendisk}
    (h : gp.minors = BitVec.ofNat 32 (2 ^ k)) : gp.minors.toNat = 2 ^ k := by
  have hpow : 2 ^ k < 2 ^ 32 := Nat.pow_lt_pow_right (by decide) (by omega)
  rw [h, BitVec.toNat_ofNat, Nat.mod_eq_of_lt hpow]

/-- The index of a disk is the number of its group of minors. -/
theorem toNat_drive {gp : Gendisk} (h : gp.Proper) :
    (drive gp).toNat = gp.firstMinor.toNat / gp.minors.toNat := by
  obtain ⟨⟨k, hk, hminors⟩, hfirst⟩ := h
  have hmsb : gp.firstMinor.msb = false := by
    rw [BitVec.msb_eq_decide]
    exact decide_eq_false (by omega)
  rw [drive, minorShift_eq hk gp hminors, toNat_minors hk hminors,
    BitVec.sshiftRight_eq_of_msb_false hmsb, BitVec.toNat_ushiftRight, Nat.shiftRight_eq_div_pow]

theorem drive_lt {gp : Gendisk} (h : gp.Proper) : (drive gp).toNat < 2 ^ 20 := by
  rw [toNat_drive h]
  exact Nat.lt_of_le_of_lt (Nat.div_le_self _ _) h.2

theorem toInt_drive {gp : Gendisk} (h : gp.Proper) : (drive gp).toInt = (drive gp).toNat := by
  have hlt := drive_lt h
  rw [BitVec.toInt_eq_toNat_cond, if_pos (by omega)]

/-! ### One call -/

/-- The table has the size that the adapter has recorded, which is 16, and each disk in it is at
    its index. -/
structure Inv (bd : LinuxBlockAdapter) : Prop where
  maxDisks : ∀ disks, bd.disks = some disks → bd.maxDisks = 16 ∧ disks.length = 16
  place : ∀ disks, bd.disks = some disks → ∀ (i : Nat) (entry : LinuxBlockDisk),
    disks[i]? = some entry → entry.exists_ = true →
      ∃ gp, entry.gd = some gp ∧ (drive gp).toNat = i

/-- The call comes to an entry of the table, or to none. -/
def InBounds (gp : Gendisk) (alloc : Bool) (bd : LinuxBlockAdapter) : Prop :=
  (drive gp).toNat < 16 ∨ (maxNr gp).toInt < (drive gp).toInt ∨
    bd.disks = none ∧ (gp.minors ≠ 16 ∨ alloc = false)

/-- The entries that are taken stay as they are. -/
def Keeps (bd bd' : LinuxBlockAdapter) : Prop :=
  ∀ disks, bd.disks = some disks → ∃ disks', bd'.disks = some disks' ∧
    ∀ (i : Nat) (entry : LinuxBlockDisk), disks[i]? = some entry → entry.exists_ = true →
      disks'[i]? = some entry

theorem Keeps.refl {bd bd' : LinuxBlockAdapter} (h : bd'.disks = bd.disks) : Keeps bd bd' := by
  intro disks hdisks
  exact ⟨disks, h.trans hdisks, fun _ _ he _ => he⟩

section Resetup

variable {gp : Gendisk} {alloc : Bool} {bd : LinuxBlockAdapter}

theorem entryAt_eq (h : gp.Proper) (disks : List LinuxBlockDisk) :
    entryAt disks (drive gp) = disks[(drive gp).toNat]? := by
  rw [entryAt, toInt_drive h, if_pos (Int.natCast_nonneg _), Int.toNat_natCast]

/-- `tableFor` finds the table, or makes one of 16 entries for 16 minors. -/
theorem tableFor_cases (h : gp.Proper) (hinv : Inv bd) :
    (tableFor gp alloc bd = none ∧ bd.disks = none ∧ (gp.minors ≠ 16 ∨ alloc = false)) ∨
      ∃ bd' disks, tableFor gp alloc bd = some (bd', disks) ∧ bd'.disks = some disks ∧ Inv bd' ∧
        Keeps bd bd' ∧ disks.length = 16 ∧
        ¬(bd.disks = none ∧ (gp.minors ≠ 16 ∨ alloc = false)) := by
  obtain ⟨⟨k, hk, hminors⟩, -⟩ := h
  have husable := maxNr_usable_iff hk gp hminors
  unfold tableFor
  cases hdisks : bd.disks with
  | some disks =>
    refine .inr ⟨bd, disks, rfl, hdisks, hinv, .refl rfl, (hinv.maxDisks disks hdisks).2, ?_⟩
    rintro ⟨hnone, -⟩
    exact absurd hnone nofun
  | none =>
    dsimp only
    by_cases hk4 : k = 4
    · subst hk4
      have hsixteen : gp.minors = 16 := hminors
      rw [if_neg (husable.mpr rfl)]
      cases alloc with
      | false => exact .inl ⟨rfl, rfl, .inr rfl⟩
      | true =>
        right
        have hmax := maxNr_sixteen hsixteen
        refine ⟨_, _, rfl, rfl, ⟨?_, ?_⟩, ?_, ?_, ?_⟩
        · intro disks hd
          obtain rfl := Option.some.inj hd
          rw [hmax]
          exact ⟨rfl, List.length_replicate⟩
        · intro disks hd i entry hentry hexists
          obtain rfl := Option.some.inj hd
          have hmem := List.mem_of_getElem? hentry
          rw [List.eq_of_mem_replicate hmem] at hexists
          exact absurd hexists nofun
        · intro disks hd
          rw [hdisks] at hd
          exact absurd hd nofun
        · rw [List.length_replicate, hmax]
          rfl
        · rintro ⟨-, hno | hno⟩
          · exact hno hsixteen
          · exact absurd hno nofun
    · have hbad : (maxNr gp).toInt ≤ 0 ∨ 256 < (maxNr gp).toInt := by
        by_contra hgood
        exact hk4 (husable.mp hgood)
      rw [if_pos hbad]
      refine .inl ⟨rfl, rfl, .inl ?_⟩
      intro hsixteen
      rw [maxNr_sixteen hsixteen] at hbad
      exact absurd hbad (by decide)

theorem Inv.congr {bd' : LinuxBlockAdapter} (hinv : Inv bd) (hdisks : bd'.disks = bd.disks)
    (hmax : bd'.maxDisks = bd.maxDisks) : Inv bd' := by
  constructor
  · intro disks hd
    rw [hmax]
    exact hinv.maxDisks disks (hdisks ▸ hd)
  · intro disks hd
    exact hinv.place disks (hdisks ▸ hd)

/-- The call takes a free entry. -/
theorem Inv.set {disks : List LinuxBlockDisk} {entry : LinuxBlockDisk} (hinv : Inv bd)
    (hdisks : bd.disks = some disks) (hgd : entry.gd = some gp) :
    Inv { bd with disks := some (disks.set (drive gp).toNat entry) } := by
  constructor
  · intro disks' hd
    obtain rfl := Option.some.inj hd
    rw [List.length_set]
    exact hinv.maxDisks disks hdisks
  · intro disks' hd i entry' hentry hexists
    obtain rfl := Option.some.inj hd
    rw [List.getElem?_set] at hentry
    split at hentry
    · rename_i hi
      split at hentry
      · obtain rfl := Option.some.inj hentry
        exact ⟨gp, hgd, hi⟩
      · exact absurd hentry nofun
    · exact hinv.place disks hdisks i entry' hentry hexists

theorem keeps_set {bd' : LinuxBlockAdapter} {disks : List LinuxBlockDisk} {i : Nat}
    {entry entry' : LinuxBlockDisk} (hkeeps : Keeps bd bd') (hdisks : bd'.disks = some disks)
    (hfree : disks[i]? = some entry) (hexists : ¬entry.exists_ = true) :
    Keeps bd { bd' with disks := some (disks.set i entry') } := by
  intro old hold
  obtain ⟨new, hnew, hsame⟩ := hkeeps old hold
  obtain rfl : new = disks := Option.some.inj (hnew.symm.trans hdisks)
  refine ⟨_, rfl, ?_⟩
  intro j taken hj htaken
  have hj' := hsame j taken hj htaken
  have hne : i ≠ j := by
    rintro rfl
    rw [hfree] at hj'
    exact hexists (Option.some.inj hj' ▸ htaken)
  rw [List.getElem?_set_ne hne]
  exact hj'

/-- A call within the bounds keeps the table and the entries in it; another one reaches outside of
    it. -/
theorem addDisk_cases (h : gp.Proper) (hinv : Inv bd) :
    (addDisk gp alloc bd = none ∧ ¬InBounds gp alloc bd) ∨
      ∃ bd', addDisk gp alloc bd = some bd' ∧ InBounds gp alloc bd ∧ Inv bd' ∧ Keeps bd bd' := by
  unfold addDisk
  generalize hbd : ({ bd with ops := _, minorShift := _ } : LinuxBlockAdapter) = start
  have hdisks : start.disks = bd.disks := by rw [← hbd]
  have hmax : start.maxDisks = bd.maxDisks := by rw [← hbd]
  have hinv := hinv.congr hdisks hmax
  unfold resetupOneDev
  by_cases hguard : (maxNr gp).toInt < (drive gp).toInt
  · rw [if_pos hguard]
    exact .inr ⟨start, rfl, .inr (.inl hguard), hinv, .refl hdisks⟩
  rw [if_neg hguard]
  rcases @tableFor_cases gp alloc start h hinv with
    ⟨htable, hnone, hno⟩ | ⟨bd', disks, htable, hdisks', hinv', hkeeps, hlength, hsome⟩
  · rw [htable]
    exact .inr ⟨start, rfl, .inr (.inr ⟨hdisks ▸ hnone, hno⟩), hinv, .refl hdisks⟩
  have hkeeps : Keeps bd bd' := by
    intro old hold
    exact hkeeps old (hdisks.trans hold)
  rw [htable]
  dsimp only
  rw [entryAt_eq h]
  cases hentry : disks[(drive gp).toNat]? with
  | none =>
    refine .inl ⟨rfl, ?_⟩
    have hle := List.getElem?_eq_none_iff.mp hentry
    rintro (hlt | hlt | hno)
    · omega
    · exact hguard hlt
    · exact hsome (hdisks ▸ hno)
  | some entry =>
    have hlt : (drive gp).toNat < 16 := by
      rw [← hlength]
      exact (List.getElem?_eq_some_iff.mp hentry).1
    dsimp only
    by_cases hexists : entry.exists_ = true
    · rw [if_pos hexists]
      exact .inr ⟨bd', rfl, .inl hlt, hinv', hkeeps⟩
    · rw [if_neg hexists, toInt_drive h, Int.toNat_natCast]
      refine .inr ⟨_, rfl, .inl hlt, ?_, keeps_set hkeeps hdisks' hentry hexists⟩
      exact @Inv.set gp bd' disks _ hinv' hdisks' rfl

end Resetup

theorem inv_initial : Inv {} := by
  constructor
  · intro disks hd
    exact absurd hd nofun
  · intro disks hd
    exact absurd hd nofun

theorem inv_of_reachable {bd : LinuxBlockAdapter} (h : Reachable step {} bd) : Inv bd := by
  refine Reach.invariant Inv inv_initial ?_ h
  intro bd call bd' hinv _ hstep
  unfold step at hstep
  split at hstep
  · rename_i hproper
    rcases @addDisk_cases call.1 call.2 bd hproper hinv with ⟨hnone, -⟩ | ⟨bd'', hsome, -, hinv', -⟩
    · rw [hnone] at hstep
      exact absurd hstep nofun
    · rw [hsome] at hstep
      exact Option.some.inj hstep ▸ hinv'
  · exact absurd hstep nofun

/-! ### Every sequence of calls -/

theorem disk_table_in_bounds (bd : LinuxBlockAdapter) (h : Reachable step {} bd) :
    (∀ disks, bd.disks = some disks → bd.maxDisks.toNat = disks.length) ∧
      (∀ (gp : Gendisk) (alloc : Bool), gp.Proper →
        (addDisk gp alloc bd ≠ none ↔ InBounds gp alloc bd)) ∧
      (∀ (gp : Gendisk) (alloc : Bool) (bd' : LinuxBlockAdapter), gp.Proper →
        addDisk gp alloc bd = some bd' → Keeps bd bd') ∧
      (∀ disks, bd.disks = some disks → ∀ (i : Nat) (entry : LinuxBlockDisk),
        disks[i]? = some entry → entry.exists_ = true →
          ∃ gp, entry.gd = some gp ∧ (drive gp).toNat = i) ∧
      ∀ gp gp' : Gendisk, gp.Proper → gp'.Proper → gp.minors = gp'.minors →
        (drive gp = drive gp' ↔
          gp.firstMinor.toNat / gp.minors.toNat = gp'.firstMinor.toNat / gp.minors.toNat) := by
  have hinv := inv_of_reachable h
  refine ⟨?_, ?_, ?_, hinv.place, ?_⟩
  · intro disks hdisks
    obtain ⟨hmax, hlength⟩ := hinv.maxDisks disks hdisks
    rw [hmax, hlength]
    rfl
  · intro gp alloc hproper
    rcases @addDisk_cases gp alloc bd hproper hinv with ⟨hnone, hout⟩ | ⟨bd', hsome, hin, -, -⟩
    · exact iff_of_false (not_not_intro hnone) hout
    · exact iff_of_true (hsome ▸ nofun) hin
  · intro gp alloc bd' hproper hadd
    rcases @addDisk_cases gp alloc bd hproper hinv with ⟨hnone, -⟩ | ⟨bd'', hsome, -, -, hkeeps⟩
    · rw [hnone] at hadd
      exact absurd hadd nofun
    · obtain rfl : bd' = bd'' := Option.some.inj (hadd.symm.trans hsome)
      exact hkeeps
  · intro gp gp' hproper hproper' hminors
    rw [← BitVec.toNat_inj, toNat_drive hproper, toNat_drive hproper', hminors]

def partitions (firstMinor : BitVec 32) : Gendisk := ⟨0, firstMinor, 16, 0⟩

/-- The table after a disk with 16 minors: minor 32 is of the third entry. -/
theorem disk_table_in_bounds_sixteen :
    ∃ bd, Reachable step {} bd ∧ bd.maxDisks = 16 ∧
      (addDisk (partitions 32) true bd ≠ none ↔ InBounds (partitions 32) true bd) := by
  have hrun : (runIf step (fun _ _ => true) [(partitions 0, true)] {}).map (·.maxDisks) =
      some 16 := by decide
  obtain ⟨bd, hreach, hmax⟩ := exists_reachable_of_run step _ _ _ _ hrun
  exact ⟨bd, hreach, hmax, (disk_table_in_bounds bd hreach).2.1 _ _ (by decide)⟩

/-- The disk of minor 256 comes to an entry behind the table, and the one of minor 17 to the entry
    of minor 16. -/
theorem drive_behind_table :
    ∃ bd, Reachable step {} bd ∧ (partitions 256).Proper ∧
      addDisk (partitions 256) true bd = none ∧ drive (partitions 16) = drive (partitions 17) := by
  have hrun : (runIf step (fun _ _ => true) [(partitions 0, true)] {}).map
      (addDisk (partitions 256) true) = some none := by decide
  obtain ⟨bd, hreach, hadd⟩ := exists_reachable_of_run step _ _ _ _ hrun
  exact ⟨bd, hreach, by decide, hadd, by decide⟩

end VmkLinux.Block.DiskTable
