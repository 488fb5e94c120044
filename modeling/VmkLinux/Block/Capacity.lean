/-
  VmkLinux/Block/Capacity.lean
  ============================
  **The capacity of a block device** (`vmklinux26/vmware/linux_block.c`): what
  `LinuxBlockGetCapacity` keeps of it, the check of reads and writes against that, and the answer
  of `LinuxBlockCompleteCapacity`.

  A `gendisk` counts its sectors in 64 bits, and all of these count in 32.  Below 2^32 sectors a
  command is rejected when it goes past the end of the disk, and only then, and the answer names
  the last sector; from there on the check is right for some commands, and the answer for no disk
  (`block_bounds`).
-/
import Mathlib.Algebra.Group.Nat.Defs
import VmkLinux.Block.Command

namespace VmkLinux.Block.Io

/-! ### READ CAPACITY -/

/-- `vmk_ScsiReadCapacityResponse`, with the numbers of its big-endian fields. -/
structure ReadCapacityResponse where
  lbn : BitVec 32
  blocksize : BitVec 32
deriving DecidableEq, Repr

/-- The response of `LinuxBlockCompleteCapacity`. -/
def readCapacityResponse (sectors : BitVec 32) : ReadCapacityResponse where
  lbn := if 0 < sectors then sectors - 1 else 0
  blocksize := 512

/-- The response to a READ CAPACITY on a disk: `LinuxBlockGetCapacity` has stored the capacity in
    an `uint32_t`. -/
def LinuxBlockDisk.response (disk : LinuxBlockDisk) : ReadCapacityResponse :=
  readCapacityResponse (disk.gdCapacity.setWidth 32)

/-- The states from `s₁` on, while the capacity of the disk does not change: commands are given to
    the disk, and completions and requests come and go. -/
inductive Since (dev : LinuxBlockAdapter) (s₁ : State) : State → Prop
  | now : Since dev s₁ s₁
  | command {s s' : State} {status : ReturnStatus} (answers : Answers) (cmd : ScsiCommand) :
      Since dev s₁ s → blockCommand answers dev cmd s = some (status, s') → Since dev s₁ s'
  | other {s s' : State} : Since dev s₁ s → s'.disk = s.disk → Since dev s₁ s'

/-! ### What commands do to the disk -/

section Disk

variable {answers : Answers} {dev : LinuxBlockAdapter} {cmd : ScsiCommand} {s s' s₁ : State}
  {status : ReturnStatus}

theorem disk_scheduleCompletion {host : HostStatus} {device : DeviceStatus}
    (h : scheduleCompletion answers cmd host device s = some s') : s'.disk = s.disk := by
  unfold scheduleCompletion at h
  split at h
  · exact absurd h nofun
  · obtain rfl := Option.some.inj h
    rfl

theorem disk_completed {host : HostStatus} {device : DeviceStatus}
    (h : (scheduleCompletion answers cmd host device s₁).map (fun s => (ReturnStatus.ok, s))
      = some (status, s')) : s'.disk = s₁.disk := by
  obtain ⟨s₂, hs₂, heq⟩ := Option.map_eq_some_iff.mp h
  obtain rfl := (Prod.mk.inj heq).2
  exact disk_scheduleCompletion hs₂

theorem disk_copyToSg (len : Nat) : (copyToSg answers len s).1.disk = s.disk := by
  unfold copyToSg
  split
  · rfl
  · rfl

theorem disk_inquiry : (inquiry answers cmd s).2.disk = s.disk := by
  unfold inquiry
  dsimp only
  split
  · split
    · exact disk_copyToSg 52
    · rfl
  · exact disk_copyToSg 36

theorem disk_issueCmd {sectorNumber numSectors : BitVec 32} {isRead : Bool}
    (h : issueCmd answers cmd sectorNumber numSectors isRead s = some (status, s')) :
    s'.disk = s.disk := by
  unfold issueCmd at h
  split at h
  · exact congrArg State.disk (Prod.mk.inj (Option.some.inj h)).2.symm
  split at h
  · exact disk_completed h
  repeat
    split at h
    · exact congrArg State.disk (Prod.mk.inj (Option.some.inj h)).2.symm
  rw [← (Prod.mk.inj (Option.some.inj h)).2]

/-- The disk after `LinuxBlockGetCapacity`. -/
def LinuxBlockDisk.cache (disk : LinuxBlockDisk) : LinuxBlockDisk :=
  { disk with capacity := disk.gdCapacity.setWidth 32, capacityValid := true }

theorem disk_readCapacity (hpresent : absent dev s.disk = false)
    (h : readCapacity answers dev cmd s = some (status, s')) : s'.disk = s.disk.cache := by
  rw [readCapacity, hpresent] at h
  exact (disk_completed h).trans (disk_copyToSg _)

/-- A command caches the capacity, or leaves the disk alone. -/
theorem disk_blockCommand (h : blockCommand answers dev cmd s = some (status, s')) :
    s'.disk = s.disk ∨ s'.disk = s.disk.cache := by
  unfold blockCommand at h
  dsimp only at h
  split at h
  · exact .inl (disk_completed h)
  next hpresent =>
  split at h
  · unfold readWrite at h
    split at h
    · exact .inl ((disk_completed h).trans rfl)
    · exact .inl (disk_issueCmd h)
  split at h
  · exact .inr (disk_readCapacity (Bool.eq_false_iff.mpr hpresent) h)
  split at h
  · exact .inl ((disk_completed h).trans disk_inquiry)
  split at h
  · exact .inl ((disk_completed h).trans (disk_copyToSg _))
  split at h
  · exact .inl (disk_completed h)
  split at h
  · exact .inl ((disk_completed h).trans rfl)
  · exact .inl ((disk_completed h).trans rfl)

/-- A READ CAPACITY that has returned has cached the capacity. -/
theorem cached_readCapacity (hpresent : absent dev s.disk = false)
    (hcmd : cmd.byte 0 = cmdReadCapacity)
    (h : blockCommand answers dev cmd s = some (status, s')) : s'.disk = s.disk.cache := by
  have hnot : isReadWrite cmd = false := by
    rw [isReadWrite, hcmd]
    decide
  rw [blockCommand, hpresent, hnot, if_neg Bool.false_ne_true, if_neg Bool.false_ne_true,
    if_pos hcmd] at h
  exact disk_readCapacity hpresent h

theorem disk_since (h : Since dev s₁ s) : s.disk = s₁.disk ∨ s.disk = s₁.disk.cache := by
  induction h with
  | now => exact .inl rfl
  | command answers cmd _ hcall ih =>
    rcases disk_blockCommand hcall with hsame | hcache
    · rwa [hsame]
    · right
      rcases ih with ih | ih
      · rw [hcache, ih]
      · rw [hcache, ih]
        rfl
  | other _ hdisk ih => rwa [hdisk]

end Disk

/-! ### Reads and writes -/

/-- The command has been rejected: a completion with CHECK CONDITION is scheduled. -/
def Rejected (s s' : State) : Prop :=
  (∃ llb, s'.linuxBHCompletionList = s.linuxBHCompletionList ++ [llb]) ∧
    s'.status = some (.ok, .checkCondition)

/-- All that `LinuxBlockIssueCmd` asks for is there. -/
def Answers.Given (answers : Answers) : Prop :=
  answers.buffer = true ∧ answers.bdev = true ∧ answers.bio = true ∧ answers.request = true ∧
    answers.queue = true

/-- The command is rejected when it goes past the last of `capacity` sectors, and only then; a
    request that it puts on the queue is for its sectors, and it does put one when it has sectors
    and is not rejected, where all that it takes is there. -/
def InBounds (capacity : Nat) (answers : Answers) (s s' : State) : Prop :=
  (Rejected s s' ↔ capacity < answers.blockOffset.toNat + answers.numBlocks.toNat) ∧
    (∀ req, s'.queueHead = req :: s.queueHead →
      req.sector.toNat = answers.blockOffset.toNat ∧
        req.nrSectors.toNat = answers.numBlocks.toNat) ∧
    (answers.Given → answers.numBlocks ≠ 0 → ¬Rejected s s' →
      ∃ req, s'.queueHead = req :: s.queueHead)

section ReadWrite

variable {answers : Answers} {dev : LinuxBlockAdapter} {cmd : ScsiCommand} {s s' : State}
  {status : ReturnStatus}

theorem rejected_of_pastEnd
    (h : (scheduleCompletion answers cmd .ok .checkCondition (illegalRequest true 1 s)).map
      (fun s => (ReturnStatus.ok, s)) = some (status, s')) :
    Rejected s s' ∧ s'.queueHead = s.queueHead := by
  obtain ⟨s₂, hs₂, heq⟩ := Option.map_eq_some_iff.mp h
  obtain rfl := (Prod.mk.inj heq).2
  unfold scheduleCompletion at hs₂
  split at hs₂
  · exact absurd hs₂ nofun
  · obtain rfl := Option.some.inj hs₂
    exact ⟨⟨⟨_, rfl⟩, rfl⟩, rfl⟩

theorem not_rejected_self : ¬Rejected s s := by
  rintro ⟨⟨llb, hllb⟩, -⟩
  exact absurd (congrArg List.length hllb) (by simp)

/-- `LinuxBlockIssueCmd` rejects nothing, and its request is for the sectors it was called for. -/
theorem issueCmd_spec {sectorNumber numSectors : BitVec 32} {isRead : Bool}
    (h : issueCmd answers cmd sectorNumber numSectors isRead s = some (status, s')) :
    ¬Rejected s s' ∧ ∀ req, s'.queueHead = req :: s.queueHead →
      req.sector.toNat = sectorNumber.toNat ∧ req.nrSectors.toNat = numSectors.toNat := by
  have hsame : ∀ {st}, some (st, s) = some (status, s') → ¬Rejected s s' ∧
      ∀ req, s'.queueHead = req :: s.queueHead →
        req.sector.toNat = sectorNumber.toNat ∧ req.nrSectors.toNat = numSectors.toNat := by
    intro st heq
    obtain rfl := (Prod.mk.inj (Option.some.inj heq)).2
    exact ⟨not_rejected_self, fun req hreq => absurd (congrArg List.length hreq) (by simp)⟩
  unfold issueCmd at h
  split at h
  · exact hsame h
  split at h
  · obtain ⟨s₂, hs₂, heq⟩ := Option.map_eq_some_iff.mp h
    obtain rfl := (Prod.mk.inj heq).2
    unfold scheduleCompletion at hs₂
    split at hs₂
    · exact absurd hs₂ nofun
    · obtain rfl := Option.some.inj hs₂
      refine ⟨fun hrejected => absurd hrejected.2 (by simp), ?_⟩
      intro req hreq
      exact absurd (congrArg List.length hreq) (by simp)
  repeat
    split at h
    · exact hsame h
  obtain rfl := (Prod.mk.inj (Option.some.inj h)).2
  constructor
  · rintro ⟨⟨llb, hllb⟩, -⟩
    exact absurd (congrArg List.length hllb) (by simp)
  · intro req hreq
    obtain rfl := (List.cons.inj hreq).1
    constructor
    · exact BitVec.toNat_setWidth_of_le (by decide)
    · exact BitVec.toNat_setWidth_of_le (by decide)

theorem issueCmd_queues {sectorNumber numSectors : BitVec 32} {isRead : Bool}
    (hgiven : answers.Given) (hsome : numSectors ≠ 0)
    (h : issueCmd answers cmd sectorNumber numSectors isRead s = some (status, s')) :
    ∃ req, s'.queueHead = req :: s.queueHead := by
  obtain ⟨hbuffer, hbdev, hbio, hrequest, hqueue⟩ := hgiven
  rw [issueCmd, hbuffer, hbdev, hbio, hrequest, hqueue, if_neg nofun, if_neg hsome, if_neg nofun,
    if_neg nofun, if_neg nofun, if_neg nofun] at h
  obtain rfl := (Prod.mk.inj (Option.some.inj h)).2
  exact ⟨_, rfl⟩

theorem pastEnd_iff (hcd : s.disk.cdrom = false) (hlba : answers.blockOffset.toNat < 2 ^ 32) :
    pastEnd answers s.disk = true
      ↔ s.disk.capacity.toNat < answers.blockOffset.toNat + answers.numBlocks.toNat := by
  have hblocks := answers.numBlocks.isLt
  have hsum : (answers.blockOffset + answers.numBlocks.setWidth 64).toNat
      = answers.blockOffset.toNat + answers.numBlocks.toNat := by
    rw [BitVec.toNat_add, BitVec.toNat_setWidth_of_le (by decide)]
    omega
  rw [pastEnd, hcd, Bool.not_false, Bool.and_true, decide_eq_true_eq, BitVec.lt_def, hsum,
    BitVec.toNat_setWidth_of_le (by decide)]

/-- The check is made with the low 32 bits of the capacity. -/
theorem inBounds_iff (hpresent : absent dev s.disk = false) (hrw : isReadWrite cmd = true)
    (hcd : s.disk.cdrom = false) (hcached : s.disk.capacity = s.disk.gdCapacity.setWidth 32)
    (hlba : answers.blockOffset.toNat < 2 ^ 32)
    (h : blockCommand answers dev cmd s = some (status, s')) :
    InBounds s.disk.gdCapacity.toNat answers s s' ↔
      s.disk.gdCapacity.toNat < 2 ^ 32 ∨
        answers.blockOffset.toNat + answers.numBlocks.toNat ≤ s.disk.gdCapacity.toNat % 2 ^ 32 ∨
        s.disk.gdCapacity.toNat < answers.blockOffset.toNat + answers.numBlocks.toNat := by
  have hcapacity : s.disk.capacity.toNat = s.disk.gdCapacity.toNat % 2 ^ 32 := by
    rw [hcached, BitVec.toNat_setWidth]
  have hend := pastEnd_iff hcd hlba
  rw [hcapacity] at hend
  rw [blockCommand, hpresent, hrw, if_neg Bool.false_ne_true, if_pos rfl, readWrite] at h
  unfold InBounds
  split at h
  · next hpast =>
    have hmore := hend.mp hpast
    obtain ⟨hrejected, hqueue⟩ := rejected_of_pastEnd h
    have hnone : ∀ req, s'.queueHead ≠ req :: s.queueHead := fun req hreq =>
      absurd (congrArg List.length (hqueue.symm.trans hreq)) (by simp)
    constructor
    · intro hright
      exact .inr (.inr (hright.1.mp hrejected))
    · intro hcond
      exact ⟨iff_of_true hrejected (by omega), fun req hreq => absurd hreq (hnone req),
        fun _ _ hnot => absurd hrejected hnot⟩
  · next hpast =>
    have hfits : answers.blockOffset.toNat + answers.numBlocks.toNat
        ≤ s.disk.gdCapacity.toNat % 2 ^ 32 := by
      rw [hend] at hpast
      omega
    have hinside : ¬s.disk.gdCapacity.toNat
        < answers.blockOffset.toNat + answers.numBlocks.toNat := by omega
    have hsector : (answers.blockOffset.setWidth 32).toNat = answers.blockOffset.toNat := by
      rw [BitVec.toNat_setWidth]
      omega
    obtain ⟨hnot, hrequest⟩ := issueCmd_spec h
    rw [hsector] at hrequest
    exact iff_of_true ⟨iff_of_false hnot hinside, hrequest,
      fun hgiven hsome _ => issueCmd_queues hgiven hsome h⟩ (.inr (.inl hfits))

end ReadWrite

/-- The answer of READ CAPACITY is the last sector, or the largest number where that is larger. -/
theorem response_iff {disk : LinuxBlockDisk} (hpos : 0 < disk.gdCapacity.toNat) :
    disk.response.lbn.toNat = min (disk.gdCapacity.toNat - 1) (2 ^ 32 - 1)
      ↔ disk.gdCapacity.toNat < 2 ^ 32 := by
  have hcut : (disk.gdCapacity.setWidth 32).toNat = disk.gdCapacity.toNat % 2 ^ 32 :=
    BitVec.toNat_setWidth ..
  have hone : (1 : BitVec 32).toNat = 1 := rfl
  have hzero : (0 : BitVec 32).toNat = 0 := rfl
  unfold LinuxBlockDisk.response readCapacityResponse
  dsimp only
  split
  · next hsectors =>
    rw [BitVec.lt_def, hzero, hcut] at hsectors
    rw [BitVec.toNat_sub, hcut, hone]
    omega
  · next hsectors =>
    rw [BitVec.lt_def, hzero, hcut] at hsectors
    rw [hzero]
    omega

/-- **Reads and writes are checked against the capacity, and READ CAPACITY tells it,** as far as
    32 bits go: from a READ CAPACITY on, with a capacity that does not change. -/
theorem block_bounds {answers₀ : Answers} {dev : LinuxBlockAdapter} {cmd₀ : ScsiCommand}
    {s₀ s₁ s : State} {status₀ : ReturnStatus} (hpresent : absent dev s₀.disk = false)
    (hcmd : cmd₀.byte 0 = cmdReadCapacity)
    (hdone : blockCommand answers₀ dev cmd₀ s₀ = some (status₀, s₁)) (hsince : Since dev s₁ s) :
    s.disk.gdCapacity = s₀.disk.gdCapacity ∧
    (0 < s.disk.gdCapacity.toNat →
      (s.disk.response.lbn.toNat = min (s.disk.gdCapacity.toNat - 1) (2 ^ 32 - 1)
        ↔ s.disk.gdCapacity.toNat < 2 ^ 32)) ∧
    ∀ answers cmd status s', isReadWrite cmd = true → s.disk.cdrom = false →
      answers.blockOffset.toNat < 2 ^ 32 →
      blockCommand answers dev cmd s = some (status, s') →
      (InBounds s.disk.gdCapacity.toNat answers s s' ↔
        s.disk.gdCapacity.toNat < 2 ^ 32 ∨
          answers.blockOffset.toNat + answers.numBlocks.toNat
            ≤ s.disk.gdCapacity.toNat % 2 ^ 32 ∨
          s.disk.gdCapacity.toNat
            < answers.blockOffset.toNat + answers.numBlocks.toNat) := by
  have hcache : s₁.disk = s₀.disk.cache := cached_readCapacity hpresent hcmd hdone
  have hdisk : s.disk = s₀.disk.cache := by
    rcases disk_since hsince with h | h
    · exact h.trans hcache
    · rw [h, hcache]
      rfl
  refine ⟨by rw [hdisk]; rfl, response_iff, ?_⟩
  intro answers cmd status s' hrw hcd hlba hcall
  have hcached : s.disk.capacity = s.disk.gdCapacity.setWidth 32 := by
    rw [hdisk]
    rfl
  have hthere : absent dev s.disk = false := by
    rw [hdisk]
    exact hpresent
  exact inBounds_iff hthere hrw hcd hcached hlba hcall

/-- A disk with its capacity, of which nothing is cached. -/
def freshDisk (gdCapacity : BitVec 64) : State where
  linuxBHCompletionList := []
  queueHead := []
  disk := { exists_ := true, cdrom := false, capacityValid := false, capacity := 0,
            targetId := 0, gdCapacity := gdCapacity }
  status := none
  senseData := none
  bytesXferred := 0

/-- Everything is there; `blockOffset` and `numBlocks` are those of the command. -/
def allGiven (blockOffset : BitVec 64) (numBlocks : BitVec 32) : Answers where
  buffer := true
  bio := true
  request := true
  completion := true
  bdev := true
  queue := true
  copyToSg := true
  sgDataLen := 512
  blockOffset := blockOffset
  numBlocks := numBlocks

/-- A READ CAPACITY on such a disk. -/
def askCapacity (gdCapacity : BitVec 64) : Option (ReturnStatus × State) :=
  blockCommand (allGiven 0 0) ⟨1⟩ ⟨0, [cmdReadCapacity], [⟨0, 512⟩]⟩ (freshDisk gdCapacity)

/-- A READ10 of one sector. -/
def readSector (sector : BitVec 64) (s : State) : Option (ReturnStatus × State) :=
  blockCommand (allGiven sector 1) ⟨1⟩ ⟨1, [cmdRead10], [⟨0x1000, 512⟩]⟩ s

/-- The last of 100 sectors is read, and the answer is 99. -/
theorem block_bounds_hundred :
    ∃ s₁ s₂, askCapacity 100 = some (.ok, s₁) ∧ readSector 99 s₁ = some (.ok, s₂) ∧
      s₁.disk.response.lbn.toNat = 99 ∧ InBounds 100 (allGiven 99 1) s₁ s₂ := by
  have hdone : askCapacity 100 = some (.ok, _) := rfl
  obtain ⟨-, hresponse, hcalls⟩ := block_bounds (by decide) (by decide) hdone .now
  refine ⟨_, _, hdone, rfl, (hresponse (by decide)).mpr (by decide), ?_⟩
  exact (hcalls (allGiven 99 1) ⟨1, [cmdRead10], [⟨0x1000, 512⟩]⟩ .ok _ (by decide) rfl
    (by decide) rfl).mpr (.inl (by decide))

/-- A disk of eight sectors more than 2^32: READ CAPACITY names sector 7 as the last, and a read
    of sector 8, which the disk has, is rejected. -/
theorem large_disk_cut_off :
    ∃ s₁ s₂, askCapacity 0x100000008 = some (.ok, s₁) ∧ readSector 8 s₁ = some (.ok, s₂) ∧
      s₁.disk.response.lbn = 7 ∧ Rejected s₁ s₂ ∧
      ¬InBounds 0x100000008 (allGiven 8 1) s₁ s₂ := by
  have hrejected : ∀ s₁ s₂, askCapacity 0x100000008 = some (.ok, s₁) →
      readSector 8 s₁ = some (.ok, s₂) → Rejected s₁ s₂ := by
    intro s₁ s₂ h₁ h₂
    obtain rfl := (Prod.mk.inj (Option.some.inj h₁)).2
    obtain rfl := (Prod.mk.inj (Option.some.inj h₂)).2
    exact ⟨⟨_, rfl⟩, rfl⟩
  refine ⟨_, _, rfl, rfl, by decide, hrejected _ _ rfl rfl, ?_⟩
  intro hbounds
  exact absurd (hbounds.1.mp (hrejected _ _ rfl rfl)) (by decide)

end VmkLinux.Block.Io
