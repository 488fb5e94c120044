/-
  VmkLinux/Block/Command.lean
  ===========================
  **SCSI commands on a block device** (`vmklinux26/vmware/linux_block.c`): `LinuxBlockCommand`,
  `LinuxBlockIssueCmd` and `LinuxBlockScheduleCompletion`, with what they call on the way.

  A command is answered by a completion on `linuxBHCompletionList`, by a request on the queue of
  the device, or by a status other than `VMK_OK`.  What the allocators, the device lookups and
  the vmkernel answer are arguments of a call (`Answers`).

  Where the device has no queue, `LinuxBlockIssueCmd` frees everything and returns `VMK_OK`
  (`command_lost`).
-/
import VmkLinux.Block.Bio

namespace VmkLinux.Block.Io

/-! ### Data -/

inductive ReturnStatus where
  | ok
  | badParam
  | notFound
  | noMemory
deriving DecidableEq, Repr

inductive HostStatus where
  | ok
  | noConnect
  | error
deriving DecidableEq, Repr

inductive DeviceStatus where
  | good
  | checkCondition
  | busy
deriving DecidableEq, Repr

/-- `vmk_ScsiCommand`, by its number, with what the upper layer has filled in. -/
structure ScsiCommand where
  id : Nat
  cdb : List (BitVec 8)
  sgArray : List SgElem
deriving DecidableEq, Repr

def ScsiCommand.byte (cmd : ScsiCommand) (i : Nat) : BitVec 8 := cmd.cdb.getD i 0

/-- `LinuxBlockDisk`; `gdCapacity` is `gd->capacity`. -/
structure LinuxBlockDisk where
  exists_ : Bool
  cdrom : Bool
  capacityValid : Bool
  capacity : BitVec 32
  targetId : BitVec 32
  gdCapacity : BitVec 64
deriving DecidableEq, Repr

/-- `LinuxBlockAdapter`. -/
structure LinuxBlockAdapter where
  maxDisks : BitVec 32
deriving DecidableEq, Repr

/-- The sense data of `LinuxBlockIllegalRequest` and `LinuxBlockInvalidOpcode`. -/
structure SenseData where
  isCommand : Bool
  epos : Nat
deriving DecidableEq, Repr

structure State where
  linuxBHCompletionList : List LinuxBlockBuffer
  queueHead : List Request
  disk : LinuxBlockDisk
  /-- `cmd->status`, `cmd->senseData` and `cmd->bytesXferred`. -/
  status : Option (HostStatus × DeviceStatus)
  senseData : Option SenseData
  bytesXferred : Nat
deriving DecidableEq, Repr

/-- What the surroundings answer: the allocations of the `LinuxBlockBuffer`, the bio and the
    request, those of a completion, `bdget`, `bdev_get_queue`, `vmk_CopyToSg`,
    `vmk_GetSgDataLen`, and the block number and count of `vmk_ScsiGetLbaLbc`. -/
structure Answers where
  buffer : Bool
  bio : Bool
  request : Bool
  completion : Bool
  bdev : Bool
  queue : Bool
  copyToSg : Bool
  sgDataLen : Nat
  blockOffset : BitVec 64
  numBlocks : BitVec 32
deriving DecidableEq, Repr

/-! ### Completions -/

/-- `LinuxBlockScheduleCompletion`; without memory it does not return (`vmk_Panic`). -/
def scheduleCompletion (answers : Answers) (cmd : ScsiCommand) (host : HostStatus)
    (device : DeviceStatus) (s : State) : Option State :=
  if answers.completion = false then none
  else
    some
      { s with
        status := some (host, device)
        linuxBHCompletionList := s.linuxBHCompletionList ++
          [{ cmd := cmd.id, lastOne := true, spccmd := .specialIo }] }

/-- `LinuxBlockIllegalRequest`. -/
def illegalRequest (isCommand : Bool) (byteOffset : Nat) (s : State) : State :=
  { s with senseData := some ⟨isCommand, byteOffset⟩ }

/-- `LinuxBlockInvalidOpcode`. -/
def invalidOpcode (isCommand : Bool) (s : State) : State :=
  { s with senseData := some ⟨isCommand, 0⟩ }

/-- `vmk_CopyToSg` of a response of `len` bytes, and whether it was copied. -/
def copyToSg (answers : Answers) (len : Nat) (s : State) : State × Bool :=
  if answers.copyToSg then ({ s with bytesXferred := len }, true) else (s, false)

/-- `LinuxBlockCompleteCapacity`; the response has 8 bytes. -/
def completeCapacity (answers : Answers) (cmd : ScsiCommand) (s : State) : Option State :=
  let copied := copyToSg answers (min 8 answers.sgDataLen) s
  scheduleCompletion answers cmd (if copied.2 then .ok else .error) .good copied.1

/-! ### `LinuxBlockIssueCmd` -/

/-- The request of a read or write. -/
def makeRequest (cmd : ScsiCommand) (sectorNumber numSectors : BitVec 32) (isRead : Bool) :
    Request :=
  let bio := buildBio cmd.sgArray ⟨cmd.id, true, .normalIo⟩ sectorNumber isRead
  { bios := [bio]
    sector := sectorNumber.setWidth 64
    nrSectors := numSectors.setWidth 64
    currentNrSectors := ((bio.biIoVec.getD 0 {}).bvLen) >>> 9
    nrPhysSegments := bio.biPhysSegments
    nrHwSegments := bio.biHwSegments
    errors := 0
    isRead := isRead }

/-- `LinuxBlockIssueCmd`. -/
def issueCmd (answers : Answers) (cmd : ScsiCommand) (sectorNumber numSectors : BitVec 32)
    (isRead : Bool) (s : State) : Option (ReturnStatus × State) :=
  if answers.buffer = false then some (.noMemory, s)
  else if numSectors = 0 then
    (scheduleCompletion answers cmd .ok .good s).map fun s' => (.ok, s')
  else if answers.bdev = false then some (.notFound, s)
  else if answers.bio = false then some (.noMemory, s)
  else if answers.request = false then some (.noMemory, s)
  -- the label `error_all`, with the status that was set at the start
  else if answers.queue = false then some (.ok, s)
  else
    let creq := makeRequest cmd sectorNumber numSectors isRead
    some (.ok, { s with queueHead := creq :: s.queueHead })

/-! ### `LinuxBlockCommand` -/

def cmdTestUnitReady : BitVec 8 := 0x00
def cmdRequestSense : BitVec 8 := 0x03
def cmdFormatUnit : BitVec 8 := 0x04
def cmdRead6 : BitVec 8 := 0x08
def cmdWrite6 : BitVec 8 := 0x0a
def cmdInquiry : BitVec 8 := 0x12
def cmdReserveUnit : BitVec 8 := 0x16
def cmdReleaseUnit : BitVec 8 := 0x17
def cmdModeSense : BitVec 8 := 0x1a
def cmdStartUnit : BitVec 8 := 0x1b
def cmdReadCapacity : BitVec 8 := 0x25
def cmdRead10 : BitVec 8 := 0x28
def cmdWrite10 : BitVec 8 := 0x2a
def cmdVerify : BitVec 8 := 0x2f
def cmdSyncCache : BitVec 8 := 0x35
/-- `LINUX_BLOCK_EVPD_PAGE_CODE`. -/
def evpdPageCode : BitVec 8 := 0xc0

/-- The target is out of range, or not there. -/
def absent (dev : LinuxBlockAdapter) (disk : LinuxBlockDisk) : Bool :=
  decide (dev.maxDisks ≤ disk.targetId) || !disk.exists_

/-- The blocks end behind the disk. -/
def pastEnd (answers : Answers) (disk : LinuxBlockDisk) : Bool :=
  decide (disk.capacity.setWidth 64 < answers.blockOffset + answers.numBlocks.setWidth 64) &&
    !disk.cdrom

/-- The answer to a read or write. -/
def readWrite (answers : Answers) (cmd : ScsiCommand) (s : State) :
    Option (ReturnStatus × State) :=
  if pastEnd answers s.disk then
    (scheduleCompletion answers cmd .ok .checkCondition (illegalRequest true 1 s)).map
      fun s' => (.ok, s')
  else
    issueCmd answers cmd (answers.blockOffset.setWidth 32) answers.numBlocks
      (decide (cmd.byte 0 = cmdRead10 ∨ cmd.byte 0 = cmdRead6)) s

/-- The answer to `VMK_SCSI_CMD_READ_CAPACITY`, with `LinuxBlockGetCapacity`. -/
def readCapacity (answers : Answers) (dev : LinuxBlockAdapter) (cmd : ScsiCommand) (s : State) :
    Option (ReturnStatus × State) :=
  if absent dev s.disk then
    (scheduleCompletion answers cmd .error .good s).map fun s' => (.ok, s')
  else
    let disk := { s.disk with capacity := s.disk.gdCapacity.setWidth 32, capacityValid := true }
    (completeCapacity answers cmd { s with disk := disk }).map fun s' => (.ok, s')

/-- The answer to `VMK_SCSI_CMD_INQUIRY`: host and device status, and the state.  The response
    of `LinuxBlockEVPDPageC0Command` has 52 bytes, that of a standard inquiry 36. -/
def inquiry (answers : Answers) (cmd : ScsiCommand) (s : State) :
    (HostStatus × DeviceStatus) × State :=
  let evpd := (cmd.byte 1).getLsbD 0
  let cmddt := (cmd.byte 1).getLsbD 1
  if evpd || cmddt then
    if evpd && decide (cmd.byte 2 = evpdPageCode) then
      let copied := copyToSg answers 52 s
      ((.ok, if copied.2 then .good else .busy), copied.1)
    else ((.ok, .checkCondition), illegalRequest true 1 s)
  else
    let copied := copyToSg answers 36 s
    ((if copied.2 then .ok else .error, .good), copied.1)

/-- The answer to `VMK_SCSI_CMD_REQUEST_SENSE`; the response has 64 bytes. -/
def requestSense (answers : Answers) (s : State) : HostStatus × State :=
  let copied := copyToSg answers (min 64 answers.sgDataLen) s
  (if copied.2 then .ok else .error, copied.1)

def isReadWrite (cmd : ScsiCommand) : Bool :=
  decide (cmd.byte 0 = cmdRead10 ∨ cmd.byte 0 = cmdWrite10 ∨ cmd.byte 0 = cmdRead6 ∨
    cmd.byte 0 = cmdWrite6)

/-- `LinuxBlockCommand`: the status that it returns and the state, `none` if it does not return. -/
def blockCommand (answers : Answers) (dev : LinuxBlockAdapter) (cmd : ScsiCommand) (s : State) :
    Option (ReturnStatus × State) :=
  let complete (host : HostStatus) (device : DeviceStatus) (s : State) :=
    (scheduleCompletion answers cmd host device s).map fun s' => (ReturnStatus.ok, s')
  let opcode := cmd.byte 0
  if absent dev s.disk then complete .noConnect .good s
  else if isReadWrite cmd then readWrite answers cmd s
  else if opcode = cmdReadCapacity then readCapacity answers dev cmd s
  else if opcode = cmdInquiry then
    let answer := inquiry answers cmd s
    complete answer.1.1 answer.1.2 answer.2
  else if opcode = cmdRequestSense then
    let answer := requestSense answers s
    complete answer.1 .good answer.2
  else if opcode = cmdReserveUnit ∨ opcode = cmdReleaseUnit ∨ opcode = cmdFormatUnit ∨
      opcode = cmdVerify ∨ opcode = cmdSyncCache ∨ opcode = cmdTestUnitReady ∨
      opcode = cmdStartUnit then complete .ok .good s
  else if opcode = cmdModeSense then complete .ok .checkCondition (illegalRequest true 2 s)
  -- the opcodes for which no message is logged, and all others
  else complete .ok .checkCondition (invalidOpcode true s)

/-! ### Answers -/

/-- One completion of the command was scheduled, and no request added. -/
def Completed (cmd : ScsiCommand) (s s' : State) : Prop :=
  (∃ llb : LinuxBlockBuffer, llb.cmd = cmd.id ∧
    s'.linuxBHCompletionList = s.linuxBHCompletionList ++ [llb]) ∧
  s'.queueHead = s.queueHead

/-- One request whose bio names the command was added, and no completion scheduled. -/
def Queued (cmd : ScsiCommand) (s s' : State) : Prop :=
  (∃ req : Request, (∀ bio ∈ req.bios, bio.biPrivate.cmd = cmd.id) ∧ req.bios ≠ [] ∧
    s'.queueHead = req :: s.queueHead) ∧
  s'.linuxBHCompletionList = s.linuxBHCompletionList

/-- Neither list was touched. -/
def Untouched (s s' : State) : Prop :=
  s'.linuxBHCompletionList = s.linuxBHCompletionList ∧ s'.queueHead = s.queueHead

/-- The command is refused, and nothing was done for it, or it is answered once. -/
def Answered (cmd : ScsiCommand) (s : State) : Option (ReturnStatus × State) → Prop
  | none => False
  | some (status, s') =>
      (status ≠ .ok ∧ Untouched s s') ∨ (status = .ok ∧ (Completed cmd s s' ∨ Queued cmd s s'))

/-- The command goes to `LinuxBlockIssueCmd`. -/
def issues (answers : Answers) (dev : LinuxBlockAdapter) (cmd : ScsiCommand) (s : State) : Bool :=
  !absent dev s.disk && isReadWrite cmd && !pastEnd answers s.disk

/-- `LinuxBlockIssueCmd` gets to the queue of the device, and there is none. -/
def noQueue (answers : Answers) : Bool :=
  answers.buffer && decide (answers.numBlocks ≠ 0) && answers.bdev && answers.bio &&
    answers.request && !answers.queue

/-- The command is answered by a completion. -/
def completes (answers : Answers) (dev : LinuxBlockAdapter) (cmd : ScsiCommand) (s : State) :
    Bool :=
  !issues answers dev cmd s || answers.buffer && decide (answers.numBlocks = 0)

section Command

variable {answers : Answers} {dev : LinuxBlockAdapter} {cmd : ScsiCommand} {s s₁ : State}

theorem untouched_copyToSg (len : Nat) : Untouched s (copyToSg answers len s).1 := by
  unfold copyToSg
  split
  · exact ⟨rfl, rfl⟩
  · exact ⟨rfl, rfl⟩

theorem untouched_inquiry : Untouched s (inquiry answers cmd s).2 := by
  unfold inquiry
  dsimp only
  split
  · split
    · exact untouched_copyToSg 52
    · exact ⟨rfl, rfl⟩
  · exact untouched_copyToSg 36

/-- Up to the completion the answer may have changed anything but the lists. -/
theorem answered_completion (host : HostStatus) (device : DeviceStatus) (h : Untouched s s₁) :
    Answered cmd s ((scheduleCompletion answers cmd host device s₁).map
      fun s' => (ReturnStatus.ok, s')) ↔ answers.completion = true := by
  unfold scheduleCompletion
  cases hmem : answers.completion with
  | false =>
    rw [if_pos rfl]
    exact ⟨fun hno => hno.elim, fun hno => Bool.noConfusion hno⟩
  | true =>
    rw [if_neg Bool.noConfusion]
    have hadded : s₁.linuxBHCompletionList ++ [⟨cmd.id, true, .specialIo⟩] =
        s.linuxBHCompletionList ++ [⟨cmd.id, true, .specialIo⟩] := congrArg (· ++ _) h.1
    exact ⟨fun _ => rfl, fun _ => Or.inr ⟨rfl, Or.inl ⟨⟨_, rfl, hadded⟩, h.2⟩⟩⟩

/-- A bio that is built for a command names it. -/
theorem queued_makeRequest (sectorNumber numSectors : BitVec 32) (isRead : Bool) :
    Queued cmd s
      { s with queueHead := makeRequest cmd sectorNumber numSectors isRead :: s.queueHead } := by
  refine ⟨⟨_, ?_, List.cons_ne_nil _ _, rfl⟩, rfl⟩
  intro bio hbio
  rw [List.mem_singleton.mp hbio, buildBio, foldl_biPrivate]

theorem answered_issueCmd (sectorNumber : BitVec 32) (isRead : Bool) :
    Answered cmd s (issueCmd answers cmd sectorNumber answers.numBlocks isRead s) ↔
      noQueue answers = false ∧
        (answers.buffer = true ∧ answers.numBlocks = 0 → answers.completion = true) := by
  have hrefused : ∀ status, status ≠ ReturnStatus.ok → Answered cmd s (some (status, s)) :=
    fun status hne => Or.inl ⟨hne, rfl, rfl⟩
  unfold issueCmd noQueue
  cases hbuffer : answers.buffer with
  | false => simp [hrefused]
  | true =>
    by_cases hzero : answers.numBlocks = 0#32
    · have hcompletion : Answered cmd s ((scheduleCompletion answers cmd .ok .good s).map
          fun s' => (ReturnStatus.ok, s')) ↔ answers.completion = true :=
        answered_completion .ok .good ⟨rfl, rfl⟩
      simp [hzero, hcompletion]
    · cases hbdev : answers.bdev with
      | false => simp [hzero, hrefused]
      | true =>
        cases hbio : answers.bio with
        | false => simp [hzero, hrefused]
        | true =>
          cases hrequest : answers.request with
          | false => simp [hzero, hrefused]
          | true =>
            cases hqueue : answers.queue with
            | false => simp [hzero, Answered, Completed, Queued]
            | true =>
              have hqueued : Queued cmd s _ :=
                queued_makeRequest sectorNumber answers.numBlocks isRead
              simp [hzero, Answered, hqueued]

/-- A command other than a read or write within the disk is answered by a completion. -/
theorem answered_blockCommand_of_not_issues (h : issues answers dev cmd s = false) :
    Answered cmd s (blockCommand answers dev cmd s) ↔ answers.completion = true := by
  have hdone : ∀ host device s₁, Untouched s s₁ →
      (Answered cmd s ((scheduleCompletion answers cmd host device s₁).map
        fun s' => (ReturnStatus.ok, s')) ↔ answers.completion = true) :=
    fun host device s₁ hs => answered_completion host device hs
  have hsame : Untouched s s := ⟨rfl, rfl⟩
  have hsense : ∀ isCommand byteOffset, Untouched s (illegalRequest isCommand byteOffset s) :=
    fun _ _ => ⟨rfl, rfl⟩
  unfold blockCommand
  dsimp only
  split
  · exact hdone _ _ s hsame
  rename_i hpresent
  split
  · rename_i hrw
    have hend : pastEnd answers s.disk = true := by simpa [issues, hpresent, hrw] using h
    rw [readWrite, if_pos hend]
    exact hdone _ _ _ (hsense true 1)
  split
  · rw [readCapacity, if_neg hpresent]
    exact hdone _ _ _ (untouched_copyToSg (s := { s with disk := _ }) (min 8 answers.sgDataLen))
  split
  · exact hdone _ _ _ untouched_inquiry
  split
  · exact hdone _ _ _ (untouched_copyToSg (min 64 answers.sgDataLen))
  split
  · exact hdone _ _ s hsame
  split
  · exact hdone _ _ _ (hsense true 2)
  · exact hdone _ _ _ ⟨rfl, rfl⟩

theorem blockCommand_of_issues (h : issues answers dev cmd s = true) :
    ∃ (sectorNumber : BitVec 32) (isRead : Bool), blockCommand answers dev cmd s =
      issueCmd answers cmd sectorNumber answers.numBlocks isRead s := by
  simp only [issues, Bool.and_eq_true, Bool.not_eq_true'] at h
  obtain ⟨⟨hpresent, hrw⟩, hend⟩ := h
  refine ⟨answers.blockOffset.setWidth 32,
    decide (cmd.byte 0 = cmdRead10 ∨ cmd.byte 0 = cmdRead6), ?_⟩
  rw [blockCommand, hpresent, hrw, readWrite, hend]
  rfl

end Command

theorem command_answered (answers : Answers) (dev : LinuxBlockAdapter) (cmd : ScsiCommand)
    (s : State) : Answered cmd s (blockCommand answers dev cmd s) ↔
      (issues answers dev cmd s && noQueue answers) = false ∧
        (completes answers dev cmd s = true → answers.completion = true) := by
  cases h : issues answers dev cmd s with
  | false => simp [completes, h, answered_blockCommand_of_not_issues h]
  | true =>
    obtain ⟨sectorNumber, isRead, heq⟩ := blockCommand_of_issues h
    rw [heq, answered_issueCmd sectorNumber isRead]
    simp [completes, h]

/-- A read of one block of a disk whose queue is gone: `VMK_OK`, and nothing is done. -/
theorem command_lost :
    ¬ ∀ answers dev cmd s, Answered cmd s (blockCommand answers dev cmd s) := by
  intro hall
  have hlost := hall
    { buffer := true, bio := true, request := true, completion := true, bdev := true,
      queue := false, copyToSg := true, sgDataLen := 512, blockOffset := 0, numBlocks := 1 }
    { maxDisks := 1 } { id := 0, cdb := [cmdRead10], sgArray := [⟨0, 512⟩] }
    { linuxBHCompletionList := [], queueHead := [],
      disk := { exists_ := true, cdrom := false, capacityValid := true, capacity := 100,
                targetId := 0, gdCapacity := 100 },
      status := none, senseData := none, bytesXferred := 0 }
  rcases hlost with ⟨hne, -⟩ | ⟨-, hone | hone⟩
  · exact hne rfl
  · obtain ⟨⟨llb, -, hadded⟩, -⟩ := hone
    exact List.cons_ne_nil _ _ hadded.symm
  · obtain ⟨⟨req, -, -, hadded⟩, -⟩ := hone
    exact List.cons_ne_nil _ _ hadded.symm

end VmkLinux.Block.Io
