/-
  VmkLinux/Scsi/Transfer.lean
  ===========================
  **What a finished command reports** (`vmklinux26/vmware/linux_scsi.c`): the underrun check of
  `SCSILinuxCmdDone` and the mapping of `SCSILinuxBH` from the driver's `result` and `resid` to
  a host status, a device status and a number of bytes.

  `int` and `unsigned` are both 32 bits here, so a difference of the two wraps around.  The
  flags that decide whether `SCSILinuxCmdDone` gets this far, and the lists between the two
  functions, are modelled with the commands' life cycle.

  The underrun check looks at a `result` of `DID_OK` only, while the mapping drops the suggestion
  and message bits: a result that has only such bits is reported as success unchecked
  (`short_transfer_reported_good`).
-/
import Mathlib.Algebra.Group.Int.Defs
import Mathlib.Algebra.Group.Nat.Defs
import Mathlib.Data.Int.Basic

namespace VmkLinux.Scsi.Transfer

/-! ### Data -/

/-- The fields of a `struct scsi_cmnd` that decide what is reported. -/
structure Scmnd where
  result : BitVec 32
  resid : BitVec 32
  requestBufflen : BitVec 32
  underflow : BitVec 32
deriving DecidableEq, Repr

/-- What the vmkernel's command is completed with. -/
structure Report where
  host : BitVec 32
  device : BitVec 32
  bytesXferred : BitVec 32
deriving DecidableEq, Repr

def didOk : BitVec 32 := 0x00
def didError : BitVec 32 := 0x07

def driverOk : BitVec 32 := 0x00
def driverBusy : BitVec 32 := 0x01
def driverSoft : BitVec 32 := 0x02
def driverMedia : BitVec 32 := 0x03
def driverError : BitVec 32 := 0x04
def driverInvalid : BitVec 32 := 0x05
def driverTimeout : BitVec 32 := 0x06
def driverHard : BitVec 32 := 0x07
def hostOk : BitVec 32 := 0x00
def hostTimeout : BitVec 32 := 0x03
def hostError : BitVec 32 := 0x07

def deviceGood : BitVec 32 := 0x00
def deviceBusy : BitVec 32 := 0x08

/-! ### `SCSILinuxCmdDone` -/

/-- The check of `SCSILinuxCmdDone`: a success with a negative residual, or with fewer bytes
    than `underflow`, is made an error. -/
def cmdDone (scmd : Scmnd) : Scmnd :=
  if scmd.result = didOk then
    if scmd.resid.slt 0 then { scmd with result := didError <<< 16 }
    else if scmd.requestBufflen - scmd.resid < scmd.underflow then
      { scmd with result := didError <<< 16 }
    else scmd
  else scmd

/-! ### `SCSILinuxBH` -/

/-- `VMKLNX_SCSI_STATUS_NO_SUGGEST`. -/
def noSuggest (status : BitVec 32) : BitVec 32 := status &&& 0x0fffffff

/-- `driver_byte`. -/
def driverByte (result : BitVec 32) : BitVec 32 := (result >>> 24) &&& 0xff

/-- `VMKLNX_SCSI_HOST_STATUS`. -/
def hostStatus (status : BitVec 32) : BitVec 32 := (status >>> 16) &&& 0xff

/-- `VMKLNX_SCSI_DEVICE_STATUS`. -/
def deviceStatus (status : BitVec 32) : BitVec 32 := status &&& 0xff

/-- The `switch` of `SCSILinuxBH`: host and device status. -/
def mapStatus (result : BitVec 32) : BitVec 32 × BitVec 32 :=
  let driver := driverByte (noSuggest result)
  if driver = driverOk then (hostStatus result, deviceStatus result)
  else if driver = driverBusy ∨ driver = driverSoft then (hostOk, deviceBusy)
  else if driver = driverMedia ∨ driver = driverError ∨ driver = driverHard ∨
      driver = driverInvalid then (hostError, deviceGood)
  else if driver = driverTimeout then (hostTimeout, deviceGood)
  -- `DRIVER_SENSE` and an unknown code differ in an assertion and a warning only
  else (hostStatus result, deviceStatus result)

/-- What `SCSILinuxBH` completes an ordinary command with. -/
def bh (scmd : Scmnd) : Report :=
  let status := mapStatus scmd.result
  let bytesXferred := scmd.requestBufflen - scmd.resid
  if scmd.requestBufflen < bytesXferred then
    if status.1 ≠ hostOk ∨ status.2 ≠ deviceGood then ⟨status.1, status.2, 0⟩
    else ⟨hostError, deviceGood, 0⟩
  else ⟨status.1, status.2, bytesXferred⟩

/-- `SCSILinuxCmdDone`, then `SCSILinuxBH`. -/
def report (scmd : Scmnd) : Report := bh (cmdDone scmd)

/-! ### What a report may say -/

def Report.success (r : Report) : Prop := r.host = hostOk ∧ r.device = deviceGood

instance (r : Report) : Decidable r.success := inferInstanceAs (Decidable (_ ∧ _))

/-- The length of the transfer, without wrap-around. -/
def Scmnd.transferred (scmd : Scmnd) : Int := scmd.requestBufflen.toNat - scmd.resid.toInt

/-- A report of success is of a transfer that was long enough, and no report is of more bytes
    than were asked for. -/
structure Faithful (scmd : Scmnd) (r : Report) : Prop where
  success : r.success →
    scmd.underflow ≤ r.bytesXferred ∧ r.bytesXferred ≤ scmd.requestBufflen ∧
      (r.bytesXferred.toNat : Int) = scmd.transferred
  bounded : r.bytesXferred ≤ scmd.requestBufflen

/-- The driver's result is reported as a success although it is not `DID_OK`. -/
def Scmnd.looksGood (scmd : Scmnd) : Prop :=
  scmd.result ≠ didOk ∧ mapStatus scmd.result = (hostOk, deviceGood)

instance (scmd : Scmnd) : Decidable scmd.looksGood := inferInstanceAs (Decidable (_ ∧ _))

/-- The transfer is shorter than `underflow`, or its length passes 32 bits. -/
def Scmnd.unsound (scmd : Scmnd) : Prop :=
  (0 ≤ scmd.transferred ∧ 0 ≤ scmd.resid.toInt ∧ scmd.transferred < scmd.underflow.toNat) ∨
    2 ^ 32 ≤ scmd.transferred

instance (scmd : Scmnd) : Decidable scmd.unsound := inferInstanceAs (Decidable (_ ∨ _))

section Lengths

variable (scmd : Scmnd)

/-- The difference of the two lengths is the transfer's length up to 32 bits. -/
theorem toNat_bytes :
    ((scmd.requestBufflen - scmd.resid).toNat : Int) = scmd.transferred % 2 ^ 32 := by
  have hlt := scmd.resid.isLt
  rw [Scmnd.transferred, BitVec.toNat_sub, BitVec.toInt_eq_toNat_cond]
  split
  all_goals omega

/-- Which transfers the last check of `SCSILinuxBH` lets pass. -/
theorem bytes_le_iff :
    scmd.requestBufflen - scmd.resid ≤ scmd.requestBufflen ↔
      (0 ≤ scmd.resid.toInt ∧ 0 ≤ scmd.transferred) ∨ 2 ^ 32 ≤ scmd.transferred := by
  have hbytes := toNat_bytes scmd
  have hlt := scmd.requestBufflen.isLt
  have hmin := BitVec.le_toInt scmd.resid
  have hmax := BitVec.toInt_lt (x := scmd.resid)
  have htransferred : scmd.transferred = scmd.requestBufflen.toNat - scmd.resid.toInt := rfl
  rw [BitVec.le_def]
  omega

theorem toNat_bytes_of_le (hresid : 0 ≤ scmd.resid.toInt)
    (h : scmd.requestBufflen - scmd.resid ≤ scmd.requestBufflen) :
    ((scmd.requestBufflen - scmd.resid).toNat : Int) = scmd.transferred := by
  have hlt := scmd.requestBufflen.isLt
  have htransferred : scmd.transferred = scmd.requestBufflen.toNat - scmd.resid.toInt := rfl
  rw [toNat_bytes]
  rcases (bytes_le_iff scmd).mp h with ⟨-, hpos⟩ | hwrap
  all_goals omega

end Lengths

section Status

variable {scmd : Scmnd}

/-- More bytes than were asked for are not reported, and make a success an error. -/
theorem bh_cases (scmd : Scmnd) :
    (scmd.requestBufflen < scmd.requestBufflen - scmd.resid ∧ ¬ (bh scmd).success ∧
      (bh scmd).bytesXferred = 0) ∨
    (scmd.requestBufflen - scmd.resid ≤ scmd.requestBufflen ∧
      bh scmd = ⟨(mapStatus scmd.result).1, (mapStatus scmd.result).2,
        scmd.requestBufflen - scmd.resid⟩) := by
  unfold bh
  dsimp only
  split
  · rename_i hover
    split
    · rename_i hstatus
      refine .inl ⟨hover, ?_, rfl⟩
      rintro ⟨hhost, hdevice⟩
      exact hstatus.elim (· hhost) (· hdevice)
    · refine .inl ⟨hover, ?_, rfl⟩
      rintro ⟨hhost, -⟩
      exact absurd hhost (by decide)
  · exact .inr ⟨BitVec.not_lt.mp ‹_›, rfl⟩

theorem bh_bounded : (bh scmd).bytesXferred ≤ scmd.requestBufflen := by
  rcases bh_cases scmd with ⟨-, -, hnone⟩ | ⟨hle, heq⟩
  · rw [hnone]
    exact Nat.zero_le _
  · rw [heq]
    exact hle

/-- Success is reported of a good status, with the length as it was computed. -/
theorem bh_success : (bh scmd).success ↔
    mapStatus scmd.result = (hostOk, deviceGood) ∧
      scmd.requestBufflen - scmd.resid ≤ scmd.requestBufflen := by
  rcases bh_cases scmd with ⟨hover, hfailed, -⟩ | ⟨hle, heq⟩
  · exact iff_of_false hfailed fun hgood => BitVec.not_le.mpr hover hgood.2
  · rw [heq, Prod.ext_iff]
    exact ⟨fun hs => ⟨hs, hle⟩, fun hgood => hgood.1⟩

theorem bytesXferred_of_success (h : (bh scmd).success) :
    (bh scmd).bytesXferred = scmd.requestBufflen - scmd.resid := by
  rcases bh_cases scmd with ⟨-, hfailed, -⟩ | ⟨-, heq⟩
  · exact absurd h hfailed
  · rw [heq]

theorem mapStatus_didError : mapStatus (didError <<< 16) = (hostError, deviceGood) := by decide

/-- What the check of `SCSILinuxCmdDone` makes of a command. -/
theorem cmdDone_cases (scmd : Scmnd) :
    (scmd.result ≠ didOk ∧ cmdDone scmd = scmd) ∨
    (scmd.result = didOk ∧ cmdDone scmd = { scmd with result := didError <<< 16 }) ∨
    (scmd.result = didOk ∧ cmdDone scmd = scmd ∧ 0 ≤ scmd.resid.toInt ∧
      scmd.underflow ≤ scmd.requestBufflen - scmd.resid) := by
  unfold cmdDone
  split
  · rename_i hresult
    split
    · exact .inr (.inl ⟨hresult, rfl⟩)
    · rename_i hresid
      have hpos : 0 ≤ scmd.resid.toInt := by simpa [BitVec.slt] using hresid
      split
      · exact .inr (.inl ⟨hresult, rfl⟩)
      · rename_i hshort
        exact .inr (.inr ⟨hresult, rfl, hpos, BitVec.not_lt.mp hshort⟩)
  · exact .inl ⟨‹_›, rfl⟩

/-- A success that is reported of a transfer with a sound length is one. -/
theorem faithful_of_sound (h : (bh scmd).success →
      0 ≤ scmd.resid.toInt ∧ (scmd.underflow.toNat : Int) ≤ scmd.transferred) :
    Faithful scmd (bh scmd) := by
  refine ⟨fun hs => ?_, bh_bounded⟩
  obtain ⟨hresid, hlong⟩ := h hs
  have hle := (bh_success.mp hs).2
  have hlen := toNat_bytes_of_le scmd hresid hle
  rw [bytesXferred_of_success hs]
  refine ⟨?_, hle, hlen⟩
  rw [BitVec.le_def]
  omega

/-- A command that the check has failed is not reported as a success. -/
theorem faithful_of_failed (h : cmdDone scmd = { scmd with result := didError <<< 16 }) :
    Faithful scmd (bh (cmdDone scmd)) := by
  rw [h]
  refine ⟨fun hs => ?_, bh_bounded⟩
  have hstatus := (bh_success.mp hs).1
  rw [mapStatus_didError] at hstatus
  exact absurd hstatus (by decide)

end Status

/-- **A reported success is a transfer that was long enough**, exactly where the driver's result
    is `DID_OK` or not reported as a success, or the transfer is sound by itself. -/
theorem report_faithful_iff (scmd : Scmnd) :
    Faithful scmd (report scmd) ↔ ¬ (scmd.looksGood ∧ scmd.unsound) := by
  unfold report
  rcases cmdDone_cases scmd with ⟨hresult, heq⟩ | ⟨hresult, heq⟩ | ⟨hresult, heq, hresid, hlong⟩
  · rw [heq]
    constructor
    · rintro hfaithful ⟨hgood, hunsound⟩
      have hle : scmd.requestBufflen - scmd.resid ≤ scmd.requestBufflen := by
        refine (bytes_le_iff scmd).mpr ?_
        exact hunsound.imp (fun hshort => ⟨hshort.2.1, hshort.1⟩) id
      have hs : (bh scmd).success := bh_success.mpr ⟨hgood.2, hle⟩
      obtain ⟨hunder, hbound, hlen⟩ := hfaithful.success hs
      rw [BitVec.le_def] at hunder hbound
      have hlt := scmd.requestBufflen.isLt
      rcases hunsound with ⟨-, -, hshort⟩ | hwrap
      all_goals omega
    · intro hnot
      refine faithful_of_sound fun hs => ?_
      obtain ⟨hstatus, hle⟩ := bh_success.mp hs
      have hsound : ¬ scmd.unsound := fun hunsound => hnot ⟨⟨hresult, hstatus⟩, hunsound⟩
      unfold Scmnd.unsound at hsound
      rcases (bytes_le_iff scmd).mp hle with ⟨hresid, hpos⟩ | hwrap
      · exact ⟨hresid, by omega⟩
      · exact absurd (.inr hwrap) hsound
  · exact iff_of_true (faithful_of_failed heq) fun hbad => hbad.1.1 hresult
  · rw [heq]
    refine iff_of_true (faithful_of_sound fun hs => ⟨hresid, ?_⟩) fun hbad => hbad.1.1 hresult
    have hlen := toNat_bytes_of_le scmd hresid (bh_success.mp hs).2
    rw [BitVec.le_def] at hlong
    omega

/-- A driver that adds a suggestion (`SUGGEST_RETRY`) to its success has a transfer of nothing
    reported as good. -/
theorem short_transfer_reported_good :
    ¬ ∀ scmd : Scmnd, Faithful scmd (report scmd) := by
  intro h
  have hshort := h ⟨0x10000000, 512, 512, 512⟩
  exact absurd (hshort.success (by decide)).1 (by decide)

end VmkLinux.Scsi.Transfer
