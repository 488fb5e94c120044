/-
  VmkLinux/Scsi/States.lean
  =========================
  **The states of hosts and devices** (`include/scsi/scsi_host.h`, `scsi_device.h`).
-/
import Mathlib.Algebra.Group.Nat.Defs

namespace VmkLinux.Scsi

/-- `enum scsi_host_state`. -/
inductive HostState where
  | created
  | running
  | cancel
  | del
  | recovery
  | cancelRecovery
  | delRecovery
deriving DecidableEq, Repr

/-- `enum scsi_device_state`. -/
inductive SdevState where
  | created
  | running
  | cancel
  | del
  | quiesce
  | offline
  | block
deriving DecidableEq, Repr

/-- Neither deleted nor offline. -/
def SdevState.usable (state : SdevState) : Bool := decide (state ≠ .offline ∧ state ≠ .del)

end VmkLinux.Scsi
