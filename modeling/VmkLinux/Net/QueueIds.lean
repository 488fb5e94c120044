/-
  VmkLinux/Net/QueueIds.lean
  ==========================
  **Ids of transmit queues** (`include/vmklinux26/vmknetddinetq.h` and
  `vmklinux26/vmware/linux_net.c`): how `netqueue_op_alloc_queue` and
  `netqueue_op_get_default_queue` put the queue mapping of the driver into the id of a queue,
  and how `netdev_pick_tx_queue` takes it out again.

  An id of the driver has 32 bits, of which the value takes 16 and the type 8.  An id of the
  vmkernel has 64, and only the functions of the vmkernel make and read it; they are
  parameters.  A packet is the id that it carries.
-/
import Mathlib.Algebra.Group.Int.Defs
import Mathlib.Algebra.Group.Nat.Defs
import Mathlib.Data.List.Basic

namespace VmkLinux.Net.QueueId

/-! ### Data -/

inductive ReturnStatus where
  | ok
  | failure
  | notSupported
deriving DecidableEq, Repr

/-- A `vmk_NetqueueQueueType` as `vmk_NetqueueQueueTypeIsTx` and `..IsRx` see it. -/
inductive QueueType where
  | tx
  | rx
  | invalid
deriving DecidableEq, Repr

/-- The functions of the vmkernel on a `vmk_NetqueueQueueId`. -/
structure VmkNetqueue where
  mkTxQueueId : BitVec 32 → BitVec 64
  mkRxQueueId : BitVec 32 → BitVec 64
  isTxQueueId : BitVec 64 → Bool
  isRxQueueId : BitVec 64 → Bool
  queueIdVal : BitVec 64 → BitVec 32

/-- What their documentation says of the ids of transmit queues; 0 stands for no id. -/
structure VmkNetqueue.Lawful (vmk : VmkNetqueue) : Prop where
  val_mkTx : ∀ val, vmk.queueIdVal (vmk.mkTxQueueId val) = val
  isTx_mkTx : ∀ val, vmk.isTxQueueId (vmk.mkTxQueueId val) = true
  mkTx_ne_zero : ∀ val, vmk.mkTxQueueId val ≠ 0

/-- What is read of a `net_device`; `netqueueOps` is whether there is such a function. -/
structure NetDevice where
  netqueueOps : Bool
  numTxQueues : BitVec 32
  realNumTxQueues : BitVec 32
deriving DecidableEq, Repr

/-- What the driver returns from a `netqueue_ops` call and leaves in its arguments. -/
structure Answer where
  result : Int := 0
  queueid : BitVec 32
  queueMapping : BitVec 16 := 0
  napi : Option Nat := none
deriving DecidableEq, Repr

/-- The status of an operation, what it set in the arguments of the vmkernel, and whether it
    had the driver free a queue. -/
structure OpResult where
  status : ReturnStatus
  queueId : Option (BitVec 64) := none
  worldlet : Option Nat := none
  freed : Bool := false
deriving DecidableEq, Repr

/-! ### Ids of the driver -/

/-- `VMKNETDDI_QUEUEOPS_QUEUE_TYPE_RX`. -/
def queueTypeRx : BitVec 32 := 1

/-- `VMKNETDDI_QUEUEOPS_QUEUE_TYPE_TX`. -/
def queueTypeTx : BitVec 32 := 2

/-- `VMKNETDDI_QUEUEOPS_MK_TX_QUEUEID`. -/
def mkTxQueueid (n : BitVec 32) : BitVec 32 := queueTypeTx <<< 16 ||| (n &&& 0xffff)

/-- `VMKNETDDI_QUEUEOPS_IS_TX_QUEUEID`. -/
def isTxQueueid (n : BitVec 32) : Bool := n &&& (0x00ff0000 : BitVec 32) == queueTypeTx <<< 16

/-- `VMKNETDDI_QUEUEOPS_IS_RX_QUEUEID`. -/
def isRxQueueid (n : BitVec 32) : Bool := n &&& (0x00ff0000 : BitVec 32) == queueTypeRx <<< 16

/-- `VMKNETDDI_QUEUEOPS_TX_QUEUEID_SET_QIDX`; `idx` is promoted to an `int`. -/
def txQueueidSetQidx (qid : BitVec 32) (idx : BitVec 16) : BitVec 32 :=
  qid ||| idx.setWidth 32 <<< 24

/-- `VMKNETDDI_QUEUEOPS_TX_QUEUEID_GET_QIDX`. -/
def txQueueidGetQidx (qid : BitVec 32) : BitVec 32 := (qid &&& 0xff000000) >>> 24

def embedQueueidQueueMapping (queueMapping : BitVec 16) (queueid : BitVec 32) : BitVec 32 :=
  txQueueidSetQidx queueid queueMapping

def getEmbeddedQueueMapping (queueid : BitVec 32) : BitVec 16 :=
  (txQueueidGetQidx queueid).setWidth 16

/-! ### The operations -/

section Operations

variable (vmk : VmkNetqueue)

def marshallToVmknetqId (qid : BitVec 32) : Option (BitVec 64) :=
  if !isTxQueueid qid && !isRxQueueid qid then none
  else if isTxQueueid qid then some (vmk.mkTxQueueId qid)
  else some (vmk.mkRxQueueId qid)

def marshallFromVmknetqId (vmkqid : BitVec 64) : Option (BitVec 32) :=
  if !vmk.isTxQueueId vmkqid && !vmk.isRxQueueId vmkqid then none
  else some (vmk.queueIdVal vmkqid)

/-- What the two operations below share; they differ where the id is not one of a queue, as
    only `netqueue_op_alloc_queue` has a queue to free. -/
def netqueueOp (alloc : Bool) (dev : NetDevice) (qtype : QueueType) (answer : Answer) :
    OpResult :=
  if qtype = .invalid then { status := .failure }
  else if !dev.netqueueOps then { status := .notSupported }
  else if answer.result ≠ 0 then { status := .failure }
  else
    let queueid :=
      if qtype = .tx then embedQueueidQueueMapping answer.queueMapping answer.queueid
      else answer.queueid
    let worldlet := if qtype = .tx then none else answer.napi
    match marshallToVmknetqId vmk queueid with
    -- the id that is freed is one that nothing was stored in
    | none => { status := .failure, worldlet := worldlet, freed := alloc }
    | some qid => { status := .ok, queueId := some qid, worldlet := worldlet }

def netqueueOpAllocQueue : NetDevice → QueueType → Answer → OpResult := netqueueOp vmk true

def netqueueOpGetDefaultQueue : NetDevice → QueueType → Answer → OpResult :=
  netqueueOp vmk false

/-- `netdev_pick_tx_queue`: the index in `dev->_tx`, for a list that is not empty. -/
def netdevPickTxQueue (dev : NetDevice) : List (BitVec 64) → BitVec 32
  | [] => 0
  | vmkqid :: _ =>
      if vmkqid = 0 then 0
      else
        match marshallFromVmknetqId vmk vmkqid with
        | none => 0
        | some queueid =>
            let queueIdx := (getEmbeddedQueueMapping queueid).setWidth 32
            if queueIdx ≥ dev.realNumTxQueues ∨ queueIdx ≥ dev.numTxQueues then 0 else queueIdx

end Operations

/-! ### What the id of a queue is for -/

section Abstract

variable (vmk : VmkNetqueue) (dev : NetDevice)

/-- One of the two operations gives the vmkernel `id` for a transmit queue which the driver
    calls `mkTxQueueid n` and maps to `m`. -/
def Gives (n : BitVec 32) (m : BitVec 16) (id : BitVec 64) : Prop :=
  ∃ alloc napi, netqueueOp vmk alloc dev .tx
    { queueid := mkTxQueueid n, queueMapping := m, napi := napi } =
      { status := .ok, queueId := some id }

/-- An id that leads back to the id of the driver and to the queue it was made for. -/
def RoundTrips (n : BitVec 32) (m : BitVec 16) (id : BitVec 64) : Prop :=
  (∃ queueid, marshallFromVmknetqId vmk id = some queueid ∧
    queueid &&& 0xffffff = mkTxQueueid n) ∧
  (m.setWidth 32 < dev.realNumTxQueues →
    ∀ pktList, netdevPickTxQueue vmk dev (id :: pktList) = m.setWidth 32)

/-- A mapping that fits in the 8 bits that an id has for it, and in `dev->_tx`. -/
def fits (m : BitVec 16) : Prop :=
  m < 256 ∧ (m = 0 ∨ m.setWidth 32 < dev.numTxQueues)

instance (m : BitVec 16) : Decidable (fits dev m) := inferInstanceAs (Decidable (_ ∧ _))

end Abstract

/-! ### The bits of an id -/

/-- What is shifted up by `k` has no bits under a mask of `k` bits. -/
theorem shiftLeft_and_eq_zero {w k : Nat} (x mask : BitVec w) (h : mask.toNat < 2 ^ k) :
    x <<< k &&& mask = 0#w := by
  apply BitVec.eq_of_getLsbD_eq
  intro i hi
  rw [BitVec.getLsbD_and, BitVec.getLsbD_shiftLeft, BitVec.getLsbD_zero]
  by_cases hik : i < k
  · simp only [hik, decide_true, Bool.not_true, Bool.and_false, Bool.false_and]
  · have hmask : mask.getLsbD i = false := by
      apply Nat.testBit_lt_two_pow
      exact Nat.lt_of_lt_of_le h (Nat.pow_le_pow_right (by omega) (by omega))
    rw [hmask, Bool.and_false]

section Bits

variable (n : BitVec 32) (m : BitVec 16)

theorem mkTxQueueid_and (mask : BitVec 32) :
    mkTxQueueid n &&& mask = (queueTypeTx <<< 16 &&& mask) ||| (n &&& (0xffff &&& mask)) := by
  rw [mkTxQueueid, BitVec.and_or_distrib_right, BitVec.and_assoc]

theorem embed_and (mask : BitVec 32) :
    embedQueueidQueueMapping m (mkTxQueueid n) &&& mask =
      (mkTxQueueid n &&& mask) ||| (m.setWidth 32 <<< 24 &&& mask) := by
  rw [embedQueueidQueueMapping, txQueueidSetQidx, BitVec.and_or_distrib_right]

theorem isTxQueueid_embed :
    isTxQueueid (embedQueueidQueueMapping m (mkTxQueueid n)) = true := by
  have hmask : (0xffff : BitVec 32) &&& 0x00ff0000 = 0#32 := rfl
  have htype : queueTypeTx <<< 16 &&& (0x00ff0000 : BitVec 32) = queueTypeTx <<< 16 := rfl
  unfold isTxQueueid
  rw [embed_and, shiftLeft_and_eq_zero _ _ (by decide), mkTxQueueid_and, hmask, htype,
    BitVec.and_zero, BitVec.or_zero, BitVec.or_zero]
  exact beq_self_eq_true _

/-- The mapping leaves the low 24 bits as the driver made them. -/
theorem embed_low :
    embedQueueidQueueMapping m (mkTxQueueid n) &&& 0xffffff = mkTxQueueid n := by
  have hmask : (0xffff : BitVec 32) &&& 0xffffff = 0xffff := rfl
  have htype : queueTypeTx <<< 16 &&& (0xffffff : BitVec 32) = queueTypeTx <<< 16 := rfl
  rw [embed_and, shiftLeft_and_eq_zero _ _ (by decide), mkTxQueueid_and, hmask, htype,
    BitVec.or_zero]
  rfl

/-- Of the mapping 8 bits come back. -/
theorem toNat_getEmbedded :
    (getEmbeddedQueueMapping (embedQueueidQueueMapping m (mkTxQueueid n))).toNat =
      m.toNat % 256 := by
  have hmask : (0xffff : BitVec 32) &&& 0xff000000 = 0#32 := rfl
  have htype : queueTypeTx <<< 16 &&& (0xff000000 : BitVec 32) = 0#32 := rfl
  have hsplit : m.setWidth 32 <<< 24 &&& (0xff000000 : BitVec 32) = m.setWidth 32 <<< 24 := by
    have hall : (0xff000000 : BitVec 32) = ~~~0xffffff := rfl
    have hlow := shiftLeft_and_eq_zero (k := 24) (m.setWidth 32) 0xffffff (by decide)
    calc m.setWidth 32 <<< 24 &&& (0xff000000 : BitVec 32)
        = 0#32 ||| (m.setWidth 32 <<< 24 &&& ~~~0xffffff) := by rw [hall, BitVec.zero_or]
      _ = m.setWidth 32 <<< 24 &&& (0xffffff ||| ~~~0xffffff) := by
          rw [BitVec.and_or_distrib_left, hlow]
      _ = m.setWidth 32 <<< 24 := by rw [BitVec.or_not_self, BitVec.and_allOnes]
  have hlt := m.isLt
  unfold getEmbeddedQueueMapping txQueueidGetQidx
  rw [embed_and, mkTxQueueid_and, hmask, htype, hsplit, BitVec.and_zero, BitVec.or_zero,
    BitVec.zero_or, BitVec.toNat_setWidth, BitVec.toNat_ushiftRight, BitVec.toNat_shiftLeft,
    BitVec.toNat_setWidth, Nat.shiftLeft_eq, Nat.shiftRight_eq_div_pow]
  omega

end Bits

/-! ### From the driver to the transmit path -/

section RoundTrip

variable {vmk : VmkNetqueue} {dev : NetDevice} {n : BitVec 32} {m : BitVec 16} {id : BitVec 64}

/-- The id that the vmkernel is given for a queue of the driver. -/
theorem gives_iff (hops : dev.netqueueOps = true) :
    Gives vmk dev n m id ↔
      id = vmk.mkTxQueueId (embedQueueidQueueMapping m (mkTxQueueid n)) := by
  have hop : ∀ alloc napi, netqueueOp vmk alloc dev .tx
      { queueid := mkTxQueueid n, queueMapping := m, napi := napi } =
      { status := .ok
        queueId := some (vmk.mkTxQueueId (embedQueueidQueueMapping m (mkTxQueueid n))) } := by
    intro alloc napi
    simp [netqueueOp, marshallToVmknetqId, isTxQueueid_embed, hops]
  constructor
  · rintro ⟨alloc, napi, hgives⟩
    rw [hop alloc napi] at hgives
    exact (Option.some.inj (congrArg OpResult.queueId hgives)).symm
  · intro hid
    subst hid
    exact ⟨true, none, hop true none⟩

/-- A `u16` is a `u32`. -/
theorem toNat_wide (m : BitVec 16) : (m.setWidth 32).toNat = m.toNat := by
  have hlt := m.isLt
  rw [BitVec.toNat_setWidth, Nat.mod_eq_of_lt (by omega)]

theorem marshallFrom_mkTx (hvmk : vmk.Lawful) (val : BitVec 32) :
    marshallFromVmknetqId vmk (vmk.mkTxQueueId val) = some val := by
  simp [marshallFromVmknetqId, hvmk.isTx_mkTx, hvmk.val_mkTx]

/-- The queue that packets with the id of a queue are put on. -/
theorem pick_of_gives (hvmk : vmk.Lawful) (hops : dev.netqueueOps = true)
    (h : Gives vmk dev n m id) (pktList : List (BitVec 64)) :
    (netdevPickTxQueue vmk dev (id :: pktList)).toNat =
      if m.toNat % 256 < dev.realNumTxQueues.toNat ∧ m.toNat % 256 < dev.numTxQueues.toNat then
        m.toNat % 256
      else 0 := by
  rw [gives_iff hops] at h
  subst h
  simp only [netdevPickTxQueue]
  rw [if_neg (hvmk.mkTx_ne_zero _), marshallFrom_mkTx hvmk]
  dsimp only
  split
  · rename_i hout
    simp only [ge_iff_le, BitVec.le_def, BitVec.toNat_setWidth, toNat_getEmbedded] at hout
    rw [if_neg (by omega)]
    rfl
  · rename_i hin
    simp only [ge_iff_le, BitVec.le_def, BitVec.toNat_setWidth, toNat_getEmbedded] at hin
    rw [if_pos (by omega), BitVec.toNat_setWidth, toNat_getEmbedded]
    omega

/-- An id round-trips exactly when its mapping fits, unless no packet may use it. -/
theorem roundTrips_iff (hvmk : vmk.Lawful) (hops : dev.netqueueOps = true)
    (h : Gives vmk dev n m id) :
    RoundTrips vmk dev n m id ↔
      (m.setWidth 32 < dev.realNumTxQueues → fits dev m) := by
  have hpick := pick_of_gives hvmk hops h
  have hreal : m.setWidth 32 < dev.realNumTxQueues ↔
      m.toNat < dev.realNumTxQueues.toNat := by
    rw [BitVec.lt_def, toNat_wide]
  have hfits : fits dev m ↔
      m.toNat < 256 ∧ (m.toNat = 0 ∨ m.toNat < dev.numTxQueues.toNat) := by
    have hzero : m = 0 ↔ m.toNat = 0 := BitVec.toNat_inj.symm
    have hbound : m < 256 ↔ m.toNat < 256 := BitVec.lt_def
    rw [fits, hzero, hbound, BitVec.lt_def, toNat_wide]
  have hpicked : ∀ pktList, netdevPickTxQueue vmk dev (id :: pktList) = m.setWidth 32 ↔
      (if m.toNat % 256 < dev.realNumTxQueues.toNat ∧ m.toNat % 256 < dev.numTxQueues.toNat
        then m.toNat % 256 else 0) = m.toNat := by
    intro pktList
    rw [← BitVec.toNat_inj, hpick pktList, toNat_wide]
  rw [hreal, hfits]
  constructor
  · intro htrip hlive
    have hm := (hpicked []).mp (htrip.2 (hreal.mpr hlive) [])
    split at hm <;> omega
  · intro hgood
    refine ⟨⟨_, ?_, embed_low n m⟩, fun hlive pktList => (hpicked pktList).mpr ?_⟩
    · rw [(gives_iff hops).mp h, marshallFrom_mkTx hvmk]
    · have hlt' := hreal.mp hlive
      have := hgood hlt'
      split <;> omega

end RoundTrip

/-- **Ids of transmit queues.**  The id that the vmkernel gets for a queue of the driver, by
    either operation, leads back to the id of the driver and to the queue of the mapping
    exactly when a mapping below `real_num_tx_queues` fits; and such mappings share no
    queue. -/
theorem tx_queue_ids (vmk : VmkNetqueue) (hvmk : vmk.Lawful) (dev : NetDevice)
    (hops : dev.netqueueOps = true) :
    (∀ n m id, Gives vmk dev n m id →
      (RoundTrips vmk dev n m id ↔ (m.setWidth 32 < dev.realNumTxQueues → fits dev m))) ∧
    (∀ n m, ∃ id, Gives vmk dev n m id) ∧
    (∀ n m id n' m' id', Gives vmk dev n m id → Gives vmk dev n' m' id' →
      m.setWidth 32 < dev.realNumTxQueues → m'.setWidth 32 < dev.realNumTxQueues →
      fits dev m → fits dev m' → m ≠ m' → ∀ pktList pktList',
        netdevPickTxQueue vmk dev (id :: pktList) ≠
          netdevPickTxQueue vmk dev (id' :: pktList')) := by
  refine ⟨fun n m id h => roundTrips_iff hvmk hops h,
    fun n m => ⟨_, (gives_iff hops).mpr rfl⟩, ?_⟩
  intro n m id n' m' id' h h' hlive hlive' hfits hfits' hne pktList pktList' heq
  have hpick := ((roundTrips_iff hvmk hops h).mpr fun _ => hfits).2 hlive pktList
  have hpick' := ((roundTrips_iff hvmk hops h').mpr fun _ => hfits').2 hlive' pktList'
  rw [hpick, hpick'] at heq
  have hnat := congrArg BitVec.toNat heq
  rw [toNat_wide, toNat_wide] at hnat
  exact hne (BitVec.eq_of_toNat_eq hnat)

/-! ### A vmkernel that keeps the type above the value -/

/-- Ids with the value in the low half and the type, 2 or 1, in the high half. -/
def taggedIds : VmkNetqueue where
  mkTxQueueId val := 2#32 ++ val
  mkRxQueueId val := 1#32 ++ val
  isTxQueueId qid := qid.extractLsb' 32 32 == 2#32
  isRxQueueId qid := qid.extractLsb' 32 32 == 1#32
  queueIdVal qid := qid.extractLsb' 0 32

theorem taggedIds_lawful : taggedIds.Lawful where
  val_mkTx val := BitVec.extractLsb'_append_eq_right
  isTx_mkTx val := by
    have htype : (2#32 ++ val).extractLsb' 32 32 = 2#32 := BitVec.extractLsb'_append_eq_left
    simp [taggedIds, htype]
  mkTx_ne_zero val h := by
    have htype : (2#32 ++ val).extractLsb' 32 32 = 2#32 := BitVec.extractLsb'_append_eq_left
    have hzero : 2#32 ++ val = 0#(32 + 32) := h
    rw [hzero] at htype
    exact absurd htype (by decide)

/-- Queue 5 of a device with 16. -/
theorem tx_queue_ids_five :
    RoundTrips taggedIds ⟨true, 16, 16⟩ 7 5
      (taggedIds.mkTxQueueId (embedQueueidQueueMapping 5 (mkTxQueueid 7))) :=
  ((tx_queue_ids taggedIds taggedIds_lawful ⟨true, 16, 16⟩ rfl).1 7 5 _
    ((gives_iff rfl).mpr rfl)).mpr fun _ => by decide

/-- On a device with 300 queues the packets of queue 256 are put on queue 0, and so share it
    with those of mapping 0. -/
theorem mapping_truncated :
    ¬ ∀ vmk : VmkNetqueue, vmk.Lawful → ∀ dev : NetDevice, dev.netqueueOps = true →
      ∀ n m id, Gives vmk dev n m id → RoundTrips vmk dev n m id := by
  intro h
  have htrip := h taggedIds taggedIds_lawful ⟨true, 300, 300⟩ rfl 7 256 _
    ((gives_iff rfl).mpr rfl)
  exact absurd (htrip.2 (by decide) []) (by decide)

end VmkLinux.Net.QueueId
