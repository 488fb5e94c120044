/-
  VmkLinux/Net/TxStatus.lean
  ==========================
  **What `netdev_tx` reports**: the status it returns, against the packets it has put on the
  `outputList` and those it releases.

  One call, from one thread.  What other threads do meanwhile is in `VmkLinux.Net.TxModel`; it
  changes neither the status nor what is left on `pktList`.
-/
import Mathlib.Data.List.Nodup
import VmkLinux.Net.TxModel

namespace VmkLinux.Net.Tx

/-! ### One call -/

inductive ReturnStatus where
  | ok
  | failure
  | noResources
deriving DecidableEq, Repr

/-- What happens to the packet at the head of the list in `process_tx_queue`: a stress option
    takes it, the transmit lock is held, the queue is stopped, it is not mapped, it is sent, or
    the driver refuses it. -/
inductive Fate where
  | stress
  | locked
  | stopped
  | unmapped
  | sent
  | refused
deriving DecidableEq, Repr

/-- What `process_tx_queue` leaves on the list, puts on the free list, and has sent. -/
structure Processed where
  outputList : List Nat := []
  freeList : List Nat := []
  sent : List Nat := []
deriving DecidableEq, Repr

/-- `process_tx_queue`, when the queue is the caller's all the time. -/
def processTxQueue (maxSize : Nat) (fate : Nat → Fate) : List Nat → Nat → Processed
  | [], _ => {}
  | p :: rest, iter =>
      if iter < maxSize then
        match fate p with
        | .stress | .unmapped =>
            let processed := processTxQueue maxSize fate rest iter
            { processed with freeList := p :: processed.freeList }
        | .sent =>
            let processed := processTxQueue maxSize fate rest (iter + 1)
            { processed with sent := p :: processed.sent }
        | .locked | .stopped | .refused => { outputList := p :: rest }
      else { outputList := p :: rest }

/-- What a call of `netdev_tx` returns and does: the packets moved to the `outputList` before
    transmission, what is on it in the end, what was sent and released, and how many packets
    were counted as dropped. -/
structure TxResult where
  status : ReturnStatus
  moved : List Nat := []
  outputList : List Nat
  sent : List Nat := []
  released : List Nat := []
  dropped : Nat := 0
deriving DecidableEq, Repr

/-- The status of `netdev_queue_tx_pkts_locked`. -/
def queueStatus (Q : NetdevQueue) (pktList : List Nat) : ReturnStatus :=
  if joins Q pktList then .ok else .noResources

/-- `netdev_tx` on the queue `Q`. -/
def netdevTx (blocked : Bool) (Q : NetdevQueue) (pktList : List Nat) (fate : Nat → Fate) :
    TxResult :=
  if blocked then { status := .noResources, outputList := Q.outputList, released := pktList }
  else if !(Q.unblocked && Q.started) then
    { status := .failure, outputList := Q.outputList, released := pktList
      dropped := pktList.length }
  else
    let queued := queueTxPkts Q pktList
    let processed := processTxQueue Q.outputListMaxSize fate queued.1 0
    { status := queueStatus Q pktList
      moved := queued.1.drop Q.outputList.length
      outputList := processed.outputList
      sent := processed.sent
      released := queued.2 ++ processed.freeList
      dropped := queued.2.length + processed.freeList.length }

/-! ### What the status should say -/

/-- The status says whether all packets were moved; otherwise those for which there was room
    were, in order, when the queue is open; and what was not moved is released once. -/
structure Truthful (blocked : Bool) (Q : NetdevQueue) (pktList : List Nat) (r : TxResult) :
    Prop where
  status : r.status = .ok ↔ r.moved = pktList
  moved : r.status ≠ .ok → blocked = false → Q.unblocked = true → Q.started = true →
    r.moved = pktList.take (Q.outputListMaxSize - Q.outputList.length)
  released : ∀ p ∈ pktList, p ∉ r.moved → r.released.count p = 1

/-- The calls whose status is right: on a queue that is not open, those with a packet; on one
    that is, those whose sum of counts is below the limit, and those with more packets than
    there is room for, where the room is a number of 32 bits with a sign. -/
def rightlyCounted (blocked : Bool) (Q : NetdevQueue) (pktList : List Nat) : Prop :=
  if blocked || !(Q.unblocked && Q.started) then pktList ≠ []
  else
    (pktList.length + Q.outputList.length) % 2 ^ 32 < Q.outputListMaxSize ∨
      Q.outputListMaxSize - Q.outputList.length < pktList.length ∧
        Q.outputListMaxSize < Q.outputList.length + 2 ^ 31 ∧
        Q.outputList.length ≤ Q.outputListMaxSize + 2 ^ 31

instance (blocked : Bool) (Q : NetdevQueue) (pktList : List Nat) :
    Decidable (rightlyCounted blocked Q pktList) := by
  unfold rightlyCounted
  infer_instance

/-! ### The room on the list -/

section Room

variable {Q : NetdevQueue} {pktList : List Nat}

/-- The signed number is the room that there is, or nothing, exactly when it fits. -/
theorem toNat_listSpaceLeft (hmax : Q.outputListMaxSize < 2 ^ 32)
    (hlen : Q.outputList.length < 2 ^ 32) :
    (listSpaceLeft Q).toNat = Q.outputListMaxSize - Q.outputList.length ↔
      Q.outputListMaxSize < Q.outputList.length + 2 ^ 31 ∧
        Q.outputList.length ≤ Q.outputListMaxSize + 2 ^ 31 := by
  unfold listSpaceLeft
  rw [Int.bmod_def]
  split <;> omega

/-- What is moved is a beginning of the list. -/
theorem moved_queueTxPkts (Q : NetdevQueue) (pktList : List Nat) :
    (queueTxPkts Q pktList).1.drop Q.outputList.length =
      if joins Q pktList then pktList else pktList.take (listSpaceLeft Q).toNat := by
  unfold queueTxPkts
  split
  · exact List.drop_left
  · exact List.drop_left

theorem queueTxPkts_append (Q : NetdevQueue) (pktList : List Nat) :
    (queueTxPkts Q pktList).1 =
        Q.outputList ++ (queueTxPkts Q pktList).1.drop Q.outputList.length ∧
      (queueTxPkts Q pktList).1.drop Q.outputList.length ++ (queueTxPkts Q pktList).2 =
        pktList := by
  unfold queueTxPkts
  split
  · dsimp only
    rw [List.drop_left, List.append_nil]
    exact ⟨rfl, rfl⟩
  · dsimp only
    rw [List.drop_left, List.take_append_drop]
    exact ⟨rfl, rfl⟩

/-- `process_tx_queue` frees packets of the list only. -/
theorem mem_of_freed {maxSize : Nat} {fate : Nat → Fate} : ∀ (l : List Nat) (iter p : Nat),
    p ∈ (processTxQueue maxSize fate l iter).freeList → p ∈ l := by
  intro l
  induction l with
  | nil =>
    intro iter p hp
    cases hp
  | cons q rest ih =>
    intro iter p hp
    simp only [processTxQueue] at hp
    split at hp
    · split at hp
      · rcases List.mem_cons.mp hp with rfl | hp
        · exact List.mem_cons_self
        · exact List.mem_cons_of_mem _ (ih _ _ hp)
      · rcases List.mem_cons.mp hp with rfl | hp
        · exact List.mem_cons_self
        · exact List.mem_cons_of_mem _ (ih _ _ hp)
      · exact List.mem_cons_of_mem _ (ih _ _ hp)
      · cases hp
      · cases hp
      · cases hp
    · cases hp

/-- A beginning of a list is all of it when it is long enough. -/
theorem take_eq_self_iff {k : Nat} : pktList.take k = pktList ↔ pktList.length ≤ k := by
  constructor
  · intro h
    have hlength := congrArg List.length h
    rw [List.length_take] at hlength
    omega
  · exact List.take_of_length_le

end Room

/-! ### The call -/

section Call

variable {blocked : Bool} {Q : NetdevQueue} {pktList : List Nat} (fate : Nat → Fate)

/-- What is not moved is released once, whatever the status. -/
theorem released_once (blocked : Bool) (hnodup : (Q.outputList ++ pktList).Nodup) :
    ∀ p ∈ pktList, p ∉ (netdevTx blocked Q pktList fate).moved →
      (netdevTx blocked Q pktList fate).released.count p = 1 := by
  have hnodupList : pktList.Nodup := (List.nodup_append.mp hnodup).2.1
  intro p hp hmoved
  simp only [netdevTx] at hmoved ⊢
  split
  · exact List.count_eq_one_of_mem hnodupList hp
  · rename_i hopen
    rw [if_neg hopen] at hmoved
    split
    · exact List.count_eq_one_of_mem hnodupList hp
    · rename_i hstarted
      rw [if_neg hstarted] at hmoved
      obtain ⟨hqueued, hparts⟩ := queueTxPkts_append Q pktList
      have hleft : p ∈ (queueTxPkts Q pktList).2 := by
        rw [← hparts] at hp
        exact (List.mem_append.mp hp).resolve_left hmoved
      have hnodupLeft : (queueTxPkts Q pktList).2.Nodup := by
        rw [← hparts] at hnodupList
        exact (List.nodup_append.mp hnodupList).2.1
      have hfree : p ∉
          (processTxQueue Q.outputListMaxSize fate (queueTxPkts Q pktList).1 0).freeList := by
        intro hfreed
        have hon := mem_of_freed _ _ _ hfreed
        rw [hqueued] at hon
        rcases List.mem_append.mp hon with hon | hon
        · exact (List.nodup_append.mp hnodup).2.2 p hon p hp rfl
        · exact hmoved hon
      rw [List.count_append, List.count_eq_one_of_mem hnodupLeft hleft,
        List.count_eq_zero_of_not_mem hfree]

/-- On an open queue the status is right when the sum is below the limit, and when there are
    more packets than there is room for and the room is counted right. -/
theorem truthful_open_iff (hmax : Q.outputListMaxSize < 2 ^ 32)
    (hlen : Q.outputList.length < 2 ^ 32) :
    ((queueStatus Q pktList = .ok ↔
        (queueTxPkts Q pktList).1.drop Q.outputList.length = pktList) ∧
      (queueStatus Q pktList ≠ .ok →
        (queueTxPkts Q pktList).1.drop Q.outputList.length =
          pktList.take (Q.outputListMaxSize - Q.outputList.length))) ↔
      (pktList.length + Q.outputList.length) % 2 ^ 32 < Q.outputListMaxSize ∨
        Q.outputListMaxSize - Q.outputList.length < pktList.length ∧
          Q.outputListMaxSize < Q.outputList.length + 2 ^ 31 ∧
          Q.outputList.length ≤ Q.outputListMaxSize + 2 ^ 31 := by
  rw [moved_queueTxPkts, queueStatus]
  cases hjoins : joins Q pktList with
  | true =>
    simp only [joins, decide_eq_true_eq] at hjoins
    refine iff_of_true ⟨?_, ?_⟩ (.inl hjoins)
    · simp
    · simp
  | false =>
    simp only [joins, decide_eq_false_iff_not] at hjoins
    simp only [Bool.false_eq_true, if_false, reduceCtorEq, false_iff, ne_eq, not_false_eq_true,
      true_implies, take_eq_self_iff, List.take_eq_take_iff, hjoins, false_or]
    rw [← toNat_listSpaceLeft hmax hlen]
    omega

end Call

/-- **Status of `netdev_tx`.**  It is right exactly for the calls that are counted right. -/
theorem netdev_tx_status (blocked : Bool) (Q : NetdevQueue) (pktList : List Nat)
    (fate : Nat → Fate) (hmax : Q.outputListMaxSize < 2 ^ 32)
    (hlen : Q.outputList.length < 2 ^ 32) (hnodup : (Q.outputList ++ pktList).Nodup) :
    Truthful blocked Q pktList (netdevTx blocked Q pktList fate) ↔
      rightlyCounted blocked Q pktList := by
  have hreleased := released_once fate blocked hnodup
  unfold rightlyCounted
  split
  · rename_i hclosed
    -- nothing is moved, and the status is an error
    have hstatus : (netdevTx blocked Q pktList fate).status ≠ .ok ∧
        (netdevTx blocked Q pktList fate).moved = [] := by
      simp only [netdevTx]
      split
      · exact ⟨nofun, rfl⟩
      · rename_i hblocked
        rw [if_pos (by simpa [hblocked] using hclosed)]
        exact ⟨nofun, rfl⟩
    obtain ⟨herror, hnone⟩ := hstatus
    constructor
    · rintro ⟨hanswer, -, -⟩ hempty
      exact herror (hanswer.mpr (hnone.trans hempty.symm))
    · intro hsome
      refine ⟨⟨fun hok => absurd hok herror, fun hall => ?_⟩, fun _ hb hu hs => ?_, hreleased⟩
      · exact absurd (hall.symm.trans hnone) hsome
      · simp [hb, hu, hs] at hclosed
  · rename_i hopened
    rw [← truthful_open_iff hmax hlen]
    have hresult : (netdevTx blocked Q pktList fate).status = queueStatus Q pktList ∧
        (netdevTx blocked Q pktList fate).moved =
          (queueTxPkts Q pktList).1.drop Q.outputList.length := by
      simp only [Bool.or_eq_true, not_or, Bool.not_eq_true] at hopened
      simp [netdevTx, hopened]
    simp only [Bool.or_eq_true, not_or, Bool.not_eq_true, Bool.not_eq_false',
      Bool.and_eq_true] at hopened
    obtain ⟨hblocked, hunblocked, hstarted⟩ := hopened
    constructor
    · rintro ⟨hanswer, hmoved, -⟩
      rw [hresult.1, hresult.2] at hanswer hmoved
      exact ⟨hanswer, fun herror => hmoved herror hblocked hunblocked hstarted⟩
    · rintro ⟨hanswer, hmoved⟩
      refine ⟨?_, fun herror _ _ _ => ?_, hreleased⟩
      · rw [hresult.1, hresult.2]
        exact hanswer
      · rw [hresult.1] at herror
        rw [hresult.2]
        exact hmoved herror

/-- An open queue with nothing on it. -/
def openQueue (maxSize : Nat) : NetdevQueue :=
  { xoff := false, sched := false, queueLock := false, xmitLock := false, processingTx := false,
    unblocked := true, started := true, outputList := [], outputListMaxSize := maxSize }

/-- Three packets, and room for two. -/
theorem netdev_tx_status_three :
    Truthful false (openQueue 2) [1, 2, 3]
      (netdevTx false (openQueue 2) [1, 2, 3] fun _ => .sent) :=
  (netdev_tx_status false (openQueue 2) [1, 2, 3] (fun _ => .sent) (by decide) (by decide)
    (by decide)).mpr (by decide)

/-- Two packets, for which there is room: both are moved and sent, and the status is
    `VMK_NO_RESOURCES`. -/
theorem exact_fit_refused :
    ¬ ∀ (blocked : Bool) (Q : NetdevQueue) (pktList : List Nat) (fate : Nat → Fate),
      Q.outputListMaxSize < 2 ^ 32 → Q.outputList.length < 2 ^ 32 →
      (Q.outputList ++ pktList).Nodup →
        Truthful blocked Q pktList (netdevTx blocked Q pktList fate) := by
  intro h
  have htruth := h false (openQueue 2) [1, 2] (fun _ => .sent) (by decide) (by decide) (by decide)
  exact absurd (htruth.status.mpr (by decide)) (by decide)

end VmkLinux.Net.Tx
