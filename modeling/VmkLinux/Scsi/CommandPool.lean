/-
  VmkLinux/Scsi/CommandPool.lean
  ==============================
  **The pools of commands and scatter-gather tables** (`vmklinux26/vmware/linux_scsi_lld_if.c`):
  `scsi_setup_command_freelist` and `scsi_destroy_command_freelist`.

  The slabs and mempools are shared by all hosts.  The first host creates them, the last one
  destroys them, and a setup that fails half-way destroys what it has created.  What that is it
  reads off the static pointers, which nobody clears: a pointer that this setup has not written
  is one of an earlier round, to something that is destroyed already (`pool_destroyed_twice`).

  A slab or a mempool is known by a number that is used once; which ones were destroyed, in
  which order, is kept in a list that has no counterpart in the source.  The calls come one after
  the other; what the allocators answer is an argument of the call.
-/
import Mathlib.Data.List.Range
import Mathlib.Data.List.Perm.Basic
import VmkLinux.Sequence

namespace VmkLinux.Scsi.CommandPool

open VmkLinux.Sequence

/-! ### Data -/

/-- `struct scsi_host_sg_pool`. -/
structure SgPool where
  slab : Option Nat := none
  pool : Option Nat := none
deriving DecidableEq, Repr

/-- `SG_MEMPOOL_NR`. -/
def sgMempoolNr : Nat := 6

structure State where
  /-- `scsi_cmd_dma_pool`. -/
  users : Nat
  slab : Option Nat
  scsiSgPools : List SgPool
  /-- The hosts whose `cmd_pool` is set. -/
  hosts : List Nat
  next : Nat
  destroyed : List Nat
deriving DecidableEq, Repr

/-- What the allocators answer in one setup: for the slab of commands, for slab and mempool of
    each size, and for the backup command. -/
structure Answers where
  cmdSlab : Bool
  sgSlab : Nat → Bool
  sgPool : Nat → Bool
  command : Bool

/-- `kmem_cache_destroy`, `mempool_destroy`. -/
def State.destroy (o : Option Nat) (s : State) : State :=
  { s with destroyed := o.toList ++ s.destroyed }

/-! ### `scsi_setup_command_freelist` -/

/-- The loop that creates slabs and mempools, from the `i`-th size on: the table, the next
    number, and whether all went well. -/
def createSgPools (answers : Answers) : Nat → Nat → List SgPool → List SgPool × Nat × Bool
  | _, next, [] => ([], next, true)
  | i, next, sgp :: sgps =>
      if answers.sgSlab i = false then ({ sgp with slab := none } :: sgps, next, false)
      else if answers.sgPool i = false then
        ({ slab := some next, pool := none } :: sgps, next + 1, false)
      else
        let rest := createSgPools answers (i + 1) (next + 2) sgps
        ({ slab := some next, pool := some (next + 1) } :: rest.1, rest.2)

/-- First the pool, then its slab. -/
def destroySgPools : List SgPool → State → State
  | [], s => s
  | sgp :: sgps, s => destroySgPools sgps ((s.destroy sgp.pool).destroy sgp.slab)

/-- The label `fail2`. -/
def fail2 (s : State) : State :=
  if s.users = 0 then (destroySgPools s.scsiSgPools s).destroy s.slab else s

/-- From `pool->users++` on, with the label `fail3`. -/
def addHost (answers : Answers) (host : Nat) (s : State) : State × Bool :=
  if answers.command then ({ s with users := s.users + 1, hosts := host :: s.hosts }, true)
  else (fail2 { s with users := s.users + 1 - 1 }, false)

/-- What the creations of the first setup leave, and whether all went well. -/
def createPools (answers : Answers) (s : State) : State × Bool :=
  let created := createSgPools answers 0 (s.next + 1) s.scsiSgPools
  ({ s with slab := some s.next, scsiSgPools := created.1, next := created.2.1 }, created.2.2)

/-- `scsi_setup_command_freelist`, and whether it returns 0. -/
def setup (answers : Answers) (host : Nat) (s : State) : State × Bool :=
  if s.users = 0 then
    if answers.cmdSlab = false then ({ s with slab := none }, false)
    else
      let created := createPools answers s
      if created.2 then addHost answers host created.1 else (fail2 created.1, false)
  else addHost answers host s

/-! ### `scsi_destroy_command_freelist` -/

def destroyFreelist (host : Nat) (s : State) : State :=
  let s' := { s with users := s.users - 1, hosts := s.hosts.erase host }
  if s'.users = 0 then (destroySgPools s'.scsiSgPools s').destroy s'.slab else s'

/-! ### Sequences of calls -/

inductive Call where
  | setup (host : Nat) (answers : Answers)
  | destroy (host : Nat)

/-- A host is set up when it has no pool, and destroyed when it has one. -/
def step (call : Call) (s : State) : Option State :=
  match call with
  | .setup host answers => if host ∈ s.hosts then none else some (setup answers host s).1
  | .destroy host => if host ∈ s.hosts then some (destroyFreelist host s) else none

def initial : State where
  users := 0
  slab := none
  scsiSgPools := List.replicate sgMempoolNr {}
  hosts := []
  next := 0
  destroyed := []

/-! ### Pointers -/

def SgPool.pointers (sgp : SgPool) : List Nat := sgp.slab.toList ++ sgp.pool.toList

/-- What the static pointers point to. -/
def State.pointers (s : State) : List Nat :=
  s.slab.toList ++ s.scsiSgPools.flatMap SgPool.pointers

/-- The pointers that a creation leaves as they were. -/
def stale (answers : Answers) : Nat → List SgPool → List Nat
  | _, [] => []
  | i, sgp :: sgps =>
      if answers.sgSlab i = false then sgp.pool.toList ++ sgps.flatMap SgPool.pointers
      else if answers.sgPool i = false then sgps.flatMap SgPool.pointers
      else stale answers (i + 1) sgps

/-- A setup that creates the pools leaves no pointer of an earlier round. -/
def fresh (s : State) : Call → Bool
  | .setup _ answers => decide (s.users ≠ 0) || !answers.cmdSlab ||
      (stale answers 0 s.scsiSgPools).isEmpty
  | .destroy _ => true

/-- A creation writes numbers that follow each other, and leaves the rest. -/
theorem createSgPools_pointers (answers : Answers) (sgps : List SgPool) :
    ∀ i next, ∃ k,
      (createSgPools answers i next sgps).1.flatMap SgPool.pointers =
        List.range' next k ++ stale answers i sgps ∧
      (createSgPools answers i next sgps).2.1 = next + k := by
  induction sgps with
  | nil => exact fun i next => ⟨0, rfl, rfl⟩
  | cons sgp sgps ih =>
    intro i next
    unfold createSgPools stale
    split
    · exact ⟨0, by simp [SgPool.pointers], rfl⟩
    · split
      · exact ⟨1, by simp [SgPool.pointers, List.range'], rfl⟩
      · obtain ⟨k, hpointers, hnext⟩ := ih (i + 1) (next + 2)
        refine ⟨k + 2, ?_, by simp only [hnext]; omega⟩
        simp only [List.flatMap_cons, hpointers]
        simp [SgPool.pointers, List.range'_succ]

/-! ### Destruction -/

theorem destroySgPools_eq (sgps : List SgPool) :
    ∀ s, ∃ l, destroySgPools sgps s = { s with destroyed := l ++ s.destroyed } ∧
      l.Perm (sgps.flatMap SgPool.pointers) := by
  induction sgps with
  | nil => exact fun s => ⟨[], rfl, .nil⟩
  | cons sgp sgps ih =>
    intro s
    obtain ⟨l, heq, hperm⟩ := ih ((s.destroy sgp.pool).destroy sgp.slab)
    refine ⟨l ++ sgp.pointers, ?_, ?_⟩
    · rw [destroySgPools, heq]
      simp [State.destroy, SgPool.pointers]
    · rw [List.flatMap_cons]
      exact List.perm_append_comm.trans (hperm.append_left _)

/-- What the last user destroys. -/
theorem destroyAll_eq (s : State) :
    ∃ l, (destroySgPools s.scsiSgPools s).destroy s.slab =
        { s with destroyed := l ++ s.destroyed } ∧ l.Perm s.pointers := by
  obtain ⟨l, heq, hperm⟩ := destroySgPools_eq s.scsiSgPools s
  refine ⟨s.slab.toList ++ l, ?_, hperm.append_left _⟩
  rw [heq]
  simp [State.destroy]

/-! ### The ledger -/

/-- What is created and not destroyed. -/
def State.held (s : State) : List Nat := if s.users = 0 then [] else s.pointers

/-- Every slab and mempool that was ever created was destroyed once, or is held. -/
structure Ledger (s : State) : Prop where
  users : s.users = s.hosts.length
  all : (s.destroyed ++ s.held).Perm (List.range s.next)

section Calls

variable {answers : Answers} {host : Nat} {s s' : State} {call : Call}

/-- Everything that is not destroyed is held, or there is nobody to hold it. -/
theorem ledger_destroyAll (husers : s.users = s.hosts.length) (hzero : s.users = 0)
    (hall : (s.destroyed ++ s.pointers).Perm (List.range s.next)) :
    Ledger ((destroySgPools s.scsiSgPools s).destroy s.slab) := by
  obtain ⟨l, heq, hperm⟩ := destroyAll_eq s
  rw [heq]
  refine ⟨husers, ?_⟩
  have hheld : State.held { s with destroyed := l ++ s.destroyed } = [] := if_pos hzero
  rw [hheld, List.append_nil]
  exact ((hperm.append_right _).trans List.perm_append_comm).trans hall

variable (answers host) in
theorem ledger_addHost (husers : s.users = s.hosts.length)
    (hall : (s.destroyed ++ s.pointers).Perm (List.range s.next)) :
    Ledger (addHost answers host s).1 ∧ (addHost answers host s).1.next = s.next ∧
      ((addHost answers host s).2 = false → (addHost answers host s).1.users = s.users) := by
  unfold addHost
  split
  · refine ⟨⟨?_, ?_⟩, rfl, fun h => Bool.noConfusion h⟩
    · simp only [List.length_cons, husers]
    · rw [State.held, if_neg (Nat.succ_ne_zero _)]
      exact hall
  · have hsame : ({ s with users := s.users + 1 - 1 } : State) = s := rfl
    rw [hsame]
    unfold fail2
    split
    · rename_i hzero
      refine ⟨ledger_destroyAll husers hzero hall, ?_, fun _ => ?_⟩
      all_goals
        obtain ⟨l, heq, -⟩ := destroyAll_eq s
        rw [heq]
    · rename_i hzero
      refine ⟨⟨husers, ?_⟩, rfl, fun _ => rfl⟩
      rw [State.held, if_neg hzero]
      exact hall

/-- The state that the creation of the pools leaves. -/
theorem created_all (hL : Ledger s) (hzero : s.users = 0)
    (hstale : stale answers 0 s.scsiSgPools = []) :
    ((createPools answers s).1.destroyed ++ (createPools answers s).1.pointers).Perm
      (List.range (createPools answers s).1.next) := by
  obtain ⟨k, hpointers, hnext⟩ := createSgPools_pointers answers s.scsiSgPools 0 (s.next + 1)
  have hold := hL.all
  rw [State.held, if_pos hzero, List.append_nil] at hold
  dsimp only [State.pointers, createPools]
  rw [hpointers, hstale, hnext, List.append_nil]
  have hnew : (some s.next).toList ++ List.range' (s.next + 1) k = List.range' s.next (k + 1) :=
    rfl
  rw [hnew, show s.next + 1 + k = s.next + (k + 1) by omega, List.range_add,
    ← List.range'_eq_map_range]
  exact hold.append_right _

theorem setup_spec (hL : Ledger s) (hfresh : fresh s (.setup host answers) = true) :
    Ledger (setup answers host s).1 ∧
      ((setup answers host s).2 = false → (setup answers host s).1.users = s.users ∧
        (s.users ≠ 0 → (setup answers host s).1.next = s.next)) := by
  unfold setup
  split
  · rename_i hzero
    split
    · refine ⟨⟨hL.users, ?_⟩, fun _ => ⟨rfl, fun _ => rfl⟩⟩
      have hall := hL.all
      rw [State.held, if_pos hzero] at hall ⊢
      exact hall
    · rename_i hslab
      have hstale : stale answers 0 s.scsiSgPools = [] := by
        simpa [fresh, hzero, hslab] using hfresh
      have hall := created_all hL hzero hstale
      have husers : (createPools answers s).1.users = (createPools answers s).1.hosts.length :=
        hL.users
      dsimp only
      split
      · obtain ⟨hledger, -, hfailed⟩ := ledger_addHost answers host husers hall
        exact ⟨hledger, fun h => ⟨hfailed h, fun hne => absurd hzero hne⟩⟩
      · have hzero' : (createPools answers s).1.users = 0 := hzero
        rw [fail2, if_pos hzero']
        refine ⟨ledger_destroyAll husers hzero' hall, fun _ => ⟨?_, fun hne => absurd hzero hne⟩⟩
        obtain ⟨l, heq, -⟩ := destroyAll_eq (createPools answers s).1
        rw [heq]
        rfl
  · rename_i husers
    have hall := hL.all
    rw [State.held, if_neg husers] at hall
    obtain ⟨hledger, hnext, hfailed⟩ := ledger_addHost answers host hL.users hall
    exact ⟨hledger, fun h => ⟨hfailed h, fun _ => hnext⟩⟩

theorem destroyFreelist_spec (hL : Ledger s) (hhost : host ∈ s.hosts) :
    Ledger (destroyFreelist host s) := by
  have hpos : 0 < s.hosts.length := List.length_pos_of_mem hhost
  have husers : s.users ≠ 0 := by
    rw [hL.users]
    omega
  have hall := hL.all
  rw [State.held, if_neg husers] at hall
  have hlen : s.users - 1 = (s.hosts.erase host).length := by
    rw [List.length_erase_of_mem hhost, hL.users]
  unfold destroyFreelist
  dsimp only
  split
  · rename_i hzero
    exact ledger_destroyAll (s := { s with users := s.users - 1, hosts := s.hosts.erase host })
      hlen hzero hall
  · rename_i hzero
    refine ⟨hlen, ?_⟩
    rw [State.held, if_neg hzero]
    exact hall

theorem ledger_step (hL : Ledger s) (hfresh : fresh s call = true) (h : step call s = some s') :
    Ledger s' := by
  unfold step at h
  split at h
  · split at h
    · cases h
    · cases h
      exact (setup_spec hL hfresh).1
  · split at h
    · rename_i hhost
      cases h
      exact destroyFreelist_spec hL hhost
    · cases h

theorem ledger_of_reach (h : Reach step (fun s call => fresh s call = true) initial s) :
    Ledger s := by
  refine h.invariant Ledger ⟨rfl, ?_⟩ fun s call s' hL hfresh hs => ledger_step hL hfresh hs
  exact .nil

theorem Ledger.mem_destroyed (hL : Ledger s) (hzero : s.users = 0) {o : Nat} (ho : o < s.next) :
    o ∈ s.destroyed := by
  have hall := hL.all
  rw [State.held, if_pos hzero, List.append_nil] at hall
  exact hall.mem_iff.mpr (List.mem_range.mpr ho)

end Calls

/-- **Slabs and mempools are destroyed once**, a setup that fails takes back what it has done,
    and without users there are none. -/
theorem pools_destroyed_once {s : State}
    (h : Reach step (fun s call => fresh s call = true) initial s) :
    s.destroyed.Nodup ∧ (∀ o ∈ s.destroyed, o < s.next) ∧
    (s.users = 0 → ∀ o < s.next, o ∈ s.destroyed) ∧
    ∀ host answers, fresh s (.setup host answers) = true → (setup answers host s).2 = false →
      (setup answers host s).1.users = s.users ∧
      ∀ o, s.next ≤ o → o < (setup answers host s).1.next →
        o ∈ (setup answers host s).1.destroyed := by
  have hL := ledger_of_reach h
  have hnodup := hL.all.nodup_iff.mpr List.nodup_range
  refine ⟨(List.nodup_append.mp hnodup).1, fun o ho => ?_, fun hzero o ho => ?_,
    fun host answers hfresh hfailed => ?_⟩
  · exact List.mem_range.mp (hL.all.mem_iff.mp (List.mem_append_left _ ho))
  · exact hL.mem_destroyed hzero ho
  · obtain ⟨hL', hkeeps⟩ := setup_spec hL hfresh
    obtain ⟨husers, hnext⟩ := hkeeps hfailed
    refine ⟨husers, fun o hlow hhigh => ?_⟩
    by_cases hzero : s.users = 0
    · exact hL'.mem_destroyed (husers.trans hzero) hhigh
    · rw [hnext hzero] at hhigh
      omega

/-- Answers that fail for the mempool of the `n`-th size. -/
def failsAt (n : Nat) : Answers :=
  { cmdSlab := true, sgSlab := fun _ => true, sgPool := fun i => decide (i ≠ n), command := true }

/-- Two hosts come and go, after a setup that has failed. -/
theorem pools_destroyed_once_two_hosts :
    ∃ s, Reach step (fun s call => fresh s call = true) initial s ∧ s.next = 15 ∧
      ∀ o < s.next, o ∈ s.destroyed := by
  obtain ⟨s, hs, ho⟩ := exists_reach_of_runIf step fresh
    [.setup 1 (failsAt 0), .setup 1 (failsAt 6), .setup 2 (failsAt 6), .destroy 1, .destroy 2]
    initial (fun s => (s.users, s.next)) (0, 15) (by decide)
  simp only [Prod.mk.injEq] at ho
  exact ⟨s, hs, ho.2, (pools_destroyed_once hs).2.2.1 ho.1⟩

/-- A setup that fails at the first mempool, after all pools were created and destroyed once:
    the label `fail2` destroys the mempools of the first round again. -/
theorem pool_destroyed_twice :
    ∃ s, Reachable step initial s ∧ ¬ s.destroyed.Nodup := by
  obtain ⟨s, hs, ho⟩ := exists_reachable_of_run step
    [.setup 1 (failsAt 6), .destroy 1, .setup 1 (failsAt 0)]
    initial (fun s => decide s.destroyed.Nodup) false (by decide)
  exact ⟨s, hs, of_decide_eq_false ho⟩

end VmkLinux.Scsi.CommandPool
