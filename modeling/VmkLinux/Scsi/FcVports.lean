/-
  VmkLinux/Scsi/FcVports.lean
  ===========================
  **NPIV vports of an FC host** (`vmklinux26/vmware/linux_scsi_transport.c`):
  `vmk_fc_vport_create`, `vmk_fc_vport_terminate` as `vmk_fc_vport_delete` and the work
  `fc_vport_sched_delete` call it, and what `fc_remove_host` does to vports.

  Every section of `host_lock` is one step, and so is every call that is made without it; a
  call of the driver's `vport_delete` begins with one step and ends with another.  A vport is
  named by its number.  The references to `shost_gendev` and to the parent device are listed by
  the vport that holds them; the counts are the lengths of the lists, over what other parts
  hold.

  A pointer is a vport and a number of bytes from its start.  `INIT_WORK` stores the vport in
  `vport_delete_work`, and `fc_vport_sched_delete` takes what it is given for the work itself
  and goes back by its offset (`schedDelete_ptr`): the work calls `vmk_fc_vport_terminate` on
  what lies before the vport.  Such a call has no further steps here.

  `vmk_fc_vport_delete` is given the host that `vmk_fc_vport_create` has returned
  (`args->vport_shost`), and who calls it keeps that host, whose device keeps the vport.
-/
import Mathlib.Algebra.Group.Nat.Defs
import Mathlib.Data.Fin.Tuple.Basic
import VmkLinux.Interleave

namespace VmkLinux.Scsi.Npiv

open VmkLinux.Interleave

/-! ### Vports -/

/-- What does not change: `max_npiv_vports`, which is 16 bits wide, and where
    `vport_delete_work` is in `struct fc_vport`, which begins with `vport_state`. -/
structure Host where
  maxNpivVports : Nat
  max_lt : maxNpivVports < 65536
  deleteWorkOffset : Int
  offset_pos : 0 < deleteWorkOffset

/-- A pointer, `offset` bytes from the start of a vport. -/
structure Ptr where
  vport : Nat
  offset : Int
deriving DecidableEq, Repr

/-- The pointer to a vport. -/
def vportPtr (v : Nat) : Ptr := ⟨v, 0⟩

/-- `container_of(work, struct fc_vport, vport_delete_work)`. -/
def containerOf (H : Host) (work : Ptr) : Ptr := ⟨work.vport, work.offset - H.deleteWorkOffset⟩

/-- The vport that a `struct fc_vport *` points to. -/
def Ptr.deref (p : Ptr) : Option Nat := if p.offset = 0 then some p.vport else none

/-- The flags, and the data of `vport_delete_work`.  `returned` says that
    `vmk_fc_vport_create` has returned the vport, `gone` that the driver's `vport_delete` has
    succeeded. -/
structure Vport where
  creating : Bool := true
  deleting : Bool := false
  deleted : Bool := false
  deleteWorkData : Ptr := ⟨0, 0⟩
  returned : Bool := false
  gone : Bool := false
deriving DecidableEq, Repr

/-- `terminated` are the calls of `vmk_fc_vport_terminate` by the works of vports. -/
structure Shared where
  inuse : Nat
  vports : List Nat
  next : Nat
  vport : Nat → Vport
  hostRefs : List Nat
  parentRefs : List Nat
  removeCalled : Bool
  workQ : List Nat
  running : Option Nat
  terminated : List (Nat × Ptr)

def Shared.upd (s : Shared) (v : Nat) (f : Vport → Vport) : Shared :=
  { s with vport := fun e => if e = v then f (s.vport e) else s.vport e }

inductive Pc where
  -- vmk_fc_vport_create
  | createAlloc
  | createSection
  | createInit
  | createAdd
  | createDriver
  | createClear
  | createReturn
  | createDel
  | createUndo
  | createPut
  | createFailed
  -- vmk_fc_vport_terminate
  | termSection
  | termDriver
  | termEnd
  | termDel
  | termPut
  | termReturn
  -- fc_vport_sched_delete
  | schedDelete
  -- fc_remove_host
  | rmSection
  | rmFlush
  | done
deriving DecidableEq, Repr

/-- `ptr` is the argument of `vmk_fc_vport_terminate`, `stat` that the driver's `vport_delete`
    has failed, and `work` that the thread is the world of the work queue. -/
structure Thread where
  pc : Pc
  vport : Nat := 0
  ptr : Ptr := ⟨0, 0⟩
  stat : Bool := false
  work : Bool := false
deriving DecidableEq, Repr

inductive Call where
  | create
  | delete (vport : Nat)
  | removeHost
  | runWork
deriving DecidableEq, Repr

/-- `fails`: no memory, `device_add` or the driver fails. -/
structure Choice where
  fails : Bool := false
deriving DecidableEq, Repr

/-! ### Steps -/

def enter (call : Call) (s : Shared) : Option (Shared × Thread) :=
  match call with
  | .create => some (s, { pc := .createAlloc })
  | .delete v =>
      if (s.vport v).returned then some (s, { pc := .termSection, ptr := vportPtr v }) else none
  | .removeHost =>
      if s.removeCalled then none
      else some ({ s with removeCalled := true }, { pc := .rmSection })
  | .runWork =>
      match s.running, s.workQ with
      | none, v :: rest =>
          some ({ s with running := some v, workQ := rest },
            { pc := .schedDelete, vport := v, work := true })
      | _, _ => none

/-- `npiv_vports_inuse++` and `npiv_vports_inuse--`, 16 bits wide. -/
def Shared.incInuse (s : Shared) : Nat := (s.inuse + 1) % 65536

def Shared.decInuse (s : Shared) : Nat := (s.inuse + 65535) % 65536

def stepCreate (H : Host) (a : Choice) (s : Shared) (t : Thread) : Option (Shared × Thread) :=
  match t.pc with
  | .createAlloc =>
      if a.fails then some (s, { t with pc := .done })
      else
        -- INIT_WORK(&vport->vport_delete_work, fc_vport_sched_delete, vport)
        some ({ s.upd s.next fun _ => { deleteWorkData := vportPtr s.next } with
            next := s.next + 1 }, { t with pc := .createSection, vport := s.next })
  | .createSection =>
      if H.maxNpivVports ≤ s.inuse then some (s, { t with pc := .createFailed })
      else
        some ({ s with
            inuse := s.incInuse
            vports := s.vports ++ [t.vport]
            hostRefs := s.hostRefs ++ [t.vport] }, { t with pc := .createInit })
  | .createInit =>
      some ({ s with parentRefs := s.parentRefs ++ [t.vport] }, { t with pc := .createAdd })
  | .createAdd =>
      if a.fails then some (s, { t with pc := .createUndo })
      else
        -- device_add takes a reference of its own to the parent
        some ({ s with parentRefs := s.parentRefs ++ [t.vport] }, { t with pc := .createDriver })
  | .createDriver =>
      if a.fails then some (s, { t with pc := .createDel })
      else some (s, { t with pc := .createClear })
  | .createClear =>
      some (s.upd t.vport fun v => { v with creating := false }, { t with pc := .createReturn })
  | .createReturn =>
      some (s.upd t.vport fun v => { v with returned := true }, { t with pc := .done })
  | .createDel =>
      some ({ s with parentRefs := s.parentRefs.erase t.vport }, { t with pc := .createUndo })
  | .createUndo =>
      some ({ s with
          vports := s.vports.erase t.vport
          hostRefs := s.hostRefs.erase t.vport
          inuse := s.decInuse }, { t with pc := .createPut })
  | .createPut =>
      some ({ s with parentRefs := s.parentRefs.erase t.vport }, { t with pc := .createFailed })
  | _ => none

def stepTerminate (a : Choice) (s : Shared) (t : Thread) : Option (Shared × Thread) :=
  match t.ptr.deref with
  | none => none
  | some v =>
      match t.pc with
      | .termSection =>
          if (s.vport v).creating then some (s, { t with pc := .termReturn })
          else if (s.vport v).deleting || (s.vport v).deleted then
            some (s, { t with pc := .termReturn })
          else some (s.upd v fun p => { p with deleting := true }, { t with pc := .termDriver })
      | .termDriver =>
          if a.fails then some (s, { t with pc := .termEnd, stat := true })
          else
            some (s.upd v fun p => { p with gone := true },
              { t with pc := .termEnd, stat := false })
      | .termEnd =>
          if t.stat then
            some (s.upd v fun p => { p with deleting := false }, { t with pc := .termReturn })
          else
            some ({ s.upd v fun p => { p with deleting := false, deleted := true } with
                vports := s.vports.erase v
                inuse := s.decInuse
                hostRefs := s.hostRefs.erase v }, { t with pc := .termDel })
      | .termDel =>
          some ({ s with parentRefs := s.parentRefs.erase v }, { t with pc := .termPut })
      | .termPut =>
          -- fc_vport_dev_release
          some ({ s with parentRefs := s.parentRefs.erase v }, { t with pc := .termReturn })
      | .termReturn =>
          some (if t.work then { s with running := none } else s, { t with pc := .done })
      | _ => none

def stepRemove (H : Host) (s : Shared) (t : Thread) : Option (Shared × Thread) :=
  match t.pc with
  | .schedDelete =>
      let p := containerOf H (s.vport t.vport).deleteWorkData
      some ({ s with terminated := s.terminated ++ [(t.vport, p)] },
        { t with pc := .termSection, ptr := p })
  | .rmSection =>
      -- a work that is on the queue is not queued again
      some ({ s with workQ := s.workQ ++ s.vports.filter fun v => decide (v ∉ s.workQ) },
        { t with pc := .rmFlush })
  | .rmFlush =>
      if s.workQ = [] ∧ s.running = none then some (s, { t with pc := .done }) else none
  | _ => none

def step (H : Host) (a : Choice) (s : Shared) (t : Thread) : Option (Shared × Thread) :=
  match t.pc with
  | .createAlloc | .createSection | .createInit | .createAdd | .createDriver | .createClear
  | .createReturn | .createDel | .createUndo | .createPut => stepCreate H a s t
  | .termSection | .termDriver | .termEnd | .termDel | .termPut | .termReturn =>
      stepTerminate a s t
  | .schedDelete | .rmSection | .rmFlush => stepRemove H s t
  | .createFailed | .done => none

def machine (H : Host) : Machine Shared Thread Call Choice where
  start _ := enter
  act := step H

/-- `vmklnx_fc_host_setup`. -/
def initial : Config Shared Thread where
  shared :=
    { inuse := 0, vports := [], next := 0, vport := fun _ => {}, hostRefs := [], parentRefs := [],
      removeCalled := false, workQ := [], running := none, terminated := [] }
  pool := []

/-! ### Who accounts for a vport -/

/-- The vport was allocated by this call. -/
def Thread.owner (v : Nat) (t : Thread) : Nat :=
  match t.pc with
  | .createSection | .createInit | .createAdd | .createDriver | .createClear | .createReturn
  | .createDel | .createUndo | .createPut | .createFailed => if t.vport = v then 1 else 0
  | _ => 0

/-- The call has the vport on the list, and has not cleared `FC_VPORT_CREATING`. -/
def Thread.listed (v : Nat) (t : Thread) : Nat :=
  match t.pc with
  | .createInit | .createAdd | .createDriver | .createClear | .createDel | .createUndo =>
      if t.vport = v then 1 else 0
  | _ => 0

/-- The references to the parent device that the call has still to drop or to hand over. -/
def Thread.parents (v : Nat) (t : Thread) : Nat :=
  match t.pc with
  | .createDriver | .createClear | .createDel => if t.vport = v then 2 else 0
  | .createAdd | .createUndo | .createPut => if t.vport = v then 1 else 0
  | .termDel => if t.ptr.deref = some v then 2 else 0
  | .termPut => if t.ptr.deref = some v then 1 else 0
  | _ => 0

/-- The call has set `FC_VPORT_DELETING`. -/
def Thread.deletes (v : Nat) (t : Thread) : Nat :=
  match t.pc with
  | .termDriver | .termEnd => if t.ptr.deref = some v then 1 else 0
  | _ => 0

/-- The driver's `vport_delete` has returned zero to the call. -/
def Thread.succeeds (v : Nat) (t : Thread) : Nat :=
  match t.pc with
  | .termEnd => if t.stat = false ∧ t.ptr.deref = some v then 1 else 0
  | _ => 0

/-- The vport is created and not deleted. -/
def Vport.kept (p : Vport) : Nat := if p.creating || p.deleted then 0 else 1

/-- The list, the counter and the references.  `sum w` is the sum of `w` over all calls. -/
structure Account (H : Host) (s : Shared) (sum : (Thread → Nat) → Nat) : Prop where
  counter : s.inuse = s.vports.length ∧ s.inuse ≤ H.maxNpivVports
  listed : ∀ v, s.vports.count v = sum (Thread.listed v) + (s.vport v).kept
  host : s.hostRefs = s.vports
  parents : ∀ v, s.parentRefs.count v = sum (Thread.parents v) + 2 * (s.vport v).kept
  owner : ∀ v, sum (Thread.owner v) ≤ 1
  fresh : ∀ v, s.next ≤ v → sum (Thread.owner v) = 0 ∧ s.vport v = {}

/-- The flags and the calls of the driver's `vport_delete`. -/
structure Flags (s : Shared) (sum : (Thread → Nat) → Nat) : Prop where
  deleting : ∀ v, sum (Thread.deletes v) = (s.vport v).deleting.toNat
  gone : ∀ v, (s.vport v).gone.toNat = (s.vport v).deleted.toNat + sum (Thread.succeeds v)
  alive : ∀ v, (s.vport v).deleting = true →
    (s.vport v).creating = false ∧ (s.vport v).deleted = false
  created : ∀ v, (s.vport v).deleted = true → (s.vport v).creating = false

/-- What a call knows of its vport. -/
structure Knows (s : Shared) (t : Thread) : Prop where
  creating : t.pc = .createReturn ∨ t.owner t.vport = 0 ∨ (s.vport t.vport).creating = true
  deleted : ∀ v, t.pc = .termDel ∨ t.pc = .termPut → t.ptr.deref = some v →
    (s.vport v).deleted = true

section Step

variable {H : Host} {a : Choice} {s s' : Shared} {t t' : Thread} {sum : (Thread → Nat) → Nat}

theorem succeeds_le_deletes (v : Nat) (t : Thread) : t.succeeds v ≤ t.deletes v := by
  unfold Thread.succeeds Thread.deletes
  cases t.pc
  all_goals simp only [Nat.le_refl, Nat.zero_le]
  split
  · rename_i h
    simp [h.2]
  · exact Nat.zero_le _

theorem step_flags (hsum : Mono sum) (h : step H a s t = some (s', t'))
    (hI : Flags s fun w => sum w + w t) (hA : Account H s fun w => sum w + w t) :
    Flags s' fun w => sum w + w t' := by
  obtain ⟨hdeleting, hgone, halive, hcreated⟩ := hI
  have hfresh := hA.fresh
  have hle := fun v => hsum _ _ (succeeds_le_deletes v)
  unfold step at h
  cases hpc : t.pc
  all_goals simp only [hpc, reduceCtorEq] at h
  all_goals simp only [stepCreate, stepTerminate, stepRemove, hpc] at h
  all_goals repeat' split at h
  all_goals simp only [Option.some.injEq, Prod.mk.injEq, reduceCtorEq] at h
  all_goals obtain ⟨rfl, rfl⟩ := h
  all_goals simp only [Thread.deletes, Thread.succeeds, hpc, Nat.add_zero] at hdeleting hgone
  all_goals constructor
  all_goals try simp only [Thread.deletes, Thread.succeeds, Shared.upd]
  all_goals first
    | assumption
    | grind -linarith [Bool.toNat]

/-- The call that has the vport on the list, or that deletes it, finds it there. -/
theorem step_counter (h : step H a s t = some (s', t')) (hI : Account H s fun w => sum w + w t)
    (hF : Flags s fun w => sum w + w t) :
    (s'.inuse = s'.vports.length ∧ s'.inuse ≤ H.maxNpivVports) ∧ s'.hostRefs = s'.vports := by
  obtain ⟨⟨hcounter, hmax⟩, hlisted, hhost, -, -, -⟩ := hI
  have hlt := H.max_lt
  have herase : ∀ v, 0 < s.vports.count v → (s.vports.erase v).length + 1 = s.vports.length := by
    intro v hpos
    have hv := List.count_pos_iff.mp hpos
    rw [List.length_erase_of_mem hv]
    exact Nat.sub_add_cancel (List.length_pos_of_mem hv)
  have hundo : t.pc = .createUndo → 0 < s.vports.count t.vport := by
    intro hpc
    rw [hlisted t.vport]
    simp only [Thread.listed, hpc, if_true]
    omega
  have hend : ∀ v, t.pc = .termEnd → t.ptr.deref = some v → 0 < s.vports.count v := by
    intro v hpc hv
    have hdeleting := hF.deleting v
    simp only [Thread.deletes, hpc, hv, if_true] at hdeleting
    have htrue : (s.vport v).deleting = true := by
      by_contra hfalse
      rw [Bool.not_eq_true] at hfalse
      simp only [hfalse, Bool.toNat_false] at hdeleting
      omega
    obtain ⟨hcreating, hdeleted⟩ := hF.alive v htrue
    rw [hlisted v]
    simp only [Vport.kept, hcreating, hdeleted, Bool.or_self, Bool.false_eq_true, if_false]
    omega
  unfold step at h
  cases hpc : t.pc
  all_goals simp only [hpc, reduceCtorEq] at h
  all_goals simp only [stepCreate, stepTerminate, stepRemove, hpc] at h
  all_goals repeat' split at h
  all_goals simp only [Option.some.injEq, Prod.mk.injEq, reduceCtorEq] at h
  all_goals obtain ⟨rfl, rfl⟩ := h
  all_goals simp only [Shared.upd, hhost, and_true]
  all_goals try with_reducible exact ⟨hcounter, hmax⟩
  · simp only [Shared.incInuse, List.length_append, List.length_singleton]
    omega
  · have hlength := herase _ (hundo hpc)
    simp only [Shared.decInuse]
    omega
  · rename_i v hv hstat
    have hlength := herase _ (hend v hpc hv)
    simp only [Shared.decInuse]
    omega

theorem step_listed (h : step H a s t = some (s', t')) (hI : Account H s fun w => sum w + w t)
    (hF : Flags s fun w => sum w + w t) (hK : Knows s t) (v : Nat) :
    s'.vports.count v = sum (Thread.listed v) + t'.listed v + (s'.vport v).kept := by
  have hlisted := hI.listed v
  have hfresh := hI.fresh v
  have hdeleting := hF.deleting v
  have halive := hF.alive v
  have hcreated := hF.created v
  have hcreating := hK.creating
  unfold step at h
  cases hpc : t.pc
  all_goals simp only [hpc, reduceCtorEq] at h
  all_goals simp only [stepCreate, stepTerminate, stepRemove, hpc] at h
  all_goals repeat' split at h
  all_goals simp only [Option.some.injEq, Prod.mk.injEq, reduceCtorEq] at h
  all_goals obtain ⟨rfl, rfl⟩ := h
  all_goals simp only [Thread.listed, Thread.owner, Thread.deletes, Vport.kept, hpc, Nat.add_zero,
    if_true, reduceCtorEq] at hlisted hfresh hdeleting hcreating
  all_goals simp only [Thread.listed, Shared.upd, Vport.kept]
  all_goals first
    | assumption
    | grind -linarith [Bool.toNat, List.count_singleton]

theorem step_parents (h : step H a s t = some (s', t')) (hI : Account H s fun w => sum w + w t)
    (hF : Flags s fun w => sum w + w t) (hK : Knows s t) (v : Nat) :
    s'.parentRefs.count v = sum (Thread.parents v) + t'.parents v + 2 * (s'.vport v).kept := by
  have hparents := hI.parents v
  have hfresh := hI.fresh v
  have hdeleting := hF.deleting v
  have halive := hF.alive v
  have hcreated := hF.created v
  have hcreating := hK.creating
  have hdeleted := hK.deleted v
  unfold step at h
  cases hpc : t.pc
  all_goals simp only [hpc, reduceCtorEq] at h
  all_goals simp only [stepCreate, stepTerminate, stepRemove, hpc] at h
  all_goals repeat' split at h
  all_goals simp only [Option.some.injEq, Prod.mk.injEq, reduceCtorEq] at h
  all_goals obtain ⟨rfl, rfl⟩ := h
  all_goals simp only [Thread.parents, Thread.owner, Thread.deletes, Vport.kept, hpc, Nat.add_zero,
    if_true, reduceCtorEq] at hparents hfresh hdeleting hcreating hdeleted
  all_goals simp only [Thread.parents, Shared.upd, Vport.kept]
  all_goals first
    | assumption
    | grind -linarith [Bool.toNat, List.count_singleton]

theorem step_owner (h : step H a s t = some (s', t')) (hI : Account H s fun w => sum w + w t)
    (hF : Flags s fun w => sum w + w t) (v : Nat) :
    sum (Thread.owner v) + t'.owner v ≤ 1 ∧
      (s'.next ≤ v → sum (Thread.owner v) + t'.owner v = 0 ∧ s'.vport v = {}) := by
  have howner := hI.owner v
  have hfresh := hI.fresh v
  have hdeleting := hF.deleting v
  unfold step at h
  cases hpc : t.pc
  all_goals simp only [hpc, reduceCtorEq] at h
  all_goals simp only [stepCreate, stepTerminate, stepRemove, hpc] at h
  all_goals repeat' split at h
  all_goals simp only [Option.some.injEq, Prod.mk.injEq, reduceCtorEq] at h
  all_goals obtain ⟨rfl, rfl⟩ := h
  all_goals simp only [Thread.owner, Thread.deletes, hpc, Nat.add_zero] at howner hfresh hdeleting
  all_goals simp only [Thread.owner, Shared.upd]
  all_goals grind -linarith [Bool.toNat]

theorem step_account (h : step H a s t = some (s', t')) (hI : Account H s fun w => sum w + w t)
    (hF : Flags s fun w => sum w + w t) (hK : Knows s t) :
    Account H s' fun w => sum w + w t' :=
  { counter := (step_counter h hI hF).1
    listed := step_listed h hI hF hK
    host := (step_counter h hI hF).2
    parents := step_parents h hI hF hK
    owner := fun v => (step_owner h hI hF v).1
    fresh := fun v => (step_owner h hI hF v).2 }

/-- Only the call that creates a vport clears `FC_VPORT_CREATING`, and nothing clears
    `FC_VPORT_DELETED`. -/
theorem step_vport (h : step H a s t = some (s', t')) (hI : Account H s fun w => sum w + w t)
    (v : Nat) :
    ((s.vport v).creating = true → (s'.vport v).creating = true ∨ t.owner v = 1) ∧
      ((s.vport v).deleted = true → (s'.vport v).deleted = true) := by
  have hfresh := hI.fresh v
  unfold step at h
  cases hpc : t.pc
  all_goals simp only [hpc, reduceCtorEq] at h
  all_goals simp only [stepCreate, stepTerminate, stepRemove, hpc] at h
  all_goals repeat' split at h
  all_goals simp only [Option.some.injEq, Prod.mk.injEq, reduceCtorEq] at h
  all_goals obtain ⟨rfl, rfl⟩ := h
  all_goals simp only [Thread.owner, hpc, Nat.add_zero, Shared.upd] at hfresh ⊢
  all_goals grind -linarith

theorem step_knows (h : step H a s t = some (s', t')) (hK : Knows s t) : Knows s' t' := by
  obtain ⟨hcreating, hdeleted⟩ := hK
  unfold step at h
  cases hpc : t.pc
  all_goals simp only [hpc, reduceCtorEq] at h
  all_goals simp only [stepCreate, stepTerminate, stepRemove, hpc] at h
  all_goals repeat' split at h
  all_goals simp only [Option.some.injEq, Prod.mk.injEq, reduceCtorEq] at h
  all_goals obtain ⟨rfl, rfl⟩ := h
  all_goals simp only [Thread.owner, hpc, if_true, reduceCtorEq] at hcreating hdeleted
  all_goals constructor
  all_goals simp only [Thread.owner, Shared.upd]
  all_goals grind -linarith

/-- A call that creates a vport leaves the entries of all others alone. -/
theorem step_create_others (h : step H a s t = some (s', t')) (ht : t.owner t.vport = 1) {v : Nat}
    (hv : v ≠ t.vport) :
    s'.vports.count v = s.vports.count v ∧ s'.hostRefs.count v = s.hostRefs.count v ∧
      s'.parentRefs.count v = s.parentRefs.count v := by
  unfold step at h
  cases hpc : t.pc
  all_goals simp only [hpc, reduceCtorEq] at h
  all_goals simp only [Thread.owner, hpc, reduceCtorEq] at ht
  all_goals simp only [stepCreate, hpc] at h
  all_goals repeat' split at h
  all_goals simp only [Option.some.injEq, Prod.mk.injEq] at h
  all_goals obtain ⟨rfl, rfl⟩ := h
  all_goals simp only [Shared.upd]
  all_goals grind -linarith [List.count_singleton]

end Step

/-! ### Whole runs -/

structure Inv (H : Host) (c : Config Shared Thread) : Prop where
  account : Account H c.shared fun w => total w c.pool
  flags : Flags c.shared fun w => total w c.pool
  knows : ∀ t ∈ c.pool, Knows c.shared t

theorem enter_weights {call : Call} {s s' : Shared} {t : Thread}
    (h : enter call s = some (s', t)) :
    (∀ v, t.owner v = 0 ∧ t.listed v = 0 ∧ t.parents v = 0 ∧ t.deletes v = 0 ∧
        t.succeeds v = 0) ∧ t.pc ≠ .termDel ∧ t.pc ≠ .termPut ∧ s'.vports = s.vports ∧
      s'.inuse = s.inuse ∧ s'.next = s.next ∧ s'.vport = s.vport ∧ s'.hostRefs = s.hostRefs ∧
      s'.parentRefs = s.parentRefs := by
  cases call
  all_goals simp only [enter] at h
  all_goals repeat' split at h
  all_goals simp only [Option.some.injEq, Prod.mk.injEq, reduceCtorEq] at h
  all_goals obtain ⟨rfl, rfl⟩ := h
  all_goals simp [Thread.owner, Thread.listed, Thread.parents, Thread.deletes, Thread.succeeds]

theorem inv_enter {H : Host} {c : Config Shared Thread} {call : Call} {s : Shared} {t : Thread}
    (h : enter call c.shared = some (s, t)) (hI : Inv H c) : Inv H ⟨s, c.pool ++ [t]⟩ := by
  obtain ⟨hzero, hdel, hput, hvports, hinuse, hnext, hvport, hhost, hparents⟩ := enter_weights h
  obtain ⟨hA, hF, hK⟩ := hI
  refine ⟨⟨?_, ?_, ?_, ?_, ?_, ?_⟩, ⟨?_, ?_, ?_, ?_⟩, ?_⟩
  all_goals simp only [total_append, hzero, Nat.add_zero, hvports, hinuse, hnext, hvport, hhost,
    hparents]
  · exact hA.counter
  · exact hA.listed
  · exact hA.host
  · exact hA.parents
  · exact hA.owner
  · exact hA.fresh
  · exact hF.deleting
  · exact hF.gone
  · exact hF.alive
  · exact hF.created
  · intro u hu
    rcases List.mem_append.mp hu with hu | hu
    · exact ⟨hvport ▸ (hK u hu).creating, hvport ▸ (hK u hu).deleted⟩
    · rw [List.mem_singleton.mp hu]
      exact ⟨.inr (.inl (hzero _).1), fun v hpc => by simp [hdel, hput] at hpc⟩

theorem inv_step {H : Host} {c : Config Shared Thread} {i : Nat} {a : Choice} {s : Shared}
    {t t' : Thread} (hi : c.pool[i]? = some t) (h : step H a c.shared t = some (s, t'))
    (hI : Inv H c) : Inv H ⟨s, c.pool.set i t'⟩ := by
  obtain ⟨hA, hF, hK⟩ := hI
  have ht := hK t (List.mem_of_getElem? hi)
  simp only [total_eq_others _ hi] at hA hF
  refine ⟨?_, ?_, fun u hu => ?_⟩
  · simp only [total_set _ _ hi]
    exact step_account h hA hF ht
  · simp only [total_set _ _ hi]
    exact step_flags (mono_others _ _) h hF hA
  · obtain ⟨j, hj⟩ := List.mem_iff_getElem?.mp hu
    by_cases hji : j = i
    · subst hji
      rw [List.getElem?_set_self (List.getElem?_eq_some_iff.mp hi).1, Option.some.injEq] at hj
      subst hj
      exact step_knows h ht
    · rw [List.getElem?_set_ne (Ne.symm hji)] at hj
      have hu := hK u (List.mem_of_getElem? hj)
      obtain ⟨hcreating, -⟩ := step_vport h hA u.vport
      refine ⟨?_, fun v hpc hv => (step_vport h hA v).2 (hu.deleted v hpc hv)⟩
      rcases hu.creating with hreturn | howner | hflag
      · exact .inl hreturn
      · exact .inr (.inl howner)
      · rcases hcreating hflag with hflag' | hone
        · exact .inr (.inr hflag')
        · -- the vport has one owner
          have hle := le_others (Thread.owner u.vport) hji hj
          have hmost := hA.owner u.vport
          refine .inr (.inl ?_)
          omega

theorem reachable_inv {H : Host} {c : Config Shared Thread}
    (h : (machine H).Reachable initial c) : Inv H c := by
  refine Machine.Reach.invariant (Inv H) ?_ ?_ ?_ h
  · refine ⟨⟨?_, ?_, ?_, ?_, ?_, ?_⟩, ⟨?_, ?_, ?_, ?_⟩, ?_⟩
    all_goals simp [initial, Vport.kept]
  · intro c call s t _ hI _ hs
    exact inv_enter hs hI
  · intro c i a t s t' _ hI _ hi hs
    exact inv_step hi hs hI

/-! ### The work of a vport -/

/-- What `fc_vport_sched_delete` makes of the vport is no vport. -/
theorem schedDelete_ptr (H : Host) (v : Nat) : (containerOf H (vportPtr v)).deref = none := by
  have hpos := H.offset_pos
  refine if_neg ?_
  simp only [containerOf, vportPtr]
  omega

/-- Where the work of a vport is, and what it has done. -/
structure Works (H : Host) (c : Config Shared Thread) : Prop where
  data : ∀ v, v < c.shared.next → (c.shared.vport v).deleteWorkData = vportPtr v
  queued : ∀ v ∈ c.shared.workQ, v < c.shared.next
  running : ∀ t ∈ c.pool, t.pc = .schedDelete → t.vport < c.shared.next
  calls : ∀ p ∈ c.shared.terminated, p.2 = containerOf H (vportPtr p.1)

section Works

variable {H : Host} {a : Choice} {s s' : Shared} {t t' : Thread}

theorem step_works (h : step H a s t = some (s', t'))
    (hdata : ∀ v, v < s.next → (s.vport v).deleteWorkData = vportPtr v)
    (hqueued : ∀ v ∈ s.workQ, v < s.next) (hrunning : t.pc = .schedDelete → t.vport < s.next)
    (hcalls : ∀ p ∈ s.terminated, p.2 = containerOf H (vportPtr p.1))
    (hlisted : ∀ v ∈ s.vports, v < s.next) :
    s.next ≤ s'.next ∧ t'.pc ≠ .schedDelete ∧
      (∀ v, v < s'.next → (s'.vport v).deleteWorkData = vportPtr v) ∧
      (∀ v ∈ s'.workQ, v < s'.next) ∧
      ∀ p ∈ s'.terminated, p.2 = containerOf H (vportPtr p.1) := by
  unfold step at h
  cases hpc : t.pc
  all_goals simp only [hpc, reduceCtorEq] at h
  all_goals simp only [stepCreate, stepTerminate, stepRemove, hpc] at h
  all_goals repeat' split at h
  all_goals simp only [Option.some.injEq, Prod.mk.injEq, reduceCtorEq] at h
  all_goals obtain ⟨rfl, rfl⟩ := h
  all_goals simp only [Shared.upd]
  all_goals grind -linarith

/-- A step that does not find vports to queue leaves the queue empty. -/
theorem step_quiet (h : step H a s t = some (s', t')) (hpc : t.pc ≠ .schedDelete)
    (hsection : t.pc = .rmSection → s.vports = []) (hq : s.workQ = []) :
    s'.workQ = [] ∧ s'.terminated = s.terminated ∧ t'.pc ≠ .schedDelete := by
  unfold step at h
  cases hpc' : t.pc
  all_goals simp only [hpc', reduceCtorEq] at h
  case schedDelete => exact absurd hpc' hpc
  all_goals simp only [stepCreate, stepTerminate, stepRemove, hpc'] at h
  all_goals repeat' split at h
  all_goals simp only [Option.some.injEq, Prod.mk.injEq, reduceCtorEq] at h
  all_goals obtain ⟨rfl, rfl⟩ := h
  all_goals simp [Shared.upd, hq, hsection, hpc']

theorem enter_quiet {call : Call} (h : enter call s = some (s', t)) (hq : s.workQ = []) :
    s'.workQ = [] ∧ s'.terminated = s.terminated ∧ t.pc ≠ .schedDelete := by
  cases call
  all_goals simp only [enter] at h
  all_goals repeat' split at h
  all_goals simp only [Option.some.injEq, Prod.mk.injEq, reduceCtorEq] at h
  all_goals obtain ⟨rfl, rfl⟩ := h
  all_goals simp_all

end Works

theorem listed_le_owner (v : Nat) (t : Thread) : t.listed v ≤ t.owner v := by
  unfold Thread.listed Thread.owner
  cases t.pc
  all_goals simp

theorem Account.listed_lt {H : Host} {s : Shared} {pool : List Thread} {v : Nat}
    (hA : Account H s fun w => total w pool) (hv : v ∈ s.vports) : v < s.next := by
  by_contra hge
  obtain ⟨howner, hfresh⟩ := hA.fresh v (Nat.le_of_not_lt hge)
  have hcount := hA.listed v
  have hpos := List.count_pos_iff.mpr hv
  have hsum : total (Thread.listed v) pool ≤ total (Thread.owner v) pool := 
    mono_total pool _ _ (listed_le_owner v)
  simp only [hfresh, Vport.kept, Bool.true_or, if_true] at hcount
  omega

theorem reachable_works {H : Host} {c : Config Shared Thread}
    (h : (machine H).Reachable initial c) : Works H c := by
  refine Machine.Reach.invariant (Works H) ?_ ?_ ?_ h
  · constructor
    all_goals simp [initial]
  · intro c call s t _ hI _ hs
    obtain ⟨hdata, hqueued, hrunning, hcalls⟩ := hI
    change enter call c.shared = some (s, t) at hs
    cases call
    all_goals simp only [enter] at hs
    all_goals repeat' split at hs
    all_goals simp only [Option.some.injEq, Prod.mk.injEq, reduceCtorEq] at hs
    all_goals obtain ⟨rfl, rfl⟩ := hs
    all_goals refine ⟨hdata, ?_, ?_, hcalls⟩
    all_goals grind -linarith
  · intro c i a t s t' hc hI _ hi hs
    have ht := List.mem_of_getElem? hi
    obtain ⟨hnext, hpc, hdata, hqueued, hcalls⟩ := step_works hs hI.data hI.queued
      (hI.running t ht) hI.calls (fun v hv => (reachable_inv hc).account.listed_lt hv)
    refine ⟨hdata, hqueued, fun u hu hsched => ?_, hcalls⟩
    rcases List.mem_or_eq_of_mem_set hu with hu | rfl
    · exact Nat.lt_of_lt_of_le (hI.running u hu hsched) hnext
    · exact absurd hsched hpc

/-- In every run, a work that calls `vmk_fc_vport_terminate` passes no vport. -/
theorem terminated_deref {H : Host} {c : Config Shared Thread}
    (h : (machine H).Reachable initial c) : ∀ p ∈ c.shared.terminated, p.2.deref = none := by
  intro p hp
  rw [(reachable_works h).calls p hp]
  exact schedDelete_ptr H p.1

/-- `fc_remove_host` finds no vport on the list. -/
def removesNone (c : Config Shared Thread) : Event Call Choice → Bool
  | .start _ => true
  | .act i _ =>
      match c.pool[i]? with
      | some t => decide (t.pc = .rmSection → c.shared.vports = [])
      | none => true

theorem reach_quiet {H : Host} {c : Config Shared Thread}
    (h : (machine H).Reach (fun c e => removesNone c e = true) initial c) :
    c.shared.workQ = [] ∧ c.shared.terminated = [] ∧ ∀ t ∈ c.pool, t.pc ≠ .schedDelete := by
  refine Machine.Reach.invariant (fun c => c.shared.workQ = [] ∧ c.shared.terminated = [] ∧
    ∀ t ∈ c.pool, t.pc ≠ .schedDelete) ?_ ?_ ?_ h
  · simp [initial]
  · intro c call s t _ ⟨hq, hcalls, hpool⟩ _ hs
    obtain ⟨hq', hcalls', hpc⟩ := enter_quiet hs hq
    refine ⟨hq', hcalls'.trans hcalls, fun u hu => ?_⟩
    rcases List.mem_append.mp hu with hu | hu
    · exact hpool u hu
    · rw [List.mem_singleton.mp hu]
      exact hpc
  · intro c i a t s t' _ ⟨hq, hcalls, hpool⟩ hok hi hs
    simp only [removesNone, hi, decide_eq_true_eq] at hok
    obtain ⟨hq', hcalls', hpc⟩ := step_quiet hs (hpool t (List.mem_of_getElem? hi)) hok hq
    refine ⟨hq', hcalls'.trans hcalls, fun u hu => ?_⟩
    rcases List.mem_or_eq_of_mem_set hu with hu | rfl
    · exact hpool u hu
    · exact hpc

/-! ### The lifecycle of a vport -/

section Lifecycle

variable {H : Host} {c : Config Shared Thread} {i j v : Nat} {t u : Thread}

/-- The reference of a call to the parent device is of the call that creates the vport, or of
    one that has deleted it. -/
theorem parents_cases (h : 0 < t.parents v) :
    t.owner v = 1 ∨ ((t.pc = .termDel ∨ t.pc = .termPut) ∧ t.ptr.deref = some v) := by
  unfold Thread.parents at h
  unfold Thread.owner
  cases hpc : t.pc
  all_goals simp only [hpc] at h ⊢
  all_goals grind -linarith

theorem Inv.failed (hI : Inv H c) (ht : t ∈ c.pool) (hpc : t.pc = .createFailed) :
    t.vport ∉ c.shared.vports ∧ t.vport ∉ c.shared.hostRefs ∧ t.vport ∉ c.shared.parentRefs := by
  obtain ⟨i, hi⟩ := List.mem_iff_getElem?.mp ht
  have hcreating : (c.shared.vport t.vport).creating = true := by
    simpa [hpc, Thread.owner] using (hI.knows t ht).creating
  have hkept : (c.shared.vport t.vport).kept = 0 := by simp [Vport.kept, hcreating]
  -- nobody else has the vport
  have hothers : ∀ u ∈ c.pool, u = t ∨ u.owner t.vport = 0 := by
    intro u hu
    obtain ⟨j, hj⟩ := List.mem_iff_getElem?.mp hu
    by_cases hji : j = i
    · subst hji
      rw [hi, Option.some.injEq] at hj
      exact .inl hj.symm
    · have hle := le_others (Thread.owner t.vport) hji hj
      have hmost := hI.account.owner t.vport
      simp only [total_eq_others _ hi] at hmost
      have hone : t.owner t.vport = 1 := by simp [Thread.owner, hpc]
      exact .inr (by omega)
  have hlisted : c.shared.vports.count t.vport = 0 := by
    rw [hI.account.listed, hkept]
    refine total_eq_zero (fun u hu => ?_)
    rcases hothers u hu with rfl | hzero
    · simp [Thread.listed, hpc]
    · exact Nat.le_zero.mp (hzero ▸ listed_le_owner t.vport u)
  have hparents : c.shared.parentRefs.count t.vport = 0 := by
    rw [hI.account.parents, hkept]
    refine total_eq_zero (fun u hu => ?_)
    by_contra hpos
    rcases parents_cases (Nat.pos_of_ne_zero hpos) with hone | ⟨hterm, hderef⟩
    · rcases hothers u hu with rfl | hzero
      · simp [Thread.parents, hpc] at hpos
      · omega
    · have hdeleted := (hI.knows u hu).deleted t.vport hterm hderef
      rw [hI.flags.created t.vport hdeleted] at hcreating
      cases hcreating
  rw [hI.account.host]
  exact ⟨List.count_eq_zero.mp hlisted, List.count_eq_zero.mp hlisted,
    List.count_eq_zero.mp hparents⟩

/-- The driver's `vport_delete` is in progress for the vport. -/
def Thread.inDriver (t : Thread) (v : Nat) : Prop := t.pc = .termDriver ∧ t.ptr.deref = some v

theorem deletes_of_inDriver (h : t.inDriver v) : t.deletes v = 1 ∧ t.succeeds v = 0 := by
  simp [Thread.deletes, Thread.succeeds, h.1, h.2]

theorem Inv.delete_once (hI : Inv H c) (hi : c.pool[i]? = some t) (hj : c.pool[j]? = some u)
    (ht : t.inDriver v) (hu : u.inDriver v) : i = j := by
  by_contra hij
  have hle := le_others (Thread.deletes v) (Ne.symm hij) hj
  have hsum := hI.flags.deleting v
  have hbool := Bool.toNat_le (c.shared.vport v).deleting
  simp only [total_eq_others _ hi, deletes_of_inDriver ht] at hsum
  rw [(deletes_of_inDriver hu).1] at hle
  omega

theorem Inv.not_gone (hI : Inv H c) (hi : c.pool[i]? = some t) (ht : t.inDriver v) :
    (c.shared.vport v).gone = false := by
  obtain ⟨hdeletes, hsucceeds⟩ := deletes_of_inDriver ht
  have hsum := hI.flags.deleting v
  have hgone := hI.flags.gone v
  have hle := mono_others c.pool i _ _ (succeeds_le_deletes v)
  have hbool := Bool.toNat_le (c.shared.vport v).deleting
  simp only [total_eq_others _ hi, hdeletes, hsucceeds] at hsum hgone hle
  have hdeleting : (c.shared.vport v).deleting = true := by
    by_contra hfalse
    rw [Bool.not_eq_true] at hfalse
    simp [hfalse] at hsum
  rw [(hI.flags.alive v hdeleting).2] at hgone
  cases hflag : (c.shared.vport v).gone
  · rfl
  · simp only [hflag, Bool.toNat_true, Bool.toNat_false] at hgone
    omega

end Lifecycle

/-- **The lifecycle of a vport.**  In every run in which `fc_remove_host` finds no vport on the
    list: the counter is the number of vports on the list, and within the maximum; a call of
    `vmk_fc_vport_create` changes the entries of its own vport only, and when it has failed
    there are none, on the list and among the references to the host and to the parent; the
    driver's `vport_delete` is in progress for a vport at most once, and never after it
    succeeded; and a work that has called `vmk_fc_vport_terminate` has passed its vport. -/
theorem vport_lifecycle (H : Host) {c : Config Shared Thread}
    (h : (machine H).Reach (fun c e => removesNone c e = true) initial c) :
    (c.shared.inuse = c.shared.vports.length ∧ c.shared.inuse ≤ H.maxNpivVports) ∧
    (∀ t ∈ c.pool, t.pc = .createFailed → t.vport ∉ c.shared.vports ∧
      t.vport ∉ c.shared.hostRefs ∧ t.vport ∉ c.shared.parentRefs) ∧
    (∀ a s t t', t ∈ c.pool → t.owner t.vport = 1 → step H a c.shared t = some (s, t') →
      ∀ v, v ≠ t.vport → s.vports.count v = c.shared.vports.count v ∧
        s.hostRefs.count v = c.shared.hostRefs.count v ∧
        s.parentRefs.count v = c.shared.parentRefs.count v) ∧
    (∀ (i j : Nat) (t u : Thread) (v : Nat), c.pool[i]? = some t → c.pool[j]? = some u →
      t.inDriver v → u.inDriver v → i = j) ∧
    (∀ t ∈ c.pool, ∀ v, t.inDriver v → (c.shared.vport v).gone = false) ∧
    (∀ p ∈ c.shared.terminated, p.2 = vportPtr p.1) := by
  have hI := reachable_inv h.reachable
  refine ⟨hI.account.counter, fun t ht hpc => hI.failed ht hpc,
    fun a s t t' _ howner hs v hv => step_create_others hs howner hv,
    fun i j t u v hi hj ht hu => hI.delete_once hi hj ht hu, fun t ht v hdriver => ?_,
    fun p hp => ?_⟩
  · obtain ⟨i, hi⟩ := List.mem_iff_getElem?.mp ht
    exact hI.not_gone hi hdriver
  · rw [(reach_quiet h).2.1] at hp
    cases hp

/-- Room for one vport. -/
def oneVport : Host where
  maxNpivVports := 1
  max_lt := by decide
  deleteWorkOffset := 672
  offset_pos := by decide

/-- Thread `i` takes `k` steps in which nothing fails. -/
def acts (i k : Nat) : List (Event Call Choice) := List.replicate k (.act i {})

/-- A vport is created; a second does not fit; the first is deleted by one of two calls, and the
    host goes away while a third vport is not on the list yet. -/
theorem vport_lifecycle_two_deletes :
    ∃ c, (machine oneVport).Reach (fun c e => removesNone c e = true) initial c ∧
      (c.shared.inuse = c.shared.vports.length ∧ c.shared.inuse ≤ oneVport.maxNpivVports) ∧
      1 ∉ c.shared.vports ∧ (c.shared.vport 0).gone = true ∧ c.shared.removeCalled = true := by
  obtain ⟨c, hc, ho⟩ := (machine oneVport).exists_reach_of_runIf removesNone
    (List.flatten [[.start .create], acts 0 7, [.start .create], acts 1 2,
      [.start (.delete 0), .start (.delete 0)], acts 2 1, acts 3 2, acts 2 5,
      [.start .create], acts 4 1, [.start .removeHost], acts 5 2])
    initial (fun c => ((c.shared.vport 0).gone, c.shared.removeCalled,
      (c.pool[1]?).map fun t => (t.pc, t.vport)))
    (true, true, some (.createFailed, 1)) (by decide)
  simp only [Prod.mk.injEq, Option.map_eq_some_iff] at ho
  obtain ⟨hgone, hcalled, t, ht, hpc, hv⟩ := ho
  obtain ⟨hcounter, hfailed, -⟩ := vport_lifecycle oneVport hc
  have hlist := (hfailed t (List.mem_of_getElem? ht) hpc).1
  rw [hv] at hlist
  exact ⟨c, hc, hcounter, hlist, hgone, hcalled⟩

/-- `fc_remove_host` queues the work of a vport, which calls `vmk_fc_vport_terminate` on what
    lies before it. -/
theorem vport_work_misses :
    ∃ c, (machine oneVport).Reachable initial c ∧
      ∃ p ∈ c.shared.terminated, p.2 ≠ vportPtr p.1 ∧ p.2.deref = none := by
  obtain ⟨c, hc, ho⟩ := (machine oneVport).exists_reachable_of_run
    (List.flatten [[.start .create], acts 0 7, [.start .removeHost], acts 1 1,
      [.start .runWork], acts 2 1])
    initial (fun c => c.shared.terminated) [(0, ⟨0, -672⟩)] (by decide)
  exact ⟨c, hc, (0, ⟨0, -672⟩), by simp [ho], by decide, by decide⟩

end VmkLinux.Scsi.Npiv
