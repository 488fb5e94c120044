/-
  VmkLinux/Scsi/SasRphy.lean
  ==========================
  **Remote PHYs of a SAS host** (`vmklinux26/vmware/linux_scsi_transport.c`):
  `sas_end_device_alloc`, `sas_expander_alloc`, `sas_rphy_add` with `sas_assign_scsi_target_id`,
  `sas_rphy_delete`, `sas_rphy_free`, `sas_port_delete` and `sas_find_rphy`.

  A deleted rphy waits on `freed_rphy_list` for one with its address, which takes over its
  target id.  Three things go wrong.  The list is searched by the address alone, and what waits
  there may be an expander or an end device without a target id; `sas_find_rphy` takes an
  expander with the same number for the end device; and `sas_rphy_add` leaves `port->rphy` set
  when `device_add` fails.  `sas_target_ids` says what holds where the first and the last do
  not happen, and of the second exactly when it does.

  The driver fills in the address and the protocols before it adds an rphy, so they are
  arguments of the allocation.  What it promises stands in `step`: an rphy is added and freed
  only while it was never added and not freed, deleted only when it is live, and no two live
  ones have the same address.  Numbers are 32 bits wide.
-/
import Mathlib.Algebra.Group.Int.Defs
import Mathlib.Algebra.Group.Nat.Defs
import Mathlib.Data.Bool.Basic
import Mathlib.Data.List.Nodup
import VmkLinux.Sequence

namespace VmkLinux.Scsi.Sas

open VmkLinux.Sequence

inductive DeviceType where
  | endDevice
  | edgeExpander
  | fanoutExpander
deriving DecidableEq, Repr

/-- `target` says that `target_port_protocols` has SSP, STP or SATA.  `added` and `deleted` say
    that `sas_rphy_add` has succeeded and that `sas_rphy_delete` was called, and `released` that
    the reference of the allocation was dropped. -/
structure Rphy where
  deviceType : DeviceType := .endDevice
  address : Nat := 0
  target : Bool := false
  port : Nat := 0
  scsiTargetId : Nat := 0
  added : Bool := false
  deleted : Bool := false
  released : Bool := false
deriving DecidableEq, Repr

/-- `portRphy p` is `port->rphy`; `portGone p` says that the port was deleted. -/
structure Host where
  rphyList : List Nat
  freedRphyList : List Nat
  nextTargetId : Nat
  nextExpanderId : Nat
  nextRphy : Nat
  rphy : Nat → Rphy
  portRphy : Nat → Option Nat
  portGone : Nat → Bool

def Host.upd (s : Host) (r : Nat) (f : Rphy → Rphy) : Host :=
  { s with rphy := fun e => if e = r then f (s.rphy e) else s.rphy e }

def Host.setPort (s : Host) (p : Nat) (r : Option Nat) : Host :=
  { s with portRphy := fun e => if e = p then r else s.portRphy e }

/-- The values of a `u32`; the id of a device that is no target is -1. -/
def word : Nat := 2 ^ 32

def noTargetId : Nat := word - 1

inductive Call where
  | endDeviceAlloc (port address : Nat) (target : Bool)
  | expanderAlloc (port address : Nat) (fanout : Bool)
  | rphyAdd (rphy : Nat) (fails : Bool)
  | rphyDelete (rphy : Nat)
  | rphyFree (rphy : Nat)
  | portDelete (port : Nat)
deriving DecidableEq, Repr

/-! ### The functions -/

def endDeviceAlloc (port address : Nat) (target : Bool) (s : Host) : Host :=
  { s.upd s.nextRphy fun _ => { address := address, target := target, port := port } with
    nextRphy := s.nextRphy + 1 }

def expanderAlloc (port address : Nat) (fanout : Bool) (s : Host) : Host :=
  { s.upd s.nextRphy fun _ =>
      { deviceType := if fanout then .fanoutExpander else .edgeExpander, address := address,
        port := port, scsiTargetId := s.nextExpanderId } with
    nextExpanderId := (s.nextExpanderId + 1) % word
    nextRphy := s.nextRphy + 1 }

/-- The first rphy on the list of the freed ones with the address. -/
def Host.findFreed (s : Host) (address : Nat) : Option Nat :=
  s.freedRphyList.find? fun t => decide ((s.rphy t).address = address)

def assignScsiTargetId (r : Nat) (s : Host) : Host :=
  match s.findFreed (s.rphy r).address with
  | some t =>
      { (s.upd r fun p => { p with scsiTargetId := (s.rphy t).scsiTargetId }).upd t
          fun p => { p with released := true } with
        freedRphyList := s.freedRphyList.erase t }
  | none =>
      { s.upd r fun p => { p with scsiTargetId := s.nextTargetId } with
        nextTargetId := (s.nextTargetId + 1) % word }

/-- `device_add` has succeeded: the rphy is on the list. -/
def Host.attach (s : Host) (r : Nat) : Host :=
  { (s.setPort (s.rphy r).port (some r)).upd r fun p => { p with added := true } with
    rphyList := s.rphyList ++ [r] }

/-- `fails`: `device_add` fails. -/
def rphyAdd (r : Nat) (fails : Bool) (s : Host) : Host :=
  if (s.portRphy (s.rphy r).port).isSome then s
  else if fails then s.setPort (s.rphy r).port (some r)
  else
    match (s.rphy r).deviceType, (s.rphy r).target with
    | .endDevice, true => assignScsiTargetId r (s.attach r)
    | .endDevice, false => (s.attach r).upd r fun p => { p with scsiTargetId := noTargetId }
    | _, _ => s.attach r

def rphyDelete (r : Nat) (s : Host) : Host :=
  ({ s.upd r fun p => { p with deleted := true } with
    rphyList := s.rphyList.erase r
    freedRphyList := s.freedRphyList.erase r ++ [r] }).setPort (s.rphy r).port none

def rphyFree (r : Nat) (s : Host) : Host :=
  { s.upd r fun p => { p with released := true } with
    rphyList := s.rphyList.erase r
    freedRphyList := s.freedRphyList.erase r }

def portDelete (port : Nat) (s : Host) : Host :=
  let s := { s with portGone := fun e => if e = port then true else s.portGone e }
  match s.portRphy port with
  | some r => (rphyDelete r s).setPort port none
  | none => s

def findRphy (s : Host) (id : Nat) : Option Nat :=
  s.rphyList.find? fun r => decide ((s.rphy r).scsiTargetId = id)

/-- A call with what the driver promises. -/
def step (call : Call) (s : Host) : Option Host :=
  match call with
  | .endDeviceAlloc port address target =>
      if s.portGone port then none else some (endDeviceAlloc port address target s)
  | .expanderAlloc port address fanout =>
      if s.portGone port then none else some (expanderAlloc port address fanout s)
  | .rphyAdd r fails =>
      if r < s.nextRphy ∧ (s.rphy r).added = false ∧ (s.rphy r).released = false ∧
          s.portGone (s.rphy r).port = false ∧
          ∀ r' ∈ s.rphyList, (s.rphy r').address ≠ (s.rphy r).address then
        some (rphyAdd r fails s)
      else none
  | .rphyDelete r => if r ∈ s.rphyList then some (rphyDelete r s) else none
  | .rphyFree r =>
      if r < s.nextRphy ∧ (s.rphy r).added = false ∧ (s.rphy r).released = false then
        some (rphyFree r s)
      else none
  | .portDelete port => if s.portGone port then none else some (portDelete port s)

/-- The host of a new adapter. -/
def initial : Host where
  rphyList := []
  freedRphyList := []
  nextTargetId := 0
  nextExpanderId := 0
  nextRphy := 0
  rphy := fun _ => {}
  portRphy := fun _ => none
  portGone := fun _ => false

/-! ### Regular calls -/

/-- An end device with a target role. -/
def Rphy.isTarget (p : Rphy) : Bool := decide (p.deviceType = .endDevice) && p.target

/-- `device_add` does not fail; and for an end device with a target role, the first freed rphy
    with its address was one as well, or, if there is none, there is a target id left. -/
def regular (s : Host) : Call → Bool
  | .rphyAdd r fails =>
      (s.portRphy (s.rphy r).port).isSome ||
        (!fails && (!(s.rphy r).isTarget ||
          match s.findFreed (s.rphy r).address with
          | some t => (s.rphy t).isTarget
          | none => decide (s.nextTargetId + 1 < word)))
  | _ => true

/-! ### The lists -/

/-- Where an rphy is, and what `port->rphy` may be. -/
structure Lists (s : Host) : Prop where
  fresh : ∀ r, s.nextRphy ≤ r → s.rphy r = {}
  live : ∀ r, r ∈ s.rphyList ↔ (s.rphy r).added = true ∧ (s.rphy r).deleted = false
  freed : ∀ r, r ∈ s.freedRphyList ↔ (s.rphy r).deleted = true ∧ (s.rphy r).released = false
  added : ∀ r, (s.rphy r).deleted = true → (s.rphy r).added = true
  kept : ∀ r, r ∈ s.rphyList → (s.rphy r).released = false
  nodup : s.rphyList.Nodup ∧ s.freedRphyList.Nodup
  port : ∀ p r, s.portRphy p = some r → r ∈ s.rphyList ∧ (s.rphy r).port = p

section Lists

variable {s s' : Host} {call : Call}

theorem mem_of_findFreed {address t : Nat} (h : s.findFreed address = some t) :
    t ∈ s.freedRphyList ∧ (s.rphy t).address = address := by
  have ht := List.find?_some h
  simp only [decide_eq_true_eq] at ht
  exact ⟨List.mem_of_find?_eq_some h, ht⟩

/-- What `sas_rphy_add` does in a regular call. -/
theorem rphyAdd_cases {r : Nat} {fails : Bool} (hok : regular s (.rphyAdd r fails) = true) :
    rphyAdd r fails s = s ∨ s.portRphy (s.rphy r).port = none ∧
      ((rphyAdd r fails s = assignScsiTargetId r (s.attach r) ∧ (s.rphy r).isTarget = true ∧
          match s.findFreed (s.rphy r).address with
          | some t => (s.rphy t).isTarget = true
          | none => s.nextTargetId + 1 < word) ∨
        (rphyAdd r fails s = (s.attach r).upd r fun p => { p with scsiTargetId := noTargetId }) ∧
          (s.rphy r).isTarget = false ∧ (s.rphy r).deviceType = .endDevice ∨
        rphyAdd r fails s = s.attach r ∧ (s.rphy r).deviceType ≠ .endDevice) := by
  unfold rphyAdd
  simp only [regular] at hok
  cases hport : s.portRphy (s.rphy r).port with
  | some r' => exact .inl (if_pos rfl)
  | none =>
    simp only [hport, Option.isSome_none, Bool.false_or, Bool.and_eq_true, Bool.not_eq_true',
      Bool.or_eq_true] at hok
    obtain ⟨hfails, hok⟩ := hok
    simp only [Option.isSome_none, hfails, Bool.false_eq_true, if_false, true_and]
    refine .inr ?_
    cases htype : (s.rphy r).deviceType <;> cases htarget : (s.rphy r).target
    all_goals simp only [Rphy.isTarget, htype, htarget] at hok ⊢
    all_goals grind -linarith

theorem findFreed_attach (s : Host) (r : Nat) :
    (s.attach r).findFreed ((s.attach r).rphy r).address = s.findFreed (s.rphy r).address := by
  have haddr : ∀ e, ((s.attach r).rphy e).address = (s.rphy e).address := by
    intro e
    simp only [Host.attach, Host.upd, Host.setPort]
    split <;> rfl
  simp only [Host.findFreed, haddr]
  rfl

theorem lists_attach {r : Nat} (hI : Lists s) (hadded : (s.rphy r).added = false)
    (hreleased : (s.rphy r).released = false) (hlt : r < s.nextRphy) : Lists (s.attach r) := by
  obtain ⟨hfresh, hlive, hfreed, hdeleted, hkept, hnodup, hport⟩ := hI
  unfold Host.attach
  constructor
  all_goals simp only [Host.upd, Host.setPort]
  all_goals grind -linarith [List.nodup_append]

theorem lists_upd {r id : Nat} (hI : Lists s) (hlt : r < s.nextRphy) :
    Lists (s.upd r fun p => { p with scsiTargetId := id }) := by
  obtain ⟨hfresh, hlive, hfreed, hdeleted, hkept, hnodup, hport⟩ := hI
  constructor
  all_goals simp only [Host.upd]
  all_goals grind -linarith

theorem lists_assign {r : Nat} (hI : Lists s) (hlt : r < s.nextRphy) :
    Lists (assignScsiTargetId r s) := by
  unfold assignScsiTargetId
  split
  · rename_i t ht
    obtain ⟨hmem, -⟩ := mem_of_findFreed ht
    obtain ⟨hfresh, hlive, hfreed, hdeleted, hkept, hnodup, hport⟩ := hI
    constructor
    all_goals simp only [Host.upd]
    all_goals grind -linarith [List.Nodup.erase, List.Nodup.mem_erase_iff]
  · obtain ⟨hfresh, hlive, hfreed, hdeleted, hkept, hnodup, hport⟩ := lists_upd hI hlt
    exact ⟨hfresh, hlive, hfreed, hdeleted, hkept, hnodup, hport⟩

theorem lists_rphyAdd {r : Nat} {fails : Bool} (hI : Lists s)
    (hadded : (s.rphy r).added = false) (hreleased : (s.rphy r).released = false)
    (hlt : r < s.nextRphy) (hok : regular s (.rphyAdd r fails) = true) :
    Lists (rphyAdd r fails s) := by
  rcases rphyAdd_cases hok with heq | ⟨-, ⟨heq, -⟩ | ⟨heq, -⟩ | ⟨heq, -⟩⟩
  · rw [heq]
    exact hI
  · rw [heq]
    exact lists_assign (lists_attach hI hadded hreleased hlt) hlt
  · rw [heq]
    exact lists_upd (lists_attach hI hadded hreleased hlt) hlt
  · rw [heq]
    exact lists_attach hI hadded hreleased hlt

theorem lists_rphyDelete {r : Nat} (hI : Lists s) (hr : r ∈ s.rphyList) :
    Lists (rphyDelete r s) := by
  obtain ⟨hfresh, hlive, hfreed, hdeleted, hkept, hnodup, hport⟩ := hI
  unfold rphyDelete
  constructor
  all_goals simp only [Host.upd, Host.setPort]
  all_goals grind -linarith [List.nodup_append, List.Nodup.erase, List.Nodup.mem_erase_iff]

/-- `sas_port_delete` deletes the rphy of the port. -/
theorem portDelete_eq {p : Nat} (hI : Lists s) :
    (s.portRphy p = none ∧ portDelete p s =
        { s with portGone := fun e => if e = p then true else s.portGone e }) ∨
      ∃ r ∈ s.rphyList, portDelete p s =
        { rphyDelete r s with portGone := fun e => if e = p then true else s.portGone e } := by
  unfold portDelete
  cases hport : s.portRphy p with
  | none => exact .inl ⟨rfl, by simp only [hport]⟩
  | some r =>
    obtain ⟨hr, rfl⟩ := hI.port p r hport
    refine .inr ⟨r, hr, ?_⟩
    simp only [hport, rphyDelete, Host.setPort, Host.upd]
    congr 1
    funext e
    split <;> rfl

theorem lists_step (hI : Lists s) (hok : regular s call = true) (h : step call s = some s') :
    Lists s' := by
  unfold step at h
  cases call
  all_goals simp only at h
  all_goals split at h
  all_goals simp only [Option.some.injEq, reduceCtorEq] at h
  all_goals subst h
  case endDeviceAlloc | expanderAlloc | rphyFree =>
    obtain ⟨hfresh, hlive, hfreed, hdeleted, hkept, hnodup, hport⟩ := hI
    constructor
    all_goals simp only [endDeviceAlloc, expanderAlloc, rphyFree, Host.upd]
    all_goals grind -linarith [List.Nodup.erase, List.Nodup.mem_erase_iff]
  case rphyAdd r fails hpre => exact lists_rphyAdd hI hpre.2.1 hpre.2.2.1 hpre.1 hok
  case rphyDelete r hr => exact lists_rphyDelete hI hr
  case portDelete p _ =>
    rcases portDelete_eq (p := p) hI with ⟨-, heq⟩ | ⟨r, hr, heq⟩
    · rw [heq]
      obtain ⟨hfresh, hlive, hfreed, hdeleted, hkept, hnodup, hport⟩ := hI
      exact ⟨hfresh, hlive, hfreed, hdeleted, hkept, hnodup, hport⟩
    · rw [heq]
      obtain ⟨hfresh, hlive, hfreed, hdeleted, hkept, hnodup, hport⟩ := lists_rphyDelete hI hr
      exact ⟨hfresh, hlive, hfreed, hdeleted, hkept, hnodup, hport⟩

end Lists

/-! ### Target ids -/

/-- The rphy was added as a target. -/
def Host.Holds (s : Host) (r : Nat) : Prop :=
  (s.rphy r).added = true ∧ (s.rphy r).isTarget = true

/-- An address has one target id for good, and the last rphy that had it is on a list. -/
structure Ids (s : Host) : Prop where
  next : s.nextTargetId < word
  bound : ∀ r, s.Holds r → (s.rphy r).scsiTargetId < s.nextTargetId
  same : ∀ r r', s.Holds r → s.Holds r' →
    ((s.rphy r).address = (s.rphy r').address ↔
      (s.rphy r).scsiTargetId = (s.rphy r').scsiTargetId)
  current : ∀ r, s.Holds r → ∃ r', s.Holds r' ∧ (s.rphy r').address = (s.rphy r).address ∧
    (r' ∈ s.rphyList ∨ r' ∈ s.freedRphyList)
  noTarget : ∀ r ∈ s.rphyList, (s.rphy r).deviceType = .endDevice →
    (s.rphy r).isTarget = false → (s.rphy r).scsiTargetId = noTargetId
  address : ∀ r ∈ s.rphyList, ∀ r' ∈ s.rphyList,
    (s.rphy r).address = (s.rphy r').address → r = r'

section Ids

variable {s s' : Host} {call : Call}

/-- An rphy that is no target, with the id it has then. -/
theorem ids_attach {r : Nat} (id : Nat) (hI : Ids s) (htarget : (s.rphy r).isTarget = false)
    (hid : (s.rphy r).deviceType = .endDevice → id = noTargetId)
    (haddr : ∀ r' ∈ s.rphyList, (s.rphy r').address ≠ (s.rphy r).address) :
    Ids ((s.attach r).upd r fun p => { p with scsiTargetId := id }) := by
  obtain ⟨hnext, hbound, hsame, hcurrent, hno, haddress⟩ := hI
  unfold Host.attach
  constructor
  all_goals simp only [Host.upd, Host.setPort, Host.Holds, Rphy.isTarget] at *
  all_goals grind -linarith

/-- A target takes over the id of the last one with its address. -/
theorem ids_reuse {r t : Nat} (hI : Ids s) (hL : Lists s) (hadded : (s.rphy r).added = false)
    (hr : (s.rphy r).isTarget = true) (ht : (s.rphy t).isTarget = true)
    (haddr : ∀ r' ∈ s.rphyList, (s.rphy r').address ≠ (s.rphy r).address)
    (hfind : s.findFreed (s.rphy r).address = some t) :
    Ids (assignScsiTargetId r (s.attach r)) := by
  obtain ⟨hmem, heq⟩ := mem_of_findFreed hfind
  have htadded : (s.rphy t).added = true := hL.added t ((hL.freed t).mp hmem).1
  have hne : r ≠ t := by
    rintro rfl
    rw [hadded] at htadded
    cases htadded
  have hnodup := hL.nodup.2
  obtain ⟨hnext, hbound, hsame, hcurrent, hno, haddress⟩ := hI
  unfold assignScsiTargetId
  rw [findFreed_attach, hfind]
  unfold Host.attach
  constructor
  case current =>
    -- the rphy itself for its address, and the last one that there was for every other
    clear hnext hbound hsame hno haddress
    intro r' hr'
    by_cases hother : (s.rphy r').address = (s.rphy r).address
    · refine ⟨r, ?_, ?_, .inl ?_⟩
      all_goals simp only [Host.upd, Host.setPort, Host.Holds, Rphy.isTarget] at *
      all_goals grind -linarith
    · have hr'r : r' ≠ r := fun h => hother (h ▸ rfl)
      have hholds : s.Holds r' := by
        simp only [Host.upd, Host.setPort, Host.Holds, Rphy.isTarget] at hr' ⊢
        grind -linarith
      obtain ⟨r'', hholds'', haddr'', hlisted⟩ := hcurrent r' hholds
      have hr''t : r'' ≠ t := by
        rintro rfl
        exact hother (haddr''.symm.trans heq)
      refine ⟨r'', ?_, ?_, hlisted.imp (fun h => List.mem_append_left _ h) fun h =>
        (hnodup.mem_erase_iff).mpr ⟨hr''t, h⟩⟩
      all_goals simp only [Host.upd, Host.setPort, Host.Holds, Rphy.isTarget] at *
      all_goals grind -linarith
  all_goals simp only [Host.upd, Host.setPort, Host.Holds, Rphy.isTarget] at *
  all_goals grind -linarith [List.Nodup.mem_erase_iff]

theorem ids_new {r : Nat} (hI : Ids s) (hr : (s.rphy r).isTarget = true)
    (hleft : s.nextTargetId + 1 < word)
    (haddr : ∀ r' ∈ s.rphyList, (s.rphy r').address ≠ (s.rphy r).address)
    (hfind : s.findFreed (s.rphy r).address = none) : Ids (assignScsiTargetId r (s.attach r)) := by
  have hnobody : ∀ r', s.Holds r' → (s.rphy r').address ≠ (s.rphy r).address := by
    intro r' hr' heq
    obtain ⟨r'', -, hsame, hmem | hmem⟩ := hI.current r' hr'
    · exact haddr r'' hmem (hsame.trans heq)
    · have hnone := List.find?_eq_none.mp hfind r'' hmem
      simp only [decide_eq_true_eq] at hnone
      exact hnone (hsame.trans heq)
  have hmod : (s.nextTargetId + 1) % word = s.nextTargetId + 1 := Nat.mod_eq_of_lt hleft
  obtain ⟨hnext, hbound, hsame, hcurrent, hno, haddress⟩ := hI
  unfold assignScsiTargetId
  rw [findFreed_attach, hfind]
  unfold Host.attach
  constructor
  all_goals simp only [Host.upd, Host.setPort, Host.Holds, Rphy.isTarget, hmod] at *
  all_goals grind -linarith

theorem ids_rphyDelete {r : Nat} (hI : Ids s) (hL : Lists s) : Ids (rphyDelete r s) := by
  obtain ⟨hnext, hbound, hsame, hcurrent, hno, haddress⟩ := hI
  have hnodup := hL.nodup
  unfold rphyDelete
  constructor
  all_goals simp only [Host.upd, Host.setPort, Host.Holds, Rphy.isTarget] at *
  all_goals grind -linarith [List.Nodup.mem_erase_iff]

theorem ids_rphyAdd {r : Nat} {fails : Bool} (hI : Ids s) (hL : Lists s)
    (hadded : (s.rphy r).added = false)
    (haddr : ∀ r' ∈ s.rphyList, (s.rphy r').address ≠ (s.rphy r).address)
    (hok : regular s (.rphyAdd r fails) = true) : Ids (rphyAdd r fails s) := by
  rcases rphyAdd_cases hok with heq | ⟨-, ⟨heq, hr, hfind⟩ | ⟨heq, hr, -⟩ | ⟨heq, hr⟩⟩
  · rw [heq]
    exact hI
  · rw [heq]
    split at hfind
    · rename_i t ht
      exact ids_reuse hI hL hadded hr hfind haddr ht
    · rename_i hnone
      exact ids_new hI hr hfind haddr hnone
  · rw [heq]
    exact ids_attach noTargetId hI hr (fun _ => rfl) haddr
  · have hid := ids_attach (s.rphy r).scsiTargetId hI (by simp [Rphy.isTarget, hr])
      (fun htype => absurd htype hr) haddr
    have hsame : (s.attach r).upd r (fun p => { p with scsiTargetId := (s.rphy r).scsiTargetId }) =
        s.attach r := by
      simp only [Host.upd, Host.attach, Host.setPort]
      congr 1
      funext e
      split
      · subst_vars
        simp
      · rfl
    rw [hsame] at hid
    rw [heq]
    exact hid

theorem ids_step (hI : Ids s) (hL : Lists s) (hok : regular s call = true)
    (h : step call s = some s') : Ids s' := by
  unfold step at h
  cases call
  all_goals simp only at h
  all_goals split at h
  all_goals simp only [Option.some.injEq, reduceCtorEq] at h
  all_goals subst h
  case endDeviceAlloc | expanderAlloc | rphyFree =>
    have hfresh := hL.fresh s.nextRphy (Nat.le_refl _)
    have hlive := hL.live
    have hfreed := hL.freed
    have hdeleted := hL.added
    have hnodup := hL.nodup
    obtain ⟨hnext, hbound, hsame, hcurrent, hno, haddress⟩ := hI
    constructor
    all_goals simp only [endDeviceAlloc, expanderAlloc, rphyFree, Host.upd, Host.Holds,
      Rphy.isTarget] at *
    all_goals grind -linarith [List.Nodup.mem_erase_iff]
  case rphyAdd r fails hpre => exact ids_rphyAdd hI hL hpre.2.1 hpre.2.2.2.2 hok
  case rphyDelete r hr => exact ids_rphyDelete hI hL
  case portDelete p _ =>
    rcases portDelete_eq (p := p) hL with ⟨-, heq⟩ | ⟨r, -, heq⟩
    · rw [heq]
      exact ⟨hI.next, hI.bound, hI.same, hI.current, hI.noTarget, hI.address⟩
    · rw [heq]
      obtain ⟨hnext, hbound, hsame, hcurrent, hno, haddress⟩ := ids_rphyDelete (r := r) hI hL
      exact ⟨hnext, hbound, hsame, hcurrent, hno, haddress⟩

end Ids

/-! ### Looking up an id -/

/-- The rphys that stand before `r` on the list. -/
def Host.before (s : Host) (r : Nat) : List Nat := s.rphyList.takeWhile fun x => decide (x ≠ r)

theorem before_eq {s : Host} {r : Nat} {l₁ l₂ : List Nat} (h : s.rphyList = l₁ ++ r :: l₂)
    (hr : r ∉ l₁) : s.before r = l₁ := by
  have hne : ∀ x ∈ l₁, decide (x ≠ r) = true := by
    intro x hx
    simp only [ne_eq, decide_eq_true_eq]
    rintro rfl
    exact hr hx
  rw [Host.before, h, List.takeWhile_append_of_pos hne]
  simp

/-- `sas_find_rphy` finds an end device that has its id alone, unless an expander with the same
    number stands before it. -/
theorem findRphy_iff {s : Host} {r : Nat} (hr : r ∈ s.rphyList)
    (halone : ∀ r' ∈ s.rphyList, (s.rphy r').deviceType = .endDevice →
      (s.rphy r').scsiTargetId = (s.rphy r).scsiTargetId → r' = r) :
    findRphy s (s.rphy r).scsiTargetId = some r ↔
      ∀ x ∈ s.before r, (s.rphy x).deviceType ≠ .endDevice →
        (s.rphy x).scsiTargetId ≠ (s.rphy r).scsiTargetId := by
  unfold findRphy
  rw [List.find?_eq_some_iff_append]
  simp only [decide_true, true_and, Bool.not_eq_true', decide_eq_false_iff_not]
  constructor
  · rintro ⟨l₁, l₂, hlist, hfirst⟩ x hx _
    rw [before_eq hlist (fun hmem => hfirst r hmem rfl)] at hx
    exact hfirst x hx
  · intro hnone
    obtain ⟨l₁, l₂, hlist, hnot⟩ := List.eq_append_cons_of_mem hr
    rw [before_eq hlist hnot] at hnone
    refine ⟨l₁, l₂, hlist, fun x hx hid => ?_⟩
    by_cases htype : (s.rphy x).deviceType = .endDevice
    · have hmem : x ∈ s.rphyList := by
        rw [hlist]
        exact List.mem_append_left _ hx
      rw [halone x hmem htype hid] at hx
      exact hnot hx
    · exact hnone x hx htype hid

/-! ### The results -/

theorem reach_regular {s : Host} (h : Reach step (fun s call => regular s call = true) initial s) :
    Lists s ∧ Ids s := by
  refine Reach.invariant (fun s => Lists s ∧ Ids s) ?_ ?_ h
  · refine ⟨⟨?_, ?_, ?_, ?_, ?_, ?_, ?_⟩, ⟨?_, ?_, ?_, ?_, ?_, ?_⟩⟩
    all_goals simp [initial, Host.Holds, word]
  · intro s call s' ⟨hL, hI⟩ hok hs
    exact ⟨lists_step hL hok hs, ids_step hI hL hok hs⟩

/-- No other live end device has the id of a live target, which is not -1. -/
theorem Ids.alone {s : Host} {r r' : Nat} (hI : Ids s) (hL : Lists s) (hr : r ∈ s.rphyList)
    (htarget : (s.rphy r).isTarget = true) (hr' : r' ∈ s.rphyList)
    (htype : (s.rphy r').deviceType = .endDevice)
    (hid : (s.rphy r').scsiTargetId = (s.rphy r).scsiTargetId) : r' = r := by
  have hholds : s.Holds r := ⟨((hL.live r).mp hr).1, htarget⟩
  cases htarget' : (s.rphy r').isTarget with
  | true =>
    have hholds' : s.Holds r' := ⟨((hL.live r').mp hr').1, htarget'⟩
    exact hI.address r' hr' r hr ((hI.same r' r hholds' hholds).mpr hid)
  | false =>
    have hbound := hI.bound r hholds
    have hnext := hI.next
    rw [← hid, hI.noTarget r' hr' htype htarget', noTargetId] at hbound
    omega

/-- **Target ids of a SAS host.**  In every sequence of regular calls: an rphy that was added is
    on `rphy_list` until it is deleted, and then on `freed_rphy_list` only, until another takes
    over its id; live end devices with a target role have ids other than -1 that no other live
    end device has; two end devices with a target role that were ever added with one address
    have one id; `sas_find_rphy` finds a live end device that has its id alone exactly when no
    expander with the same number stands before it on `rphy_list`; and no port refers to an
    rphy that was freed. -/
theorem sas_target_ids {s : Host}
    (h : Reach step (fun s call => regular s call = true) initial s) :
    (∀ r, (s.rphy r).added = true →
      ((s.rphy r).deleted = false → s.rphyList.count r = 1 ∧ r ∉ s.freedRphyList) ∧
      ((s.rphy r).deleted = true → r ∉ s.rphyList ∧
        ((s.rphy r).released = false → s.freedRphyList.count r = 1))) ∧
    (∀ r ∈ s.rphyList, (s.rphy r).isTarget = true → (s.rphy r).scsiTargetId ≠ noTargetId ∧
      ∀ r' ∈ s.rphyList, (s.rphy r').deviceType = .endDevice → r' ≠ r →
        (s.rphy r').scsiTargetId ≠ (s.rphy r).scsiTargetId) ∧
    (∀ r r', s.Holds r → s.Holds r' → (s.rphy r).address = (s.rphy r').address →
      (s.rphy r).scsiTargetId = (s.rphy r').scsiTargetId) ∧
    (∀ r ∈ s.rphyList, (s.rphy r).deviceType = .endDevice →
      (∀ r' ∈ s.rphyList, (s.rphy r').deviceType = .endDevice →
        (s.rphy r').scsiTargetId = (s.rphy r).scsiTargetId → r' = r) →
      (findRphy s (s.rphy r).scsiTargetId = some r ↔
        ∀ x ∈ s.before r, (s.rphy x).deviceType ≠ .endDevice →
          (s.rphy x).scsiTargetId ≠ (s.rphy r).scsiTargetId)) ∧
    (∀ r p, (s.rphy r).released = true → s.portRphy p ≠ some r) := by
  obtain ⟨hL, hI⟩ := reach_regular h
  refine ⟨fun r hadded => ⟨fun hdel => ⟨?_, fun hmem => ?_⟩, fun hdel => ⟨fun hmem => ?_,
    fun hrel => ?_⟩⟩, fun r hr htarget => ⟨fun hid => ?_, fun r' hr' htype hne hid => ?_⟩,
    fun r r' hr hr' => (hI.same r r' hr hr').mp, fun r hr _ halone => findRphy_iff hr halone,
    fun r p hrel hport => ?_⟩
  · exact List.count_eq_one_of_mem hL.nodup.1 ((hL.live r).mpr ⟨hadded, hdel⟩)
  · rw [((hL.freed r).mp hmem).1] at hdel
    cases hdel
  · rw [((hL.live r).mp hmem).2] at hdel
    cases hdel
  · exact List.count_eq_one_of_mem hL.nodup.2 ((hL.freed r).mpr ⟨hdel, hrel⟩)
  · have hbound := hI.bound r ⟨((hL.live r).mp hr).1, htarget⟩
    have hnext := hI.next
    rw [hid, noTargetId] at hbound
    omega
  · exact hne (hI.alone hL hr htarget hr' htype hid)
  · rw [hL.kept r (hL.port p r hport).1] at hrel
    cases hrel

/-- A target goes away and comes back under a new rphy, with another target and an expander
    beside it. -/
theorem sas_target_ids_comes_back :
    ∃ s, Reach step (fun s call => regular s call = true) initial s ∧ s.rphyList = [1, 2, 3] ∧
      (s.rphy 0).deleted = true ∧ (s.rphy 2).scsiTargetId = (s.rphy 0).scsiTargetId ∧
      findRphy s (s.rphy 2).scsiTargetId = some 2 := by
  obtain ⟨s, hs, ho⟩ := exists_reach_of_runIf step regular
    [.endDeviceAlloc 0 10 true, .rphyAdd 0 false, .endDeviceAlloc 1 11 true, .rphyAdd 1 false,
      .rphyDelete 0, .endDeviceAlloc 0 10 true, .expanderAlloc 2 12 false, .rphyAdd 2 false,
      .rphyAdd 3 false]
    initial (fun s => (s.rphyList, s.rphy 0, s.rphy 1, s.rphy 2))
    ([1, 2, 3],
      { address := 10, target := true, added := true, deleted := true, released := true },
      { address := 11, target := true, port := 1, scsiTargetId := 1, added := true },
      { address := 10, target := true, added := true }) (by decide)
  simp only [Prod.mk.injEq] at ho
  obtain ⟨hlist, h0, h1, h2⟩ := ho
  obtain ⟨-, hdistinct, hsame, hfind, -⟩ := sas_target_ids hs
  have hmem : 2 ∈ s.rphyList := by simp [hlist]
  refine ⟨s, hs, hlist, by rw [h0], ?_, ?_⟩
  · exact hsame 2 0 (by simp [Host.Holds, h2, Rphy.isTarget])
      (by simp [Host.Holds, h0, Rphy.isTarget]) (by rw [h0, h2])
  · refine (hfind 2 hmem (by rw [h2]) (fun r' hr' htype hid => ?_)).mpr (fun x hx htype => ?_)
    · by_contra hne
      exact (hdistinct 2 hmem (by simp [h2, Rphy.isTarget])).2 r' hr' htype hne hid
    · have hx1 : x = 1 := by simpa [Host.before, hlist] using hx
      rw [hx1, h1] at htype
      exact absurd rfl htype

/-- After a failed `device_add` the port still has the rphy when it is freed.  An end device
    takes over the number of an expander, which another end device has; one takes over -1.  And
    `sas_find_rphy` finds an expander where there is an end device with the id. -/
theorem sas_ids_confused :
    (∃ s, Reachable step initial s ∧ (s.rphy 0).released = true ∧ s.portRphy 0 = some 0) ∧
    (∃ s, Reachable step initial s ∧ s.rphyList = [1, 2] ∧ (s.rphy 1).isTarget = true ∧
      (s.rphy 2).isTarget = true ∧ (s.rphy 1).scsiTargetId = (s.rphy 2).scsiTargetId) ∧
    (∃ s, Reachable step initial s ∧ s.rphyList = [1] ∧ (s.rphy 1).isTarget = true ∧
      (s.rphy 1).scsiTargetId = noTargetId) ∧
    ∃ s, Reachable step initial s ∧ s.rphyList = [0, 1] ∧ (s.rphy 1).isTarget = true ∧
      findRphy s (s.rphy 1).scsiTargetId = some 0 := by
  refine ⟨?_, ?_, ?_, ?_⟩
  · obtain ⟨s, hs, ho⟩ := exists_reachable_of_run step
      [.endDeviceAlloc 0 10 true, .rphyAdd 0 true, .rphyFree 0] initial
      (fun s => ((s.rphy 0).released, s.portRphy 0)) (true, some 0) (by decide)
    simp only [Prod.mk.injEq] at ho
    exact ⟨s, hs, ho⟩
  · obtain ⟨s, hs, ho⟩ := exists_reachable_of_run step
      [.expanderAlloc 0 10 false, .rphyAdd 0 false, .endDeviceAlloc 1 11 true, .rphyAdd 1 false,
        .rphyDelete 0, .endDeviceAlloc 0 10 true, .rphyAdd 2 false] initial
      (fun s => (s.rphyList, (s.rphy 1).isTarget, (s.rphy 2).isTarget,
        decide ((s.rphy 1).scsiTargetId = (s.rphy 2).scsiTargetId)))
      ([1, 2], true, true, true) (by decide)
    simp only [Prod.mk.injEq, decide_eq_true_eq] at ho
    exact ⟨s, hs, ho⟩
  · obtain ⟨s, hs, ho⟩ := exists_reachable_of_run step
      [.endDeviceAlloc 0 10 false, .rphyAdd 0 false, .rphyDelete 0, .endDeviceAlloc 0 10 true,
        .rphyAdd 1 false] initial
      (fun s => (s.rphyList, (s.rphy 1).isTarget, (s.rphy 1).scsiTargetId))
      ([1], true, noTargetId) (by decide)
    simp only [Prod.mk.injEq] at ho
    exact ⟨s, hs, ho⟩
  · obtain ⟨s, hs, ho⟩ := exists_reachable_of_run step
      [.expanderAlloc 0 10 false, .rphyAdd 0 false, .endDeviceAlloc 1 11 true, .rphyAdd 1 false]
      initial (fun s => (s.rphyList, (s.rphy 1).isTarget, findRphy s (s.rphy 1).scsiTargetId))
      ([0, 1], true, some 0) (by decide)
    simp only [Prod.mk.injEq] at ho
    exact ⟨s, hs, ho⟩

end VmkLinux.Scsi.Sas
