/-
  VmkLinux/Pci/Vectors.lean
  =========================
  **The interrupt vectors of one PCI device** (`vmklinux26/vmware/linux_pci.c`,
  `vmklinux26/linux/pci/msi.c`): `pci_enable_msi`, `pci_disable_msi`, `pci_enable_msix`,
  `pci_disable_msix`, and what `LinuxPCIDeviceInserted` and `LinuxPCIDeviceRemoved` do to the
  vectors of the device.

  `linuxDev.irq` holds the legacy vector or the MSI vector, `intrVectors` the MSI-X vectors, and
  each call takes it for granted that the others were not made before it: `pci_disable_msi` frees
  whatever is in `irq`, `pci_enable_msix` forgets the vectors it finds in `intrVectors`, the
  legacy vector is put back over an MSI vector, and the removal of the device frees nothing.
  Where the calls are made in order (`orderly`), no vector is lost and none is freed wrongly
  (`vectors_recorded_and_freed_once`).

  The calls and the events come one after the other.  What `vmk_PCIAllocateIntVectors` returns is
  an argument of the call, `none` for a failure (of `vmk_HeapAlloc`, too).  A driver's `remove`
  runs before `LinuxPCIDeviceRemoved` frees the device; the calls it makes come before the event.
-/
import Mathlib.Data.List.Nodup
import VmkLinux.Sequence

namespace VmkLinux.Pci.Vectors

open VmkLinux.Sequence

/-! ### The VMkernel's side -/

/-- What the VMkernel has given: `live` are the MSI and MSI-X vectors that are allocated, and
    `legacy` the legacy vectors.  `obtained` and `freed` list what `vmk_PCIAllocateIntVectors`
    returned and `vmk_PCIFreeIntVectors` was passed, and `wrong` the vectors it was passed while
    they were not in `live`. -/
structure Vmk where
  live : List Nat := []
  legacy : List Nat := []
  obtained : List Nat := []
  freed : List Nat := []
  wrong : List Nat := []
deriving DecidableEq, Repr

/-- `LINUXPCI_INVALID_INTR_VECTOR`, as an `unsigned int`. -/
def invalidIntrVector : Nat := 0xffffffff

/-- New vectors are valid, distinct, and not in use. -/
def Vmk.fresh (k : Vmk) (vectors : List Nat) : Bool :=
  decide vectors.Nodup && vectors.all fun v =>
    decide (v ≠ 0 ∧ v ≠ invalidIntrVector ∧ v ∉ k.live ∧ v ∉ k.legacy)

def Vmk.allocate (k : Vmk) (vectors : List Nat) : Vmk :=
  { k with live := vectors ++ k.live, obtained := vectors ++ k.obtained }

def Vmk.free (k : Vmk) (vector : Nat) : Vmk :=
  if vector ∈ k.live then
    { k with live := k.live.erase vector, freed := vector :: k.freed }
  else { k with freed := vector :: k.freed, wrong := vector :: k.wrong }

/-- `vmk_PCIFreeIntVectors`. -/
def Vmk.freeIntVectors (k : Vmk) (vectors : List Nat) : Vmk := vectors.foldl Vmk.free k

/-! ### The device -/

/-- `LinuxPCIDevExt`; `intrVectors` are the first `numIntrVectors` of the array. -/
structure DevExt where
  irq : Nat := 0
  defaultIntrVector : Bool := false
  intrVectors : List Nat := []
deriving DecidableEq, Repr

structure State where
  dev : Option DevExt := none
  vmk : Vmk := {}
deriving DecidableEq, Repr

def msiIntrVectorSet (vector : Nat) (e : DevExt) : DevExt :=
  { e with irq := vector, defaultIntrVector := false }

def legacyIntrVectorSet (vector : Option Nat) (e : DevExt) (k : Vmk) : DevExt × Vmk :=
  match vector with
  | none => (e, k)
  | some v =>
      ({ e with irq := v, defaultIntrVector := true }, { k with legacy := v :: k.legacy })

def DevExt.intrVectorIsNotLegacy (e : DevExt) : Bool :=
  decide (e.defaultIntrVector = false ∧ e.irq ≠ 0 ∧ e.irq ≠ invalidIntrVector)

def intrVectorFree (e : DevExt) (k : Vmk) : DevExt × Vmk :=
  ({ e with irq := invalidIntrVector, defaultIntrVector := false },
    if e.intrVectorIsNotLegacy then k.freeIntVectors [e.irq] else k)

def enableMSI (vector : Option Nat) (e : DevExt) (k : Vmk) : DevExt × Vmk :=
  match vector with
  | none => (e, k)
  | some v =>
      (msiIntrVectorSet v (intrVectorFree e (k.allocate [v])).1,
        (intrVectorFree e (k.allocate [v])).2)

def disableMSI (legacy : Option Nat) (e : DevExt) (k : Vmk) : DevExt × Vmk :=
  legacyIntrVectorSet legacy e (k.freeIntVectors [e.irq])

def enableMSIX (vectors : Option (List Nat)) (e : DevExt) (k : Vmk) : DevExt × Vmk :=
  match vectors with
  | none => (e, k)
  | some vs => intrVectorFree { e with intrVectors := vs } (k.allocate vs)

def disableMSIX (legacy : Option Nat) (e : DevExt) (k : Vmk) : DevExt × Vmk :=
  legacyIntrVectorSet legacy { e with intrVectors := [] } (k.freeIntVectors e.intrVectors)

/-! ### Calls and events -/

inductive Event where
  | enableMSI (vector : Option Nat)
  | disableMSI (legacy : Option Nat)
  | enableMSIX (vectors : Option (List Nat))
  | disableMSIX (legacy : Option Nat)
  /-- `LinuxPCIDeviceInserted` of a new device; `hide` says that a module does not own it. -/
  | inserted (hide : Bool) (legacy : Option Nat)
  /-- `LinuxPCIDeviceInserted` of a device it knows, `LinuxPCIDeviceRemoved` of one that is not
      removed when `hide` is set. -/
  | changedOwner (hide : Bool) (legacy : Option Nat)
  | removed
deriving DecidableEq, Repr

/-- What `vmk_PCIAllocateIntVectors` may answer. -/
def Event.answered (k : Vmk) : Event → Bool
  | .enableMSI vector => k.fresh vector.toList
  | .enableMSIX vectors => k.fresh (vectors.getD [])
  | .disableMSI legacy | .disableMSIX legacy | .inserted _ legacy | .changedOwner _ legacy =>
      legacy.toList.all fun v => decide (v ∉ k.live)
  | .removed => true

def onDevice (f : DevExt → Vmk → DevExt × Vmk) (s : State) : Option State :=
  match s.dev with
  | none => none
  | some e => some { dev := some (f e s.vmk).1, vmk := (f e s.vmk).2 }

/-- `LinuxPCIDeviceInserted`, its part about the vectors. -/
def deviceInserted (hide : Bool) (legacy : Option Nat) (e : DevExt) (k : Vmk) : DevExt × Vmk :=
  if hide then (e, k) else legacyIntrVectorSet legacy e k

def step (event : Event) (s : State) : Option State :=
  if event.answered s.vmk then
    match event with
    | .enableMSI vector => onDevice (enableMSI vector) s
    | .disableMSI legacy => onDevice (disableMSI legacy) s
    | .enableMSIX vectors => onDevice (enableMSIX vectors) s
    | .disableMSIX legacy => onDevice (disableMSIX legacy) s
    | .inserted hide legacy =>
        if s.dev = none then onDevice (deviceInserted hide legacy) { s with dev := some {} }
        else none
    | .changedOwner hide legacy => onDevice (deviceInserted hide legacy) s
    -- the device is freed with what it records
    | .removed => if s.dev = none then none else some { s with dev := none }
  else none

/-! ### Orderly calls -/

/-- `irq` has a vector that is no longer allocated, which `LinuxPCIIntrVectorFree` would free. -/
def DevExt.stale (e : DevExt) (k : Vmk) : Bool :=
  e.intrVectorIsNotLegacy && decide (e.irq ∉ k.live)

def orderlyOn (e : DevExt) (k : Vmk) : Event → Bool
  | .enableMSI vector => vector = none || !e.stale k
  | .disableMSI _ => decide (e.irq ∈ k.live)
  | .enableMSIX vectors => vectors = none || (e.intrVectors = [] && !e.stale k)
  | .disableMSIX legacy => legacy = none || decide (e.irq ∉ k.live)
  | .inserted _ _ => true
  | .changedOwner hide legacy => hide || legacy = none || decide (e.irq ∉ k.live)
  | .removed => k.live = []

/-- MSI is disabled only while `irq` has an allocated vector; MSI-X is enabled only while
    `intrVectors` is empty; neither is enabled over a vector that was freed before; the legacy
    vector is not put back over an allocated one; and the device is removed without any. -/
def orderly (s : State) (event : Event) : Bool :=
  match s.dev with
  | none => true
  | some e => orderlyOn e s.vmk event

/-! ### The VMkernel's vectors -/

structure Vmk.Sound (k : Vmk) : Prop where
  nodup : k.live.Nodup
  valid : ∀ v ∈ k.live, v ≠ 0 ∧ v ≠ invalidIntrVector ∧ v ∉ k.legacy
  balance : ∀ v, k.obtained.count v = k.freed.count v + k.live.count v
  wrong : k.wrong = []

section Vmk

variable {k : Vmk} {v : Nat} {vs : List Nat}

theorem Vmk.fresh_iff : k.fresh vs = true ↔
    vs.Nodup ∧ ∀ v ∈ vs, v ≠ 0 ∧ v ≠ invalidIntrVector ∧ v ∉ k.live ∧ v ∉ k.legacy := by
  simp only [Vmk.fresh, Bool.and_eq_true, decide_eq_true_eq, List.all_eq_true]

theorem Vmk.Sound.allocate (hk : k.Sound) (hvs : k.fresh vs = true) :
    (k.allocate vs).Sound := by
  obtain ⟨hnodup, hfresh⟩ := Vmk.fresh_iff.mp hvs
  constructor
  · exact hnodup.append hk.nodup (fun v hv hlive => (hfresh v hv).2.2.1 hlive)
  · intro v hv
    rcases List.mem_append.mp hv with hv | hv
    · exact ⟨(hfresh v hv).1, (hfresh v hv).2.1, (hfresh v hv).2.2.2⟩
    · exact hk.valid v hv
  · intro v
    have hbalance := hk.balance v
    simp only [Vmk.allocate, List.count_append]
    omega
  · exact hk.wrong

theorem Vmk.Sound.free (hk : k.Sound) (hv : v ∈ k.live) : (k.free v).Sound := by
  have hpos := List.count_pos_iff.mpr hv
  unfold Vmk.free
  rw [if_pos hv]
  constructor
  · exact hk.nodup.erase v
  · exact fun w hw => hk.valid w (List.mem_of_mem_erase hw)
  · intro w
    have hbalance := hk.balance w
    rw [List.count_cons, List.count_erase]
    by_cases heq : v = w
    · subst heq
      simp only [beq_self_eq_true, if_true]
      omega
    · have hne : (v == w) = false := beq_false_of_ne heq
      simp only [hne, Bool.false_eq_true, if_false]
      omega
  · exact hk.wrong

theorem Vmk.mem_live_free (hk : k.Sound) (hv : v ∈ k.live) {w : Nat} :
    w ∈ (k.free v).live ↔ w ∈ k.live ∧ w ≠ v := by
  unfold Vmk.free
  rw [if_pos hv, hk.nodup.mem_erase_iff, and_comm]

/-- Each of the vectors is freed once, and no other is. -/
theorem Vmk.Sound.freeIntVectors (hk : k.Sound) (hnodup : vs.Nodup) (hvs : ∀ v ∈ vs, v ∈ k.live) :
    (k.freeIntVectors vs).Sound ∧ (k.freeIntVectors vs).legacy = k.legacy ∧
      ∀ w, w ∈ (k.freeIntVectors vs).live ↔ w ∈ k.live ∧ w ∉ vs := by
  induction vs generalizing k with
  | nil => exact ⟨hk, rfl, fun w => by simp [Vmk.freeIntVectors]⟩
  | cons v vs ih =>
    have hv := hvs v List.mem_cons_self
    rw [List.nodup_cons] at hnodup
    obtain ⟨hsound, hlegacy, hlive⟩ := ih (hk.free hv) hnodup.2 (fun w hw => by
      rw [Vmk.mem_live_free hk hv]
      exact ⟨hvs w (List.mem_cons_of_mem v hw), fun heq => hnodup.1 (heq ▸ hw)⟩)
    have heq : k.freeIntVectors (v :: vs) = (k.free v).freeIntVectors vs := rfl
    rw [heq]
    refine ⟨hsound, hlegacy.trans (by unfold Vmk.free; split <;> rfl), fun w => ?_⟩
    rw [hlive, Vmk.mem_live_free hk hv, List.mem_cons, not_or, and_assoc]

theorem Vmk.Sound.legacy (hk : k.Sound) (hv : v ∉ k.live) :
    ({ k with legacy := v :: k.legacy } : Vmk).Sound := by
  refine ⟨hk.nodup, fun w hw => ?_, hk.balance, hk.wrong⟩
  obtain ⟨hzero, hvalid, hlegacy⟩ := hk.valid w hw
  refine ⟨hzero, hvalid, fun hmem => ?_⟩
  rcases List.mem_cons.mp hmem with heq | hmem
  · exact hv (heq ▸ hw)
  · exact hlegacy hmem

end Vmk

/-! ### The invariant -/

/-- The device records exactly the vectors that are allocated, each in one place. -/
structure DevExt.Records (e : DevExt) (k : Vmk) : Prop where
  nodup : e.intrVectors.Nodup
  intrVectors : ∀ v ∈ e.intrVectors, v ∈ k.live
  irq : e.irq ∈ k.live → e.irq ∉ e.intrVectors
  default : e.defaultIntrVector = true → e.irq ∈ k.legacy
  recorded : ∀ v ∈ k.live, v = e.irq ∨ v ∈ e.intrVectors

structure Inv (s : State) : Prop where
  sound : s.vmk.Sound
  records : ∀ e, s.dev = some e → e.Records s.vmk
  removed : s.dev = none → s.vmk.live = []

section Steps

variable {e : DevExt} {k : Vmk} {s s' : State}

theorem not_invalid (hk : k.Sound) : invalidIntrVector ∉ k.live :=
  fun hmem => (hk.valid _ hmem).2.1 rfl

theorem notLegacy_of_mem (hk : k.Sound) (he : e.Records k) (hirq : e.irq ∈ k.live) :
    e.intrVectorIsNotLegacy = true := by
  obtain ⟨hzero, hvalid, hlegacy⟩ := hk.valid _ hirq
  simp only [DevExt.intrVectorIsNotLegacy, decide_eq_true_eq]
  refine ⟨?_, hzero, hvalid⟩
  by_contra hdefault
  exact hlegacy (he.default (by simpa using hdefault))

theorem legacyIntrVectorSet_inv {vector : Option Nat} (hk : k.Sound) (he : e.Records k)
    (hvector : vector.toList.all (fun v => decide (v ∉ k.live)) = true)
    (hirq : vector = none ∨ e.irq ∉ k.live) :
    (legacyIntrVectorSet vector e k).2.Sound ∧
      (legacyIntrVectorSet vector e k).1.Records (legacyIntrVectorSet vector e k).2 := by
  cases vector with
  | none => exact ⟨hk, he⟩
  | some v =>
    have hv : v ∉ k.live := by simpa using hvector
    have hirq' := hirq.resolve_left (by simp)
    refine ⟨hk.legacy hv, he.nodup, he.intrVectors, fun hmem => absurd hmem hv,
      fun _ => List.mem_cons_self, fun w hw => ?_⟩
    rcases he.recorded w hw with heq | hmem
    · exact absurd (heq ▸ hw) hirq'
    · exact .inr hmem

/-- `LinuxPCIIntrVectorFree`: what is allocated afterwards is recorded in `intrVectors`. -/
theorem intrVectorFree_inv (kept : List Nat) (hk : k.Sound) (hstale : e.stale k = false)
    (hdefault : e.defaultIntrVector = true → e.irq ∈ k.legacy) (hkept : e.irq ∉ kept)
    (hrecorded : ∀ v, v ∈ k.live ↔ v ∈ kept ∨ (v = e.irq ∧ e.irq ∈ k.live)) :
    (intrVectorFree e k).2.Sound ∧ (intrVectorFree e k).2.legacy = k.legacy ∧
      ∀ v, v ∈ (intrVectorFree e k).2.live ↔ v ∈ kept := by
  unfold intrVectorFree
  simp only [DevExt.stale, Bool.and_eq_false_iff, decide_eq_false_iff_not, not_not] at hstale
  split
  · rename_i hnot
    have hirq : e.irq ∈ k.live := hstale.resolve_left (by simp [hnot])
    obtain ⟨hsound, hlegacy, hlive⟩ := hk.freeIntVectors (List.nodup_singleton e.irq)
      (fun v hv => (List.mem_singleton.mp hv) ▸ hirq)
    refine ⟨hsound, hlegacy, fun v => ?_⟩
    rw [hlive, List.mem_singleton, hrecorded]
    grind
  · rename_i hnot
    have hirq : e.irq ∉ k.live := by
      intro hmem
      obtain ⟨hzero, hvalid, hlegacy⟩ := hk.valid _ hmem
      simp only [DevExt.intrVectorIsNotLegacy, decide_eq_true_eq] at hnot
      refine hnot ⟨?_, hzero, hvalid⟩
      by_contra hfalse
      exact hlegacy (hdefault (by simpa using hfalse))
    refine ⟨hk, rfl, fun v => ?_⟩
    rw [hrecorded]
    exact or_iff_left (fun h => hirq h.2)

/-- A new vector is not the one in `irq`. -/
theorem irq_ne_of_fresh {vs : List Nat} (he : e.Records k) (hvs : k.fresh vs = true)
    (hstale : e.stale k = false) : e.irq ∉ vs := by
  intro hmem
  obtain ⟨hzero, hvalid, hlive, hlegacy⟩ := (Vmk.fresh_iff.mp hvs).2 _ hmem
  simp only [DevExt.stale, DevExt.intrVectorIsNotLegacy, Bool.and_eq_false_iff,
    decide_eq_false_iff_not, not_not] at hstale
  refine hstale.elim (fun hnot => hnot ⟨?_, hzero, hvalid⟩) hlive
  by_contra hdefault
  exact hlegacy (he.default (by simpa using hdefault))

theorem stale_allocate {vs : List Nat} (hstale : e.stale k = false) :
    e.stale (k.allocate vs) = false := by
  simp only [DevExt.stale, Bool.and_eq_false_iff, decide_eq_false_iff_not, not_not] at hstale ⊢
  exact hstale.imp_right (List.mem_append_right vs)

theorem irq_notMem_intrVectors (he : e.Records k) : e.irq ∉ e.intrVectors :=
  fun hmem => he.irq (he.intrVectors _ hmem) hmem

theorem enableMSI_inv {vector : Option Nat} (hk : k.Sound) (he : e.Records k)
    (hfresh : k.fresh vector.toList = true) (hok : vector = none ∨ e.stale k = false) :
    (enableMSI vector e k).2.Sound ∧ (enableMSI vector e k).1.Records (enableMSI vector e k).2 := by
  cases vector with
  | none => exact ⟨hk, he⟩
  | some v =>
    have hstale := hok.resolve_left (by simp)
    have hirq := irq_ne_of_fresh he hfresh hstale
    have hrecorded := he.recorded
    have hin := he.intrVectors
    have hnot := irq_notMem_intrVectors he
    obtain ⟨-, -, hv, -⟩ := (Vmk.fresh_iff.mp hfresh).2 v (by simp)
    obtain ⟨hsound, hlegacy, hlive⟩ := intrVectorFree_inv (v :: e.intrVectors)
      (hk.allocate hfresh) (stale_allocate hstale) he.default (by simp_all)
      (fun w => by simp only [Vmk.allocate]; grind)
    refine ⟨hsound, he.nodup, fun w hw => (hlive w).mpr (List.mem_cons_of_mem v hw),
      fun _ hmem => hv (hin v hmem), fun hfalse => (by cases hfalse),
      fun w hw => List.mem_cons.mp ((hlive w).mp hw)⟩

theorem disableMSI_inv {legacy : Option Nat} (hk : k.Sound) (he : e.Records k)
    (hlegacy : legacy.toList.all (fun v => decide (v ∉ k.live)) = true) (hok : e.irq ∈ k.live) :
    (disableMSI legacy e k).2.Sound ∧
      (disableMSI legacy e k).1.Records (disableMSI legacy e k).2 := by
  obtain ⟨hsound, hsame, hlive⟩ := hk.freeIntVectors (List.nodup_singleton e.irq)
    (fun v hv => (List.mem_singleton.mp hv) ▸ hok)
  have hgone : e.irq ∉ (k.freeIntVectors [e.irq]).live := by simp [hlive]
  refine legacyIntrVectorSet_inv hsound ⟨he.nodup, fun v hv => ?_, fun hmem => absurd hmem hgone,
    fun hdefault => hsame ▸ he.default hdefault, fun v hv => he.recorded v ((hlive v).mp hv).1⟩
    ?_ (.inr hgone)
  · rw [hlive, List.mem_singleton]
    exact ⟨he.intrVectors v hv, fun heq => irq_notMem_intrVectors he (heq ▸ hv)⟩
  · simp only [List.all_eq_true, decide_eq_true_eq] at hlegacy ⊢
    exact fun v hv hmem => hlegacy v hv ((hlive v).mp hmem).1

theorem enableMSIX_inv {vectors : Option (List Nat)} (hk : k.Sound) (he : e.Records k)
    (hfresh : k.fresh (vectors.getD []) = true)
    (hok : vectors = none ∨ e.intrVectors = [] ∧ e.stale k = false) :
    (enableMSIX vectors e k).2.Sound ∧
      (enableMSIX vectors e k).1.Records (enableMSIX vectors e k).2 := by
  cases vectors with
  | none => exact ⟨hk, he⟩
  | some vs =>
    obtain ⟨hnil, hstale⟩ := hok.resolve_left (by simp)
    have hrecorded := he.recorded
    rw [hnil] at hrecorded
    have hirq := irq_ne_of_fresh he hfresh hstale
    obtain ⟨hsound, hlegacy, hlive⟩ := intrVectorFree_inv (e := { e with intrVectors := vs }) vs
      (hk.allocate hfresh) (stale_allocate hstale) he.default hirq
      (fun w => by simp only [Vmk.allocate]; grind)
    refine ⟨hsound, (Vmk.fresh_iff.mp hfresh).1, fun w hw => (hlive w).mpr hw,
      fun hmem => absurd hmem (not_invalid hsound), fun hfalse => (by cases hfalse),
      fun w hw => .inr ((hlive w).mp hw)⟩

theorem disableMSIX_inv {legacy : Option Nat} (hk : k.Sound) (he : e.Records k)
    (hlegacy : legacy.toList.all (fun v => decide (v ∉ k.live)) = true)
    (hok : legacy = none ∨ e.irq ∉ k.live) :
    (disableMSIX legacy e k).2.Sound ∧
      (disableMSIX legacy e k).1.Records (disableMSIX legacy e k).2 := by
  obtain ⟨hsound, hsame, hlive⟩ := hk.freeIntVectors he.nodup he.intrVectors
  refine legacyIntrVectorSet_inv hsound ⟨List.nodup_nil, fun v hv => (by cases hv),
    fun _ hmem => (by cases hmem), fun hdefault => hsame ▸ he.default hdefault, fun v hv => ?_⟩ ?_
    (hok.imp_right fun hnot hmem => hnot ((hlive _).mp hmem).1)
  · obtain ⟨hmem, hnot⟩ := (hlive v).mp hv
    exact .inl ((he.recorded v hmem).resolve_right hnot)
  · simp only [List.all_eq_true, decide_eq_true_eq] at hlegacy ⊢
    exact fun v hv hmem => hlegacy v hv ((hlive v).mp hmem).1

theorem deviceInserted_inv {hide : Bool} {legacy : Option Nat} (hk : k.Sound) (he : e.Records k)
    (hlegacy : legacy.toList.all (fun v => decide (v ∉ k.live)) = true)
    (hok : hide = true ∨ legacy = none ∨ e.irq ∉ k.live) :
    (deviceInserted hide legacy e k).2.Sound ∧
      (deviceInserted hide legacy e k).1.Records (deviceInserted hide legacy e k).2 := by
  unfold deviceInserted
  split
  · exact ⟨hk, he⟩
  · rename_i hnot
    exact legacyIntrVectorSet_inv hk he hlegacy (hok.resolve_left hnot)

theorem onDevice_inv {f : DevExt → Vmk → DevExt × Vmk}
    (hf : ∀ e, s.dev = some e → (f e s.vmk).2.Sound ∧ (f e s.vmk).1.Records (f e s.vmk).2)
    (h : onDevice f s = some s') : Inv s' := by
  unfold onDevice at h
  split at h
  · cases h
  · rename_i e he
    obtain rfl := Option.some.inj h
    obtain ⟨hsound, hrecords⟩ := hf e he
    exact ⟨hsound, fun e' he' => (Option.some.inj he') ▸ hrecords, fun hnone => by cases hnone⟩

theorem step_inv {event : Event} (hI : Inv s) (hok : orderly s event = true)
    (h : step event s = some s') : Inv s' := by
  unfold step at h
  split at h
  · rename_i hanswered
    have hon : ∀ e, s.dev = some e → orderlyOn e s.vmk event = true := by
      intro e he
      simpa only [orderly, he] using hok
    cases event with
    | enableMSI vector =>
      refine onDevice_inv (fun e he => ?_) h
      exact enableMSI_inv hI.sound (hI.records e he) hanswered
        (by simpa [orderlyOn] using hon e he)
    | disableMSI legacy =>
      refine onDevice_inv (fun e he => ?_) h
      exact disableMSI_inv hI.sound (hI.records e he) hanswered
        (by simpa [orderlyOn] using hon e he)
    | enableMSIX vectors =>
      refine onDevice_inv (fun e he => ?_) h
      exact enableMSIX_inv hI.sound (hI.records e he) hanswered
        (by simpa [orderlyOn] using hon e he)
    | disableMSIX legacy =>
      refine onDevice_inv (fun e he => ?_) h
      exact disableMSIX_inv hI.sound (hI.records e he) hanswered
        (by simpa [orderlyOn] using hon e he)
    | inserted hide legacy =>
      simp only at h
      split at h
      · rename_i hnone
        have hempty := hI.removed hnone
        have hnew : (({} : DevExt)).Records s.vmk :=
          ⟨List.nodup_nil, fun v hv => (by cases hv), fun hmem => (by simp [hempty] at hmem),
            fun hfalse => (by cases hfalse), fun v hv => by simp [hempty] at hv⟩
        refine onDevice_inv (s := { s with dev := some {} }) (fun e he => ?_) h
        obtain rfl := Option.some.inj he
        exact deviceInserted_inv hI.sound hnew hanswered (.inr (.inr (by simp [hempty])))
      · cases h
    | changedOwner hide legacy =>
      refine onDevice_inv (fun e he => ?_) h
      exact deviceInserted_inv hI.sound (hI.records e he) hanswered
        (by simpa [orderlyOn, or_assoc] using hon e he)
    | removed =>
      simp only at h
      split at h
      · cases h
      · rename_i hsome
        obtain ⟨e, he⟩ := Option.ne_none_iff_exists'.mp hsome
        obtain rfl := Option.some.inj h
        exact ⟨hI.sound, fun e he => (by cases he),
          fun _ => by simpa [orderlyOn] using hon e he⟩
  · cases h

end Steps

/-! ### Whole runs -/

/-- Every allocated vector is recorded, each is freed once, at the latest when the device is
    removed, and nothing else is freed. -/
structure Kept (s : State) : Prop where
  recorded : ∀ v ∈ s.vmk.live, ∃ e, s.dev = some e ∧
    (e.irq = v ∧ e.defaultIntrVector = false ∨ v ∈ e.intrVectors)
  once : ∀ v, s.vmk.obtained.count v = s.vmk.freed.count v + s.vmk.live.count v
  removed : s.dev = none → s.vmk.live = []
  allocated : s.vmk.wrong = []

theorem Inv.kept {s : State} (hI : Inv s) : Kept s := by
  refine ⟨fun v hv => ?_, hI.sound.balance, hI.removed, hI.sound.wrong⟩
  cases hdev : s.dev with
  | none =>
    rw [hI.removed hdev] at hv
    cases hv
  | some e =>
    refine ⟨e, rfl, ?_⟩
    rcases (hI.records e hdev).recorded v hv with rfl | hmem
    · have hnot := notLegacy_of_mem hI.sound (hI.records e hdev) hv
      simp only [DevExt.intrVectorIsNotLegacy, decide_eq_true_eq] at hnot
      exact .inl ⟨rfl, hnot.1⟩
    · exact .inr hmem

/-- **No vector is lost, and none is freed wrongly**, where the calls are orderly. -/
theorem vectors_recorded_and_freed_once {s : State}
    (h : Reach step (fun s event => orderly s event = true) {} s) : Kept s := by
  refine Inv.kept (h.invariant Inv ⟨⟨?_, ?_, fun _ => rfl, rfl⟩, fun e he => (by cases he),
    fun _ => rfl⟩ (fun s event s' hI hok hs => step_inv hI hok hs))
  · exact List.nodup_nil
  · exact fun v hv => by cases hv

/-- MSI, then MSI-X, each disabled before the other is enabled, and the device removed. -/
theorem vectors_recorded_and_freed_once_msix :
    ∃ s, Reach step (fun s event => orderly s event = true) {} s ∧
      (s.vmk.obtained, s.vmk.freed, s.dev) = ([41, 42, 40], [42, 41, 40], none) ∧ Kept s := by
  obtain ⟨s, hs, ho⟩ := exists_reach_of_runIf step orderly
    [.inserted false (some 20), .enableMSI (some 40), .disableMSI (some 20), .enableMSI none,
      .enableMSIX (some [41, 42]), .disableMSIX (some 20), .removed] {}
    (fun s => (s.vmk.obtained, s.vmk.freed, s.dev)) ([41, 42, 40], [42, 41, 40], none)
    (by decide)
  exact ⟨s, hs, ho, vectors_recorded_and_freed_once hs⟩

/-- A legacy vector is freed; an MSI vector is freed twice; MSI-X vectors are forgotten; an MSI
    vector is forgotten when the legacy one is put back; and one outlives the device. -/
theorem vectors_lost_or_freed_wrongly :
    (∃ s, Reachable step {} s ∧ s.vmk.wrong = [20]) ∧
    (∃ s, Reachable step {} s ∧
      (s.vmk.obtained, s.vmk.freed, s.vmk.wrong) = ([40], [40, 40], [40])) ∧
    (∃ s, Reachable step {} s ∧ (s.dev, s.vmk.live) =
      (some { irq := invalidIntrVector, intrVectors := [43] }, [43, 41, 42])) ∧
    (∃ s, Reachable step {} s ∧
      (s.dev, s.vmk.live) = (some { irq := 20, defaultIntrVector := true }, [40])) ∧
    ∃ s, Reachable step {} s ∧ (s.dev, s.vmk.live) = (none, [40]) := by
  refine ⟨?_, ?_, ?_, ?_, ?_⟩
  · exact exists_reachable_of_run step [.inserted false (some 20), .disableMSI (some 20)] {} _ _
      (by decide)
  · exact exists_reachable_of_run step
      [.inserted false (some 20), .enableMSI (some 40), .disableMSI none, .disableMSI none] {} _ _
      (by decide)
  · exact exists_reachable_of_run step
      [.inserted false (some 20), .enableMSIX (some [41, 42]), .enableMSIX (some [43])] {} _ _
      (by decide)
  · exact exists_reachable_of_run step
      [.inserted false (some 20), .enableMSI (some 40), .changedOwner true none,
        .changedOwner false (some 20)] {} _ _ (by decide)
  · exact exists_reachable_of_run step
      [.inserted false (some 20), .enableMSI (some 40), .removed] {} _ _ (by decide)

end VmkLinux.Pci.Vectors
