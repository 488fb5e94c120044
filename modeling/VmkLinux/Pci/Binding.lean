/-
  VmkLinux/Pci/Binding.lean
  =========================
  **Probe and remove are paired.**  Four places leave a binding half undone: when
  `LinNet_ConnectUplink` fails, `pci_announce_device` calls `remove` and keeps `dev->driver`;
  `LinuxPCIDeviceRemoved` does the same when the owner of a device changes; a bound device whose
  driver has no `remove` is announced to the drivers again when it comes back; and
  `pci_unregister_driver` keeps `moduleID`, and does not look at hidden devices.  Where none of
  these is reached, what a device has as its driver is what the calls of `probe` and `remove`
  say (`probe_remove_paired`).
-/
import Mathlib.Data.Fin.Tuple.Basic
import Mathlib.Data.List.Nodup
import VmkLinux.Pci.Model

namespace VmkLinux.Pci

open VmkLinux.Sequence

/-! ### The calls of a driver -/

/-- The last `probe` of the device by the driver has succeeded, and `remove` was not called
    since; the last call is the first of the list. -/
def claims (drv d : Nat) : List DriverCall → Bool
  | [] => false
  | .probe drv' d' ok :: calls => if drv' = drv ∧ d' = d then ok else claims drv d calls
  | .remove drv' d' :: calls => if drv' = drv ∧ d' = d then false else claims drv d calls

/-- A device is probed only while it is not bound, and removed from a driver only while it is
    bound to it. -/
def Paired : List DriverCall → Prop
  | [] => True
  | .probe _ d _ :: calls => (∀ drv, claims drv d calls = false) ∧ Paired calls
  | .remove drv d :: calls => claims drv d calls = true ∧ Paired calls

/-! ### Orderly events -/

/-- The driver takes the device, and the network device cannot be connected. -/
def Answer.fails (a : Answer) : Bool := decide (0 ≤ a.probe) && a.netdev && a.uplinkFails

/-- The device has a driver with a `remove`. -/
def Bus.removable (D : Nat → Driver) (s : Bus) (d : Nat) : Bool :=
  (s.dev d).driver.any fun drv => (D drv).hasRemove

/-- `LinNet_ConnectUplink` does not fail; a driver is not unregistered while a device is bound to
    it; a device does not change its owner while it is bound to a driver with a `remove`; and
    one that comes back bound to a driver without one is supported by none that has one. -/
def orderly (D : Nat → Driver) (s : Bus) : Event → Bool
  | .registerDriver drv _ answers =>
      s.devices.all fun d => !(D drv).supports (s.dev d).info || !(answers drv d).fails
  | .unregisterDriver drv =>
      (s.devices ++ s.hiddenDevices).all fun d => decide ((s.dev d).driver ≠ some drv)
  | .inserted d info _ answers =>
      s.drivers.all fun drv => !(D drv).supports info || !(answers drv d).fails
  | .removed _ => true
  | .changedOwner d old new answers =>
      if new = .module then
        s.drivers.all fun drv => !(D drv).hasRemove || !(D drv).supports (s.dev d).info ||
          (decide ((s.dev d).driver = none) && !(answers drv d).fails)
      else decide (old ≠ .module) || !s.removable D d

/-! ### The invariant -/

/-- A device and what the calls say of it. -/
structure Bound (s : Bus) (d : Nat) : Prop where
  driver : ∀ drv, (s.dev d).driver = some drv ↔ claims drv d s.calls = true
  moduleID : (s.dev d).moduleID.isSome = (s.dev d).driver.isSome
  registered : ∀ drv, (s.dev d).driver = some drv → drv ∈ s.drivers

structure Inv (s : Bus) : Prop where
  lists : ∀ d, s.devices.count d + s.hiddenDevices.count d = (s.dev d).live.toNat
  seen : ∀ d, (s.dev d).seen = false → (s.dev d).live = false ∧
    ∀ drv, claims drv d s.calls = false
  bound : ∀ d, (s.dev d).live = true → Bound s d
  drivers : s.drivers.Nodup
  paired : Paired s.calls

section Announce

variable {D : Nat → Driver} {s : Bus} {a : Answer} {drv d : Nat}

/-- Nobody claims a device without a driver. -/
theorem Bound.claims_false (hB : Bound s d) (hnone : (s.dev d).driver = none) (drv : Nat) :
    claims drv d s.calls = false := by
  by_contra htrue
  rw [Bool.not_eq_false] at htrue
  rw [(hB.driver drv).mpr htrue] at hnone
  cases hnone

/-- `probe` is not called, or it succeeds, or it fails. -/
theorem announceDevice_cases
    (hok : (D drv).supports (s.dev d).info = false ∨ a.fails = false) :
    announceDevice D a drv d s = (s, false) ∨
      announceDevice D a drv d s =
        ((s.upd d fun p => { p with driver := some drv, moduleID := some (D drv).moduleID }).log
          (.probe drv d true), true) ∨
      announceDevice D a drv d s =
        ((s.upd d fun p => { p with driver := none }).log (.probe drv d false), false) := by
  unfold announceDevice
  split
  · exact .inl rfl
  · rename_i hsupports
    have hfails := hok.resolve_left hsupports
    split
    · rename_i hprobe
      have huplink : (a.netdev && a.uplinkFails) = false := by
        simpa [Answer.fails, hprobe] using hfails
      simp only [huplink]
      exact .inr (.inl rfl)
    · exact .inr (.inr rfl)

/-- A device without a driver gets one. -/
theorem inv_bind {m : Nat} (hI : Inv s) (hlive : (s.dev d).live = true)
    (hnone : (s.dev d).driver = none) (hreg : drv ∈ s.drivers) :
    Inv ((s.upd d fun p => { p with driver := some drv, moduleID := some m }).log
      (.probe drv d true)) := by
  have hclaims := (hI.bound d hlive).claims_false hnone
  obtain ⟨hlists, hseen, hbound, hdrivers, hpaired⟩ := hI
  refine ⟨fun e => ?_, fun e he => ?_, fun e he => ⟨fun drv' => ?_, ?_, fun drv' h => ?_⟩, hdrivers,
    ⟨hclaims, hpaired⟩⟩
  all_goals simp only [Bus.upd, Bus.log, claims] at *
  all_goals grind -linarith [Bound]

/-- A device without a driver is refused. -/
theorem inv_refuse (hI : Inv s) (hlive : (s.dev d).live = true)
    (hnone : (s.dev d).driver = none) :
    Inv ((s.upd d fun p => { p with driver := none }).log (.probe drv d false)) := by
  have hclaims := (hI.bound d hlive).claims_false hnone
  obtain ⟨hlists, hseen, hbound, hdrivers, hpaired⟩ := hI
  refine ⟨fun e => ?_, fun e he => ?_, fun e he => ⟨fun drv' => ?_, ?_, fun drv' h => ?_⟩, hdrivers,
    ⟨hclaims, hpaired⟩⟩
  all_goals simp only [Bus.upd, Bus.log, claims] at *
  all_goals grind -linarith [Bound]

/-- What stays when a device is announced. -/
structure Same (s s' : Bus) (d : Nat) : Prop where
  drivers : s'.drivers = s.drivers
  devices : s'.devices = s.devices
  info : ∀ e, (s'.dev e).info = (s.dev e).info
  live : ∀ e, (s'.dev e).live = (s.dev e).live
  other : ∀ e, e ≠ d → s'.dev e = s.dev e

/-- `pci_announce_device` of a device without a driver: it has one if the call returns one. -/
theorem inv_announceDevice (hI : Inv s) (hlive : (s.dev d).live = true)
    (hnone : (s.dev d).driver = none) (hreg : drv ∈ s.drivers)
    (hok : (D drv).supports (s.dev d).info = false ∨ a.fails = false) :
    Inv (announceDevice D a drv d s).1 ∧ Same s (announceDevice D a drv d s).1 d ∧
      ((announceDevice D a drv d s).2 = false →
        ((announceDevice D a drv d s).1.dev d).driver = none) := by
  rcases announceDevice_cases hok with heq | heq | heq
  · rw [heq]
    exact ⟨hI, ⟨rfl, rfl, fun _ => rfl, fun _ => rfl, fun _ _ => rfl⟩, fun _ => hnone⟩
  · rw [heq]
    refine ⟨inv_bind hI hlive hnone hreg, ⟨rfl, rfl, fun e => ?_, fun e => ?_, fun e he => ?_⟩,
      fun hfalse => by cases hfalse⟩
    all_goals simp only [Bus.upd, Bus.log]
    all_goals grind -linarith
  · rw [heq]
    refine ⟨inv_refuse hI hlive hnone, ⟨rfl, rfl, fun e => ?_, fun e => ?_, fun e he => ?_⟩,
      fun _ => ?_⟩
    all_goals simp only [Bus.upd, Bus.log]
    all_goals grind -linarith

/-- A device without a driver is offered to all; a bound one to none that supports it. -/
theorem inv_announceDeviceToDrivers {answers : Answers} {drvs : List Nat} (hI : Inv s)
    (hlive : (s.dev d).live = true)
    (hok : ∀ drv ∈ drvs, drv ∈ s.drivers ∧ ((D drv).hasRemove = false ∨
      (D drv).supports (s.dev d).info = false ∨
        (s.dev d).driver = none ∧ (answers drv d).fails = false)) :
    Inv (announceDeviceToDrivers D answers d drvs s) := by
  induction drvs generalizing s with
  | nil => exact hI
  | cons drv drvs ih =>
    obtain ⟨hreg, hdrv⟩ := hok drv List.mem_cons_self
    have hrest := fun drv' hmem => hok drv' (List.mem_cons_of_mem drv hmem)
    unfold announceDeviceToDrivers
    split
    · rename_i hremove
      rcases hdrv with hfalse | hsupports | ⟨hnone, hfails⟩
      · rw [hremove] at hfalse
        cases hfalse
      · have heq : announceDevice D (answers drv d) drv d s = (s, false) := if_pos hsupports
        rw [heq]
        exact ih hI hlive hrest
      · obtain ⟨hI', hsame, hnone'⟩ := inv_announceDevice (a := answers drv d) hI hlive hnone hreg
          (.inr hfails)
        split
        · exact hI'
        · rename_i hret
          have hnone'' := hnone' (by simpa using hret)
          refine ih hI' ((hsame.live d).trans hlive) (fun drv' hmem => ?_)
          obtain ⟨hreg', hdrv'⟩ := hrest drv' hmem
          rw [hsame.drivers, hsame.info]
          exact ⟨hreg', hdrv'.imp_right (Or.imp_right fun h => ⟨hnone'', h.2⟩)⟩
    · exact ih hI hlive hrest

theorem inv_announceTo {answers : Answers} {busy : Nat → Bool} {ds : List Nat} (hI : Inv s)
    (hreg : drv ∈ s.drivers) (hok : ∀ d ∈ ds, (s.dev d).live = true ∧
      ((D drv).supports (s.dev d).info = false ∨ (answers drv d).fails = false)) :
    Inv (ds.foldl (announceTo D drv busy answers) s) := by
  induction ds generalizing s with
  | nil => exact hI
  | cons d ds ih =>
    obtain ⟨hlive, hd⟩ := hok d List.mem_cons_self
    have hrest := fun e hmem => hok e (List.mem_cons_of_mem d hmem)
    rw [List.foldl_cons]
    unfold announceTo
    split
    · rename_i hnone
      obtain ⟨hI', hsame, -⟩ := inv_announceDevice (a := answers drv d) hI hlive hnone.1 hreg hd
      refine ih hI' (hsame.drivers ▸ hreg) (fun e hmem => ?_)
      rw [hsame.live, hsame.info]
      exact hrest e hmem
    · exact ih hI hreg hrest

end Announce

/-! ### Calls and events -/

section Events

variable {D : Nat → Driver} {s s' : Bus} {drv d : Nat}

theorem Inv.live_of_mem (hI : Inv s) (hd : d ∈ s.devices ∨ d ∈ s.hiddenDevices) :
    (s.dev d).live = true := by
  have hcount := hI.lists d
  by_contra hfalse
  rw [Bool.not_eq_true] at hfalse
  rw [hfalse, Bool.toNat_false] at hcount
  rcases hd with hd | hd
  · have hpos := List.count_pos_iff.mpr hd
    omega
  · have hpos := List.count_pos_iff.mpr hd
    omega

theorem Inv.mem_of_live (hI : Inv s) (hd : (s.dev d).live = true) :
    d ∈ s.devices ++ s.hiddenDevices := by
  have hcount := hI.lists d
  rw [hd, Bool.toNat_true, ← List.count_append] at hcount
  exact List.count_pos_iff.mp (by omega)

theorem inv_registerDriver {busy : Nat → Bool} {answers : Answers} (hI : Inv s)
    (hnew : drv ∉ s.drivers) (hok : orderly D s (.registerDriver drv busy answers) = true) :
    Inv (registerDriver D drv busy answers s) := by
  simp only [orderly, List.all_eq_true, Bool.or_eq_true, Bool.not_eq_true'] at hok
  refine inv_announceTo ⟨hI.lists, hI.seen, fun e he => ?_, ?_, hI.paired⟩
    (List.mem_append_right _ (List.mem_singleton.mpr rfl))
    (fun e he => ⟨hI.live_of_mem (.inl he), hok e he⟩)
  · obtain ⟨hdriver, hmodule, hreg⟩ := hI.bound e he
    exact ⟨hdriver, hmodule, fun drv' h => List.mem_append_left _ (hreg drv' h)⟩
  · exact hI.drivers.append (List.nodup_singleton drv) (by simpa using hnew)

theorem unregisterDriver_eq (h : ∀ d ∈ s.devices, (s.dev d).driver ≠ some drv) :
    unregisterDriver D drv s = { s with drivers := s.drivers.erase drv } := by
  have hfold : ∀ (ds : List Nat) (s : Bus), (∀ d ∈ ds, (s.dev d).driver ≠ some drv) →
      ds.foldl (unbind D drv) s = s := by
    intro ds s hds
    induction ds with
    | nil => rfl
    | cons d ds ih =>
      have hd : unbind D drv s d = s := if_neg (hds d List.mem_cons_self)
      rw [List.foldl_cons, hd]
      exact ih fun e he => hds e (List.mem_cons_of_mem d he)
  exact hfold s.devices _ h

theorem inv_unregisterDriver (hI : Inv s) (hok : orderly D s (.unregisterDriver drv) = true) :
    Inv (unregisterDriver D drv s) := by
  simp only [orderly, List.all_eq_true, decide_eq_true_eq] at hok
  rw [unregisterDriver_eq fun e he => hok e (List.mem_append_left _ he)]
  refine ⟨hI.lists, hI.seen, fun e he => ?_, hI.drivers.erase drv, hI.paired⟩
  obtain ⟨hdriver, hmodule, hreg⟩ := hI.bound e he
  refine ⟨hdriver, hmodule, fun drv' h => ?_⟩
  have hne : drv' ≠ drv := by
    rintro rfl
    exact hok e (hI.mem_of_live he) h
  exact (List.mem_erase_of_ne hne).mpr (hreg drv' h)

/-- A device that is put at the end of one list is on that list only. -/
theorem count_place (s : Bus) (d e : Nat) (owner : Owner)
    (h : s.devices.count d + s.hiddenDevices.count d ≤ 1) :
    (s.place d owner).devices.count e + (s.place d owner).hiddenDevices.count e =
      if e = d then 1 else s.devices.count e + s.hiddenDevices.count e := by
  unfold Bus.place
  split
  all_goals simp only [List.count_append, List.count_singleton, List.count_erase]
  all_goals grind -linarith

theorem place_dev (s : Bus) (d e : Nat) (owner : Owner) :
    (s.place d owner).dev e =
      if e = d then { s.dev e with owner := owner } else s.dev e := by
  unfold Bus.place
  split
  all_goals simp only [Bus.upd]

theorem place_rest (s : Bus) (d : Nat) (owner : Owner) :
    (s.place d owner).drivers = s.drivers ∧ (s.place d owner).calls = s.calls := by
  unfold Bus.place
  split
  all_goals exact ⟨rfl, rfl⟩

theorem Bound.congr (hB : Bound s d) (hdev : (s'.dev d).driver = (s.dev d).driver ∧
    (s'.dev d).moduleID = (s.dev d).moduleID) (hdrivers : s'.drivers = s.drivers)
    (hcalls : s'.calls = s.calls) : Bound s' d := by
  refine ⟨fun drv => ?_, ?_, fun drv h => ?_⟩
  · rw [hdev.1, hcalls]
    exact hB.driver drv
  · rw [hdev.1, hdev.2]
    exact hB.moduleID
  · rw [hdrivers]
    exact hB.registered drv (hdev.1 ▸ h)

theorem Inv.congr (hI : Inv s) (hdev : ∀ e, (s'.dev e).live = (s.dev e).live ∧
      (s'.dev e).seen = (s.dev e).seen ∧ (s'.dev e).driver = (s.dev e).driver ∧
      (s'.dev e).moduleID = (s.dev e).moduleID)
    (hlists : ∀ e, s'.devices.count e + s'.hiddenDevices.count e =
      s.devices.count e + s.hiddenDevices.count e)
    (hdrivers : s'.drivers = s.drivers) (hcalls : s'.calls = s.calls) : Inv s' := by
  refine ⟨fun e => ?_, fun e he => ?_, fun e he => ?_, hdrivers ▸ hI.drivers, hcalls ▸ hI.paired⟩
  · rw [hlists, (hdev e).1]
    exact hI.lists e
  · rw [(hdev e).2.1] at he
    rw [(hdev e).1, hcalls]
    exact hI.seen e he
  · rw [(hdev e).1] at he
    exact (hI.bound e he).congr (hdev e).2.2 hdrivers hcalls

theorem inv_place (owner : Owner) (hI : Inv s) (hlive : (s.dev d).live = true) :
    Inv (s.place d owner) := by
  have hcount := hI.lists d
  rw [hlive, Bool.toNat_true] at hcount
  obtain ⟨hdrivers, hcalls⟩ := place_rest s d owner
  refine hI.congr (fun e => ?_) (fun e => ?_) hdrivers hcalls
  · rw [place_dev]
    split
    all_goals simp only [and_self]
  · rw [count_place s d e owner (Nat.le_of_eq hcount)]
    split
    · subst_vars
      exact hcount.symm
    · rfl

/-- A device is new. -/
theorem inv_new (owner : Owner) (info : Info) (hI : Inv s) (hnew : (s.dev d).seen = false) :
    Inv ((s.upd d fun _ => { info := info, seen := true, live := true }).place d owner) := by
  obtain ⟨hdead, hclaims⟩ := hI.seen d hnew
  have hcount := hI.lists d
  rw [hdead, Bool.toNat_false] at hcount
  obtain ⟨hdrivers, hcalls⟩ := place_rest
    (s.upd d fun _ => { info := info, seen := true, live := true }) d owner
  have hdev := fun e =>
    place_dev (s.upd d fun _ => { info := info, seen := true, live := true }) d e owner
  simp only [Bus.upd] at hdev hdrivers hcalls
  refine ⟨fun e => ?_, fun e he => ?_, fun e he => ?_, hdrivers ▸ hI.drivers, hcalls ▸ hI.paired⟩
  · rw [count_place _ d e owner (by simp only [Bus.upd]; omega)]
    simp only [Bus.upd, hdev]
    split
    · rfl
    · exact hI.lists e
  · by_cases hed : e = d
    · simp only [Bus.upd, hdev, hed, if_true] at he
      cases he
    · simp only [Bus.upd, hdev, hed, if_false] at he ⊢
      rw [hcalls]
      exact hI.seen e he
  · by_cases hed : e = d
    · subst hed
      refine ⟨fun drv => ?_, ?_, fun drv h => ?_⟩
      · simp only [Bus.upd, hdev, if_true, hcalls, hclaims drv]
        simp
      · simp only [Bus.upd, hdev, if_true, Option.isSome_none]
      · simp only [Bus.upd, hdev, if_true] at h
        cases h
    · simp only [Bus.upd, hdev, hed, if_false] at he
      refine (hI.bound e he).congr ?_ hdrivers hcalls
      simp only [Bus.upd, hdev, hed, if_false, and_self]

theorem inv_deviceRemoved (hI : Inv s) (hlive : (s.dev d).live = true) :
    Inv (deviceRemoved D d s) := by
  have hdriver := (hI.bound d hlive).driver
  have hcount := hI.lists d
  rw [hlive, Bool.toNat_true] at hcount
  obtain ⟨hlists, hseen, hbound, hdrivers, hpaired⟩ := hI
  unfold deviceRemoved callRemove
  split
  · rename_i drv hmodule hdrv
    split
    · refine ⟨fun e => ?_, fun e he => ?_, fun e he => ⟨fun drv' => ?_, ?_, fun drv' h => ?_⟩,
        hdrivers, ⟨(hdriver drv).mp hdrv, hpaired⟩⟩
      all_goals simp only [Bus.upd, Bus.log, claims, List.count_erase] at *
      all_goals grind -linarith [Bound, Bool.toNat]
    · refine ⟨fun e => ?_, fun e he => ?_, fun e he => ⟨fun drv' => ?_, ?_, fun drv' h => ?_⟩,
        hdrivers, hpaired⟩
      all_goals simp only [Bus.upd, List.count_erase] at *
      all_goals grind -linarith [Bound, Bool.toNat]
  · refine ⟨fun e => ?_, fun e he => ?_, fun e he => ⟨fun drv' => ?_, ?_, fun drv' h => ?_⟩,
      hdrivers, hpaired⟩
    all_goals simp only [Bus.upd, List.count_erase] at *
    all_goals grind -linarith [Bound, Bool.toNat]

/-- A device that changes its owner while it is not removable is left as it is. -/
theorem callRemove_eq (h : s.removable D d = false) : callRemove D d s = s := by
  unfold callRemove
  split
  · rename_i drv _ hdrv
    have hremove : (D drv).hasRemove = false := by simpa [Bus.removable, hdrv] using h
    exact if_neg (by simp [hremove])
  · rfl

theorem inv_step {event : Event} (hI : Inv s) (hok : orderly D s event = true)
    (h : step D event s = some s') : Inv s' := by
  cases event with
  | registerDriver drv busy answers =>
    simp only [step] at h
    split at h
    · cases h
    · rename_i hnew
      rw [Option.some.injEq] at h
      subst h
      exact inv_registerDriver hI hnew hok
  | unregisterDriver drv =>
    simp only [step] at h
    split at h
    · rw [Option.some.injEq] at h
      subst h
      exact inv_unregisterDriver hI hok
    · cases h
  | inserted d info owner answers =>
    simp only [step] at h
    split at h
    · cases h
    · rename_i hnew
      rw [Bool.not_eq_true] at hnew
      rw [Option.some.injEq] at h
      subst h
      have hI' := inv_new owner info hI hnew
      unfold deviceInserted
      split
      · simp only [orderly, List.all_eq_true, Bool.or_eq_true, Bool.not_eq_true'] at hok
        obtain ⟨hdrivers, -⟩ := place_rest
          (s.upd d fun _ => { info := info, seen := true, live := true }) d owner
        refine inv_announceDeviceToDrivers hI' (by simp [place_dev, Bus.upd]) (fun drv hmem => ?_)
        refine ⟨hdrivers ▸ hmem, .inr ?_⟩
        rcases hok drv hmem with hsupports | hfails
        · exact .inl (by simpa [place_dev, Bus.upd] using hsupports)
        · exact .inr ⟨by simp [place_dev, Bus.upd], hfails⟩
      · exact hI'
  | removed d =>
    simp only [step] at h
    split at h
    · rename_i hlive
      rw [Option.some.injEq] at h
      subst h
      exact inv_deviceRemoved hI hlive
    · cases h
  | changedOwner d old new answers =>
    simp only [step] at h
    simp only [orderly] at hok
    split at h
    · rename_i hpre
      obtain ⟨hlive, howner, -⟩ := hpre
      have hI' := inv_place new hI hlive
      split at h
      · rename_i hnew
        rw [Option.some.injEq] at h
        subst h
        simp only [hnew, if_true, List.all_eq_true, Bool.or_eq_true, Bool.not_eq_true',
          Bool.and_eq_true, decide_eq_true_eq] at hok
        simp only [deviceInserted, hnew, if_true]
        rw [hnew] at hI'
        obtain ⟨hdrivers, -⟩ := place_rest s d .module
        refine inv_announceDeviceToDrivers hI' (by simp [place_dev, hlive]) (fun drv hmem => ?_)
        refine ⟨hdrivers ▸ hmem, ?_⟩
        simp only [place_dev, if_true]
        rw [← or_assoc]
        exact hok drv hmem
      · rename_i hnew
        simp only [hnew, if_false, Bool.or_eq_true, decide_eq_true_eq, Bool.not_eq_true'] at hok
        split at h
        · rename_i hold
          rw [Option.some.injEq] at h
          subst h
          rw [callRemove_eq (hok.resolve_left (fun hne => hne hold))]
          exact hI'
        · rw [Option.some.injEq] at h
          subst h
          refine hI.congr (fun e => ?_) (fun e => rfl) rfl rfl
          simp only [Bus.upd]
          split
          all_goals simp only [and_self]
    · cases h

end Events

end VmkLinux.Pci
