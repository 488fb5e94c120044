/-
  VmkLinux/Scsi/DeviceState.lean
  ==============================
  **The state of a SCSI device and its path** (`vmklinux26/vmware/linux_scsi_lld_if.c`,
  `linux_scsi_transport.c` and `linux_scsi.c`): the operations that assign `sdev_state`, on one
  device, in any order.

  A section under `host_lock`, and an assignment without it, is one step.  A caller that has the
  lock already leaves fewer orders.  A notification tells the vmkernel to look at the path: what
  it finds is whether the device is usable at that time.

  `scsi_remove_device` and `scsi_offline_device` look at the state first.  The others assign it
  whatever it is, so a deleted device comes back (`deleted_device_unblocked`), and an offline one
  is blocked and unblocked again without a notification.
-/
import VmkLinux.Interleave
import VmkLinux.Scsi.States

namespace VmkLinux.Scsi.DeviceState

open VmkLinux.Interleave

/-! ### Data -/

/-- `notified` is what the vmkernel found at the last notification; a path starts as usable. -/
structure Shared where
  sdevState : SdevState := .created
  notified : Bool := true
deriving DecidableEq, Repr

inductive Pc where
  /-- `scsi_remove_device` and `scsi_offline_device`. -/
  | remove
  | offline
  /-- `shost_for_each_device` comes to the device, with `scsi_device_get`. -/
  | get
  /-- `device_block` and `device_unblock`. -/
  | block
  | unblock
  /-- `vmklnx_scsi_device_quiesce` and `vmklnx_scsi_device_resume`. -/
  | quiesce
  | drain
  | resume
  /-- `SCSILinuxConfigurePath`. -/
  | lookup
  | slaveConfigure
  | uldAttach
  | configure
  /-- `scsi_destroy_sdev`. -/
  | destroy
  /-- `vmk_ScsiNotifyPathStateChange` and `vmk_ScsiNotifyPathStateChangeAsync`. -/
  | notify
  | done
deriving DecidableEq, Repr

/-- `fn` is what `starget_for_each_device` calls. -/
structure Thread where
  pc : Pc
  fn : Pc := .done
deriving DecidableEq, Repr

inductive Call where
  | scsiRemoveDevice
  | scsiDestroySdev
  | scsiOfflineDevice
  | scsiTargetBlock
  | scsiTargetUnblock
  | scsiTargetQuiesce
  | scsiTargetResume
  | scsiConfigurePath
deriving DecidableEq, Repr

/-! ### The operations -/

def enter (_ : Nat) (call : Call) (s : Shared) : Option (Shared × Thread) :=
  match call with
  | .scsiRemoveDevice => some (s, { pc := .remove })
  | .scsiDestroySdev => some (s, { pc := .destroy })
  | .scsiOfflineDevice => some (s, { pc := .offline })
  | .scsiTargetBlock => some (s, { pc := .get, fn := .block })
  | .scsiTargetUnblock => some (s, { pc := .get, fn := .unblock })
  | .scsiTargetQuiesce => some (s, { pc := .get, fn := .quiesce })
  | .scsiTargetResume => some (s, { pc := .get, fn := .resume })
  | .scsiConfigurePath => some (s, { pc := .lookup })

/-- `goesOn` says whether the device is on the list of its host, whether `slave_configure`
    succeeds, whether `no_uld_attach` is off, and whether the device has come to rest. -/
def step (goesOn : Bool) (s : Shared) (t : Thread) : Option (Shared × Thread) :=
  match t.pc with
  | .remove =>
      if s.sdevState = .del then some (s, { t with pc := .done })
      else some ({ s with sdevState := .del }, { t with pc := .notify })
  | .offline =>
      if s.sdevState = .del ∨ s.sdevState = .offline then some (s, { t with pc := .done })
      else some ({ s with sdevState := .offline }, { t with pc := .notify })
  | .get =>
      if goesOn = false ∨ s.sdevState = .del then some (s, { t with pc := .done })
      else some (s, { t with pc := t.fn })
  | .block => some ({ s with sdevState := .block }, { t with pc := .done })
  | .unblock =>
      let notifyVmkernel := decide (s.sdevState = .offline)
      some ({ s with sdevState := .running },
        { t with pc := if notifyVmkernel then .notify else .done })
  | .quiesce => some ({ s with sdevState := .quiesce }, { t with pc := .drain })
  | .drain => some (s, { t with pc := if goesOn then .done else .drain })
  | .resume => some ({ s with sdevState := .running }, { t with pc := .done })
  | .lookup =>
      if goesOn = false ∨ s.sdevState = .del then some (s, { t with pc := .done })
      else some (s, { t with pc := .slaveConfigure })
  | .slaveConfigure => some (s, { t with pc := if goesOn then .uldAttach else .done })
  | .uldAttach => some (s, { t with pc := if goesOn then .configure else .done })
  | .configure => some ({ s with sdevState := .running }, { t with pc := .done })
  | .destroy => some ({ s with sdevState := .del }, { t with pc := .done })
  | .notify => some ({ s with notified := s.sdevState.usable }, { t with pc := .done })
  | .done => none

def machine : Machine Shared Thread Call Bool := ⟨enter, step⟩

def initial : Config Shared Thread := ⟨{}, []⟩

/-! ### Paths that are tracked -/

def Thread.notifies (t : Thread) : Bool := decide (t.pc = .notify)

/-- Where no notification is still to come, the vmkernel has found what the device is. -/
def Tracks (c : Config Shared Thread) : Prop :=
  c.pool.any Thread.notifies = false → c.shared.notified = c.shared.sdevState.usable

/-- What an assignment finds: not a deleted device that it would bring back; and where it makes an
    offline device usable, or deletes a usable one, without a notification, one is still to come
    from another operation. -/
def Thread.orderly (others : Bool) (s : Shared) (t : Thread) : Bool :=
  match t.pc with
  | .block | .quiesce | .resume | .configure =>
      decide (s.sdevState ≠ .del) && (decide (s.sdevState ≠ .offline) || others)
  | .unblock => decide (s.sdevState ≠ .del)
  | .destroy => !s.sdevState.usable || others
  | _ => true

def orderly (c : Config Shared Thread) : Event Call Bool → Bool
  | .start _ => true
  | .act i _ =>
      match c.pool[i]? with
      | some t => t.orderly ((c.pool.eraseIdx i).any Thread.notifies) c.shared
      | none => true

/-! ### One step -/

section Step

variable {c c' : Config Shared Thread} {s s' : Shared} {t t' : Thread} {goesOn others : Bool}

/-- `Tracks`, with a thread taken apart from the others. -/
def TracksWith (others : Bool) (s : Shared) (t : Thread) : Prop :=
  others = false → t.notifies = false → s.notified = s.sdevState.usable

/-- An assignment that makes the device usable and sends no notification. -/
theorem revive_iff {state : SdevState} (hI : TracksWith others s t) (hquiet : t.notifies = false)
    (huse : state.usable = true) :
    (decide (s.sdevState ≠ .del) && (decide (s.sdevState ≠ .offline) || others)) = true ↔
      (others = false → s.notified = state.usable) ∧ (s.sdevState = .del → state = .del) := by
  have hne : state ≠ .del := by
    rintro rfl
    exact absurd huse (by decide)
  simp only [Bool.and_eq_true, Bool.or_eq_true, decide_eq_true_eq, huse]
  constructor
  · rintro ⟨hlive, hon⟩
    refine ⟨fun hothers => ?_, fun hdel => absurd hdel hlive⟩
    have honline : s.sdevState ≠ .offline := by simpa [hothers] using hon
    rw [hI hothers hquiet]
    exact decide_eq_true ⟨honline, hlive⟩
  · rintro ⟨hseen, hdel⟩
    refine ⟨fun h => hne (hdel h), ?_⟩
    by_contra hboth
    simp only [not_or, not_not, Bool.not_eq_true] at hboth
    have hfound := hI hboth.2 hquiet
    rw [hseen hboth.2, hboth.1] at hfound
    exact absurd hfound (by decide)

/-- A step that leaves the state, and has no notification to send. -/
theorem tracksWith_of_eq (hI : TracksWith others s t) (hquiet : t.notifies = false) :
    TracksWith others s t' ∧ (s.sdevState = .del → s.sdevState = .del) :=
  ⟨fun hothers _ => hI hothers hquiet, id⟩

/-- A step that finds what it should keeps the path tracked and a deleted device deleted; a step
    that does not, does not. -/
theorem step_orderly_iff (hI : TracksWith others s t) (h : step goesOn s t = some (s', t')) :
    t.orderly others s = true ↔
      TracksWith others s' t' ∧ (s.sdevState = .del → s'.sdevState = .del) := by
  have hquiet : t.pc ≠ .notify → t.notifies = false := fun hne => decide_eq_false hne
  unfold step at h
  cases hpc : t.pc
  all_goals simp only [hpc, reduceCtorEq] at h
  all_goals rw [hpc] at hquiet
  all_goals simp only [Thread.orderly, hpc]
  case notify =>
    simp only [Option.some.injEq, Prod.mk.injEq] at h
    obtain ⟨rfl, rfl⟩ := h
    exact ⟨fun _ => ⟨fun _ _ => rfl, id⟩, fun _ => trivial⟩
  case block | resume | configure | quiesce =>
    simp only [Option.some.injEq, Prod.mk.injEq] at h
    obtain ⟨rfl, rfl⟩ := h
    refine (revive_iff hI (hquiet Pc.noConfusion) rfl).trans (and_congr_left fun _ => ?_)
    exact ⟨fun htrack hothers _ => htrack hothers, fun htrack hothers => htrack hothers rfl⟩
  case unblock =>
    simp only [Option.some.injEq, Prod.mk.injEq] at h
    obtain ⟨rfl, rfl⟩ := h
    rw [decide_eq_true_eq]
    constructor
    · intro hlive
      refine ⟨fun hothers hend => ?_, fun hdel => absurd hdel hlive⟩
      -- the device was not offline, or the notification is still to come
      have honline : s.sdevState ≠ .offline := by
        intro hoff
        simp [Thread.notifies, hoff] at hend
      rw [hI hothers (hquiet Pc.noConfusion)]
      exact decide_eq_true ⟨honline, hlive⟩
    · rintro ⟨-, hdel⟩ hlive
      exact SdevState.noConfusion (hdel hlive)
  case destroy =>
    simp only [Option.some.injEq, Prod.mk.injEq] at h
    obtain ⟨rfl, rfl⟩ := h
    simp only [Bool.or_eq_true, Bool.not_eq_true']
    constructor
    · intro hok
      refine ⟨fun hothers _ => ?_, fun _ => trivial⟩
      have hfound := hI hothers (hquiet Pc.noConfusion)
      rcases hok with hdead | hon
      · exact hfound.trans hdead
      · rw [hothers] at hon
        exact Bool.noConfusion hon
    · rintro ⟨htrack, -⟩
      cases hothers : others with
      | true => exact Or.inr rfl
      | false => exact Or.inl ((hI hothers (hquiet Pc.noConfusion)).symm.trans (htrack hothers rfl))
  case remove | offline =>
    refine ⟨fun _ => ?_, fun _ => trivial⟩
    split at h
    all_goals simp only [Option.some.injEq, Prod.mk.injEq] at h
    all_goals obtain ⟨rfl, rfl⟩ := h
    · exact tracksWith_of_eq hI (hquiet Pc.noConfusion)
    · rename_i hlive
      refine ⟨fun _ hend => Bool.noConfusion hend, fun hdel => ?_⟩
      simp [hdel] at hlive
  all_goals refine ⟨fun _ => ?_, fun _ => trivial⟩
  all_goals repeat' split at h
  all_goals simp only [Option.some.injEq, Prod.mk.injEq] at h
  all_goals obtain ⟨rfl, rfl⟩ := h
  all_goals exact tracksWith_of_eq hI (hquiet Pc.noConfusion)

theorem tracks_set_iff {i : Nat} (hi : c.pool[i]? = some t) :
    Tracks ⟨s', c.pool.set i t'⟩ ↔ TracksWith ((c.pool.eraseIdx i).any Thread.notifies) s' t' := by
  unfold Tracks TracksWith
  rw [any_set Thread.notifies t' hi, Bool.or_eq_false_iff]
  exact ⟨fun h hothers hend => h ⟨hend, hothers⟩, fun h hquiet => h hquiet.2 hquiet.1⟩

theorem exec_orderly_iff {e : Event Call Bool} (hI : Tracks c) (h : machine.exec c e = some c') :
    orderly c e = true ↔
      Tracks c' ∧ (c.shared.sdevState = .del → c'.shared.sdevState = .del) := by
  cases e with
  | start call =>
    simp only [Machine.exec, machine] at h
    split at h
    · rename_i g t hs
      cases h
      have hcall : g = c.shared ∧ t.notifies = false := by
        cases call
        all_goals simp only [enter, Option.some.injEq, Prod.mk.injEq] at hs
        all_goals obtain ⟨rfl, rfl⟩ := hs
        all_goals exact ⟨rfl, rfl⟩
      obtain ⟨rfl, hnew⟩ := hcall
      refine ⟨fun _ => ⟨fun hquiet => hI ?_, id⟩, fun _ => rfl⟩
      rw [List.any_append, Bool.or_eq_false_iff] at hquiet
      exact hquiet.1
    · cases h
  | act i goesOn =>
    simp only [Machine.exec, machine] at h
    split at h
    · rename_i t hi
      split at h
      · rename_i g t' hs
        cases h
        have hsame : c.pool.set i t = c.pool := by
          obtain ⟨hlt, rfl⟩ := List.getElem?_eq_some_iff.mp hi
          exact List.set_getElem_self hlt
        have hwith : TracksWith ((c.pool.eraseIdx i).any Thread.notifies) c.shared t := by
          rw [← tracks_set_iff hi, hsame]
          exact hI
        rw [tracks_set_iff hi, ← step_orderly_iff hwith hs]
        simp only [orderly, hi]
      · cases h
    · cases h

end Step

/-! ### Whole runs -/

/-- **Deletion is final and the path is tracked** in a run whose assignments find what they should;
    the first that does not brings a deleted device back, or leaves the path untracked. -/
theorem device_state_tracked {c : Config Shared Thread}
    (h : machine.Reach (fun c e => orderly c e = true) initial c) :
    Tracks c ∧ ∀ e c', machine.exec c e = some c' →
      (orderly c e = true ↔
        Tracks c' ∧ (c.shared.sdevState = .del → c'.shared.sdevState = .del)) := by
  have hI : Tracks c := by
    induction h with
    | init => exact fun _ => rfl
    | step _ hok hexec ih => exact ((exec_orderly_iff ih hexec).mp hok).1
  exact ⟨hI, fun e c' hexec => exec_orderly_iff hI hexec⟩

/-- The device is configured, blocked, set offline and unblocked; it is removed at last, and
    `scsi_offline_device` finds that. -/
theorem device_state_tracked_remove :
    ∃ c, machine.Reach (fun c e => orderly c e = true) initial c ∧
      (c.shared.sdevState, c.shared.notified) = (.del, false) ∧ Tracks c := by
  obtain ⟨c, hc, ho⟩ := machine.exists_reach_of_runIf orderly
    [.start .scsiConfigurePath, .act 0 true, .act 0 true, .act 0 true, .act 0 true,
      .start .scsiTargetBlock, .act 1 true, .act 1 true,
      .start .scsiOfflineDevice, .act 2 true, .act 2 true,
      .start .scsiTargetUnblock, .act 3 true, .act 3 true, .act 3 true,
      .start .scsiRemoveDevice, .act 4 true, .act 4 true,
      .start .scsiOfflineDevice, .act 5 true]
    initial (fun c => (c.shared.sdevState, c.shared.notified)) (.del, false) (by decide)
  exact ⟨c, hc, ho, (device_state_tracked hc).1⟩

/-- A device is unblocked after it was set offline and blocked: it is running, and the vmkernel
    was told last that it is not.  And one that `device_unblock` has got hold of is removed before
    `device_unblock` assigns its state: it is running again. -/
theorem deleted_device_unblocked :
    (∃ c, machine.Reachable initial c ∧ ¬ Tracks c) ∧
      ∃ c e c', machine.Reachable initial c ∧ machine.exec c e = some c' ∧
        c.shared.sdevState = .del ∧ c'.shared.sdevState = .running := by
  constructor
  · obtain ⟨c, hc, ho⟩ := machine.exists_reachable_of_run
      [.start .scsiOfflineDevice, .act 0 true, .act 0 true,
        .start .scsiTargetBlock, .act 1 true, .act 1 true,
        .start .scsiTargetUnblock, .act 2 true, .act 2 true]
      initial (fun c => (c.pool.any Thread.notifies, c.shared)) (false, ⟨.running, false⟩)
      (by decide)
    simp only [Prod.mk.injEq] at ho
    refine ⟨c, hc, fun htrack => ?_⟩
    have hfound := htrack ho.1
    rw [ho.2] at hfound
    exact Bool.noConfusion hfound
  · obtain ⟨c, hc, ho⟩ := machine.exists_reachable_of_run
      [.start .scsiTargetUnblock, .act 0 true, .start .scsiRemoveDevice, .act 1 true]
      initial (fun c => (c.shared.sdevState,
        (machine.exec c (.act 0 true)).map fun c' => c'.shared.sdevState)) (.del, some .running)
      (by decide)
    simp only [Prod.mk.injEq] at ho
    obtain ⟨c', hexec, hrunning⟩ := Option.map_eq_some_iff.mp ho.2
    exact ⟨c, _, c', hc, hexec, ho.1, hrunning⟩

end VmkLinux.Scsi.DeviceState
