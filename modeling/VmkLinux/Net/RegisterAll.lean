/-
  VmkLinux/Net/RegisterAll.lean
  =============================
  **Registering a net device is all or nothing** (`vmklinux26/vmware/linux_net.c`): what a
  `register_netdev` that fails leaves behind, and what the calls for one device do to the
  function table of the others.

  A device with a PCI device is registered or left alone.  A pseudo device is connected
  whatever became of its registration, and the failure of that is reported with the device
  registered; besides, its connection takes `getPCIProperties` out of the table that all
  uplinks share.
-/
import VmkLinux.Net.RegisterModel

namespace VmkLinux.Net.Register

open VmkLinux.Sequence

/-! ### What a call leaves as it was -/

/-- Nothing but names, counters and the like differs. -/
structure Renames (s s' : System) : Prop where
  devBase : s'.devBase = s.devBase
  table : s'.linNetFunctions = s.linNetFunctions
  pdev : ∀ e, (s'.dev e).pdev = (s.dev e).pdev
  uplinkDev : ∀ e, (s'.dev e).uplinkDev = (s.dev e).uplinkDev
  refcnt : ∀ e, (s'.dev e).refcnt = (s.dev e).refcnt
  init : ∀ e, (s'.dev e).init = (s.dev e).init
  regState : ∀ e, (s'.dev e).regState = (s.dev e).regState

theorem Renames.refl (s : System) : Renames s s :=
  ⟨rfl, rfl, fun _ => rfl, fun _ => rfl, fun _ => rfl, fun _ => rfl, fun _ => rfl⟩

theorem Renames.trans {s s' s'' : System} (h : Renames s s') (h' : Renames s' s'') :
    Renames s s'' where
  devBase := h'.devBase.trans h.devBase
  table := h'.table.trans h.table
  pdev e := (h'.pdev e).trans (h.pdev e)
  uplinkDev e := (h'.uplinkDev e).trans (h.uplinkDev e)
  refcnt e := (h'.refcnt e).trans (h.refcnt e)
  init e := (h'.init e).trans (h.init e)
  regState e := (h'.regState e).trans (h.regState e)

@[simp] theorem setDev_dev_self (s : System) (d : Nat) (x : NetDevice) :
    (s.setDev d x).dev d = x := if_pos rfl

theorem setDev_dev (s : System) (d e : Nat) (x : NetDevice) :
    (s.setDev d x).dev e = if e = d then x else s.dev e := rfl

theorem renames_setDev (s : System) (d : Nat) (x : NetDevice) (hp : x.pdev = (s.dev d).pdev)
    (hu : x.uplinkDev = (s.dev d).uplinkDev) (hr : x.refcnt = (s.dev d).refcnt)
    (hi : x.init = (s.dev d).init) (hs : x.regState = (s.dev d).regState) :
    Renames s (s.setDev d x) := by
  have field : ∀ {α : Type} (f : NetDevice → α), f x = f (s.dev d) →
      ∀ e, f ((s.setDev d x).dev e) = f (s.dev e) := by
    intro α f hf e
    rw [setDev_dev]
    split
    · next he => rw [he, hf]
    · rfl
  exact ⟨rfl, rfl, field NetDevice.pdev hp, field NetDevice.uplinkDev hu,
    field NetDevice.refcnt hr, field NetDevice.init hi, field NetDevice.regState hs⟩

theorem renames_setName (s : System) (d : Nat) (name : Name) :
    Renames s (s.setDev d { s.dev d with name := name }) :=
  renames_setDev s d _ rfl rfl rfl rfl rfl

theorem renames_setPci (s : System) (p : Nat) (x : PciDev) : Renames s (s.setPci p x) :=
  ⟨rfl, rfl, fun _ => rfl, fun _ => rfl, fun _ => rfl, fun _ => rfl, fun _ => rfl⟩

theorem renames_createDevName (s : System) : Renames s (createDevName s).2 :=
  ⟨rfl, rfl, fun _ => rfl, fun _ => rfl, fun _ => rfl, fun _ => rfl, fun _ => rfl⟩

theorem renames_setDevicePciName (d : Nat) (pdev : Option Nat) (s : System) :
    Renames s (setDevicePciName d pdev s) := by
  unfold setDevicePciName
  split
  · exact .refl s
  · split
    · exact renames_setPci s _ _
    · exact .refl s

theorem renames_netdevNameAdapter (env : Env) (d : Nat) (pdev : Option Nat) (s : System) :
    Renames s (netdevNameAdapter env d pdev s) := by
  unfold netdevNameAdapter
  split
  · split
    · exact .refl s
    · exact (renames_createDevName s).trans (renames_setName _ d _)
  · split
    · apply (renames_createDevName s).trans
      exact (renames_setPci _ _ _).trans (renames_setName _ d _)
    · split
      · apply (renames_createDevName s).trans
        exact (renames_setPci _ _ _).trans (renames_setName _ d _)
      · exact renames_setName s d _

/-! ### Registering -/

/-- The name can stay or `dev_alloc_name` finds one for it. -/
def Namable (env : Env) (name : Name) : Prop :=
  ∀ format, nameFormat name = some format → badFormat format = false ∧
    ∃ i < 100, env.isNameAvailable (snprintfName format i) = true

/-- `register_netdevice` gets as far as `dev_base`. -/
def Initable (env : Env) (dev : NetDevice) : Prop :=
  dev.regState ≠ .earlyNapiAddFailed ∧ (dev.init = true → env.init = 0) ∧
    env.worldletCreate = true

/-- The name, `dev->init` and the worldlet are there. -/
def Registrable (env : Env) (dev : NetDevice) : Prop := Namable env dev.name ∧ Initable env dev

theorem devAllocName_spec (env : Env) (d : Nat) (format : Name) (s : System) :
    Renames s (devAllocName env d format s).2 ∧
      (0 ≤ (devAllocName env d format s).1 ↔ badFormat format = false ∧
        ∃ i < 100, env.isNameAvailable (snprintfName format i) = true) := by
  unfold devAllocName
  cases hbad : badFormat format with
  | true => simp [Renames.refl, einval]
  | false =>
    simp only [Bool.false_eq_true, ↓reduceIte, true_and]
    split
    · next i hi =>
      have hmem := List.mem_range.mp (List.mem_of_find?_eq_some hi)
      refine ⟨renames_setName s d _, fun _ => ⟨i, hmem, ?_⟩, fun _ => Int.natCast_nonneg i⟩
      simpa using List.find?_some hi
    · next hnone =>
      refine ⟨.refl s, by simp [enfile], ?_⟩
      rintro ⟨i, hi, havail⟩
      exact absurd havail (List.find?_eq_none.mp hnone i (List.mem_range.mpr hi))

theorem allocName_spec (env : Env) (d : Nat) (s : System) :
    Renames s (allocName env d s).2 ∧
      (0 ≤ (allocName env d s).1 ↔ Namable env (s.dev d).name) := by
  unfold allocName Namable
  cases hname : nameFormat (s.dev d).name with
  | none => simp [Renames.refl]
  | some format =>
    obtain ⟨hren, hnonneg⟩ := devAllocName_spec env d format s
    refine ⟨hren, hnonneg.trans ⟨?_, fun h => h format rfl⟩⟩
    intro h format' hformat
    cases hformat
    exact h

/-- What a registration that succeeds does. -/
structure Adds (d : Nat) (s s' : System) : Prop where
  devBase : s'.devBase = d :: s.devBase
  table : s'.linNetFunctions = s.linNetFunctions
  pdev : ∀ e, (s'.dev e).pdev = (s.dev e).pdev
  uplinkDev : ∀ e, (s'.dev e).uplinkDev = (s.dev e).uplinkDev
  refcnt : (s'.dev d).refcnt = (s.dev d).refcnt + 1

theorem Adds.of_renames {d : Nat} {s s' s'' : System} (h : Renames s s') (h' : Adds d s' s'') :
    Adds d s s'' where
  devBase := by rw [h'.devBase, h.devBase]
  table := h'.table.trans h.table
  pdev e := (h'.pdev e).trans (h.pdev e)
  uplinkDev e := (h'.uplinkDev e).trans (h.uplinkDev e)
  refcnt := by rw [h'.refcnt, h.refcnt]

/-- A call that registers `d` and returns 0 when `ok`, and otherwise fails and leaves
    everything but names. -/
def Outcome (d : Nat) (ok : Prop) (s : System) (r : Int × System) : Prop :=
  (ok ∧ r.1 = 0 ∧ Adds d s r.2) ∨ (¬ok ∧ r.1 < 0 ∧ Renames s r.2)

theorem registerNetdevice_spec (env : Env) (d : Nat) (s : System) :
    Outcome d (Initable env (s.dev d)) s (registerNetdevice env d s) := by
  unfold registerNetdevice Outcome Initable
  by_cases hreg : (s.dev d).regState = .earlyNapiAddFailed
  · rw [if_pos hreg]
    exact .inr ⟨fun h => h.1 hreg, by simp [eio], .refl s⟩
  rw [if_neg hreg]
  have hren : Renames s (s.setDev d { s.dev d with iflink := -1, vlanGroup := none }) :=
    renames_setDev s d _ rfl rfl rfl rfl rfl
  simp only [setDev_dev_self]
  by_cases hinit : (s.dev d).init = true ∧ env.init ≠ 0
  · rw [if_pos hinit]
    exact .inr ⟨fun h => hinit.2 (h.2.1 hinit.1), by simp [eio], hren⟩
  rw [if_neg hinit]
  cases hworldlet : env.worldletCreate with
  | false => exact .inr ⟨by simp, by simp [enomem], hren⟩
  | true =>
    refine .inl ⟨⟨hreg, fun hi => ?_, rfl⟩, rfl, rfl, rfl, fun e => ?_, fun e => ?_, ?_⟩
    · by_contra hne
      exact hinit ⟨hi, hne⟩
    · by_cases he : e = d <;> simp [setDev_dev, he]
    · by_cases he : e = d <;> simp [setDev_dev, he]
    · simp

theorem registerLocked_spec (env : Env) (d : Nat) (s : System) :
    Outcome d (Registrable env (s.dev d)) s (registerLocked env d s) := by
  obtain ⟨hren, hnonneg⟩ := allocName_spec env d s
  unfold registerLocked
  dsimp only
  split
  · next herr =>
    have hname := hnonneg.mp herr
    generalize hs' : (if ((allocName env d s).2.dev d).useDriverNamingDevice = true then _
      else _ : System) = s'
    have hren' : Renames s s' := by
      subst hs'
      split
      · exact hren.trans (renames_setDevicePciName d _ _)
      · exact hren
    have hinit : Initable env (s'.dev d) ↔ Initable env (s.dev d) := by
      unfold Initable
      rw [hren'.regState, hren'.init]
    obtain ⟨hok, hret, hadds⟩ | ⟨hok, hret, hrest⟩ := registerNetdevice_spec env d s'
    · exact .inl ⟨⟨hname, hinit.mp hok⟩, hret, hadds.of_renames hren'⟩
    · exact .inr ⟨fun h => hok (hinit.mpr h.2), hret, hren'.trans hrest⟩
  · next herr =>
    exact .inr ⟨fun h => herr (hnonneg.mpr h.1), by omega, hren⟩

/-! ### Connecting -/

/-- `vmk_CharDevRegister` returns `VMK_OK`. -/
def CharDevStatus.isOk : CharDevStatus → Bool
  | .ok _ => true
  | .busy => false
  | .failure => false

/-- What a call to connect `d`, which is not connected, does. -/
structure Connects (env : Env) (d : Nat) (pdev : Option Nat) (s : System) (r : Int × System) :
    Prop where
  devBase : r.2.devBase = s.devBase
  table : r.2.linNetFunctions.getPCIProperties =
    if pdev = none then none else s.linNetFunctions.getPCIProperties
  pdev : ∀ e, (r.2.dev e).pdev = (s.dev e).pdev
  refcnt : ∀ e, (r.2.dev e).refcnt = (s.dev e).refcnt
  self : (r.2.dev d).uplinkDev = none ↔ env.uplinkConnected = false
  others : ∀ e, e ≠ d → (r.2.dev e).uplinkDev = (s.dev e).uplinkDev
  ret : r.1 = 0 ↔ env.uplinkConnected = true ∧ env.charDevRegister.isOk = true

theorem registerNicChrdev_spec (env : Env) (d : Nat) (s : System) :
    Renames s (registerNicChrdev env d s).2 ∧
      ((registerNicChrdev env d s).1 = 0 ↔ env.charDevRegister.isOk = true) := by
  unfold registerNicChrdev
  cases env.charDevRegister with
  | ok major => exact ⟨renames_setDev s d _ rfl rfl rfl rfl rfl, by simp [CharDevStatus.isOk]⟩
  | busy => exact ⟨.refl s, by simp [CharDevStatus.isOk, ebusy]⟩
  | failure => exact ⟨.refl s, by simp [CharDevStatus.isOk, einval]⟩

theorem connectUplink_spec (env : Env) (d : Nat) (pdev : Option Nat) (s : System)
    (hfree : (s.dev d).uplinkDev = none) :
    Connects env d pdev s (connectUplink env d pdev s) := by
  unfold connectUplink
  dsimp only
  generalize hs₁ : (if (s.dev d).useDriverNamingDevice = true then s else _ : System) = s₁
  have hren : Renames s s₁ := by
    subst hs₁
    split
    · exact .refl s
    · exact renames_netdevNameAdapter env d pdev s
  generalize connectInfo env d (s₁.dev d) = info
  generalize hs₂ : (if pdev = none then s₁.clearPCIProperties info.functions else s₁) = s₂
  have hdev : s₂.dev = s₁.dev := by
    subst hs₂
    split
    · rfl
    · rfl
  have hbase : s₂.devBase = s.devBase := by
    subst hs₂
    rw [← hren.devBase]
    split
    · rfl
    · rfl
  have htable : s₂.linNetFunctions.getPCIProperties =
      if pdev = none then none else s.linNetFunctions.getPCIProperties := by
    subst hs₂
    rw [← hren.table]
    split
    · rfl
    · rfl
  cases hconn : env.uplinkConnected with
  | false =>
    simp only [Bool.not_false, ↓reduceIte]
    refine ⟨hbase, htable, ?_, ?_, ?_, ?_, by simp [hconn]⟩
    · rw [hdev]
      exact hren.pdev
    · rw [hdev]
      exact hren.refcnt
    · rw [hdev, hren.uplinkDev, hfree, hconn]
      simp
    · intro e _
      rw [hdev, hren.uplinkDev]
  | true =>
    simp only [Bool.not_true, Bool.false_eq_true, ↓reduceIte]
    generalize hs₃ : s₂.setDev d _ = s₃
    obtain ⟨hchr, hret⟩ := registerNicChrdev_spec env d s₃
    subst hs₃
    refine ⟨hchr.devBase.trans hbase, ?_, ?_, ?_, ?_, ?_, by simpa [hconn] using hret⟩
    · rw [hchr.table]
      exact htable
    · intro e
      rw [hchr.pdev, setDev_dev, hdev, ← hren.pdev]
      split
      · next he => rw [he]
      · rfl
    · intro e
      rw [hchr.refcnt, setDev_dev, hdev, ← hren.refcnt]
      split
      · next he => rw [he]
      · rfl
    · rw [hchr.uplinkDev, setDev_dev_self]
      simp [hconn]
    · intro e he
      rw [hchr.uplinkDev, setDev_dev, if_neg he, hdev, hren.uplinkDev]

/-! ### One call -/

/-- Off `dev_base`, not connected, and with the references that others hold of it. -/
structure LeavesNothing (d : Nat) (s s' : System) : Prop where
  devBase : d ∉ s'.devBase
  uplinkDev : (s'.dev d).uplinkDev = none
  refcnt : (s'.dev d).refcnt = (s.dev d).refcnt

/-- A `register_netdev` that fails leaves nothing. -/
def AllOrNothing (env : Env) (d : Nat) (s : System) : Prop :=
  (registerNetdev env d s).1 < 0 → LeavesNothing d s (registerNetdev env d s).2

/-- The device has a PCI device; or everything works; or it can neither be registered nor
    connected. -/
def CleanRegister (env : Env) (dev : NetDevice) : Prop :=
  dev.pdev ≠ none ∨
    (Registrable env dev ∧ env.uplinkConnected = true ∧ env.charDevRegister.isOk = true ∧
      env.uplinkOpen = true) ∨
    (¬Registrable env dev ∧ env.uplinkConnected = false)

theorem Renames.leavesNothing {d : Nat} {s s' : System} (h : Renames s s') (hfresh : s.Fresh d) :
    LeavesNothing d s s' where
  devBase := by rw [h.devBase]; exact hfresh.1
  uplinkDev := by rw [h.uplinkDev]; exact hfresh.2
  refcnt := h.refcnt d

theorem Outcome.pdev {d : Nat} {ok : Prop} {s : System} {r : Int × System}
    (h : Outcome d ok s r) (e : Nat) : (r.2.dev e).pdev = (s.dev e).pdev := by
  obtain ⟨_, _, h⟩ | ⟨_, _, h⟩ := h
  · exact h.pdev e
  · exact h.pdev e

theorem Outcome.uplinkDev {d : Nat} {ok : Prop} {s : System} {r : Int × System}
    (h : Outcome d ok s r) (e : Nat) : (r.2.dev e).uplinkDev = (s.dev e).uplinkDev := by
  obtain ⟨_, _, h⟩ | ⟨_, _, h⟩ := h
  · exact h.uplinkDev e
  · exact h.uplinkDev e

theorem Outcome.table {d : Nat} {ok : Prop} {s : System} {r : Int × System}
    (h : Outcome d ok s r) : r.2.linNetFunctions = s.linNetFunctions := by
  obtain ⟨_, _, h⟩ | ⟨_, _, h⟩ := h
  · exact h.table
  · exact h.table

theorem registerNetdev_pci {env : Env} {d : Nat} {s : System} (hpci : (s.dev d).pdev ≠ none) :
    registerNetdev env d s = registerLocked env d s := by
  have hpdev := (registerLocked_spec env d s).pdev d
  unfold registerNetdev
  dsimp only
  rw [if_neg (by rw [hpdev]; exact hpci)]

theorem registerNetdev_pseudo {env : Env} {d : Nat} {s : System} (hpseudo : (s.dev d).pdev = none) :
    registerNetdev env d s =
      let (err, s) := registerLocked env d s
      let (ret, s) := connectUplink env d none s
      if ret ≠ 0 ∨ !env.uplinkOpen then (-eio, s) else (err, s) := by
  have hpdev := (registerLocked_spec env d s).pdev d
  conv_lhs => unfold registerNetdev
  dsimp only
  rw [if_pos (by rw [hpdev]; exact hpseudo)]

theorem registerNetdev_pseudo_state {env : Env} {d : Nat} {s : System}
    (hpseudo : (s.dev d).pdev = none) : (registerNetdev env d s).2 =
      (connectUplink env d none (registerLocked env d s).2).2 := by
  rw [registerNetdev_pseudo hpseudo]
  dsimp only
  split
  · rfl
  · rfl

/-- When `register_netdev` fails for a pseudo device. -/
theorem registerNetdev_pseudo_neg {env : Env} {d : Nat} {s : System} (hfresh : s.Fresh d)
    (hpseudo : (s.dev d).pdev = none) : (registerNetdev env d s).1 < 0 ↔
      ¬(Registrable env (s.dev d) ∧ env.uplinkConnected = true ∧
        env.charDevRegister.isOk = true ∧ env.uplinkOpen = true) := by
  have hreg := registerLocked_spec env d s
  have hret := (connectUplink_spec env d none (registerLocked env d s).2
    ((hreg.uplinkDev d).trans hfresh.2)).ret
  rw [registerNetdev_pseudo hpseudo]
  dsimp only
  split
  · next hfail =>
    refine ⟨fun _ h => ?_, fun _ => by simp [eio]⟩
    have hok := hret.mpr ⟨h.2.1, h.2.2.1⟩
    obtain hne | hopen := hfail
    · exact hne hok
    · simp [h.2.2.2] at hopen
  · next hfail =>
    have hok : (connectUplink env d none (registerLocked env d s).2).1 = 0 ∧
        env.uplinkOpen = true := by
      simpa using hfail
    obtain ⟨hr, herr, _⟩ | ⟨hr, herr, _⟩ := hreg
    · constructor
      · intro hneg
        exact absurd (herr ▸ hneg) (by decide)
      · intro h
        exact absurd ⟨hr, (hret.mp hok.1).1, (hret.mp hok.1).2, hok.2⟩ h
    · exact ⟨fun _ h => hr h.1, fun _ => herr⟩

/-- When it leaves nothing of one. -/
theorem leavesNothing_pseudo {env : Env} {d : Nat} {s : System} (hfresh : s.Fresh d)
    (hpseudo : (s.dev d).pdev = none) : LeavesNothing d s (registerNetdev env d s).2 ↔
      ¬Registrable env (s.dev d) ∧ env.uplinkConnected = false := by
  have hreg := registerLocked_spec env d s
  have hconn := connectUplink_spec env d none (registerLocked env d s).2
    ((hreg.uplinkDev d).trans hfresh.2)
  rw [registerNetdev_pseudo_state hpseudo]
  obtain ⟨hr, _, hadds⟩ | ⟨hr, _, hren⟩ := hreg
  · constructor
    · intro h
      have hmem := h.devBase
      rw [hconn.devBase, hadds.devBase] at hmem
      simp at hmem
    · intro h
      exact absurd hr h.1
  · constructor
    · intro h
      exact ⟨hr, hconn.self.mp h.uplinkDev⟩
    · intro h
      have hleft := hren.leavesNothing hfresh
      refine ⟨?_, hconn.self.mpr h.2, ?_⟩
      · rw [hconn.devBase]
        exact hleft.devBase
      · rw [hconn.refcnt]
        exact hleft.refcnt

/-- **When a call is all or nothing.** -/
theorem allOrNothing_iff {env : Env} {d : Nat} {s : System} (hfresh : s.Fresh d) :
    AllOrNothing env d s ↔ CleanRegister env (s.dev d) := by
  unfold AllOrNothing CleanRegister
  by_cases hpdev : (s.dev d).pdev = none
  · rw [registerNetdev_pseudo_neg hfresh hpdev, leavesNothing_pseudo hfresh hpdev]
    simp only [hpdev, ne_eq, not_true_eq_false, false_or]
    exact Classical.or_iff_not_imp_left.symm
  · rw [registerNetdev_pci hpdev]
    refine ⟨fun _ => .inl hpdev, fun _ hneg => ?_⟩
    obtain ⟨_, herr, _⟩ | ⟨_, _, hren⟩ := registerLocked_spec env d s
    · omega
    · exact hren.leavesNothing hfresh

/-! ### Sequences of calls -/

/-- Every uplink of a PCI device has a table with `getPCIProperties`. -/
def PciProvided (s : System) : Prop :=
  ∀ d info, (s.dev d).uplinkDev = some info → (s.dev d).pdev ≠ none →
    (s.table info.functions).getPCIProperties ≠ none

/-- No PCI device is connected. -/
def NoPciUplink (s : System) : Prop :=
  ∀ d, (s.dev d).uplinkDev ≠ none → (s.dev d).pdev = none

/-- The call left nothing behind if it failed, and the table is complete after it. -/
def Sound (s : System) (call : Call) (s' : System) : Prop :=
  (match call with
    | .registerNetdev d env => AllOrNothing env d s
    | .connectUplink _ _ => True) ∧ PciProvided s'

/-- A pseudo device is connected before the first PCI device, a PCI device only while the table
    is complete, and each registration is clean. -/
def Clean (s : System) (call : Call) : Prop :=
  match call with
  | .registerNetdev d env =>
      CleanRegister env (s.dev d) ∧ ((s.dev d).pdev = none → NoPciUplink s)
  | .connectUplink d env =>
      if (s.dev d).pdev = none then NoPciUplink s
      else env.uplinkConnected = false ∨ s.linNetFunctions.getPCIProperties ≠ none

theorem pciProvided_iff {s : System} :
    PciProvided s ↔ NoPciUplink s ∨ s.linNetFunctions.getPCIProperties ≠ none := by
  constructor
  · intro h
    by_cases ht : s.linNetFunctions.getPCIProperties = none
    · left
      intro d hd
      by_contra hpci
      obtain ⟨info, hinfo⟩ := Option.ne_none_iff_exists'.mp hd
      exact h d info hinfo hpci ht
    · exact .inr ht
  · rintro (hno | ht) d info hinfo hpci
    · exact absurd (hno d (by simp [hinfo])) hpci
    · exact ht

/-- Connecting `d` changes nothing for the others. -/
theorem Connects.noPciUplink_iff {env : Env} {d : Nat} {pdev : Option Nat} {s : System}
    {r : Int × System} (h : Connects env d pdev s r) (hfree : (s.dev d).uplinkDev = none) :
    NoPciUplink r.2 ↔
      NoPciUplink s ∧ (env.uplinkConnected = false ∨ (s.dev d).pdev = none) := by
  constructor
  · intro hno
    constructor
    · intro e he
      have hne : e ≠ d := by
        rintro rfl
        exact he hfree
      rw [← h.pdev]
      apply hno
      rw [h.others e hne]
      exact he
    · by_cases hself : (r.2.dev d).uplinkDev = none
      · exact .inl (h.self.mp hself)
      · have hp := hno d hself
        rw [h.pdev] at hp
        exact .inr hp
  · rintro ⟨hno, hd⟩ e he
    rw [h.pdev]
    by_cases hed : e = d
    · subst hed
      obtain hconn | hp := hd
      · exact absurd (h.self.mpr hconn) he
      · exact hp
    · apply hno
      rw [← h.others e hed]
      exact he

theorem noPciUplink_congr {s s' : System} (hu : ∀ e, (s'.dev e).uplinkDev = (s.dev e).uplinkDev)
    (hp : ∀ e, (s'.dev e).pdev = (s.dev e).pdev) : NoPciUplink s' ↔ NoPciUplink s := by
  unfold NoPciUplink
  simp only [hu, hp]

/-- The table after a pseudo device was connected. -/
theorem Connects.pciProvided_pseudo {env : Env} {d : Nat} {s : System} {r : Int × System}
    (h : Connects env d none s r) (hfree : (s.dev d).uplinkDev = none)
    (hpseudo : (s.dev d).pdev = none) : PciProvided r.2 ↔ NoPciUplink s := by
  rw [pciProvided_iff, h.noPciUplink_iff hfree, h.table]
  simp [hpseudo]

theorem sound_iff (s : System) (call : Call) (s' : System) (hs : PciProvided s)
    (hstep : step call s = some s') : Sound s call s' ↔ Clean s call := by
  cases call with
  | registerNetdev d env =>
    simp only [step, Option.ite_none_right_eq_some, Option.some.injEq] at hstep
    obtain ⟨hfresh, rfl⟩ := hstep
    simp only [Sound, Clean, Call.run]
    apply and_congr (allOrNothing_iff hfresh)
    have hreg := registerLocked_spec env d s
    by_cases hpdev : (s.dev d).pdev = none
    · rw [registerNetdev_pseudo_state hpdev]
      have hconn := connectUplink_spec env d none (registerLocked env d s).2
        ((hreg.uplinkDev d).trans hfresh.2)
      rw [hconn.pciProvided_pseudo ((hreg.uplinkDev d).trans hfresh.2)
        ((hreg.pdev d).trans hpdev), noPciUplink_congr hreg.uplinkDev hreg.pdev]
      exact ⟨fun h _ => h, fun h => h hpdev⟩
    · rw [registerNetdev_pci hpdev, pciProvided_iff,
        noPciUplink_congr hreg.uplinkDev hreg.pdev, hreg.table, ← pciProvided_iff]
      exact ⟨fun _ h => absurd h hpdev, fun _ => hs⟩
  | connectUplink d env =>
    simp only [step, Option.ite_none_right_eq_some, Option.some.injEq] at hstep
    obtain ⟨hfree, rfl⟩ := hstep
    have hconn := connectUplink_spec env d (s.dev d).pdev s hfree
    simp only [Sound, Clean, Call.run, true_and]
    split
    · next hpdev =>
      rw [hpdev] at hconn ⊢
      exact hconn.pciProvided_pseudo hfree hpdev
    · next hpdev =>
      rw [pciProvided_iff, hconn.noPciUplink_iff hfree, hconn.table, if_neg hpdev]
      rw [pciProvided_iff] at hs
      constructor
      · rintro (⟨_, hno | hp⟩ | ht)
        · exact .inl hno
        · exact absurd hp hpdev
        · exact .inr ht
      · rintro (hno | ht)
        · obtain hnone | ht := hs
          · exact .inl ⟨hnone, .inl hno⟩
          · exact .inr ht
        · exact .inr ht

/-- **Registering a net device is all or nothing, and a connected PCI device keeps its table,**
    exactly when the calls are clean. -/
theorem register_netdev_all_or_nothing (s : System) :
    (∀ env d, s.Fresh d → (AllOrNothing env d s ↔ CleanRegister env (s.dev d))) ∧
    (PciProvided s → ∀ calls,
      AllCalls step Sound calls s ↔ AllCalls step (fun s call _ => Clean s call) calls s) := by
  constructor
  · intro env d hfresh
    exact allOrNothing_iff hfresh
  · intro hs calls
    apply allCalls_iff PciProvided sound_iff _ calls s hs
    intro s call s' _ _ hsound
    exact hsound.2

/-- A PCI device, and pseudo devices with names of their own. -/
def loaded : System :=
  boot (fun d => { name := vmnic ++ decimal d, pdev := if d = 0 then some 0 else none })
    fun _ => {}

/-- The calls for the PCI device alone. -/
theorem register_netdev_all_or_nothing_pci :
    AllOrNothing {} 1 loaded ∧
      AllCalls step Sound [.registerNetdev 0 {}, .connectUplink 0 {}] loaded := by
  have hprovided : PciProvided loaded := pciProvided_iff.mpr (.inr (by decide))
  constructor
  · apply ((register_netdev_all_or_nothing loaded).1 {} 1 (by decide)).mpr
    refine .inr (.inl ⟨⟨?_, by decide, by decide, by decide⟩, by decide⟩)
    intro format hformat
    cases hformat
  · apply ((register_netdev_all_or_nothing loaded).2 hprovided _).mpr
    intro s hs
    obtain rfl := Option.some.inj hs
    refine ⟨⟨.inl (by decide), fun h => absurd h (by decide)⟩, ?_⟩
    intro s hs
    obtain rfl := Option.some.inj hs
    exact ⟨.inr (by decide), trivial⟩

/-- The character device of a pseudo device is busy, and `register_netdev` returns an error for
    a device that it registered and connected; and the pseudo device, registered, takes
    `getPCIProperties` from the PCI device. -/
theorem registered_after_failure :
    (¬AllOrNothing { charDevRegister := .busy } 1 loaded ∧ loaded.Fresh 1 ∧
      (registerNetdev { charDevRegister := .busy } 1 loaded).1 = -eio ∧
      (registerNetdev { charDevRegister := .busy } 1 loaded).2.devBase = [1]) ∧
    ∃ s, Reachable step loaded s ∧ ¬PciProvided s := by
  refine ⟨⟨?_, by decide, by decide, by decide⟩, ?_⟩
  · intro h
    exact (h (by decide)).devBase (by decide)
  · obtain ⟨s, hs, ho⟩ := exists_reachable_of_run step
      [.registerNetdev 0 {}, .connectUplink 0 {}, .registerNetdev 1 {}] loaded
      (fun s => ((s.dev 0).uplinkDev.isSome, (s.dev 0).pdev, s.linNetFunctions.getPCIProperties))
      (true, some 0, none) (by decide)
    simp only [Prod.mk.injEq, Option.isSome_iff_exists] at ho
    obtain ⟨⟨info, hinfo⟩, hpdev, htable⟩ := ho
    exact ⟨s, hs, fun h => h 0 info hinfo (by simp [hpdev]) htable⟩

end VmkLinux.Net.Register
