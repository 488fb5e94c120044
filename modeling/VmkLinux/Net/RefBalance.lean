/-
  VmkLinux/Net/RefBalance.lean
  ============================
  **`dev->refcnt`.**  The counter is the reference that `register_netdev` takes, plus the
  files of the character device that are open, plus the calls of `IoctlNetDev` between
  their `dev_hold` and their `dev_put`.  `unregister_netdev` waits for the counter to fall to
  one and takes the device off `dev_base`; nothing refers to a device that is not there.

  Two things stand in the way.  `NICSetLinkStatus` puts a reference that it does not hold
  whenever the driver has a `set_settings`.  And `dev_get_by_name` looks the device up and
  holds it in two steps, of which the test of `unregister_netdev` can see the first and not
  the second; the look-up does not take the rtnl lock either, so it can also come after the
  test.  `references_balance` has these as its condition, `references_unbalanced` the runs
  without.
-/
import VmkLinux.Net.RefModel

namespace VmkLinux.Net.Refs

open VmkLinux.Interleave

/-! ### What a thread holds -/

/-- Between the `dev_hold` and the `dev_put` of `IoctlNetDev`. -/
def Thread.ioctls (t : Thread) : Nat :=
  match t.pc with
  | .ioctl | .ethtoolLock | .ethtool | .ethtoolUnlock => if t.char then 0 else 1
  | .put => 1
  | _ => 0

/-- A file that is not yet in the VMkernel's table, or no longer. -/
def Thread.files (t : Thread) : Nat :=
  match t.pc with
  | .openUnlock | .openReturn => if t.char then 1 else 0
  | .closePut => 1
  | _ => 0

/-- An `IoctlNetDev` between the look-up and the `dev_hold`. -/
def Thread.looking (t : Thread) : Nat :=
  match t.pc with
  | .hold => 1
  | _ => 0

/-- A `NicCharOpsIoctl` in progress. -/
def Thread.chars (t : Thread) : Nat :=
  match t.pc with
  | .copyFromUser | .charReturn => 1
  | .ioctl | .ethtoolLock | .ethtool | .ethtoolUnlock => if t.char then 1 else 0
  | _ => 0

/-- `register_netdev` has taken its reference and not marked the device, or
    `unregister_netdev` has marked it and not put the reference. -/
def Thread.registration (t : Thread) : Nat :=
  match t.pc with
  | .regState | .unregPut => 1
  | _ => 0

/-- In `register_netdev` or `unregister_netdev`. -/
def Thread.owner (t : Thread) : Nat :=
  match t.pc with
  | .regLock | .regAllocName | .regInit | .regLink | .regHold | .regState | .regUnlock
  | .regConnect | .unregLock | .unregTest | .unregSleep | .unregChrdev | .unregUnlink
  | .unregState | .unregPut | .unregUnlock => 1
  | _ => 0

/-- `register_netdev` has not marked the device. -/
def Thread.registering (t : Thread) : Nat :=
  match t.pc with
  | .regLock | .regAllocName | .regInit | .regLink | .regHold | .regState => 1
  | _ => 0

/-- `unregister_netdev` has not marked the device. -/
def Thread.waiting (t : Thread) : Nat :=
  match t.pc with
  | .unregLock | .unregTest | .unregSleep | .unregChrdev => 1
  | _ => 0

/-- On `dev_base`, though not marked as registered. -/
def Thread.linked (t : Thread) : Nat :=
  match t.pc with
  | .regHold | .regState | .unregUnlink => 1
  | _ => 0

def Thread.unregistering (t : Thread) : Nat :=
  match t.pc with
  | .unregUnlink | .unregState => 1
  | _ => 0

/-- Past the test of `refcnt`, the device still on `dev_base`. -/
def Thread.removing (t : Thread) : Nat :=
  match t.pc with
  | .unregChrdev | .unregUnlink => 1
  | _ => 0

/-- The device is off `dev_base` and `unregister_netdev` has not returned. -/
def Thread.removed (t : Thread) : Nat :=
  match t.pc with
  | .unregState | .unregPut | .unregUnlock => 1
  | _ => 0

/-- With the rtnl lock. -/
def Thread.rtnl (t : Thread) : Nat :=
  match t.pc with
  | .regAllocName | .regInit | .regLink | .regHold | .regState | .regUnlock | .unregTest
  | .unregSleep | .unregChrdev | .unregUnlink | .unregState | .unregPut | .unregUnlock
  | .ethtool | .ethtoolUnlock | .getByNicMajor | .openUnlock | .workLockBase | .workDev
  | .workUnlockBase | .workUnlock => 1
  | _ => 0

/-- A weight, on the threads of one device. -/
def of (d : Nat) (w : Thread → Nat) (t : Thread) : Nat := if t.dev = d then w t else 0

/-- The reference that registration stands for. -/
def RegState.reference (r : RegState) : Nat :=
  if r = .registered ∨ r = .unregistering then 1 else 0

/-- The reference of `register_netdev`: one while the device is registered. -/
def registration (c : Config Shared Thread) (d : Nat) : Nat :=
  (c.shared.dev d).regState.reference + total (of d Thread.registration) c.pool

/-- The files of the character device that are opened and not closed. -/
def openHandles (c : Config Shared Thread) (d : Nat) : Nat :=
  c.shared.handles.countP (fun h => decide (h.dev = d)) + total (of d Thread.files) c.pool

/-- The calls of `IoctlNetDev` that hold the device. -/
def ioctlCalls (c : Config Shared Thread) (d : Nat) : Nat := total (of d Thread.ioctls) c.pool

/-- The requests that have the device in hand: `IoctlNetDev` from its look-up on, and
    `NicCharOpsIoctl`. -/
def requests (c : Config Shared Thread) (d : Nat) : Nat :=
  total (of d Thread.looking) c.pool + ioctlCalls c d + total (of d Thread.chars) c.pool

/-- No reference is put that is not held, and look-up and removal keep apart:
    `NICSetLinkStatus` is not called on a device whose driver has a `set_settings`; the
    wait of `unregister_netdev` ends when no `IoctlNetDev` is between its look-up and its
    `dev_hold`; and no look-up finds a device between the end of that wait and its removal
    from `dev_base`. -/
def paired (c : Config Shared Thread) : Event Call Choice → Bool
  | .start (.nicSetLinkStatus d) => !(c.shared.dev d).setSettings
  | .start _ => true
  | .act i _ =>
      match c.pool[i]? with
      | some t =>
          match t.pc with
          | .unregTest =>
              decide ((c.shared.dev t.dev).refcnt ≤ 1 → ∀ u ∈ c.pool, of t.dev Thread.looking u = 0)
          | .getByName =>
              match c.shared.devBase.find? fun d => sameName (c.shared.dev d).name t.name with
              | some d => decide (∀ u ∈ c.pool, of d Thread.removing u = 0)
              | none => true
          | _ => true
      | none => true

/-! ### Registration -/

/-- Where a device stands, with what the threads contribute: `sum` is the sum of a weight
    over all threads. -/
structure Lifecycle (s : Shared) (sum : (Thread → Nat) → Nat) (d : Nat) : Prop where
  owner : sum (of d Thread.owner) = if (s.dev d).busy then 1 else 0
  registering : 0 < sum (of d Thread.registering) → (s.dev d).regState ≠ .registered
  waiting : 0 < sum (of d Thread.waiting) → (s.dev d).regState = .registered
  unregistering :
    sum (of d Thread.unregistering) = if (s.dev d).regState = .unregistering then 1 else 0
  linked : s.devBase.count d =
    (if (s.dev d).regState = .registered then 1 else 0) + sum (of d Thread.linked)
  removed : 0 < sum (of d Thread.removed) → (s.dev d).regState ≠ .registered

theorem of_le_of {w w' : Thread → Nat} (h : ∀ t, w t ≤ w' t) (d : Nat) :
    ∀ t, of d w t ≤ of d w' t := by
  intro t
  unfold of
  split
  · exact h t
  · exact Nat.le_refl 0

/-- The calls of the driver are what moves a device. -/
theorem moves_le_owner (t : Thread) :
    t.registering ≤ t.owner ∧ t.waiting ≤ t.owner ∧ t.unregistering ≤ t.owner ∧
      t.linked ≤ t.owner ∧ t.removed ≤ t.owner := by
  simp only [Thread.registering, Thread.waiting, Thread.unregistering, Thread.linked,
    Thread.removed, Thread.owner]
  cases t.pc <;> simp

theorem sum_owner {sum : (Thread → Nat) → Nat} (h : Mono sum) (d : Nat) :
    sum (of d Thread.registering) ≤ sum (of d Thread.owner) ∧
      sum (of d Thread.waiting) ≤ sum (of d Thread.owner) ∧
      sum (of d Thread.unregistering) ≤ sum (of d Thread.owner) ∧
      sum (of d Thread.linked) ≤ sum (of d Thread.owner) ∧
      sum (of d Thread.removed) ≤ sum (of d Thread.owner) := by
  refine ⟨h _ _ (of_le_of (fun t => ?_) d), h _ _ (of_le_of (fun t => ?_) d),
    h _ _ (of_le_of (fun t => ?_) d), h _ _ (of_le_of (fun t => ?_) d),
    h _ _ (of_le_of (fun t => ?_) d)⟩
  all_goals have hle := moves_le_owner t
  all_goals omega

/-- What neither the device nor a call of the driver shows does not move it. -/
theorem Lifecycle.congr {s s' : Shared} {sum sum' : (Thread → Nat) → Nat} {d : Nat}
    (hI : Lifecycle s sum d) (hcount : s'.devBase.count d = s.devBase.count d)
    (hbusy : (s'.dev d).busy = (s.dev d).busy)
    (hreg : (s'.dev d).regState = (s.dev d).regState)
    (hsum : ∀ w : Thread → Nat, (∀ t, w t ≤ t.owner) → sum' (of d w) = sum (of d w)) :
    Lifecycle s' sum' d := by
  have howner := hsum Thread.owner fun _ => Nat.le_refl _
  have hregistering := hsum Thread.registering fun t => (moves_le_owner t).1
  have hwaiting := hsum Thread.waiting fun t => (moves_le_owner t).2.1
  have hunregistering := hsum Thread.unregistering fun t => (moves_le_owner t).2.2.1
  have hlinked := hsum Thread.linked fun t => (moves_le_owner t).2.2.2.1
  have hremoved := hsum Thread.removed fun t => (moves_le_owner t).2.2.2.2
  constructor
  · rw [howner, hbusy]
    exact hI.owner
  · rw [hregistering, hreg]
    exact hI.registering
  · rw [hwaiting, hreg]
    exact hI.waiting
  · rw [hunregistering, hreg]
    exact hI.unregistering
  · rw [hcount, hlinked, hreg]
    exact hI.linked
  · rw [hremoved, hreg]
    exact hI.removed

theorem of_eq_zero {w : Thread → Nat} {t : Thread} (hw : ∀ t, w t ≤ t.owner) (ht : t.owner = 0)
    (d : Nat) : of d w t = 0 := by
  have hle := hw t
  unfold of
  split
  · omega
  · rfl

section Step

variable {a : Choice} {s s' : Shared} {t t' : Thread} {rest : (Thread → Nat) → Nat} {d : Nat}

/-- A request does not move a device. -/
theorem step_request (h : step a s t = some (s', t')) (ht : t.owner = 0) :
    t'.owner = 0 ∧ s'.devBase = s.devBase ∧
      ∀ d, (s'.dev d).busy = (s.dev d).busy ∧ (s'.dev d).regState = (s.dev d).regState := by
  unfold step at h
  cases hpc : t.pc
  all_goals simp only [Thread.owner, hpc, Nat.one_ne_zero] at ht
  all_goals simp only [hpc] at h
  all_goals repeat' split at h
  all_goals simp only [Option.some.injEq, Prod.mk.injEq, reduceCtorEq] at h
  all_goals obtain ⟨rfl, rfl⟩ := h
  all_goals simp only [Thread.owner, Thread.afterIoctl, Shared.devHold, Shared.devPut,
    Shared.setDev, Shared.connect]
  all_goals grind -linarith

/-- A call of the driver leaves the other devices. -/
theorem step_elsewhere (h : step a s t = some (s', t')) (ht : t.owner ≠ 0) (hd : t.dev ≠ d) :
    t'.dev ≠ d ∧ s'.dev d = s.dev d ∧ s'.devBase.count d = s.devBase.count d := by
  unfold step at h
  cases hpc : t.pc
  all_goals simp only [Thread.owner, hpc, ne_eq, not_true_eq_false] at ht
  all_goals simp only [hpc] at h
  all_goals repeat' split at h
  all_goals simp only [Option.some.injEq, Prod.mk.injEq, reduceCtorEq] at h
  all_goals obtain ⟨rfl, rfl⟩ := h
  all_goals simp [hd, Ne.symm hd, Shared.devHold, Shared.devPut, Shared.setRegState,
    Shared.setBusy, Shared.setDev, Shared.connect]

/-- What it does with its own. -/
theorem step_own (h : step a s t = some (s', t')) (ht : t.owner ≠ 0) (hrest : Mono rest)
    (hI : Lifecycle s (fun w => rest w + w t) t.dev) :
    Lifecycle s' (fun w => rest w + w t') t.dev := by
  obtain ⟨howner, hregistering, hwaiting, hunregistering, hlinked, hremoved⟩ := hI
  obtain ⟨hle₁, hle₂, hle₃, hle₄, hle₅⟩ := sum_owner hrest t.dev
  unfold step at h
  cases hpc : t.pc
  all_goals simp only [Thread.owner, hpc, ne_eq, not_true_eq_false] at ht
  all_goals simp only [hpc] at h
  all_goals repeat' split at h
  all_goals simp only [Option.some.injEq, Prod.mk.injEq, reduceCtorEq] at h
  all_goals obtain ⟨rfl, rfl⟩ := h
  all_goals simp only [of, if_true, Thread.owner, Thread.registering, Thread.waiting,
    Thread.unregistering, Thread.linked, Thread.removed, hpc]
    at howner hregistering hwaiting hunregistering hlinked hremoved
  all_goals constructor
  all_goals simp only [of, if_true, Thread.owner, Thread.registering, Thread.waiting,
    Thread.unregistering, Thread.linked, Thread.removed, Shared.devHold, Shared.devPut,
    Shared.setRegState, Shared.setBusy, Shared.setDev, Shared.connect]
  all_goals grind -linarith

theorem step_lifecycle (h : step a s t = some (s', t')) (hrest : Mono rest)
    (hI : Lifecycle s (fun w => rest w + w t) d) : Lifecycle s' (fun w => rest w + w t') d := by
  by_cases ht : t.owner = 0
  · obtain ⟨ht', hbase, hdev⟩ := step_request h ht
    refine hI.congr (by rw [hbase]) (hdev d).1 (hdev d).2 fun w hw => ?_
    rw [of_eq_zero hw ht, of_eq_zero hw ht']
  · by_cases hd : t.dev = d
    · subst hd
      exact step_own h ht hrest hI
    · obtain ⟨hd', hdev, hcount⟩ := step_elsewhere h ht hd
      refine hI.congr hcount (by rw [hdev]) (by rw [hdev]) fun w _ => ?_
      simp only [of, hd, hd', if_false]

theorem step_rtnl {n : Nat} (h : step a s t = some (s', t'))
    (hI : n + t.rtnl = if s.rtnl then 1 else 0) : n + t'.rtnl = if s'.rtnl then 1 else 0 := by
  unfold step at h
  cases hpc : t.pc
  all_goals simp only [Thread.rtnl, hpc] at h hI
  all_goals repeat' split at h
  all_goals simp only [Option.some.injEq, Prod.mk.injEq, reduceCtorEq] at h
  all_goals obtain ⟨rfl, rfl⟩ := h
  all_goals simp only [Thread.rtnl, Thread.afterIoctl, Shared.devHold, Shared.devPut,
    Shared.setRegState, Shared.setBusy, Shared.setDev, Shared.connect]
  all_goals grind -linarith

/-! ### The counter -/

/-- The files that the VMkernel has open on a device. -/
def Shared.files (s : Shared) (d : Nat) : Nat := s.handles.countP fun h => decide (h.dev = d)

def Counted (s : Shared) (sum : (Thread → Nat) → Nat) (d : Nat) : Prop :=
  (s.dev d).refcnt = ((s.dev d).regState.reference + sum (of d Thread.registration) +
    (s.files d + sum (of d Thread.files)) + sum (of d Thread.ioctls) : Nat)

/-- A step counts what it takes and what it gives back. -/
theorem step_counted (h : step a s t = some (s', t')) (hput : t.pc ≠ .setLinkPut)
    (hrest : Mono rest) (hL : Lifecycle s (fun w => rest w + w t) d)
    (hI : Counted s (fun w => rest w + w t) d) : Counted s' (fun w => rest w + w t') d := by
  obtain ⟨howner, hregistering, hwaiting, hunregistering, -, -⟩ := hL
  obtain ⟨-, -, hle, -⟩ := sum_owner hrest d
  unfold step at h
  cases hpc : t.pc
  all_goals simp only [hpc, ne_eq, not_true_eq_false] at hput
  all_goals simp only [hpc] at h
  all_goals repeat' split at h
  all_goals simp only [Option.some.injEq, Prod.mk.injEq, reduceCtorEq] at h
  all_goals obtain ⟨rfl, rfl⟩ := h
  all_goals simp only [Counted, of, Thread.owner, Thread.registering, Thread.waiting,
    Thread.unregistering, Thread.registration, Thread.files, Thread.ioctls, Shared.files, hpc,
    Thread.afterIoctl, Shared.devHold, Shared.devPut, Shared.setRegState, Shared.setBusy,
    Shared.setDev, Shared.connect, RegState.reference, List.countP_cons] at *
  all_goals first
    | assumption
    | grind -linarith

/-! ### Who has the device in hand -/

/-- A device that is not on `dev_base`, or about to leave it, is in nobody's hands. -/
def Quiet (s : Shared) (sum : (Thread → Nat) → Nat) (d : Nat) : Prop :=
  s.devBase.count d = 0 ∨ 0 < sum (of d Thread.removing) →
    s.files d + sum (of d Thread.files) + sum (of d Thread.ioctls) + sum (of d Thread.looking) = 0

theorem removing_le_rtnl (d : Nat) (t : Thread) : of d Thread.removing t ≤ t.rtnl := by
  simp only [of, Thread.removing, Thread.rtnl]
  cases t.pc <;> simp
  all_goals split <;> simp

theorem step_quiet (h : step a s t = some (s', t')) (hrest : Mono rest)
    (hL : Lifecycle s (fun w => rest w + w t) d) (hC : Counted s (fun w => rest w + w t) d)
    (hR : rest Thread.rtnl + t.rtnl = if s.rtnl then 1 else 0)
    (htest : t.pc = .unregTest → (s.dev t.dev).refcnt ≤ 1 → rest (of t.dev Thread.looking) = 0)
    (hlook : ∀ e, t.pc = .getByName →
      s.devBase.find? (fun d => sameName (s.dev d).name t.name) = some e →
      rest (of e Thread.removing) = 0)
    (hI : Quiet s (fun w => rest w + w t) d) : Quiet s' (fun w => rest w + w t') d := by
  obtain ⟨howner, -, hwaiting, hunregistering, hlinked, -⟩ := hL
  obtain ⟨-, -, -, hle, -⟩ := sum_owner hrest d
  have hlock := hrest _ _ (removing_le_rtnl d)
  unfold step at h
  cases hpc : t.pc
  all_goals simp only [hpc, reduceCtorEq, false_implies, implies_true] at h htest hlook
  all_goals repeat' split at h
  all_goals simp only [Option.some.injEq, Prod.mk.injEq, reduceCtorEq] at h
  all_goals obtain ⟨rfl, rfl⟩ := h
  all_goals simp only [Quiet, Counted, of, Thread.owner, Thread.waiting, Thread.linked,
    Thread.unregistering, Thread.registration, Thread.files, Thread.ioctls, Thread.looking,
    Thread.removing, Thread.rtnl, Shared.files, hpc, Thread.afterIoctl, Shared.devHold,
    Shared.devPut, Shared.setRegState, Shared.setBusy, Shared.setDev, Shared.connect,
    RegState.reference, List.countP_cons] at *
  all_goals first
    | assumption
    | grind -linarith [List.mem_of_find?_eq_some, List.count_eq_zero]

/-- A weight, on the threads of one file. -/
def onFile (fd : Nat) (w : Thread → Nat) (t : Thread) : Nat := if t.fd = fd then w t else 0

/-- What a step does to the requests on files. -/
theorem step_chars (h : step a s t = some (s', t')) (hmem : 0 < t.chars → t.fd ∈ s.ioctls) :
    (∀ fd, onFile fd Thread.chars t' + s.ioctls.count fd =
      onFile fd Thread.chars t + s'.ioctls.count fd) ∧
      s.handles ⊆ s'.handles ∧ (0 < t'.chars → 0 < t.chars ∧ t'.fd = t.fd ∧ t'.dev = t.dev) := by
  unfold step at h
  cases hpc : t.pc
  all_goals simp only [hpc] at h
  all_goals repeat' split at h
  all_goals simp only [Option.some.injEq, Prod.mk.injEq, reduceCtorEq] at h
  all_goals obtain ⟨rfl, rfl⟩ := h
  all_goals simp only [onFile, Thread.chars, hpc, Thread.afterIoctl, Shared.devHold,
    Shared.devPut, Shared.setRegState, Shared.setBusy, Shared.setDev, Shared.connect] at *
  all_goals grind -linarith [List.count_pos_iff]

/-- `NICSetLinkStatus` returns before it comes to its `dev_put`. -/
def Thread.SetLink (s : Shared) (t : Thread) : Prop :=
  t.pc ≠ .setSettings ∧ t.pc ≠ .setLinkPut ∧
    (t.pc = .setLinkTest → (s.dev t.dev).setSettings = false)

theorem step_setSettings (h : step a s t = some (s', t')) (d : Nat) :
    (s'.dev d).setSettings = (s.dev d).setSettings := by
  unfold step at h
  cases hpc : t.pc
  all_goals simp only [hpc] at h
  all_goals repeat' split at h
  all_goals simp only [Option.some.injEq, Prod.mk.injEq, reduceCtorEq] at h
  all_goals obtain ⟨rfl, rfl⟩ := h
  all_goals simp only [Shared.devHold, Shared.devPut, Shared.setRegState, Shared.setBusy,
    Shared.setDev, Shared.connect]
  all_goals grind -linarith

theorem step_setLink (h : step a s t = some (s', t')) (hI : t.SetLink s) : t'.SetLink s' := by
  obtain ⟨hsettings, hput, htest⟩ := hI
  unfold step at h
  cases hpc : t.pc
  all_goals simp only [hpc] at h
  all_goals repeat' split at h
  all_goals simp only [Option.some.injEq, Prod.mk.injEq, reduceCtorEq] at h
  all_goals obtain ⟨rfl, rfl⟩ := h
  all_goals simp only [Thread.SetLink, Thread.afterIoctl]
  all_goals grind -linarith

end Step

/-! ### Whole runs -/

structure Balanced (c : Config Shared Thread) : Prop where
  lifecycle : ∀ d, Lifecycle c.shared (fun w => total w c.pool) d
  rtnl : total Thread.rtnl c.pool = if c.shared.rtnl then 1 else 0
  counted : ∀ d, Counted c.shared (fun w => total w c.pool) d
  quiet : ∀ d, Quiet c.shared (fun w => total w c.pool) d
  chars : ∀ fd, total (onFile fd Thread.chars) c.pool = c.shared.ioctls.count fd
  opened : Each (fun _ t => 0 < t.chars → ⟨t.fd, t.dev⟩ ∈ c.shared.handles) c.pool
  setLink : Each (fun _ t => t.SetLink c.shared) c.pool

section Enter

variable {me : Nat} {call : Call} {s s' : Shared} {t : Thread} {sum : (Thread → Nat) → Nat}
  {d : Nat}

/-- A request does not start by moving a device. -/
theorem enter_request (h : enter me call s = some (s', t)) (ht : t.owner = 0) :
    s'.devBase = s.devBase ∧ (∀ d, (s'.dev d).busy = (s.dev d).busy) ∧
      ∀ d, (s'.dev d).regState = (s.dev d).regState := by
  cases call <;> simp only [enter] at h
  all_goals repeat' split at h
  all_goals simp only [Option.some.injEq, Prod.mk.injEq, reduceCtorEq] at h
  all_goals obtain ⟨rfl, rfl⟩ := h
  all_goals simp only [Thread.owner, Nat.one_ne_zero] at ht
  all_goals exact ⟨rfl, fun _ => rfl, fun _ => rfl⟩

theorem enter_lifecycle (h : enter me call s = some (s', t)) (hsum : Mono sum)
    (hI : Lifecycle s sum d) : Lifecycle s' (fun w => sum w + w t) d := by
  by_cases ht : t.owner = 0
  · obtain ⟨hbase, hbusy, hreg⟩ := enter_request h ht
    refine hI.congr (by rw [hbase]) (hbusy d) (hreg d) fun w hw => ?_
    rw [of_eq_zero hw ht, Nat.add_zero]
  · obtain ⟨howner, hregistering, hwaiting, hunregistering, hlinked, hremoved⟩ := hI
    obtain ⟨hle₁, hle₂, hle₃, hle₄, hle₅⟩ := sum_owner hsum d
    cases call <;> simp only [enter] at h
    all_goals repeat' split at h
    all_goals simp only [Option.some.injEq, Prod.mk.injEq, reduceCtorEq] at h
    all_goals obtain ⟨rfl, rfl⟩ := h
    all_goals simp only [Thread.owner, not_true_eq_false] at ht
    all_goals constructor
    all_goals simp only [of, Thread.owner, Thread.registering, Thread.waiting,
      Thread.unregistering, Thread.linked, Thread.removed, Shared.setBusy, Shared.setDev]
    all_goals grind -linarith

theorem countP_erase_add {l : List Handle} {k : Handle} (hk : k ∈ l) (d : Nat) :
    (l.erase k).countP (fun h => decide (h.dev = d)) + (if k.dev = d then 1 else 0) =
      l.countP (fun h => decide (h.dev = d)) := by
  rw [(List.perm_cons_erase hk).countP_eq, List.countP_cons]
  simp only [decide_eq_true_eq]

/-- A call starts with nothing in hand but what it takes out of the VMkernel's table. -/
theorem enter_counts (h : enter me call s = some (s', t)) :
    s'.rtnl = s.rtnl ∧ t.rtnl = 0 ∧ s'.devBase = s.devBase ∧
      (∀ d, (s'.dev d).refcnt = (s.dev d).refcnt) ∧
      (∀ d, (s'.dev d).regState = (s.dev d).regState) ∧
      (∀ d, (s'.dev d).setSettings = (s.dev d).setSettings) ∧
      t.registration = 0 ∧ t.ioctls = 0 ∧ t.looking = 0 ∧ t.removing = 0 ∧
      ∀ d, s'.files d + of d Thread.files t = s.files d := by
  cases call <;> simp only [enter] at h
  case nicCharOpsClose fd =>
    repeat' split at h
    all_goals simp only [Option.some.injEq, Prod.mk.injEq, reduceCtorEq] at h
    rename_i k hfind
    obtain ⟨rfl, rfl⟩ := h
    refine ⟨rfl, rfl, rfl, fun _ => rfl, fun _ => rfl, fun _ => rfl, rfl, rfl, rfl, rfl, ?_⟩
    exact fun d => countP_erase_add (List.mem_of_find?_eq_some hfind) d
  all_goals repeat' split at h
  all_goals simp only [Option.some.injEq, Prod.mk.injEq, reduceCtorEq] at h
  all_goals obtain ⟨rfl, rfl⟩ := h
  all_goals simp only [of, Thread.rtnl, Thread.registration, Thread.files, Thread.ioctls,
    Thread.looking, Thread.removing, Shared.files, Shared.setBusy, Shared.setDev]
  all_goals grind -linarith

theorem enter_counted (h : enter me call s = some (s', t)) (hI : Counted s sum d) :
    Counted s' (fun w => sum w + w t) d := by
  obtain ⟨-, -, -, hrefcnt, hreg, -, hregistration, hioctls, -, -, hfiles⟩ := enter_counts h
  have hd := hfiles d
  have hregistration' : of d Thread.registration t = 0 := by simp only [of, hregistration, ite_self]
  have hioctls' : of d Thread.ioctls t = 0 := by simp only [of, hioctls, ite_self]
  unfold Counted at hI ⊢
  rw [hrefcnt, hreg, hI]
  simp only [hregistration', hioctls']
  omega

theorem enter_quiet (h : enter me call s = some (s', t)) (hI : Quiet s sum d) :
    Quiet s' (fun w => sum w + w t) d := by
  obtain ⟨-, -, hbase, -, -, -, -, hioctls, hlooking, hremoving, hfiles⟩ := enter_counts h
  have hd := hfiles d
  unfold Quiet at hI ⊢
  rw [hbase]
  simp only [of, hioctls, hlooking, hremoving, ite_self, Nat.add_zero] at hd ⊢
  intro hoff
  have hnone := hI hoff
  omega

theorem enter_chars (h : enter me call s = some (s', t)) :
    (∀ fd, s.ioctls.count fd + onFile fd Thread.chars t = s'.ioctls.count fd) ∧
      (0 < t.chars → ⟨t.fd, t.dev⟩ ∈ s'.handles) ∧
      ∀ k ∈ s.handles, k.fd ∈ s.ioctls → k ∈ s'.handles := by
  cases call <;> simp only [enter] at h
  case nicCharOpsIoctl fd cmd =>
    split at h
    · rename_i k hfind
      simp only [Option.some.injEq, Prod.mk.injEq] at h
      obtain ⟨rfl, rfl⟩ := h
      have hk := List.mem_of_find?_eq_some hfind
      refine ⟨fun fd' => ?_, fun _ => hk, fun _ hmem _ => hmem⟩
      simp only [onFile, Thread.chars, List.count_cons, beq_iff_eq]
    · cases h
  all_goals repeat' split at h
  all_goals simp only [Option.some.injEq, Prod.mk.injEq, reduceCtorEq] at h
  all_goals obtain ⟨rfl, rfl⟩ := h
  all_goals simp only [onFile, Thread.chars, Shared.setBusy, Shared.setDev]
  all_goals grind -linarith

end Enter

theorem balanced_enter {c : Config Shared Thread} {call : Call} {s : Shared} {t : Thread}
    (h : enter c.pool.length call c.shared = some (s, t))
    (hok : paired c (.start call) = true) (hI : Balanced c) :
    Balanced ⟨s, c.pool ++ [t]⟩ := by
  obtain ⟨hlifecycle, hrtnl, hcounted, hquiet, hchars, hopened, hsetLink⟩ := hI
  obtain ⟨hlock, hlock', -, -, -, hsettings, -⟩ := enter_counts h
  obtain ⟨hcount, hnew, hkept⟩ := enter_chars h
  constructor
  · intro d
    simp only [total_append]
    exact enter_lifecycle h (mono_total c.pool) (hlifecycle d)
  · simp only [total_append, hlock, hlock']
    exact hrtnl
  · intro d
    simp only [total_append]
    exact enter_counted h (hcounted d)
  · intro d
    simp only [total_append]
    exact enter_quiet h (hquiet d)
  · intro fd
    simp only [total_append, hchars fd]
    exact hcount fd
  · refine hopened.append (fun i u hi hu hpos => hkept _ (hu hpos) ?_) hnew
    have hle := le_total (onFile u.fd Thread.chars) hi
    rw [hchars u.fd] at hle
    simp only [onFile, if_true] at hle
    show u.fd ∈ c.shared.ioctls
    exact List.count_pos_iff.mp (by omega)
  · refine hsetLink.append (fun i u _ hu => ?_) ?_
    · exact ⟨hu.1, hu.2.1, fun hpc => (hsettings u.dev).trans (hu.2.2 hpc)⟩
    · cases call <;> simp only [enter] at h
      all_goals repeat' split at h
      all_goals simp only [Option.some.injEq, Prod.mk.injEq, reduceCtorEq] at h
      all_goals obtain ⟨rfl, rfl⟩ := h
      all_goals simp only [Thread.SetLink]
      all_goals simp_all [paired]

theorem balanced_step {a : Choice} {i : Nat} {c : Config Shared Thread} {s : Shared}
    {t t' : Thread} (hi : c.pool[i]? = some t) (h : step a c.shared t = some (s, t'))
    (hok : paired c (.act i a) = true) (hI : Balanced c) : Balanced ⟨s, c.pool.set i t'⟩ := by
  obtain ⟨hlifecycle, hrtnl, hcounted, hquiet, hchars, hopened, hsetLink⟩ := hI
  simp only [total_eq_others _ hi] at hlifecycle hrtnl hcounted hquiet hchars
  have hmono := mono_others c.pool i
  have hmem : 0 < t.chars → t.fd ∈ c.shared.ioctls := by
    intro hpos
    have hfd := hchars t.fd
    simp only [onFile, if_true] at hfd
    exact List.count_pos_iff.mp (by omega)
  obtain ⟨hcount, hsub, hsame⟩ := step_chars h hmem
  have htest : t.pc = .unregTest → (c.shared.dev t.dev).refcnt ≤ 1 →
      others (of t.dev Thread.looking) c.pool i = 0 := by
    intro hpc hle
    simp only [paired, hi, hpc, decide_eq_true_eq] at hok
    exact others_eq_zero hi (hok hle)
  have hlook : ∀ e, t.pc = .getByName →
      c.shared.devBase.find? (fun d => sameName (c.shared.dev d).name t.name) = some e →
      others (of e Thread.removing) c.pool i = 0 := by
    intro e hpc hfind
    simp only [paired, hi, hpc, hfind, decide_eq_true_eq] at hok
    exact others_eq_zero hi hok
  have hmine := hsetLink i t hi
  constructor
  · intro d
    simp only [total_set _ _ hi]
    exact step_lifecycle h hmono (hlifecycle d)
  · simp only [total_set _ _ hi]
    exact step_rtnl h hrtnl
  · intro d
    simp only [total_set _ _ hi]
    exact step_counted h hmine.2.1 hmono (hlifecycle d) (hcounted d)
  · intro d
    simp only [total_set _ _ hi]
    exact step_quiet h hmono (hlifecycle d) (hcounted d) hrtnl htest hlook (hquiet d)
  · intro fd
    have hstep := hcount fd
    have hfd := hchars fd
    simp only [total_set _ _ hi]
    omega
  · refine hopened.set (fun j u _ _ hu hpos => hsub (hu hpos)) ?_
    intro hpos
    obtain ⟨hpos', hfd, hdev⟩ := hsame hpos
    rw [hfd, hdev]
    exact hsub (hopened i t hi hpos')
  · refine hsetLink.set (fun j u _ _ hu => ?_) (step_setLink h hmine)
    exact ⟨hu.1, hu.2.1, fun hpc => (step_setSettings h u.dev).trans (hu.2.2 hpc)⟩

theorem balanced_of_reach {attrs : Nat → Attrs} {c : Config Shared Thread}
    (h : machine.Reach (fun c e => paired c e = true) (initial attrs) c) : Balanced c := by
  refine Machine.Reach.invariant Balanced ?_ ?_ ?_ h
  · constructor
    · intro d
      constructor <;> simp [initial]
    · rfl
    · exact fun _ => rfl
    · exact fun _ _ => rfl
    · exact fun _ => rfl
    · exact each_nil _
    · exact each_nil _
  · intro c call s t _ hI hok hs
    exact balanced_enter hs hok hI
  · intro c i a t s t' _ hI hok hi hs
    exact balanced_step hi hs hok hI

/-- A registered device has the reference of its registration, and only that one. -/
theorem Balanced.registration_eq {c : Config Shared Thread} (hI : Balanced c) {d : Nat}
    (hreg : (c.shared.dev d).regState = .registered) : registration c d = 1 := by
  have hL := hI.lifecycle d
  have hnew : total (of d Thread.registering) c.pool = 0 :=
    Nat.eq_zero_of_not_pos fun hpos => hL.registering hpos hreg
  have hold : total (of d Thread.removed) c.pool = 0 :=
    Nat.eq_zero_of_not_pos fun hpos => hL.removed hpos hreg
  have hle : total (of d Thread.registration) c.pool ≤
      total (fun t => of d Thread.registering t + of d Thread.removed t) c.pool := by
    apply total_le_total
    intro t _
    simp only [of, Thread.registration, Thread.registering, Thread.removed]
    split
    · cases t.pc <;> simp
    · simp
  rw [total_add] at hle
  simp only [registration, RegState.reference, hreg, true_or, if_true]
  omega

/-- A device that is not on `dev_base` is in nobody's hands, not even in those of a request
    on one of its files. -/
theorem Balanced.unused {c : Config Shared Thread} (hI : Balanced c) {d : Nat}
    (hd : d ∉ c.shared.devBase) : openHandles c d = 0 ∧ requests c d = 0 := by
  have hnone := hI.quiet d (.inl (List.count_eq_zero.mpr hd))
  have hfiles : c.shared.files d = 0 := by omega
  have hchars : total (of d Thread.chars) c.pool = 0 := by
    apply total_eq_zero
    intro t ht
    by_contra hpos
    obtain ⟨i, hi⟩ := List.mem_iff_getElem?.mp ht
    simp only [of] at hpos
    split at hpos
    · rename_i hdev
      have hmem := hI.opened i t hi (by omega)
      simp only [Shared.files, List.countP_eq_zero, decide_eq_true_eq] at hfiles
      exact hfiles _ hmem hdev
    · exact hpos rfl
  simp only [Shared.files] at hnone
  simp only [openHandles, requests, ioctlCalls]
  omega

/-- Past `unregUnlink` the device is off the list. -/
theorem Balanced.removed {c : Config Shared Thread} (hI : Balanced c) {t : Thread}
    (ht : t ∈ c.pool) (hpc : 0 < t.removed) : t.dev ∉ c.shared.devBase := by
  obtain ⟨i, hi⟩ := List.mem_iff_getElem?.mp ht
  obtain ⟨howner, -, -, -, hlinked, hremoved⟩ := hI.lifecycle t.dev
  have hmine : of t.dev Thread.removed t = t.removed := by simp [of]
  have hpos := le_total (of t.dev Thread.removed) hi
  have hboth : total (fun u => of t.dev Thread.linked u + of t.dev Thread.removed u) c.pool ≤
      total (of t.dev Thread.owner) c.pool := by
    apply total_le_total
    intro u _
    simp only [of, Thread.linked, Thread.removed, Thread.owner]
    split
    · cases u.pc <;> simp
    · simp
  rw [total_add, howner] at hboth
  rw [if_neg (hremoved (by omega))] at hlinked
  refine List.count_eq_zero.mp ?_
  split at hboth <;> omega

/-- **References balance.**  In every run in which no reference is put that is not held and
    look-up and removal keep apart: `refcnt` is the reference of the registration, one while
    the device is registered, plus the open files, plus the calls of `IoctlNetDev` that hold
    the device; a device that is not on `dev_base` has no open file and no request; and a
    call of `unregister_netdev` that is about to return has taken its device off. -/
theorem references_balance {attrs : Nat → Attrs} {c : Config Shared Thread}
    (h : machine.Reach (fun c e => paired c e = true) (initial attrs) c) :
    (∀ d, (c.shared.dev d).refcnt =
      (registration c d + openHandles c d + ioctlCalls c d : Nat)) ∧
    (∀ d, (c.shared.dev d).regState = .registered → registration c d = 1) ∧
    (∀ d, d ∉ c.shared.devBase → openHandles c d = 0 ∧ requests c d = 0) ∧
    ∀ t ∈ c.pool, t.pc = .unregUnlock →
      t.dev ∉ c.shared.devBase ∧ openHandles c t.dev = 0 ∧ requests c t.dev = 0 := by
  have hI := balanced_of_reach h
  refine ⟨hI.counted, fun d => hI.registration_eq, fun d => hI.unused, fun t ht hpc => ?_⟩
  have hoff := hI.removed ht (by simp [Thread.removed, hpc])
  exact ⟨hoff, hI.unused hoff⟩

/-- Two pseudo devices, `vm0` and `vm1`; the driver of the second has no `set_settings`. -/
def twoDevices (d : Nat) : Attrs :=
  if d = 0 then { name := [118, 109, 48], pdev := false }
  else { name := [118, 109, 49], pdev := false, setSettings := false }

/-- `vm1` is registered, opened, asked for its settings by name and by file, told its link
    status, closed and unregistered. -/
theorem references_balance_unregister :
    ∃ c, machine.Reach (fun c e => paired c e = true) (initial twoDevices) c ∧
      (∃ t ∈ c.pool, t.pc = .unregUnlock ∧ t.dev = 1) ∧
      1 ∉ c.shared.devBase ∧ openHandles c 1 = 0 ∧ requests c 1 = 0 := by
  obtain ⟨c, hc, ho⟩ := machine.exists_reach_of_runIf paired
    (List.flatten [[.start (.registerNetdev 0)], acts 0 8, [.start (.registerNetdev 1)], acts 1 8,
      [.start (.ioctlNetDev [118, 109, 49] .siocethtool)], acts 2 2,
      [.start (.nicCharOpsOpen 7)], acts 3 4, [.start (.nicCharOpsIoctl 3 .siocethtool)],
      [.start (.unregisterNetdev 1)], acts 5 3, acts 4 6, acts 2 5,
      [.start (.nicSetLinkStatus 1)], acts 6 1, [.start (.nicCharOpsClose 3)], acts 7 1,
      [.start .linkStateWork], acts 8 7, acts 5 6])
    (initial twoDevices)
    (fun c => c.pool.any fun t => decide (t.pc = .unregUnlock ∧ t.dev = 1)) true (by decide)
  simp only [List.any_eq_true, decide_eq_true_eq] at ho
  obtain ⟨t, ht, hpc, hdev⟩ := ho
  have hall := (references_balance hc).2.2.2 t ht hpc
  rw [hdev] at hall
  exact ⟨c, hc, ⟨t, ht, hpc, hdev⟩, hall⟩

/-- Three runs.  `NICSetLinkStatus` takes the reference of the registration away;
    `unregister_netdev` returns while an `IoctlNetDev` that found the device before the test
    of `refcnt` goes on, and while one that found it after the test does. -/
theorem references_unbalanced :
    (∃ c, machine.Reachable (initial twoDevices) c ∧ (c.shared.dev 0).regState = .registered ∧
      (c.shared.dev 0).refcnt = 0) ∧
    (∃ c, machine.Reachable (initial twoDevices) c ∧ requests c 0 = 1 ∧
      ∃ t ∈ c.pool, t.pc = .unregUnlock ∧ t.dev = 0) ∧
    ∃ c, machine.Reachable (initial twoDevices) c ∧ requests c 0 = 1 ∧
      ∃ t ∈ c.pool, t.pc = .unregUnlock ∧ t.dev = 0 := by
  refine ⟨?_, ?_, ?_⟩
  · obtain ⟨c, hc, ho⟩ := machine.exists_reachable_of_run
      (List.flatten [[.start (.registerNetdev 0)], acts 0 8, [.start (.nicSetLinkStatus 0)],
        acts 1 3])
      (initial twoDevices)
      (fun c => ((c.shared.dev 0).regState, (c.shared.dev 0).refcnt)) (.registered, 0)
      (by decide)
    simp only [Prod.mk.injEq] at ho
    exact ⟨c, hc, ho⟩
  · obtain ⟨c, hc, ho⟩ := machine.exists_reachable_of_run
      (List.flatten [[.start (.registerNetdev 0)], acts 0 8,
        [.start (.ioctlNetDev [118, 109, 48] .other)], acts 1 1,
        [.start (.unregisterNetdev 0)], acts 2 2, acts 1 1, acts 2 4])
      (initial twoDevices)
      (fun c => (requests c 0, c.pool.any fun t => decide (t.pc = .unregUnlock ∧ t.dev = 0)))
      (1, true) (by decide)
    simp only [Prod.mk.injEq, List.any_eq_true, decide_eq_true_eq] at ho
    exact ⟨c, hc, ho⟩
  · obtain ⟨c, hc, ho⟩ := machine.exists_reachable_of_run
      (List.flatten [[.start (.registerNetdev 0)], acts 0 8,
        [.start (.ioctlNetDev [118, 109, 48] .other)],
        [.start (.unregisterNetdev 0)], acts 2 2, acts 1 2, acts 2 4])
      (initial twoDevices)
      (fun c => (requests c 0, c.pool.any fun t => decide (t.pc = .unregUnlock ∧ t.dev = 0)))
      (1, true) (by decide)
    simp only [Prod.mk.injEq, List.any_eq_true, decide_eq_true_eq] at ho
    exact ⟨c, hc, ho⟩

end VmkLinux.Net.Refs
