/-
  VmkLinux/Irq/Registry.lean
  ==========================
  **The registry of devices.**  A device that `Linux_RegisterDevice` could not enter into the
  hash table is freed and stays on `deviceList`, and the `IRQInfo` that has got it keeps it; and
  `Linux_UnregisterDevice` frees a device that an `IRQInfo` still names.  Where neither happens
  (`sparing`), the reference count of a device is what the registry, the hash table and the
  callers hold, and a lookup finds a device exactly where one is registered
  (`registry_consistent`).
-/
import VmkLinux.Irq.Table

namespace VmkLinux.Irq

open VmkLinux.Sequence

/-! ### The condition -/

/-- No `IRQInfo` of the table names the device. -/
def State.unnamed (s : State) (d : Nat) : Bool :=
  s.infos.all fun i => decide ((s.info i).deviceInfo ≠ some d)

/-- A device has data, and the memory for its hash entry; it is unregistered while a caller has
    it, or while no `IRQInfo` names it; and a request whose handler is not installed is the only
    one that is found for it. -/
def sparing (s : State) : Call → Bool
  | .registerDevice r =>
      !(r.useCount && (found r.data s).isNone && r.devMemory) ||
        (r.entryMemory && decide (0 < r.dataLength))
  | .unregisterDevice data =>
      (found data s).toList.all fun d => decide (d ∈ s.finds) || s.unnamed d
  | .requestIrq irq devId top a =>
      s.unmistaken (moduleOf devId top s) irq devId || (a.addHandler && a.enable) ||
        !a.memory (moduleOf devId top s) s
  | _ => true

/-! ### The invariant -/

/-- The entries of the hash table that name a device. -/
def State.entries (s : State) (d : Nat) : Nat := s.devHashTable.countP fun he => he.dev = d

structure Inv (s : State) : Prop where
  tidy : Tidy s
  devices : s.registered = s.deviceList
  nodup : s.deviceList.Nodup
  known : ∀ d ∈ s.deviceList, d < s.nextDev ∧ d ∉ s.freedDevs
  freed : ∀ d ∈ s.freedDevs, d < s.nextDev
  refCount : ∀ d ∈ s.deviceList, (s.dev d).refCount = 1 + s.entries d + s.finds.count d
  hash : ∀ he ∈ s.devHashTable, he.dev ∈ s.deviceList ∧ s.inRange he.key he.dev = true
  finds : ∀ d ∈ s.finds, d ∈ s.deviceList
  named : ∀ i ∈ s.infos, ∀ d, (s.info i).deviceInfo = some d → d ∈ s.deviceList

section Lookup

variable {s : State} {data d : Nat}

/-- A device that is found is registered, and has the data. -/
theorem Inv.found_sound (hI : Inv s) (h : found data s = some d) :
    d ∈ s.deviceList ∧ s.inRange data d = true := by
  unfold found at h
  split at h
  · rename_i d' hcached
    obtain rfl := Option.some.inj h
    unfold cached at hcached
    obtain ⟨he, hfind, rfl⟩ := Option.map_eq_some_iff.mp hcached
    have hkey : he.key = data := by simpa using List.find?_some hfind
    exact hkey ▸ hI.hash he (List.mem_of_find?_eq_some hfind)
  · exact ⟨List.mem_of_find?_eq_some h, List.find?_some h⟩

theorem found_complete (hd : d ∈ s.deviceList) (hrange : s.inRange data d = true) :
    (found data s).isSome = true := by
  unfold found
  split
  · rfl
  · exact List.find?_isSome.mpr ⟨d, hd, hrange⟩

end Lookup

/-! ### Calls -/

section Calls

variable {s s' : State} {data d : Nat}

/-- A reference is taken and given back. -/
theorem Inv.findAndRelease_eq (hI : Inv s) : findAndRelease data s = s := by
  unfold findAndRelease
  split
  · rename_i d hfound
    have hcount := hI.refCount d (hI.found_sound hfound).1
    have hdev : ((s.hold d).drop d 1).dev = s.dev := by
      funext e
      by_cases heq : e = d
      · simp [State.drop, State.hold, State.setDev, heq]
      · simp [State.drop, State.hold, State.setDev, heq]
    have hone : ((s.hold d).dev d).refCount ≠ 1 := by
      simp only [State.hold, State.setDev, if_true]
      omega
    have hsame : (s.hold d).drop d 1 = { s with dev := ((s.hold d).drop d 1).dev } := rfl
    unfold releaseDeviceInt
    rw [if_neg hone, hsame, hdev]
  · rfl

theorem inv_findDevice {addIt memory : Bool} (hI : Inv s) :
    Inv (findDevice data addIt memory s) := by
  have htidy : Tidy (findDevice data addIt memory s) := sameTable_findDevice.tidy hI.tidy
  have hsound := fun d => @Inv.found_sound s data d hI
  obtain ⟨-, hdevices, hnodup, hknown, hfreed, hrefCount, hhash, hfinds, hnamed⟩ := hI
  have hcached : ∀ d, cached data s = some d → found data s = some d := by
    intro d hd
    simp only [found, hd]
  unfold findDevice findDeviceInt at htidy ⊢
  refine ⟨htidy, ?_, ?_, ?_, ?_, ?_, ?_, ?_, ?_⟩
  all_goals clear htidy
  all_goals repeat' split
  all_goals simp only [addInfoInt, State.hold, State.setDev, State.inRange, State.entries,
    State.infos, List.countP_cons] at *
  all_goals grind -linarith

theorem inv_releaseDevice (hI : Inv s) (hd : d ∈ s.finds) : Inv (releaseDevice d s) := by
  have htidy : Tidy (releaseDevice d s) := sameTable_releaseDevice.tidy hI.tidy
  obtain ⟨-, hdevices, hnodup, hknown, hfreed, hrefCount, hhash, hfinds, hnamed⟩ := hI
  have hpos := List.count_pos_iff.mpr hd
  have hcount := hrefCount d (hfinds d hd)
  unfold releaseDevice releaseDeviceInt at htidy ⊢
  rw [if_neg (by omega)] at htidy ⊢
  refine ⟨htidy, hdevices, hnodup, hknown, hfreed, fun e he => ?_, ?_, ?_, hnamed⟩
  all_goals simp only [State.drop, State.setDev, State.inRange, State.entries] at *
  all_goals grind

/-- The `IRQInfo`s name no other devices than before, but perhaps the new one. -/
theorem named_attach {moduleID devId i e : Nat}
    (h : ((attachIRQInfo moduleID devId d s).info i).deviceInfo = some e) :
    (s.info i).deviceInfo = some e ∨ e = d := by
  unfold attachIRQInfo at h
  split at h
  · exact .inl h
  · simp only [State.setInfo] at h
    split at h
    · exact .inr (Option.some.inj h).symm
    · exact .inl h

theorem attach_eq {moduleID devId : Nat} : attachIRQInfo moduleID devId d s =
    { s with info := (attachIRQInfo moduleID devId d s).info } := by
  unfold attachIRQInfo
  split <;> rfl

theorem inv_registerDevice {r : Registration} (hI : Inv s)
    (hok : sparing s (.registerDevice r) = true) : Inv (registerDevice r s).1 := by
  have htidy : Tidy (registerDevice r s).1 := sameTable_registerDevice.tidy hI.tidy
  unfold registerDevice at htidy ⊢
  split
  · exact hI
  split
  · exact hI.findAndRelease_eq.symm ▸ hI
  split
  · exact hI
  rename_i huse hfound hdev
  simp only [sparing, Bool.or_eq_true, Bool.not_eq_true', Bool.and_eq_false_iff,
    Bool.and_eq_true, decide_eq_true_eq] at hok
  have hnone : (found r.data s).isNone = true := by simpa using hfound
  have hentry : r.entryMemory = true ∧ 0 < r.dataLength := by simp_all
  rw [if_neg huse, if_neg hfound, if_neg hdev, if_pos hentry.1] at htidy
  rw [if_pos hentry.1]
  have hnamed' := fun i e => @named_attach (newDevice r s) s.nextDev r.moduleID
    (if r.ide then 0 else r.data) i e
  obtain ⟨-, hdevices, hnodup, hknown, hfreed, hrefCount, hhash, hfinds, hnamed⟩ := hI
  have hnew : s.nextDev ∉ s.deviceList := fun hmem => Nat.lt_irrefl _ (hknown _ hmem).1
  have hentries : s.entries s.nextDev = 0 := by
    refine List.countP_eq_zero.mpr fun he hmem => ?_
    have hdev' := (hhash he hmem).1
    simp only [decide_eq_true_eq]
    exact fun heq => hnew (heq ▸ hdev')
  have hfinds' : s.finds.count s.nextDev = 0 :=
    List.count_eq_zero.mpr fun hmem => hnew (hfinds _ hmem)
  rw [attach_eq] at htidy ⊢
  refine ⟨htidy, ?_, ?_, ?_, ?_, ?_, ?_, ?_, ?_⟩
  all_goals clear htidy
  all_goals simp only [addInfoInt, newDevice, State.hold, State.setDev, State.inRange,
    State.entries, State.infos, List.countP_cons] at *
  all_goals grind -linarith

theorem entries_purge {e : Nat} : (purge d s).entries e = if e = d then 0 else s.entries e := by
  unfold purge State.entries
  rw [List.countP_filter]
  split
  · rename_i heq
    subst heq
    exact List.countP_eq_zero.mpr fun he _ => by simp
  · rename_i hne
    refine List.countP_congr fun he _ => ?_
    simp only [Bool.and_eq_true, decide_eq_true_eq, and_iff_left_iff_imp]
    rintro rfl
    exact hne

/-- The other devices keep their references. -/
theorem dev_purge {e : Nat} (he : e ≠ d) : (purge d (s.hold d)).dev e = s.dev e := by
  simp only [purge, State.drop, State.hold, State.setDev, if_neg he]

theorem inv_unregisterDevice (hI : Inv s) (hok : sparing s (.unregisterDevice data) = true) :
    Inv (unregisterDevice data s).1 := by
  have htidy : Tidy (unregisterDevice data s).1 := sameTable_unregisterDevice.tidy hI.tidy
  unfold unregisterDevice at htidy ⊢
  split
  · exact hI
  rename_i d hfound
  simp only [hfound] at htidy
  have hd := (hI.found_sound hfound).1
  simp only [sparing, hfound, Option.toList_some, List.all_cons, List.all_nil, Bool.and_true,
    Bool.or_eq_true, decide_eq_true_eq, State.unnamed, List.all_eq_true] at hok
  obtain ⟨-, hdevices, hnodup, hknown, hfreed, hrefCount, hhash, hfinds, hnamed⟩ := hI
  have hcount := hrefCount d hd
  have hpurge := fun e => @entries_purge (s.hold d) d e
  have hrefs : ((purge d (s.hold d)).dev d).refCount = 2 + s.finds.count d := by
    simp only [purge, State.drop, State.hold, State.setDev, State.entries, if_true] at hcount ⊢
    omega
  split
  · rename_i hnot
    rw [if_pos hnot] at htidy
    have hone : ((purge d (s.hold d)).dev d).refCount ≠ 1 := by omega
    unfold releaseDeviceInt at htidy ⊢
    rw [if_neg hone] at htidy ⊢
    refine ⟨htidy, hdevices, hnodup, hknown, hfreed, fun e he => ?_, fun he hmem => ?_, hfinds,
      hnamed⟩
    · have hrefs' := hrefCount e he
      change (((purge d (s.hold d)).drop d 1).dev e).refCount =
        1 + (purge d (s.hold d)).entries e + s.finds.count e
      rw [hpurge]
      by_cases heq : e = d
      · subst heq
        simp only [State.drop, State.setDev, if_true, hrefs]
        omega
      · simp only [State.drop, State.setDev, if_neg heq, dev_purge heq]
        exact hrefs'
    · have hold := hhash he (List.mem_of_mem_filter hmem)
      simp only [State.inRange, purge, State.drop, State.hold, State.setDev] at *
      grind -linarith
  · rename_i hnot
    rw [if_neg hnot] at htidy
    have hzero : s.finds.count d = 0 := by omega
    have hunnamed := hok.resolve_left (List.count_eq_zero.mp hzero)
    unfold releaseDeviceInt at htidy ⊢
    rw [if_pos (by simp [State.setDev])] at htidy ⊢
    refine ⟨⟨htidy.linked, htidy.fresh, htidy.freed, htidy.modules⟩, ?_, hnodup.erase d,
      fun e he => ?_, fun e he => ?_, fun e he => ?_, fun he hmem => ?_, fun e he => ?_,
      fun i hi e he => ?_⟩
    · exact congrArg (fun l => List.erase l d) hdevices
    all_goals simp only [hnodup.mem_erase_iff] at *
    · simp only [purge, State.drop, State.hold, State.setDev] at *
      grind -linarith
    · simp only [purge, State.drop, State.hold, State.setDev] at *
      grind -linarith
    · have hentries : (purge d (s.hold d)).entries e = s.entries e := by
        rw [hpurge, if_neg he.1]
        rfl
      simp only [State.drop, State.setDev, if_neg he.1, dev_purge he.1]
      change (s.dev e).refCount = 1 + (purge d (s.hold d)).entries e + s.finds.count e
      rw [hentries]
      exact hrefCount e he.2
    · have hold := hhash he (List.mem_of_mem_filter hmem)
      simp only [State.inRange, purge, State.drop, State.hold, State.setDev] at *
      grind -linarith
    · exact ⟨fun heq => List.count_eq_zero.mp hzero (heq ▸ he), hfinds e he⟩
    · exact ⟨fun heq => hunnamed i hi (heq ▸ he), hnamed i hi e he⟩

/-- A device that a request has found is on the list. -/
theorem inv_requestIrq {irq devId top : Nat} {a : Answers} (hI : Inv s)
    (hok : sparing s (.requestIrq irq devId top a) = true) :
    Inv (requestIrq irq devId top a s).1 := by
  have hok' := orderly_requestIrq hok
  have htidy := hI.tidy.request hok'
  have hsound := fun d => @Inv.found_sound s devId d hI
  have hfresh := tidy_nextInfo hI.tidy
  rcases requestIrq_cases hI.tidy hok' with heq | heq | heq
  · rw [heq, hI.findAndRelease_eq] at htidy ⊢
    refine ⟨htidy, hI.devices, hI.nodup, hI.known, hI.freed, hI.refCount, hI.hash, hI.finds,
      fun i hi d hd => ?_⟩
    simp only [State.infos, addIRQInfo, State.setInfo, mem_infosOf_link] at hi hd
    split at hd
    · exact (hsound d hd).1
    · rename_i hne
      exact hI.named i (hi.resolve_left hne) d hd
  · rw [heq, hI.findAndRelease_eq] at htidy ⊢
    refine ⟨htidy, hI.devices, hI.nodup, hI.known, hI.freed, hI.refCount, hI.hash, hI.finds,
      fun i hi d hd => ?_⟩
    simp only [addIRQInfo, State.setInfo] at hd
    have hne : i ≠ s.nextInfo := fun hnext => hfresh (hnext ▸ hi)
    rw [if_neg hne] at hd
    exact hI.named i hi d hd
  · rw [heq, hI.findAndRelease_eq]
    exact hI

theorem inv_freeIrq {irq devId top : Nat} (hI : Inv s) : Inv (freeIrq irq devId top s) := by
  have htidy : Tidy (freeIrq irq devId top s) := hI.tidy.free
  cases hfind : findIRQInfo (moduleOf devId top s) irq devId s with
  | none =>
    unfold freeIrq
    simp only [hfind, hI.findAndRelease_eq]
    exact hI
  | some i =>
    rw [freeIrq_eq hfind, hI.findAndRelease_eq] at htidy ⊢
    refine ⟨htidy, hI.devices, hI.nodup, hI.known, hI.freed, hI.refCount, hI.hash, hI.finds,
      fun j hj => hI.named j ?_⟩
    simp only [State.infos, infosOf_unlink hI.tidy.linked (mem_of_findIRQInfo hfind)] at hj
    exact List.mem_of_mem_erase hj

theorem inv_step {call : Call} (hI : Inv s) (hok : sparing s call = true)
    (h : step call s = some s') : Inv s' := by
  cases call with
  | registerDevice r =>
    obtain rfl := Option.some.inj h
    exact inv_registerDevice hI hok
  | unregisterDevice data =>
    obtain rfl := Option.some.inj h
    exact inv_unregisterDevice hI hok
  | findDevice data addIt memory =>
    obtain rfl := Option.some.inj h
    exact inv_findDevice hI
  | releaseDevice d =>
    simp only [step] at h
    split at h
    · rename_i hd
      obtain rfl := Option.some.inj h
      exact inv_releaseDevice hI hd
    · cases h
  | requestIrq irq devId top a =>
    obtain rfl := Option.some.inj h
    exact inv_requestIrq hI hok
  | freeIrq irq devId top =>
    obtain rfl := Option.some.inj h
    have hfree : Inv (freeIrq irq devId top s) := inv_freeIrq hI
    obtain ⟨htidy, hdevices, hnodup, hknown, hfreed, hrefCount, hhash, hfinds, hnamed⟩ := hfree
    exact ⟨⟨htidy.linked, htidy.fresh, htidy.freed, htidy.modules⟩, hdevices, hnodup, hknown,
      hfreed, hrefCount, hhash, hfinds, hnamed⟩

end Calls

/-! ### Whole runs -/

/-- Each registered device is listed once and has its references; a lookup finds a registered
    device that has the data, if there is one; a registration that fails changes nothing; and
    nothing names a device that is freed. -/
structure Consistent (s : State) : Prop where
  listed : ∀ d, s.deviceList.count d = if d ∈ s.registered then 1 else 0
  refCount : ∀ d ∈ s.registered,
    (s.dev d).refCount = 1 + s.entries d + s.finds.count d
  finds : ∀ data, (found data s).isSome = true ↔ ∃ d ∈ s.registered, s.inRange data d = true
  sound : ∀ data d, found data s = some d → d ∈ s.registered ∧ s.inRange data d = true
  refused : ∀ r, sparing s (.registerDevice r) = true → (registerDevice r s).2 = false →
    (registerDevice r s).1.deviceList = s.deviceList ∧
      (registerDevice r s).1.devHashTable = s.devHashTable ∧
      ∀ i, ((registerDevice r s).1.info i).deviceInfo = (s.info i).deviceInfo
  hash : ∀ he ∈ s.devHashTable, he.dev ∉ s.freedDevs
  infos : ∀ i ∈ s.infos, i ∉ s.freedInfos ∧
    ∀ d, (s.info i).deviceInfo = some d → d ∉ s.freedDevs

theorem Inv.consistent {s : State} (hI : Inv s) : Consistent s := by
  refine ⟨fun d => ?_, ?_, fun data => ⟨fun h => ?_, ?_⟩, ?_, fun r hok hfail => ?_,
    fun he hmem => (hI.known _ (hI.hash he hmem).1).2,
    fun i hi => ⟨(hI.tidy.fresh i hi).2, fun d hd => (hI.known d (hI.named i hi d hd)).2⟩⟩
  · rw [hI.devices, hI.nodup.count]
  · rw [hI.devices]
    exact hI.refCount
  · obtain ⟨d, hd⟩ := Option.isSome_iff_exists.mp h
    exact ⟨d, hI.devices ▸ hI.found_sound hd⟩
  · rintro ⟨d, hd, hrange⟩
    exact found_complete (hI.devices ▸ hd) hrange
  · intro data d hd
    exact hI.devices ▸ hI.found_sound hd
  · have hunchanged : (registerDevice r s).1 = s := by
      unfold registerDevice at hfail ⊢
      simp only [sparing, Bool.or_eq_true, Bool.not_eq_true', Bool.and_eq_false_iff,
        Bool.and_eq_true] at hok
      repeat' split at hfail
      all_goals simp_all [hI.findAndRelease_eq]
    rw [hunchanged]
    exact ⟨rfl, rfl, fun _ => rfl⟩

/-- **The registry is consistent**, where no device is freed while it is named. -/
theorem registry_consistent {s : State}
    (h : Reach step (fun s call => sparing s call = true) initial s) : Consistent s := by
  refine Inv.consistent (h.invariant Inv
    ⟨⟨⟨?_, ?_, ?_⟩, ?_, ?_, ?_⟩, rfl, ?_, ?_, ?_, ?_, ?_, ?_, ?_⟩
    (fun s call s' hI hok hs => inv_step hI hok hs))
  all_goals simp [initial, State.infos, infosOf, irqListOf]

/-- A device that is found twice, once through the hash table, is unregistered when both finds
    are released and its interrupt is freed. -/
theorem registry_consistent_found_twice :
    ∃ s, Reach step (fun s call => sparing s call = true) initial s ∧
      (s.registered, s.freedDevs, (s.dev 0).refCount) = ([1], [0], 0) ∧ Consistent s := by
  obtain ⟨s, hs, ho⟩ := exists_reach_of_runIf step sparing
    [.requestIrq 5 100 1 {}, .registerDevice { data := 100, dataLength := 8, moduleID := 1 },
      .registerDevice { data := 200, dataLength := 8, moduleID := 1 }, .findDevice 104 true true,
      .findDevice 104 true true, .unregisterDevice 100,
      .registerDevice { data := 104, dataLength := 8, moduleID := 1 },
      .releaseDevice 0, .freeIrq 5 100 1, .releaseDevice 0, .unregisterDevice 100] initial
    (fun s => (s.registered, s.freedDevs, (s.dev 0).refCount)) ([1], [0], 0) (by decide)
  exact ⟨s, hs, ho, registry_consistent hs⟩

/-- A registration that fails leaves a freed device on the list and in the interrupt table; an
    interrupt outlives its device; and a device without data is found. -/
theorem registry_names_freed_device :
    (∃ s, Reachable step initial s ∧
      (s.deviceList, s.freedDevs, (s.info 0).deviceInfo, s.infos, s.registered) =
        ([0], [0], some 0, [0], [])) ∧
    (∃ s, Reachable step initial s ∧
      (s.deviceList, s.freedDevs, (s.info 0).deviceInfo, s.infos) = ([], [0], some 0, [0])) ∧
    ∃ s, Reachable step initial s ∧ (found 100 s, s.inRange 100 0) = (some 0, false) := by
  refine ⟨?_, ?_, ?_⟩
  · exact exists_reachable_of_run step
      [.requestIrq 5 100 1 {},
        .registerDevice { data := 100, dataLength := 8, moduleID := 1, entryMemory := false }]
      initial _ _ (by decide)
  · exact exists_reachable_of_run step
      [.registerDevice { data := 100, dataLength := 8, moduleID := 1 }, .requestIrq 5 100 1 {},
        .unregisterDevice 100] initial _ _ (by decide)
  · exact exists_reachable_of_run step
      [.registerDevice { data := 100, dataLength := 0, moduleID := 1 }] initial _ _
      (by decide)

end VmkLinux.Irq
