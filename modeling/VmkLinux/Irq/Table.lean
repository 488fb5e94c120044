/-
  VmkLinux/Irq/Table.lean
  =======================
  **The interrupt table is a map from pairs to handlers.**  `free_irq` looks an interrupt up
  under the module that its `dev_id` belongs to at that time, and takes the first `IRQInfo` that
  passes the tests of `FindIRQInfo`; without a `dev_id` that may be one of another device.  Where
  the module is still the one of the request and no other `IRQInfo` is in the way (`orderly`), the
  table has exactly the requests that were not freed (`table_refines_map`).
-/
import Mathlib.Data.List.Nodup
import Mathlib.Data.List.TakeWhile
import VmkLinux.Irq.Model

namespace VmkLinux.Irq

open VmkLinux.Sequence

/-! ### The lists of the modules -/

/-- The `IRQInfo`s of the table. -/
def infosOf (mls : List ModuleIRQList) : List Nat := mls.flatMap ModuleIRQList.irqList

def State.infos (s : State) : List Nat := infosOf s.irqMappings

/-- One list for each module, none of them empty, and each `IRQInfo` once. -/
structure Linked (mls : List ModuleIRQList) : Prop where
  modules : (mls.map ModuleIRQList.moduleID).Nodup
  nonempty : ∀ ml ∈ mls, ml.irqList ≠ []
  nodup : (infosOf mls).Nodup

section Lists

variable {m m' i j : Nat} {ml : ModuleIRQList} {mls : List ModuleIRQList}

@[simp] theorem infosOf_cons : infosOf (ml :: mls) = ml.irqList ++ infosOf mls := rfl

theorem irqListOf_cons : irqListOf m (ml :: mls) =
    if ml.moduleID = m then ml.irqList else irqListOf m mls := rfl

theorem linkIRQInfo_nil : linkIRQInfo m i [] = [⟨m, [i]⟩] := rfl

theorem linkIRQInfo_cons : linkIRQInfo m i (ml :: mls) =
    if ml.moduleID = m then { ml with irqList := ml.irqList ++ [i] } :: mls
    else ml :: linkIRQInfo m i mls := rfl

theorem unlinkIRQInfo_cons : unlinkIRQInfo m i (ml :: mls) =
    if ml.moduleID = m then
      if ml.irqList.erase i = [] then mls else { ml with irqList := ml.irqList.erase i } :: mls
    else ml :: unlinkIRQInfo m i mls := rfl

theorem linked_cons : Linked (ml :: mls) ↔ Linked mls ∧ ml.irqList ≠ [] ∧ ml.irqList.Nodup ∧
    ml.moduleID ∉ mls.map ModuleIRQList.moduleID ∧ ∀ i ∈ ml.irqList, i ∉ infosOf mls := by
  constructor
  · rintro ⟨hmodules, hnonempty, hnodup⟩
    rw [infosOf_cons, List.nodup_append] at hnodup
    rw [List.map_cons, List.nodup_cons] at hmodules
    exact ⟨⟨hmodules.2, fun l hl => hnonempty l (List.mem_cons_of_mem ml hl), hnodup.2.1⟩,
      hnonempty ml List.mem_cons_self, hnodup.1, hmodules.1,
      fun i hi hmem => hnodup.2.2 i hi i hmem rfl⟩
  · rintro ⟨⟨hmodules, hnonempty, hnodup⟩, hne, hlist, hnew, hapart⟩
    refine ⟨List.nodup_cons.mpr ⟨hnew, hmodules⟩, fun l hl => ?_, ?_⟩
    · rcases List.mem_cons.mp hl with rfl | hl
      · exact hne
      · exact hnonempty l hl
    · rw [infosOf_cons, List.nodup_append]
      exact ⟨hlist, hnodup, fun a ha b hb heq => hapart a ha (heq ▸ hb)⟩

theorem mem_infosOf_of_mem_irqListOf (hi : i ∈ irqListOf m mls) : i ∈ infosOf mls := by
  induction mls with
  | nil => cases hi
  | cons ml mls ih =>
    rw [irqListOf_cons] at hi
    rw [infosOf_cons, List.mem_append]
    split at hi
    · exact .inl hi
    · exact .inr (ih hi)

theorem irqListOf_eq_nil (hm : m ∉ mls.map ModuleIRQList.moduleID) : irqListOf m mls = [] := by
  induction mls with
  | nil => rfl
  | cons ml mls ih =>
    rw [List.map_cons, List.mem_cons, not_or] at hm
    rw [irqListOf_cons]
    rw [if_neg (Ne.symm hm.1), ih hm.2]

theorem irqListOf_link : irqListOf m' (linkIRQInfo m i mls) =
    if m' = m then irqListOf m mls ++ [i] else irqListOf m' mls := by
  induction mls with
  | nil =>
    rw [linkIRQInfo_nil, irqListOf_cons]
    split <;> rename_i hm
    · rw [if_pos hm.symm]
      rfl
    · rw [if_neg (Ne.symm hm)]
  | cons ml mls ih => grind [linkIRQInfo_cons, irqListOf_cons]

theorem mem_infosOf_link : j ∈ infosOf (linkIRQInfo m i mls) ↔ j = i ∨ j ∈ infosOf mls := by
  induction mls with
  | nil => simp [linkIRQInfo_nil]
  | cons ml mls ih =>
    rw [linkIRQInfo_cons]
    split
    · simp only [infosOf_cons, List.mem_append, List.mem_singleton]
      tauto
    · simp only [infosOf_cons, List.mem_append, ih]
      tauto

theorem modules_link : ∀ m', m' ∈ (linkIRQInfo m i mls).map ModuleIRQList.moduleID ↔
    m' = m ∨ m' ∈ mls.map ModuleIRQList.moduleID := by
  intro m'
  induction mls with
  | nil => simp [linkIRQInfo_nil]
  | cons ml mls ih =>
    rw [linkIRQInfo_cons]
    split
    · rename_i heq
      simp only [List.map_cons, List.mem_cons, heq]
      tauto
    · simp only [List.map_cons, List.mem_cons, ih]
      tauto

theorem Linked.link (h : Linked mls) (hi : i ∉ infosOf mls) : Linked (linkIRQInfo m i mls) := by
  induction mls with
  | nil => exact ⟨List.nodup_singleton m, by simp [linkIRQInfo_nil], List.nodup_singleton i⟩
  | cons ml mls ih =>
    obtain ⟨hrest, hne, hlist, hnew, hapart⟩ := linked_cons.mp h
    rw [infosOf_cons, List.mem_append, not_or] at hi
    rw [linkIRQInfo_cons]
    split
    · refine linked_cons.mpr ⟨hrest, by simp, ?_, hnew, fun j hj => ?_⟩
      · exact List.nodup_append.mpr ⟨hlist, List.nodup_singleton i, by
          intro a ha b hb heq
          rw [List.mem_singleton] at hb
          exact hi.1 (hb ▸ heq ▸ ha)⟩
      · rcases List.mem_append.mp hj with hj | hj
        · exact hapart j hj
        · exact (List.mem_singleton.mp hj) ▸ hi.2
    · rename_i hm
      refine linked_cons.mpr ⟨ih hrest hi.2, hne, hlist, fun hmem => ?_, fun j hj hmem => ?_⟩
      · exact ((modules_link _).mp hmem).elim hm hnew
      · rcases mem_infosOf_link.mp hmem with rfl | hmem
        · exact hi.1 hj
        · exact hapart j hj hmem

/-- What was linked last is unlinked without a trace. -/
theorem unlink_link (h : Linked mls) (hi : i ∉ infosOf mls) :
    unlinkIRQInfo m i (linkIRQInfo m i mls) = mls := by
  induction mls with
  | nil => simp [linkIRQInfo_nil, unlinkIRQInfo_cons]
  | cons ml mls ih =>
    obtain ⟨hrest, hne, -, -, -⟩ := linked_cons.mp h
    rw [infosOf_cons, List.mem_append, not_or] at hi
    rw [linkIRQInfo_cons]
    split
    · rename_i hm
      have herase : (ml.irqList ++ [i]).erase i = ml.irqList := by
        rw [List.erase_append_right _ hi.1]
        simp
      rw [unlinkIRQInfo_cons]
      rw [if_pos hm, herase, if_neg hne]
    · rename_i hm
      rw [unlinkIRQInfo_cons]
      rw [if_neg hm, ih hrest hi.2]

theorem infosOf_unlink (h : Linked mls) (hi : i ∈ irqListOf m mls) :
    infosOf (unlinkIRQInfo m i mls) = (infosOf mls).erase i := by
  induction mls with
  | nil => cases hi
  | cons ml mls ih =>
    obtain ⟨hrest, -, -, -, hapart⟩ := linked_cons.mp h
    rw [irqListOf_cons] at hi
    rw [unlinkIRQInfo_cons]
    split
    · rename_i hm
      rw [if_pos hm] at hi
      rw [infosOf_cons, List.erase_append_left _ hi]
      split
      · rename_i hnil
        rw [hnil, List.nil_append]
      · rfl
    · rename_i hm
      rw [if_neg hm] at hi
      have hnot : i ∉ ml.irqList := fun hmem =>
        hapart i hmem (mem_infosOf_of_mem_irqListOf hi)
      rw [infosOf_cons, infosOf_cons, ih hrest hi, List.erase_append_right _ hnot]

theorem unlink_sublist : (unlinkIRQInfo m i mls).map ModuleIRQList.moduleID |>.Sublist
    (mls.map ModuleIRQList.moduleID) := by
  induction mls with
  | nil => exact List.Sublist.refl _
  | cons ml mls ih =>
    rw [unlinkIRQInfo_cons]
    split
    · split
      · exact List.sublist_cons_self _ _
      · exact List.Sublist.refl _
    · exact ih.cons_cons _

theorem Linked.unlink (h : Linked mls) (hi : i ∈ irqListOf m mls) :
    Linked (unlinkIRQInfo m i mls) := by
  refine ⟨h.modules.sublist unlink_sublist, ?_, infosOf_unlink h hi ▸ h.nodup.erase i⟩
  have hnonempty := h.nonempty
  clear h hi
  induction mls with
  | nil => exact hnonempty
  | cons ml mls ih =>
    rw [unlinkIRQInfo_cons]
    have hrest := ih (fun l hl => hnonempty l (List.mem_cons_of_mem ml hl))
    grind

/-- The other lists stay, and one loses its `IRQInfo`. -/
theorem irqListOf_unlink (h : Linked mls) : irqListOf m' (unlinkIRQInfo m i mls) =
    if m' = m then (irqListOf m mls).erase i else irqListOf m' mls := by
  induction mls with
  | nil => split <;> rfl
  | cons ml mls ih =>
    obtain ⟨hrest, -, -, hnew, -⟩ := linked_cons.mp h
    have hnil : irqListOf ml.moduleID mls = [] := irqListOf_eq_nil hnew
    have ih' := ih hrest
    grind [unlinkIRQInfo_cons, irqListOf_cons]

end Lists

/-! ### Calls that leave the table -/

/-- No `IRQInfo` is linked, unlinked or freed; one may get its device. -/
structure SameTable (s s' : State) : Prop where
  irqMappings : s'.irqMappings = s.irqMappings
  nextInfo : s'.nextInfo = s.nextInfo
  freedInfos : s'.freedInfos = s.freedInfos
  handlers : s'.handlers = s.handlers
  requests : s'.requests = s.requests
  info : ∀ i, (s'.info i).irq = (s.info i).irq ∧ (s'.info i).deviceID = (s.info i).deviceID ∧
    (s'.info i).moduleID = (s.info i).moduleID

section Same

variable {s s' s'' : State} {d data moduleID devId : Nat}

theorem SameTable.trans (h : SameTable s s') (h' : SameTable s' s'') : SameTable s s'' := by
  obtain ⟨h₁, h₂, h₃, h₄, h₅, h₆⟩ := h
  obtain ⟨h₁', h₂', h₃', h₄', h₅', h₆'⟩ := h'
  refine ⟨h₁'.trans h₁, h₂'.trans h₂, h₃'.trans h₃, h₄'.trans h₄, h₅'.trans h₅, fun i => ?_⟩
  rw [(h₆' i).1, (h₆' i).2.1, (h₆' i).2.2]
  exact h₆ i

theorem sameTable_of_eq (h₁ : s'.irqMappings = s.irqMappings) (h₂ : s'.nextInfo = s.nextInfo)
    (h₃ : s'.freedInfos = s.freedInfos) (h₄ : s'.handlers = s.handlers)
    (h₅ : s'.requests = s.requests) (h₆ : s'.info = s.info) : SameTable s s' :=
  ⟨h₁, h₂, h₃, h₄, h₅, fun _ => h₆ ▸ ⟨rfl, rfl, rfl⟩⟩

theorem sameTable_hold : SameTable s (s.hold d) := sameTable_of_eq rfl rfl rfl rfl rfl rfl

theorem sameTable_release : SameTable s (releaseDeviceInt d s) := by
  unfold releaseDeviceInt
  split <;> exact sameTable_of_eq rfl rfl rfl rfl rfl rfl

theorem sameTable_findDevice {addIt memory : Bool} :
    SameTable s (findDevice data addIt memory s) := by
  unfold findDevice findDeviceInt
  repeat' split
  all_goals exact sameTable_of_eq rfl rfl rfl rfl rfl rfl

theorem sameTable_releaseDevice : SameTable s (releaseDevice d s) :=
  sameTable_release.trans (sameTable_of_eq rfl rfl rfl rfl rfl rfl)

theorem sameTable_findAndRelease : SameTable s (findAndRelease data s) := by
  unfold findAndRelease
  split
  · exact sameTable_hold.trans sameTable_release
  · exact sameTable_of_eq rfl rfl rfl rfl rfl rfl

theorem info_findAndRelease : (findAndRelease data s).info = s.info := by
  unfold findAndRelease releaseDeviceInt
  repeat' split
  all_goals rfl

theorem sameTable_attach : SameTable s (attachIRQInfo moduleID devId d s) := by
  unfold attachIRQInfo
  split
  · exact sameTable_of_eq rfl rfl rfl rfl rfl rfl
  · refine ⟨rfl, rfl, rfl, rfl, rfl, fun j => ?_⟩
    simp only [State.setInfo]
    split <;> exact ⟨rfl, rfl, rfl⟩

theorem sameTable_registerDevice {r : Registration} : SameTable s (registerDevice r s).1 := by
  have hnew : SameTable s (newDevice r s) := sameTable_of_eq rfl rfl rfl rfl rfl rfl
  unfold registerDevice
  split
  · exact sameTable_of_eq rfl rfl rfl rfl rfl rfl
  split
  · exact sameTable_findAndRelease
  split
  · exact sameTable_of_eq rfl rfl rfl rfl rfl rfl
  split
  · exact (hnew.trans sameTable_attach).trans (sameTable_of_eq rfl rfl rfl rfl rfl rfl)
  · exact (hnew.trans sameTable_attach).trans (sameTable_of_eq rfl rfl rfl rfl rfl rfl)

theorem sameTable_unregisterDevice : SameTable s (unregisterDevice data s).1 := by
  unfold unregisterDevice
  split
  · exact sameTable_of_eq rfl rfl rfl rfl rfl rfl
  · rename_i d _
    have hpurge : SameTable s (purge d (s.hold d)) := sameTable_of_eq rfl rfl rfl rfl rfl rfl
    split
    · exact hpurge.trans sameTable_release
    · refine SameTable.trans ?_ (SameTable.trans sameTable_release
        (sameTable_of_eq rfl rfl rfl rfl rfl rfl))
      exact hpurge.trans (sameTable_of_eq rfl rfl rfl rfl rfl rfl)

end Same

/-! ### `vmklnx_request_irq` and `free_irq` -/

/-- The table is well formed, and no `IRQInfo` in it is freed. -/
structure Tidy (s : State) : Prop where
  linked : Linked s.irqMappings
  fresh : ∀ i ∈ s.infos, i < s.nextInfo ∧ i ∉ s.freedInfos
  freed : ∀ i ∈ s.freedInfos, i < s.nextInfo
  modules : ∀ m, ∀ i ∈ irqListOf m s.irqMappings, (s.info i).moduleID = m

/-- What `AddIRQInfo` asserts: no `IRQInfo` of the module is found for the pair.  Then the one
    that it makes is found, but for an `irq` that stands for any. -/
def State.unmistaken (s : State) (moduleID irq devId : Nat) : Bool :=
  decide (findIRQInfo moduleID irq devId s = none) &&
    (decide (irq ≠ irqDontKnow) || decide (found devId s = none))

section Requests

variable {s s' : State} {irq devId top m i : Nat} {a : Answers}

theorem SameTable.tidy (h : SameTable s s') (hI : Tidy s) : Tidy s' := by
  obtain ⟨hlinked, hfresh, hfreed, hmodules⟩ := hI
  refine ⟨h.irqMappings ▸ hlinked, fun i hi => ?_, ?_, fun m i hi => ?_⟩
  · rw [h.nextInfo, h.freedInfos]
    rw [State.infos, h.irqMappings] at hi
    exact hfresh i hi
  · rw [h.nextInfo, h.freedInfos]
    exact hfreed
  · rw [h.irqMappings] at hi
    rw [(h.info i).2.2]
    exact hmodules m i hi

theorem tidy_nextInfo (hI : Tidy s) : s.nextInfo ∉ s.infos :=
  fun hmem => Nat.lt_irrefl _ (hI.fresh _ hmem).1

theorem mem_of_findIRQInfo (h : findIRQInfo m irq devId s = some i) :
    i ∈ irqListOf m s.irqMappings := List.mem_of_find?_eq_some h

/-- A request that gets an `IRQInfo`. -/
theorem Tidy.add {devInfo : Option Nat} (hI : Tidy s) :
    Tidy (addIRQInfo m irq devId devInfo s) := by
  have hnew := tidy_nextInfo hI
  refine ⟨hI.linked.link hnew, fun i hi => ?_, fun i hi => ?_, fun m' i hi => ?_⟩
  · rcases mem_infosOf_link.mp hi with rfl | hi
    · exact ⟨Nat.lt_succ_self _, fun hmem => Nat.lt_irrefl _ (hI.freed _ hmem)⟩
    · exact ⟨Nat.lt_succ_of_lt (hI.fresh i hi).1, (hI.fresh i hi).2⟩
  · exact Nat.lt_succ_of_lt (hI.freed i hi)
  · simp only [addIRQInfo, State.setInfo, irqListOf_link] at hi ⊢
    have hmodules := hI.modules m' i
    have hmem : i ∈ irqListOf m' s.irqMappings → i ≠ s.nextInfo :=
      fun h heq => hnew (heq ▸ mem_infosOf_of_mem_irqListOf h)
    split at hi
    · rename_i heq
      subst heq
      rcases List.mem_append.mp hi with hi | hi
      · rw [if_neg (hmem hi)]
        exact hmodules hi
      · rw [List.mem_singleton.mp hi, if_pos rfl]
    · rw [if_neg (hmem hi)]
      exact hmodules hi

/-- The `IRQInfo` that was made is found again. -/
theorem findIRQInfo_add (hI : Tidy s) (hok : s.unmistaken m irq devId = true) :
    findIRQInfo m irq devId (addIRQInfo m irq devId (found devId s) s) = some s.nextInfo := by
  have hnew := tidy_nextInfo hI
  simp only [State.unmistaken, Bool.and_eq_true, Bool.or_eq_true, decide_eq_true_eq] at hok
  obtain ⟨hnone, hknown⟩ := hok
  unfold findIRQInfo at hnone ⊢
  have hold : ∀ i ∈ irqListOf m s.irqMappings,
      (addIRQInfo m irq devId (found devId s) s).info i = s.info i := by
    intro i hi
    refine if_neg fun heq => hnew ?_
    rw [← heq]
    exact mem_infosOf_of_mem_irqListOf hi
  have hown : (addIRQInfo m irq devId (found devId s) s).info s.nextInfo =
      ⟨found devId s, devId, irq, m⟩ := if_pos rfl
  have hlist : irqListOf m (addIRQInfo m irq devId (found devId s) s).irqMappings =
      irqListOf m s.irqMappings ++ [s.nextInfo] := by
    simp only [addIRQInfo, irqListOf_link, if_true]
  rw [hlist, List.find?_append]
  have hbefore : (irqListOf m s.irqMappings).find? (fun i =>
      ((addIRQInfo m irq devId (found devId s) s).info i).isFor irq devId) = none := by
    rw [List.find?_eq_none] at hnone ⊢
    intro i hi
    rw [hold i hi]
    exact hnone i hi
  have hself : (⟨found devId s, devId, irq, m⟩ : IRQInfo).isFor irq devId = true := by
    simp only [IRQInfo.isFor]
    grind
  rw [hbefore, List.find?_singleton, hown, hself]
  rfl

/-- `RemoveIRQInfo`, once the `IRQInfo` is known. -/
theorem removeIRQInfo_eq (h : findIRQInfo m irq devId s = some i) :
    removeIRQInfo m irq devId s =
      { s with irqMappings := unlinkIRQInfo m i s.irqMappings } := by
  unfold removeIRQInfo
  rw [h]

theorem findIRQInfo_congr (hmappings : s'.irqMappings = s.irqMappings) (hinfo : s'.info = s.info) :
    findIRQInfo m irq devId s' = findIRQInfo m irq devId s := by
  unfold findIRQInfo
  rw [hmappings, hinfo]

/-- A request whose handler is not installed takes back the `IRQInfo` it has made. -/
theorem requestIrq_of_failed (hI : Tidy s) (hmem : a.memory (moduleOf devId top s) s = true)
    (hanswers : (a.addHandler && a.enable) = false)
    (hok : s.unmistaken (moduleOf devId top s) irq devId = true) :
    requestIrq irq devId top a s =
      ({ addIRQInfo (moduleOf devId top s) irq devId (found devId s) (findAndRelease devId s) with
          irqMappings := s.irqMappings
          freedInfos := s.nextInfo :: s.freedInfos }, false) := by
  have hsame : SameTable s (findAndRelease devId s) := sameTable_findAndRelease
  have hfind : findIRQInfo (moduleOf devId top s) irq devId
      (addIRQInfo (moduleOf devId top s) irq devId (found devId s) (findAndRelease devId s)) =
        some s.nextInfo := by
    rw [← findIRQInfo_add hI hok]
    refine findIRQInfo_congr ?_ ?_
    · simp only [addIRQInfo, hsame.irqMappings, hsame.nextInfo]
    · simp only [addIRQInfo, State.setInfo, info_findAndRelease, hsame.nextInfo]
  have hunlink : unlinkIRQInfo (moduleOf devId top s) s.nextInfo
      (addIRQInfo (moduleOf devId top s) irq devId (found devId s)
        (findAndRelease devId s)).irqMappings = s.irqMappings := by
    simp only [addIRQInfo, hsame.irqMappings, hsame.nextInfo]
    exact unlink_link hI.linked (tidy_nextInfo hI)
  unfold requestIrq
  rw [if_pos hmem, if_neg (by simp [hanswers]), removeIRQInfo_eq hfind, hunlink]

/-- The table after a request: with a new `IRQInfo`, or as before. -/
theorem requestIrq_cases (hI : Tidy s)
    (hok : s.unmistaken (moduleOf devId top s) irq devId = true ∨
      (a.addHandler && a.enable) = true ∨ a.memory (moduleOf devId top s) s = false) :
    requestIrq irq devId top a s =
        ({ addIRQInfo (moduleOf devId top s) irq devId (found devId s)
            (findAndRelease devId s) with
            handlers := (irq, s.nextInfo) :: s.handlers
            requests := ⟨irq, devId, s.nextInfo⟩ :: s.requests }, true) ∨
      requestIrq irq devId top a s =
        ({ addIRQInfo (moduleOf devId top s) irq devId (found devId s)
            (findAndRelease devId s) with
            irqMappings := s.irqMappings
            freedInfos := s.nextInfo :: s.freedInfos }, false) ∨
      requestIrq irq devId top a s = (findAndRelease devId s, false) := by
  cases hmem : a.memory (moduleOf devId top s) s with
  | false =>
    refine .inr (.inr ?_)
    unfold requestIrq
    rw [hmem, if_neg (by simp)]
  | true =>
    cases hanswers : (a.addHandler && a.enable) with
    | true =>
      refine .inl ?_
      unfold requestIrq
      rw [if_pos hmem, if_pos hanswers]
    | false =>
      refine .inr (.inl (requestIrq_of_failed hI hmem hanswers ?_))
      simpa [hmem, hanswers] using hok

theorem Tidy.request (hI : Tidy s)
    (hok : s.unmistaken (moduleOf devId top s) irq devId = true ∨
      (a.addHandler && a.enable) = true ∨ a.memory (moduleOf devId top s) s = false) :
    Tidy (requestIrq irq devId top a s).1 := by
  have hsame : SameTable s (findAndRelease devId s) := sameTable_findAndRelease
  have hfr := hsame.tidy hI
  rcases requestIrq_cases hI hok with heq | heq | heq
  · have hadd : Tidy (addIRQInfo (moduleOf devId top s) irq devId (found devId s)
        (findAndRelease devId s)) := hfr.add
    rw [heq]
    exact ⟨hadd.linked, hadd.fresh, hadd.freed, hadd.modules⟩
  · rw [heq]
    refine ⟨hI.linked, fun i hi => ?_, fun i hi => ?_, fun m i hi => ?_⟩
    · have hlt := (hI.fresh i hi).1
      simp only [addIRQInfo, hsame.nextInfo, List.mem_cons, not_or]
      exact ⟨Nat.lt_succ_of_lt hlt, Nat.ne_of_lt hlt, (hI.fresh i hi).2⟩
    · simp only [addIRQInfo, hsame.nextInfo]
      rcases List.mem_cons.mp hi with rfl | hi
      · exact Nat.lt_succ_self _
      · exact Nat.lt_succ_of_lt (hI.freed i hi)
    · have hlt := (hI.fresh i (mem_infosOf_of_mem_irqListOf hi)).1
      simp only [addIRQInfo, State.setInfo, info_findAndRelease, hsame.nextInfo]
      rw [if_neg (Nat.ne_of_lt hlt)]
      exact hI.modules m i hi
  · rw [heq]
    exact hfr

theorem freeIrq_eq (h : findIRQInfo (moduleOf devId top s) irq devId s = some i) :
    freeIrq irq devId top s =
      { findAndRelease devId s with
        irqMappings := unlinkIRQInfo (moduleOf devId top s) i s.irqMappings
        freedInfos := i :: s.freedInfos
        handlers := s.handlers.erase (irq, i) } := by
  have hsame : SameTable s (findAndRelease devId s) := sameTable_findAndRelease
  have hfind : findIRQInfo (moduleOf devId top s) irq devId (findAndRelease devId s) = some i := by
    rw [findIRQInfo_congr hsame.irqMappings info_findAndRelease, h]
  unfold freeIrq
  rw [h, removeIRQInfo_eq hfind, hsame.irqMappings]

theorem Tidy.free (hI : Tidy s) : Tidy (freeIrq irq devId top s) := by
  have hsame : SameTable s (findAndRelease devId s) := sameTable_findAndRelease
  cases hfind : findIRQInfo (moduleOf devId top s) irq devId s with
  | none =>
    unfold freeIrq
    rw [hfind]
    exact hsame.tidy hI
  | some i =>
    have hi := mem_of_findIRQInfo hfind
    rw [freeIrq_eq hfind]
    refine ⟨hI.linked.unlink hi, fun j hj => ?_, fun j hj => ?_, fun m j hj => ?_⟩
    · simp only [State.infos, infosOf_unlink hI.linked hi, hI.linked.nodup.mem_erase_iff] at hj
      simp only [hsame.nextInfo, List.mem_cons, not_or]
      exact ⟨(hI.fresh j hj.2).1, hj.1, (hI.fresh j hj.2).2⟩
    · simp only [hsame.nextInfo]
      rcases List.mem_cons.mp hj with rfl | hj
      · exact (hI.fresh _ (mem_infosOf_of_mem_irqListOf hi)).1
      · exact hI.freed j hj
    · simp only [irqListOf_unlink hI.linked] at hj
      simp only [info_findAndRelease]
      split at hj
      · rename_i heq
        exact heq ▸ hI.modules _ j (List.mem_of_mem_erase hj)
      · exact hI.modules m j hj

end Requests

/-! ### The map -/

def Request.isFor (irq devId : Nat) (r : Request) : Bool := r.irq = irq && r.devId = devId

/-- A pair is requested once before it is freed, and freed only while it is requested. -/
def promised (s : State) : Call → Bool
  | .requestIrq irq devId _ _ => !s.requests.any (Request.isFor irq devId)
  | .freeIrq irq devId _ => s.requests.any (Request.isFor irq devId)
  | _ => true

/-- Linux_RegisterDevice gets to the allocation of a hash entry, and has no memory for it. -/
def Registration.failsLate (r : Registration) (s : State) : Bool :=
  r.useCount && (found r.data s).isNone && r.devMemory && !r.entryMemory

/-- The request is on the list of the module that its `dev_id` belongs to now, and, without a
    `dev_id`, no `IRQInfo` before it has the same `irq` and no device. -/
def State.freesOwn (s : State) (irq devId top : Nat) (r : Request) : Bool :=
  decide (r.info ∈ irqListOf (moduleOf devId top s) s.irqMappings) &&
    (decide (devId ≠ 0) ||
      ((irqListOf (moduleOf devId top s) s.irqMappings).takeWhile fun i => i ≠ r.info).all
        fun i => decide ((s.info i).irq ≠ irq ∨ (s.info i).deviceInfo ≠ none))

/-- A device is not freed on `deviceList`; a request whose handler is not installed is the only
    one that is found for it; and a pair is freed where it was requested. -/
def orderly (s : State) : Call → Bool
  | .registerDevice r => !r.failsLate s
  | .requestIrq irq devId top a =>
      s.unmistaken (moduleOf devId top s) irq devId || (a.addHandler && a.enable) ||
        !a.memory (moduleOf devId top s) s
  | .freeIrq irq devId top =>
      decide (irq ≠ irqDontKnow) &&
        (s.requests.filter (Request.isFor irq devId)).all (s.freesOwn irq devId top)
  | _ => true

/-- The `IRQInfo`s of the table and the installed handlers are those of the requests. -/
structure Maps (s : State) : Prop where
  tidy : Tidy s
  entry : ∀ i, i ∈ s.infos ↔ ∃ r ∈ s.requests, r.info = i
  request : ∀ r ∈ s.requests, (s.info r.info).irq = r.irq ∧ (s.info r.info).deviceID = r.devId
  pair : ∀ r ∈ s.requests, ∀ r' ∈ s.requests, r.irq = r'.irq → r.devId = r'.devId → r = r'
  handlers : ∀ h, h ∈ s.handlers ↔ ∃ r ∈ s.requests, (r.irq, r.info) = h
  nodup : s.handlers.Nodup

section Map

variable {s s' : State} {irq devId top m i : Nat} {a : Answers} {r : Request}

theorem Request.isFor_iff : r.isFor irq devId = true ↔ r.irq = irq ∧ r.devId = devId := by
  simp [Request.isFor]

theorem Maps.info_inj (hI : Maps s) {r r' : Request} (hr : r ∈ s.requests) (hr' : r' ∈ s.requests)
    (h : r.info = r'.info) : r = r' := by
  obtain ⟨hirq, hdev⟩ := hI.request r hr
  obtain ⟨hirq', hdev'⟩ := hI.request r' hr'
  rw [← h] at hirq' hdev'
  exact hI.pair r hr r' hr' (hirq.symm.trans hirq') (hdev.symm.trans hdev')

theorem SameTable.maps (h : SameTable s s') (hI : Maps s) : Maps s' := by
  refine ⟨h.tidy hI.tidy, fun i => ?_, fun r hr => ?_, ?_, fun p => ?_, ?_⟩
  · rw [State.infos, h.irqMappings, h.requests]
    exact hI.entry i
  · rw [h.requests] at hr
    rw [(h.info r.info).1, (h.info r.info).2.1]
    exact hI.request r hr
  · rw [h.requests]
    exact hI.pair
  · rw [h.handlers, h.requests]
    exact hI.handlers p
  · rw [h.handlers]
    exact hI.nodup

/-- The first element that passes the test is the one that none before it passes. -/
theorem find?_eq_some_of_takeWhile {p : Nat → Bool} {l : List Nat} (hi : i ∈ l) (hp : p i = true)
    (hbefore : ∀ j ∈ l.takeWhile (fun j => j ≠ i), p j = false) : l.find? p = some i := by
  induction l with
  | nil => cases hi
  | cons j l ih =>
    by_cases heq : j = i
    · subst heq
      rw [List.find?_cons_of_pos hp]
    · have hj : p j = false := hbefore j (by simp [heq])
      rw [List.find?_cons_of_neg (by simp [hj])]
      refine ih ((List.mem_cons.mp hi).resolve_left (Ne.symm heq)) (fun k hk => hbefore k ?_)
      rw [List.takeWhile_cons_of_pos (by simpa using heq)]
      exact List.mem_cons_of_mem j hk

/-- `free_irq` finds the `IRQInfo` of the request. -/
theorem findIRQInfo_of_freesOwn (hI : Maps s) (hr : r ∈ s.requests)
    (hfor : r.isFor irq devId = true) (hirq : irq ≠ irqDontKnow)
    (hown : s.freesOwn irq devId top r = true) :
    findIRQInfo (moduleOf devId top s) irq devId s = some r.info := by
  simp only [State.freesOwn, Bool.and_eq_true, Bool.or_eq_true, decide_eq_true_eq,
    List.all_eq_true] at hown
  obtain ⟨hmem, hfirst⟩ := hown
  obtain ⟨hrirq, hrdev⟩ := Request.isFor_iff.mp hfor
  refine find?_eq_some_of_takeWhile hmem ?_ (fun j hj => ?_)
  · obtain ⟨hi, hd⟩ := hI.request r hr
    simp only [IRQInfo.isFor, hi, hd]
    grind
  · have hjmem := (List.takeWhile_sublist _).mem hj
    have hjne : j ≠ r.info := by simpa using List.mem_takeWhile_imp hj
    obtain ⟨r', hr', rfl⟩ := (hI.entry j).mp (mem_infosOf_of_mem_irqListOf hjmem)
    obtain ⟨hi', hd'⟩ := hI.request r' hr'
    have hpair := hI.pair r' hr' r hr
    have hbefore := fun h => hfirst.resolve_left h _ hj
    simp only [IRQInfo.isFor, hi', hd'] at hbefore ⊢
    grind

theorem orderly_requestIrq (hok : orderly s (.requestIrq irq devId top a) = true) :
    s.unmistaken (moduleOf devId top s) irq devId = true ∨
      (a.addHandler && a.enable) = true ∨ a.memory (moduleOf devId top s) s = false := by
  unfold orderly at hok
  rw [Bool.or_eq_true, Bool.or_eq_true, Bool.not_eq_true', or_assoc] at hok
  exact hok

theorem maps_request (hI : Maps s) (hnew : promised s (.requestIrq irq devId top a) = true)
    (hok : orderly s (.requestIrq irq devId top a) = true) :
    Maps (requestIrq irq devId top a s).1 := by
  have hsame : SameTable s (findAndRelease devId s) := sameTable_findAndRelease
  have hok' := orderly_requestIrq hok
  have htidy := hI.tidy.request hok'
  have hfresh := tidy_nextInfo hI.tidy
  have hlt : ∀ r ∈ s.requests, r.info ≠ s.nextInfo := by
    intro r hr heq
    exact hfresh (heq ▸ (hI.entry _).mpr ⟨r, hr, rfl⟩)
  rcases requestIrq_cases hI.tidy hok' with heq | heq | heq
  · rw [heq] at htidy ⊢
    have hpair : ∀ r ∈ s.requests, ¬ (r.irq = irq ∧ r.devId = devId) := by
      intro r hr hfor
      simp only [promised, Bool.not_eq_true', List.any_eq_false] at hnew
      exact hnew r hr (Request.isFor_iff.mpr hfor)
    refine ⟨htidy, fun i => ?_, fun r hr => ?_, ?_, fun h => ?_, ?_⟩
    · simp only [State.infos, addIRQInfo, mem_infosOf_link, hsame.irqMappings, hsame.nextInfo,
        List.mem_cons, exists_eq_or_imp]
      exact or_congr eq_comm (hI.entry i)
    · simp only [addIRQInfo, State.setInfo, hsame.nextInfo, info_findAndRelease]
      rcases List.mem_cons.mp hr with rfl | hr
      · exact ⟨by simp, by simp⟩
      · rw [if_neg (hlt r hr)]
        exact hI.request r hr
    · have hold := hI.pair
      grind
    · simp only [List.mem_cons, exists_eq_or_imp, hI.handlers h]
      exact or_congr_left eq_comm
    · refine List.nodup_cons.mpr ⟨fun hmem => ?_, hI.nodup⟩
      obtain ⟨r, hr, hreq⟩ := (hI.handlers _).mp hmem
      exact hlt r hr (congrArg Prod.snd hreq)
  · rw [heq] at htidy ⊢
    refine ⟨htidy, fun i => ?_, fun r hr => ?_, ?_, fun h => ?_, ?_⟩
    all_goals simp only [State.infos, addIRQInfo, State.setInfo, hsame.nextInfo, hsame.requests,
      hsame.handlers, info_findAndRelease] at *
    · exact hI.entry i
    · rw [if_neg (hlt r hr)]
      exact hI.request r hr
    · exact hI.pair
    · exact hI.handlers h
    · exact hI.nodup
  · rw [heq]
    exact hsame.maps hI

/-- Exactly the request of the pair goes. -/
theorem Maps.free (hI : Maps s) (hr : r ∈ s.requests) (hfor : r.isFor irq devId = true)
    (hfind : findIRQInfo (moduleOf devId top s) irq devId s = some r.info) :
    Maps { freeIrq irq devId top s with
      requests := s.requests.filter fun r => !(r.irq = irq && r.devId = devId) } := by
  have htidy : Tidy (freeIrq irq devId top s) := hI.tidy.free
  have hmem := mem_of_findIRQInfo hfind
  obtain ⟨rfl, rfl⟩ := Request.isFor_iff.mp hfor
  have hrest : ∀ r', r' ∈ s.requests.filter (fun r' => !(r'.irq = r.irq && r'.devId = r.devId)) ↔
      r' ∈ s.requests ∧ r' ≠ r := by
    intro r'
    rw [List.mem_filter, and_congr_right_iff]
    intro hr'
    have hpair := hI.pair r' hr' r hr
    simp only [Bool.not_eq_true', Bool.and_eq_false_iff, decide_eq_false_iff_not]
    grind
  have hinj : ∀ r' ∈ s.requests, r'.info = r.info → r' = r := fun r' hr' => hI.info_inj hr' hr
  rw [freeIrq_eq hfind] at htidy ⊢
  refine ⟨⟨htidy.linked, htidy.fresh, htidy.freed, htidy.modules⟩, fun i => ?_, fun r' hr' => ?_,
    fun r₁ hr₁ r₂ hr₂ => ?_, fun h => ?_, ?_⟩
  · simp only [State.infos, infosOf_unlink hI.tidy.linked hmem, hI.tidy.linked.nodup.mem_erase_iff,
      hrest]
    have hentry := hI.entry i
    grind [State.infos]
  · simp only [info_findAndRelease]
    exact hI.request r' ((hrest r').mp hr').1
  · exact hI.pair r₁ ((hrest r₁).mp hr₁).1 r₂ ((hrest r₂).mp hr₂).1
  · simp only [hI.nodup.mem_erase_iff, hI.handlers h, hrest]
    grind
  · exact hI.nodup.erase _

theorem exists_request (hpromised : promised s (.freeIrq irq devId top) = true)
    (hok : orderly s (.freeIrq irq devId top) = true) :
    ∃ r ∈ s.requests, r.isFor irq devId = true ∧ irq ≠ irqDontKnow ∧
      s.freesOwn irq devId top r = true := by
  simp only [promised, List.any_eq_true] at hpromised
  obtain ⟨r, hr, hfor⟩ := hpromised
  simp only [orderly, Bool.and_eq_true, decide_eq_true_eq, List.all_eq_true] at hok
  exact ⟨r, hr, hfor, hok.1, hok.2 r (List.mem_filter.mpr ⟨hr, hfor⟩)⟩

theorem maps_step {call : Call} (hI : Maps s) (hpromised : promised s call = true)
    (hok : orderly s call = true) (h : step call s = some s') : Maps s' := by
  cases call with
  | registerDevice r =>
    obtain rfl := Option.some.inj h
    exact sameTable_registerDevice.maps hI
  | unregisterDevice data =>
    obtain rfl := Option.some.inj h
    exact sameTable_unregisterDevice.maps hI
  | findDevice data addIt memory =>
    obtain rfl := Option.some.inj h
    exact sameTable_findDevice.maps hI
  | releaseDevice d =>
    simp only [step] at h
    split at h
    · obtain rfl := Option.some.inj h
      exact sameTable_releaseDevice.maps hI
    · cases h
  | requestIrq irq devId top a =>
    obtain rfl := Option.some.inj h
    exact maps_request hI hpromised hok
  | freeIrq irq devId top =>
    obtain rfl := Option.some.inj h
    obtain ⟨r, hr, hfor, hirq, hown⟩ := exists_request hpromised hok
    exact hI.free hr hfor (findIRQInfo_of_freesOwn hI hr hfor hirq hown)

/-- A module's list exists exactly while the table has an `IRQInfo` of the module. -/
theorem Tidy.mem_modules (hI : Tidy s) :
    m ∈ s.irqMappings.map ModuleIRQList.moduleID ↔
      ∃ i ∈ s.infos, (s.info i).moduleID = m := by
  obtain ⟨hlinked, -, -, hmodules⟩ := hI
  unfold State.infos
  have hmodules' : ∀ ml ∈ s.irqMappings, ∀ i ∈ ml.irqList, (s.info i).moduleID = ml.moduleID := by
    generalize s.irqMappings = mls at hlinked hmodules
    induction mls with
    | nil => exact fun ml hml => by cases hml
    | cons ml₀ mls ih =>
      obtain ⟨hrest, -, -, hnew, -⟩ := linked_cons.mp hlinked
      refine List.forall_mem_cons.mpr ⟨fun i hi => hmodules _ i ?_, ih hrest fun m i hi => ?_⟩
      · rwa [irqListOf, if_pos rfl]
      · refine hmodules m i ?_
        have hne : ml₀.moduleID ≠ m := by
          rintro rfl
          rw [irqListOf_eq_nil hnew] at hi
          cases hi
        rwa [irqListOf, if_neg hne]
  simp only [List.mem_map, infosOf, List.mem_flatMap]
  constructor
  · rintro ⟨ml, hml, rfl⟩
    obtain ⟨i, hi⟩ := List.exists_mem_of_ne_nil _ (hlinked.nonempty ml hml)
    exact ⟨i, ⟨ml, hml, hi⟩, hmodules' ml hml i hi⟩
  · rintro ⟨i, ⟨ml, hml, hi⟩, rfl⟩
    exact ⟨ml, hml, (hmodules' ml hml i hi).symm⟩

end Map

/-! ### Whole runs -/

/-- A call that the callers may make, and that meets `orderly`. -/
def proper (s : State) (call : Call) : Bool := promised s call && orderly s call

theorem maps_of_reach {s : State} (h : Reach step (fun s call => proper s call = true) initial s) :
    Maps s := by
  refine h.invariant Maps ⟨⟨⟨?_, ?_, ?_⟩, ?_, ?_, ?_⟩, ?_, ?_, ?_, ?_, ?_⟩
    (fun s call s' hI hok hs => ?_)
  all_goals try simp [initial, State.infos, infosOf, irqListOf]
  simp only [proper, Bool.and_eq_true] at hok
  exact maps_step hI hok.1 hok.2 hs

/-- What the table and the handlers are, what `free_irq` takes out of them, and that a request
    that fails leaves them. -/
structure Refines (s : State) : Prop where
  nodup : s.infos.Nodup ∧ s.handlers.Nodup
  entry : ∀ i, i ∈ s.infos ↔ ∃ r ∈ s.requests, r.info = i
  request : ∀ r ∈ s.requests, (s.info r.info).irq = r.irq ∧ (s.info r.info).deviceID = r.devId
  handlers : ∀ h, h ∈ s.handlers ↔ ∃ r ∈ s.requests, (r.irq, r.info) = h
  modules : ∀ m, m ∈ s.irqMappings.map ModuleIRQList.moduleID ↔
    ∃ i ∈ s.infos, (s.info i).moduleID = m
  freed : ∀ irq devId top, proper s (.freeIrq irq devId top) = true →
    ∃ r ∈ s.requests, (r.irq = irq ∧ r.devId = devId) ∧
      (freeIrq irq devId top s).infos = s.infos.erase r.info ∧
      (freeIrq irq devId top s).handlers = s.handlers.erase (irq, r.info)
  failed : ∀ irq devId top a, proper s (.requestIrq irq devId top a) = true →
    (requestIrq irq devId top a s).2 = false →
      (requestIrq irq devId top a s).1.irqMappings = s.irqMappings ∧
      (requestIrq irq devId top a s).1.handlers = s.handlers

/-- **The table is the map of the requests**, where the calls are orderly. -/
theorem table_refines_map {s : State}
    (h : Reach step (fun s call => proper s call = true) initial s) : Refines s := by
  have hI := maps_of_reach h
  refine ⟨⟨hI.tidy.linked.nodup, hI.nodup⟩, hI.entry, hI.request, hI.handlers,
    fun m => hI.tidy.mem_modules, fun irq devId top hproper => ?_,
    fun irq devId top a hproper hfail => ?_⟩
  · simp only [proper, Bool.and_eq_true] at hproper
    obtain ⟨r, hr, hfor, hirq, hown⟩ := exists_request hproper.1 hproper.2
    have hfind := findIRQInfo_of_freesOwn hI hr hfor hirq hown
    refine ⟨r, hr, Request.isFor_iff.mp hfor, ?_, ?_⟩
    · rw [freeIrq_eq hfind]
      exact infosOf_unlink hI.tidy.linked (mem_of_findIRQInfo hfind)
    · rw [freeIrq_eq hfind]
  · have hsame : SameTable s (findAndRelease devId s) := sameTable_findAndRelease
    simp only [proper, Bool.and_eq_true] at hproper
    rcases requestIrq_cases hI.tidy (orderly_requestIrq hproper.2) with heq | heq | heq
    · rw [heq] at hfail
      cases hfail
    · rw [heq]
      exact ⟨rfl, hsame.handlers⟩
    · rw [heq]
      exact ⟨hsame.irqMappings, hsame.handlers⟩

/-- Two handlers on one vector, one without a `dev_id`, over the registration of the other. -/
theorem table_refines_map_shared :
    ∃ s, Reach step (fun s call => proper s call = true) initial s ∧
      (s.infos, s.handlers) = ([1], [(5, 1)]) ∧ Refines s := by
  obtain ⟨s, hs, ho⟩ := exists_reach_of_runIf step proper
    [.requestIrq 5 100 1 {}, .registerDevice { data := 100, dataLength := 8, moduleID := 1 },
      .requestIrq 5 0 1 {}, .requestIrq 6 104 1 { enable := false }, .freeIrq 5 100 2] initial
    (fun s => (s.infos, s.handlers)) ([1], [(5, 1)]) (by decide)
  exact ⟨s, hs, ho, table_refines_map hs⟩

/-- Without a `dev_id`, the handler of another device is taken out, by `free_irq` or by a request
    that fails; and a device that was registered since is looked up under another module. -/
theorem table_mistakes_entries :
    (∃ s, Reach step (fun s call => promised s call = true) initial s ∧
      (s.infos, s.handlers, s.requests) = ([1], [(5, 1)], [⟨5, 100, 0⟩])) ∧
    (∃ s, Reach step (fun s call => promised s call = true) initial s ∧
      (s.infos, s.freedInfos, s.handlers, s.requests) = ([1], [1], [(5, 0)], [⟨5, 100, 0⟩])) ∧
    ∃ s, Reach step (fun s call => promised s call = true) initial s ∧
      (s.infos, s.handlers, s.requests) = ([0], [(5, 0)], []) := by
  refine ⟨?_, ?_, ?_⟩
  · exact exists_reach_of_runIf step promised
      [.requestIrq 5 100 1 {}, .requestIrq 5 0 1 {}, .freeIrq 5 0 1] initial _ _
      (by decide)
  · exact exists_reach_of_runIf step promised
      [.requestIrq 5 100 1 {}, .requestIrq 5 0 1 { addHandler := false }] initial _ _
      (by decide)
  · exact exists_reach_of_runIf step promised
      [.requestIrq 5 100 1 {}, .registerDevice { data := 100, dataLength := 8, moduleID := 2 },
        .freeIrq 5 100 1] initial _ _ (by decide)

end VmkLinux.Irq
