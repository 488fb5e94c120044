/-
  VmkLinux/Scsi/FcChanges.lean
  ============================
  **What a step can do to the target id bindings.**  Of a port they need its name, its state, its
  id, whether it is live and whether the driver has it (`Port`); of the calls, which name they
  are adding and which port is in their hands (`Role`).  `Change` says what a step can do to
  these, `step_change` and `enter_change` that it does nothing else.
-/
import VmkLinux.Scsi.FcModel

namespace VmkLinux.Scsi.Fc

open VmkLinux.Interleave

/-! ### What the bindings depend on -/

structure Port where
  key : Key
  state : PortState
  targetId : Option Nat
  live : Bool
  hands : Bool

def Rport.port (p : Rport) : Port := ⟨p.key, p.state, p.targetId, p.live, p.hands⟩

structure View where
  rports : List Nat
  bindings : List Nat
  nextRport : Nat
  nextTargetId : Nat
  adding : List Key
  port : Nat → Port

def Shared.view (s : Shared) : View :=
  ⟨s.rports, s.bindings, s.nextRport, s.nextTargetId, s.adding, fun r => (s.rport r).port⟩

def View.setPort (v : View) (r : Nat) (p : Port) : View :=
  { v with port := fun e => if e = r then p else v.port e }

/-- The name that a call is adding, and the port that it has in hand. -/
inductive Role where
  | search (k : Key)
  | create (k : Key)
  | device (k : Key) (r : Nat)
  | result (k : Key) (r : Nat)
  | owner (r : Nat)
  | other
deriving DecidableEq, Repr

def Thread.role (t : Thread) : Role :=
  match t.pc with
  | .addTest | .addFlush | .addFlushWait | .addSearch => .search t.key
  | .addCreate => .create t.key
  | .addDevice => .device t.key t.rport
  | .addRestart | .addScanFlag | .addScanInc | .addScanQueue | .addReturn => .result t.key t.rport
  | .cancelFail | .cancelFailFlush | .cancelFailWait | .cancelLoss | .cancelLossFlush
  | .cancelLossWait => if t.caller = .add then .result t.key t.rport else .other
  | .delTest | .delSection => .owner t.rport
  | _ => .other

/-- What a step can do. -/
inductive Change : View → Role → View → Role → Prop
  | same (v : View) (ρ : Role) : Change v ρ v ρ
  | begin (v : View) (k : Key) (hnew : k ∉ v.adding)
      (hoff : ∀ r ∈ v.rports, (v.port r).key = k → (v.port r).state ≠ .online) :
      Change v .other { v with adding := k :: v.adding } (.search k)
  | quit (v : View) (ρ : Role) (k : Key) (hρ : ρ = .search k ∨ ρ = .create k) :
      Change v ρ { v with adding := v.adding.erase k } .other
  | found (v : View) (k : Key) (r : Nat) (hr : r ∈ v.rports)
      (hstate : (v.port r).state = .blocked) (hkey : (v.port r).key = k) :
      Change v (.search k) (v.setPort r { v.port r with state := .online }) (.result k r)
  | rebind (v : View) (k : Key) (r : Nat) (hr : r ∈ v.bindings) (hkey : (v.port r).key = k) :
      Change v (.search k)
        ({ v with rports := v.rports ++ [r], bindings := v.bindings.erase r }.setPort r
          { v.port r with state := .online }) (.result k r)
  | missing (v : View) (k : Key)
      (hrports : ∀ r ∈ v.rports, (v.port r).key = k → (v.port r).state ≠ .blocked)
      (hbindings : ∀ r ∈ v.bindings, (v.port r).key ≠ k) : Change v (.search k) v (.create k)
  | create (v : View) (k : Key) (target : Bool) :
      Change v (.create k)
        ({ v with
            rports := v.rports ++ [v.nextRport], nextRport := v.nextRport + 1
            nextTargetId := if target then v.nextTargetId + 1 else v.nextTargetId }.setPort
          v.nextRport ⟨k, .online, if target then some v.nextTargetId else none, true, false⟩)
        (.device k v.nextRport)
  | device (v : View) (k : Key) (r : Nat) : Change v (.device k r) v (.result k r)
  | discard (v : View) (k : Key) (r : Nat) :
      Change v (.device k r)
        ({ v with rports := v.rports.erase r, adding := v.adding.erase k }.setPort r
          { v.port r with live := false }) .other
  | hand (v : View) (k : Key) (r : Nat) :
      Change v (.result k r)
        ({ v with adding := v.adding.erase k }.setPort r { v.port r with hands := true }) .other
  | take (v : View) (r : Nat) (hr : (v.port r).hands = true) :
      Change v .other (v.setPort r { v.port r with hands := false }) (.owner r)
  | drop (v : View) (r : Nat) : Change v (.owner r) v .other
  | delete (v : View) (r : Nat) (hid : (v.port r).targetId = none) :
      Change v (.owner r)
        ({ v with rports := v.rports.erase r, bindings := v.bindings.erase r }.setPort r
          { v.port r with state := .deleted }) .other
  | block (v : View) (r : Nat) (hid : (v.port r).targetId ≠ none) :
      Change v (.owner r) (v.setPort r { v.port r with state := .blocked }) .other
  | assign (v : View) (r : Nat) (hr : r < v.nextRport)
      (hid : (v.port r).targetId = none) :
      Change v .other
        ({ v with nextTargetId := v.nextTargetId + 1 }.setPort r
          { v.port r with targetId := some v.nextTargetId }) .other
  | save (v : View) (r : Nat) (hstate : (v.port r).state = .blocked) :
      Change v .other
        ({ v with rports := v.rports.erase r, bindings := v.bindings ++ [r] }.setPort r
          { v.port r with state := .notPresent }) .other
  | free (v : View) (r : Nat) (hstate : (v.port r).state = .deleted) :
      Change v .other (v.setPort r { v.port r with live := false }) .other

/-! ### Every step is a change -/

@[simp] theorem View.setPort_port (v : View) (r : Nat) : v.setPort r (v.port r) = v := by
  cases v
  simp only [View.setPort, View.mk.injEq, true_and]
  funext e
  split
  · rename_i h
    rw [h]
  · rfl

/-- A port changes in a field that the bindings do not depend on. -/
theorem view_upd (s : Shared) (r : Nat) (f : Rport → Rport) :
    (s.upd r f).view = s.view.setPort r (f (s.rport r)).port := by
  simp only [Shared.view, Shared.upd, View.setPort, View.mk.injEq, true_and]
  funext e
  split
  · rename_i h
    rw [h]
  · rfl

theorem view_upd_same {s : Shared} {r : Nat} {f : Rport → Rport}
    (h : (f (s.rport r)).port = (s.rport r).port) : (s.upd r f).view = s.view := by
  rw [view_upd, h]
  exact s.view.setPort_port r

theorem view_startScan (s : Shared) (r : Nat) : (s.startScan r).view = s.view := by
  show { (s.upd r fun p => { p with scanPending := true }).view with adding := s.adding } = s.view
  rw [view_upd_same rfl]
  rfl

theorem view_rebind (s : Shared) (r : Nat) (target : Bool) :
    ({ s.upd r fun p => { p with state := .online, target := target } with
        rports := s.rports ++ [r], bindings := s.bindings.erase r } : Shared).view =
      { s.view with
        rports := s.view.rports ++ [r]
        bindings := s.view.bindings.erase r }.setPort r
          { s.view.port r with state := .online } := by
  show { (s.upd r fun p => { p with state := .online, target := target }).view with
    rports := s.rports ++ [r], bindings := s.bindings.erase r } = _
  rw [view_upd]
  rfl

theorem view_create (s : Shared) (k : Key) (target : Bool) :
    ({ s.upd s.nextRport fun _ =>
          { key := k, target := target, state := .online, live := true
            targetId := if target then some s.nextTargetId else none } with
        rports := s.rports ++ [s.nextRport]
        nextRport := s.nextRport + 1
        nextTargetId := if target then s.nextTargetId + 1 else s.nextTargetId } : Shared).view =
      { s.view with
        rports := s.view.rports ++ [s.view.nextRport], nextRport := s.view.nextRport + 1
        nextTargetId := if target then s.view.nextTargetId + 1 else s.view.nextTargetId }.setPort
          s.view.nextRport
          ⟨k, .online, if target then some s.view.nextTargetId else none, true, false⟩ := by
  show { (s.upd s.nextRport fun _ =>
      { key := k, target := target, state := .online, live := true
        targetId := if target then some s.nextTargetId else none }).view with
    rports := s.rports ++ [s.nextRport], nextRport := s.nextRport + 1
    nextTargetId := if target then s.nextTargetId + 1 else s.nextTargetId } = _
  rw [view_upd]
  rfl

theorem view_discard (s : Shared) (k : Key) (r : Nat) :
    (({ s.upd r fun p => { p with live := false } with
        rports := s.rports.erase r } : Shared).endAdd k).view =
      { s.view with
        rports := s.view.rports.erase r, adding := s.view.adding.erase k }.setPort r
          { s.view.port r with live := false } := by
  show { (s.upd r fun p => { p with live := false }).view with
    rports := s.rports.erase r, adding := s.adding.erase k } = _
  rw [view_upd]
  rfl

theorem view_hand (s : Shared) (k : Key) (r : Nat) (target : Bool) :
    ((s.upd r fun p => { p with hands := true, up := target }).endAdd k).view =
      { s.view with adding := s.view.adding.erase k }.setPort r
          { s.view.port r with hands := true } := by
  show { (s.upd r fun p => { p with hands := true, up := target }).view with
    adding := s.adding.erase k } = _
  rw [view_upd]
  rfl

theorem view_delete (s : Shared) (r : Nat) :
    (s.delete r).view =
      { s.view with
        rports := s.view.rports.erase r
        bindings := s.view.bindings.erase r }.setPort r
          { s.view.port r with state := .deleted } := by
  show { (s.upd r fun p => { p with state := .deleted, deletes := p.deletes + 1 }).view with
    rports := s.rports.erase r, bindings := s.bindings.erase r } = _
  rw [view_upd]
  rfl

theorem view_save (s : Shared) (r : Nat) :
    ({ s.upd r fun p =>
          { p with devlossPending := false, target := false, state := .notPresent } with
        rports := s.rports.erase r
        bindings := s.bindings ++ [r] } : Shared).view =
      { s.view with
        rports := s.view.rports.erase r
        bindings := s.view.bindings ++ [r] }.setPort r
          { s.view.port r with state := .notPresent } := by
  show { (s.upd r fun p =>
      { p with devlossPending := false, target := false, state := .notPresent }).view with
    rports := s.rports.erase r, bindings := s.bindings ++ [r] } = _
  rw [view_upd]
  rfl

theorem view_assign (s : Shared) (r : Nat) :
    ({ s.upd r fun p => { p with target := true, targetId := some s.nextTargetId } with
        nextTargetId := s.nextTargetId + 1 } : Shared).view =
      { s.view with nextTargetId := s.view.nextTargetId + 1 }.setPort r
          { s.view.port r with targetId := some s.view.nextTargetId } := by
  show { (s.upd r fun p => { p with target := true, targetId := some s.nextTargetId }).view with
    nextTargetId := s.nextTargetId + 1 } = _
  rw [view_upd]
  rfl

section Step

variable {a : Choice} {s s' : Shared} {t t' : Thread}

theorem search_change (hpc : t.pc = .addSearch) (h : stepAdd a s t = some (s', t')) :
    Change s.view t.role s'.view t'.role := by
  simp only [stepAdd, hpc] at h
  have hrole : t.role = .search t.key := by simp only [Thread.role, hpc]
  rw [hrole]
  split at h
  · rename_i r hfind
    simp only [Option.some.injEq, Prod.mk.injEq] at h
    obtain ⟨rfl, rfl⟩ := h
    obtain ⟨hmem, hstate, hkey⟩ := Shared.mem_of_findBlocked hfind
    have hnew : ({ t with
        pc := if t.target then .cancelFail else .addReturn, rport := r,
        caller := .add } : Thread).role = .result t.key r := by
      cases t.target <;> simp [Thread.role]
    rw [hnew, view_upd]
    exact .found s.view t.key r hmem hstate hkey
  · rename_i hblocked
    split at h
    · rename_i r hfind
      simp only [Option.some.injEq, Prod.mk.injEq] at h
      obtain ⟨rfl, rfl⟩ := h
      obtain ⟨hmem, hkey⟩ := Shared.mem_of_findBinding hfind
      simp only [Thread.role]
      have hchange := Change.rebind s.view t.key r hmem hkey
      rw [← view_rebind s r t.target] at hchange
      split
      · rw [view_startScan]
        exact hchange
      · exact hchange
    · rename_i hbinding
      simp only [Option.some.injEq, Prod.mk.injEq] at h
      obtain ⟨rfl, rfl⟩ := h
      simp only [Thread.role]
      refine .missing s.view t.key (fun r hr hkey hstate => ?_) (fun r hr hkey => ?_)
      · have hno := List.find?_eq_none.mp hblocked r hr
        simp only [decide_eq_true_eq, not_and] at hno
        exact hno hstate hkey
      · have hno := List.find?_eq_none.mp hbinding r hr
        simp only [decide_eq_true_eq] at hno
        exact hno hkey

theorem stepAdd_change (h : stepAdd a s t = some (s', t')) :
    Change s.view t.role s'.view t'.role := by
  have hstep := h
  unfold stepAdd at h
  cases hpc : t.pc
  all_goals simp only [hpc, reduceCtorEq] at h
  case addTest =>
    split at h
    all_goals simp only [Option.some.injEq, Prod.mk.injEq] at h
    all_goals obtain ⟨rfl, rfl⟩ := h
    all_goals simp only [Thread.role, hpc]
    · exact .quit _ _ _ (.inl rfl)
    · exact .same _ _
  case addFlush =>
    simp only [Option.some.injEq, Prod.mk.injEq] at h
    obtain ⟨rfl, rfl⟩ := h
    simp only [Thread.role, hpc]
    exact .same _ _
  case addFlushWait =>
    split at h
    · simp only [Option.some.injEq, Prod.mk.injEq] at h
      obtain ⟨rfl, rfl⟩ := h
      simp only [Thread.role, hpc]
      exact .same _ _
    · cases h
  case addSearch => exact search_change hpc hstep
  case addRestart =>
    simp only [Option.some.injEq, Prod.mk.injEq] at h
    obtain ⟨rfl, rfl⟩ := h
    simp only [Thread.role, hpc]
    rw [view_startScan, view_upd_same rfl]
    exact .same _ _
  case addCreate =>
    split at h
    all_goals simp only [Option.some.injEq, Prod.mk.injEq] at h
    all_goals obtain ⟨rfl, rfl⟩ := h
    all_goals simp only [Thread.role, hpc]
    · exact .quit _ _ _ (.inr rfl)
    · have hchange := Change.create s.view t.key t.target
      rw [← view_create] at hchange
      exact hchange
  case addDevice =>
    split at h
    · simp only [Option.some.injEq, Prod.mk.injEq] at h
      obtain ⟨rfl, rfl⟩ := h
      simp only [Thread.role, hpc]
      have hchange := Change.discard s.view t.key t.rport
      rw [← view_discard] at hchange
      exact hchange
    · split at h
      all_goals simp only [Option.some.injEq, Prod.mk.injEq] at h
      all_goals obtain ⟨rfl, rfl⟩ := h
      all_goals simp only [Thread.role, hpc]
      all_goals exact .device _ _ _
  case addScanFlag =>
    simp only [Option.some.injEq, Prod.mk.injEq] at h
    obtain ⟨rfl, rfl⟩ := h
    simp only [Thread.role, hpc]
    rw [view_upd_same rfl]
    exact .same _ _
  case addScanInc =>
    simp only [Option.some.injEq, Prod.mk.injEq] at h
    obtain ⟨rfl, rfl⟩ := h
    simp only [Thread.role, hpc]
    exact .same _ _
  case addScanQueue =>
    simp only [Option.some.injEq, Prod.mk.injEq] at h
    obtain ⟨rfl, rfl⟩ := h
    simp only [Thread.role, hpc]
    exact .same _ _
  case addReturn =>
    simp only [Option.some.injEq, Prod.mk.injEq] at h
    obtain ⟨rfl, rfl⟩ := h
    simp only [Thread.role, hpc]
    have hchange := Change.hand s.view t.key t.rport
    rw [← view_hand s t.key t.rport t.target] at hchange
    exact hchange

theorem stepDelete_change (h : stepDelete a s t = some (s', t')) :
    Change s.view t.role s'.view t'.role := by
  unfold stepDelete at h
  cases hpc : t.pc
  all_goals simp only [hpc, reduceCtorEq] at h
  all_goals repeat' split at h
  all_goals simp only [Option.some.injEq, Prod.mk.injEq] at h
  all_goals obtain ⟨rfl, rfl⟩ := h
  all_goals simp only [Thread.role, hpc]
  case delTest.isTrue => exact .drop _ _
  case delSection.isTrue hid =>
    rw [view_delete]
    exact .delete s.view t.rport hid
  case delSection.isFalse hid =>
    rw [view_upd]
    exact .block s.view t.rport hid
  all_goals first
    | exact .same _ _
    | (rw [view_upd_same rfl]; exact .same _ _)

theorem stepRolechg_change (known : t.pc = .roleSection → t.rport < s.nextRport)
    (h : stepRolechg s t = some (s', t')) : Change s.view t.role s'.view t'.role := by
  unfold stepRolechg at h
  cases hpc : t.pc
  all_goals simp only [hpc, reduceCtorEq] at h
  case roleSection =>
    have hr := known hpc
    repeat' split at h
    all_goals simp only [Option.some.injEq, Prod.mk.injEq] at h
    all_goals obtain ⟨rfl, rfl⟩ := h
    all_goals simp only [Thread.role, hpc, reduceCtorEq, if_false]
    · rename_i hid
      rw [view_assign]
      exact .assign s.view t.rport hr hid.2
    · rw [view_upd_same rfl]
      exact .same _ _
    · rw [Shared.endRolechg, view_upd_same rfl, view_upd_same rfl]
      exact .same _ _
  case roleScan =>
    simp only [Option.some.injEq, Prod.mk.injEq] at h
    obtain ⟨rfl, rfl⟩ := h
    simp only [Thread.role, hpc]
    rw [Shared.endRolechg, view_upd_same rfl, view_startScan]
    exact .same _ _
  all_goals repeat' split at h
  all_goals simp only [Option.some.injEq, Prod.mk.injEq, reduceCtorEq] at h
  all_goals obtain ⟨rfl, rfl⟩ := h
  all_goals simp only [Thread.role, hpc, Shared.endRolechg]
  all_goals first
    | exact .same _ _
    | (rw [view_upd_same rfl]; exact .same _ _)

theorem stepCancel_change (h : stepCancel s t = some (s', t')) :
    Change s.view t.role s'.view t'.role := by
  unfold stepCancel at h
  cases hpc : t.pc
  all_goals simp only [hpc, reduceCtorEq] at h
  all_goals repeat' split at h
  all_goals simp only [Option.some.injEq, Prod.mk.injEq, reduceCtorEq] at h
  all_goals obtain ⟨rfl, rfl⟩ := h
  all_goals cases hcaller : t.caller
  all_goals simp only [Thread.role, hpc, hcaller, Caller.next, reduceCtorEq, if_true, if_false]
  all_goals first
    | exact .same _ _
    | (rw [view_upd_same rfl]; exact .same _ _)

theorem stepTimer_change (h : stepTimer s t = some (s', t')) :
    Change s.view t.role s'.view t'.role := by
  unfold stepTimer at h
  cases hpc : t.pc
  all_goals simp only [hpc, reduceCtorEq] at h
  case tmoSection =>
    repeat' split at h
    all_goals simp only [Option.some.injEq, Prod.mk.injEq] at h
    all_goals obtain ⟨rfl, rfl⟩ := h
    all_goals simp only [Thread.role, hpc]
    · rw [view_upd_same rfl]
      exact .same _ _
    · rw [view_upd_same rfl]
      exact .same _ _
    · rename_i hblocked
      rw [view_save]
      exact .save s.view t.rport (Decidable.not_not.mp hblocked)
  case scanSection =>
    simp only [Option.some.injEq, Prod.mk.injEq] at h
    obtain ⟨rfl, rfl⟩ := h
    simp only [Thread.role, hpc]
    have hview := view_upd_same (s := s) (r := t.rport)
      (f := fun p => { p with scanPending := false }) rfl
    show Change _ _ (s.upd t.rport fun p => { p with scanPending := false }).view _
    rw [hview]
    exact .same _ _
  all_goals simp only [Option.some.injEq, Prod.mk.injEq] at h
  all_goals obtain ⟨rfl, rfl⟩ := h
  all_goals simp only [Thread.role, hpc]
  all_goals exact .same _ _

theorem stepTeardown_change
    (final : t.pc = .fdFree → (s.rport t.rport).state = .deleted)
    (h : stepTeardown s t = some (s', t')) : Change s.view t.role s'.view t'.role := by
  unfold stepTeardown at h
  cases hpc : t.pc
  all_goals simp only [hpc, reduceCtorEq] at h
  case fdFree =>
    simp only [Option.some.injEq, Prod.mk.injEq] at h
    obtain ⟨rfl, rfl⟩ := h
    simp only [Thread.role, hpc]
    show Change _ _ (s.upd t.rport fun p => { p with live := false }).view _
    rw [view_upd]
    exact .free s.view t.rport (final hpc)
  all_goals repeat' split at h
  all_goals simp only [Option.some.injEq, Prod.mk.injEq, reduceCtorEq] at h
  all_goals obtain ⟨rfl, rfl⟩ := h
  all_goals simp only [Thread.role, hpc, reduceCtorEq, if_false]
  all_goals first
    | exact .same _ _
    | (rw [view_upd_same rfl]; exact .same _ _)

theorem stepRemove_change (hpc : t.pc ≠ .rmSection) (h : stepRemove s t = some (s', t')) :
    Change s.view t.role s'.view t'.role := by
  unfold stepRemove at h
  cases hpc' : t.pc
  all_goals simp only [hpc', reduceCtorEq] at h
  case rmSection => exact absurd hpc' hpc
  all_goals repeat' split at h
  all_goals simp only [Option.some.injEq, Prod.mk.injEq, reduceCtorEq] at h
  all_goals obtain ⟨rfl, rfl⟩ := h
  all_goals simp only [Thread.role, hpc']
  all_goals exact .same _ _

/-- Every step but the section of `fc_remove_host` is a change. -/
theorem step_change (hpc : t.pc ≠ .rmSection)
    (known : t.pc = .roleSection → t.rport < s.nextRport)
    (final : t.pc = .fdFree → (s.rport t.rport).state = .deleted)
    (h : step a s t = some (s', t')) : Change s.view t.role s'.view t'.role := by
  rcases step_cases h with h | h | h | h | h | h | h
  · exact stepAdd_change h
  · exact stepDelete_change h
  · exact stepRolechg_change known h
  · exact stepCancel_change h
  · exact stepTimer_change h
  · exact stepTeardown_change final h
  · exact stepRemove_change hpc h

theorem run_role {q q' : Queue} (h : q.run = some (q', t)) : t.role = .other := by
  unfold Queue.run at h
  split at h
  · simp only [Option.some.injEq, Prod.mk.injEq] at h
    obtain ⟨-, rfl⟩ := h
    rename_i e _ _ _
    cases e.kind <;> simp only [Thread.role, Kind.entry]
  · cases h

theorem enter_change {call : Call} (h : enter call s = some (s', t)) :
    Change s.view .other s'.view t.role := by
  cases call with
  | add k target =>
    simp only [enter] at h
    split at h
    · cases h
    · rename_i hguard
      simp only [Option.some.injEq, Prod.mk.injEq] at h
      obtain ⟨rfl, rfl⟩ := h
      refine .begin s.view k (fun hk => hguard (.inl hk)) (fun r hr hkey honline => ?_)
      exact hguard (.inr ⟨r, hr, hkey, honline⟩)
  | delete r =>
    simp only [enter] at h
    split at h
    · rename_i hguard
      simp only [Option.some.injEq, Prod.mk.injEq] at h
      obtain ⟨rfl, rfl⟩ := h
      rw [view_upd]
      exact .take s.view r hguard
    · cases h
  | rolechg r target =>
    simp only [enter] at h
    split at h
    · simp only [Option.some.injEq, Prod.mk.injEq] at h
      obtain ⟨rfl, rfl⟩ := h
      rw [view_upd_same rfl]
      exact .same _ _
    · cases h
  | removeHost =>
    simp only [enter] at h
    split at h
    · cases h
    · simp only [Option.some.injEq, Prod.mk.injEq] at h
      obtain ⟨rfl, rfl⟩ := h
      exact .same _ _
  | fireFailIo r =>
    simp only [enter] at h
    split at h
    · simp only [Option.some.injEq, Prod.mk.injEq] at h
      obtain ⟨rfl, rfl⟩ := h
      show Change _ _ (s.upd r fun p => { p with failIoArmed := false }).view _
      rw [view_upd_same rfl]
      exact .same _ _
    · cases h
  | fireDevLoss r =>
    simp only [enter] at h
    split at h
    · simp only [Option.some.injEq, Prod.mk.injEq] at h
      obtain ⟨rfl, rfl⟩ := h
      show Change _ _ (s.upd r fun p => { p with devLossArmed := false }).view _
      rw [view_upd_same rfl]
      exact .same _ _
    · cases h
  | runWork | runDevloss | runScsi =>
    simp only [enter] at h
    split at h
    · rename_i q t' hrun
      simp only [Option.some.injEq, Prod.mk.injEq] at h
      obtain ⟨rfl, rfl⟩ := h
      rw [run_role hrun]
      exact .same _ _
    · cases h

end Step

end VmkLinux.Scsi.Fc
