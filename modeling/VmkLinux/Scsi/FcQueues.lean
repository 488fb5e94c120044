/-
  VmkLinux/Scsi/FcQueues.lean
  ===========================
  **The work queues of an FC host.**  What a step does to each of the three queues is said once
  (`step_workQ`, `step_devlossQ`, `step_scsiQ`).  Each queue holds items of its own kinds, and
  what is on a queue, on a list or in the hands of a call is a port that was created.
-/
import VmkLinux.Scsi.FcModel

namespace VmkLinux.Scsi.Fc

open VmkLinux.Interleave

/-! ### The three queues -/

inductive QueueName where
  | work
  | devloss
  | scsi
deriving DecidableEq, Repr

def Shared.queue (s : Shared) : QueueName → Queue
  | .work => s.workQ
  | .devloss => s.devlossQ
  | .scsi => s.scsiQ

def Kind.queue : Kind → QueueName
  | .devLoss | .failIo => .devloss
  | .scan => .scsi
  | .stgtDelete | .rportDelete => .work

/-! ### What a step does to the queues -/

/-- The ports of a list are deleted. -/
theorem foldl_delete_queues (l : List Nat) (s : Shared) :
    (l.foldl Shared.delete s).devlossQ = s.devlossQ ∧ (l.foldl Shared.delete s).scsiQ = s.scsiQ ∧
      (l.foldl Shared.delete s).workQ = l.foldl (fun q r => q.push .rportDelete r) s.workQ := by
  induction l generalizing s with
  | nil => exact ⟨rfl, rfl, rfl⟩
  | cons r l ih => exact ih (s.delete r)

theorem foldl_delete_rport (l : List Nat) (s : Shared) (r : Nat) :
    (l.foldl Shared.delete s).rport r =
      if r ∈ l then
        { s.rport r with state := .deleted, deletes := (s.rport r).deletes + l.count r }
      else s.rport r := by
  induction l generalizing s with
  | nil => simp
  | cons r' l ih =>
    rw [List.foldl_cons, ih (s.delete r')]
    simp only [Shared.delete, Shared.upd, List.mem_cons, List.count_cons]
    grind -linarith

theorem foldl_delete_lists (l : List Nat) (s : Shared) :
    (l.foldl Shared.delete s).nextRport = s.nextRport ∧
      (∀ r ∈ (l.foldl Shared.delete s).rports, r ∈ s.rports) ∧
      ∀ r ∈ (l.foldl Shared.delete s).bindings, r ∈ s.bindings := by
  induction l generalizing s with
  | nil => exact ⟨rfl, fun _ h => h, fun _ h => h⟩
  | cons r l ih =>
    obtain ⟨hnext, hrports, hbindings⟩ := ih (s.delete r)
    exact ⟨hnext, fun r' hr' => List.mem_of_mem_erase (hrports r' hr'),
      fun r' hr' => List.mem_of_mem_erase (hbindings r' hr')⟩

section Step

variable {a : Choice} {s s' : Shared} {t t' : Thread}

theorem step_workQ (h : step a s t = some (s', t')) :
    s'.workQ = s.workQ ∨
      (t.pc = .tmoQueue ∧ s'.workQ = s.workQ.push .stgtDelete t.rport) ∨
      (t.pc = .delSection ∧ (s.rport t.rport).targetId = none ∧
        s'.workQ = s.workQ.push .rportDelete t.rport) ∨
      ((t.pc = .sdRemove ∧ t.final = false ∨ t.pc = .fdFree) ∧ s'.workQ = s.workQ.finish) ∨
      (t.pc = .rmSection ∧ s'.workQ =
        (s.rports ++ s.bindings).foldl (fun q r => q.push .rportDelete r) s.workQ) := by
  obtain ⟨_, hpc, hs⟩ := stepped h
  clear h
  cases hs
  all_goals try exact .inl rfl
  all_goals simp [Shared.delete, Shared.upd, foldl_delete_queues, *]

theorem step_devlossQ (h : step a s t = some (s', t')) :
    s'.devlossQ = s.devlossQ ∨
      (t.pc = .delArmFail ∧ s'.devlossQ = s.devlossQ.push .failIo t.rport) ∨
      (t.pc = .delArmLoss ∧ s'.devlossQ = s.devlossQ.push .devLoss t.rport) ∨
      ((t.pc = .tmoQueue ∨ t.pc = .tmoReturn ∨ t.pc = .failReturn) ∧
        s'.devlossQ = s.devlossQ.finish) := by
  obtain ⟨_, hpc, hs⟩ := stepped h
  clear h
  cases hs
  all_goals try exact .inl rfl
  all_goals simp [foldl_delete_queues, *]

theorem step_scsiQ (h : step a s t = some (s', t')) :
    s'.scsiQ = s.scsiQ ∨
      ((t.pc = .addRestart ∨ t.pc = .addScanQueue ∨ t.pc = .roleScan) ∧
        s'.scsiQ = s.scsiQ.push .scan t.rport) ∨
      (∃ r, t.pc = .addSearch ∧ t.target = true ∧ s.findBlocked t.key = none ∧
        s.findBinding t.key = some r ∧ s'.scsiQ = s.scsiQ.push .scan r) ∨
      (t.pc = .scanSection ∧ s'.scsiQ = s.scsiQ.finish) := by
  obtain ⟨_, hpc, hs⟩ := stepped h
  clear h
  cases hs
  all_goals try exact .inl rfl
  all_goals simp [Shared.startScan, Shared.upd, Shared.endRolechg, foldl_delete_queues, *]

theorem run_eq {q q' : Queue} (h : q.run = some (q', t)) :
    ∃ e, q.running = none ∧ q.items = e :: q'.items ∧ q'.running = some e ∧ q'.enq = q.enq ∧
      t = { pc := e.kind.entry, rport := e.rport } := by
  unfold Queue.run at h
  split at h
  · rename_i e rest hrunning hitems
    simp only [Option.some.injEq, Prod.mk.injEq] at h
    obtain ⟨rfl, rfl⟩ := h
    exact ⟨e, hrunning, hitems, rfl, rfl, rfl⟩
  · cases h

theorem enter_workQ {call : Call} (h : enter call s = some (s', t)) :
    s'.workQ = s.workQ ∨ (call = .runWork ∧ s.workQ.run = some (s'.workQ, t)) := by
  cases call
  all_goals simp only [enter] at h
  all_goals split at h
  all_goals simp only [Option.some.injEq, Prod.mk.injEq, reduceCtorEq] at h
  all_goals obtain ⟨rfl, rfl⟩ := h
  all_goals simp [Shared.upd, *]

theorem enter_devlossQ {call : Call} (h : enter call s = some (s', t)) :
    s'.devlossQ = s.devlossQ ∨
      (∃ r, call = .fireFailIo r ∧ (s.rport r).failIoArmed = true ∧
        s'.devlossQ = s.devlossQ.push .failIo r) ∨
      (∃ r, call = .fireDevLoss r ∧ (s.rport r).devLossArmed = true ∧
        s'.devlossQ = s.devlossQ.push .devLoss r) ∨
      (call = .runDevloss ∧ s.devlossQ.run = some (s'.devlossQ, t)) := by
  cases call
  all_goals simp only [enter] at h
  all_goals split at h
  all_goals simp only [Option.some.injEq, Prod.mk.injEq, reduceCtorEq] at h
  all_goals obtain ⟨rfl, rfl⟩ := h
  all_goals simp [Shared.upd, *]

theorem enter_scsiQ {call : Call} (h : enter call s = some (s', t)) :
    s'.scsiQ = s.scsiQ ∨ (call = .runScsi ∧ s.scsiQ.run = some (s'.scsiQ, t)) := by
  cases call
  all_goals simp only [enter] at h
  all_goals split at h
  all_goals simp only [Option.some.injEq, Prod.mk.injEq, reduceCtorEq] at h
  all_goals obtain ⟨rfl, rfl⟩ := h
  all_goals simp [Shared.upd, *]

/-- A call that begins with the function of a work item. -/
theorem enter_item {call : Call} (h : enter call s = some (s', t)) :
    (∃ e ∈ s.workQ.items ++ s.devlossQ.items ++ s.scsiQ.items,
      t = { pc := e.kind.entry, rport := e.rport }) ∨
    t.pc = .addTest ∨ t.pc = .delTest ∨ t.pc = .roleTest ∨ t.pc = .done ∨
      (call = .removeHost ∧ t.pc = .rmFlag) := by
  cases call
  all_goals simp only [enter] at h
  all_goals split at h
  all_goals simp only [Option.some.injEq, Prod.mk.injEq, reduceCtorEq] at h
  all_goals obtain ⟨-, rfl⟩ := h
  case add | delete | rolechg | removeHost | fireFailIo | fireDevLoss => simp
  all_goals
    rename_i hrun
    obtain ⟨e, -, hitems, -, -, rfl⟩ := run_eq hrun
    refine .inl ⟨e, ?_, rfl⟩
    simp [hitems]

end Step

/-! ### Assertions about every entry -/

/-- `P` holds of what executes and of what is on the queue. -/
def Queue.All (q : Queue) (P : Entry → Prop) : Prop := ∀ e ∈ q.entries, P e

theorem Queue.mem_entries {q : Queue} {e : Entry} (h : e ∈ q.items) : e ∈ q.entries :=
  List.mem_append_right _ h

theorem Queue.mem_push {q : Queue} {k : Kind} {r : Nat} {e : Entry}
    (h : e ∈ (q.push k r).entries) : e ∈ q.entries ∨ e = ⟨k, r, q.enq⟩ := by
  unfold Queue.push at h
  split at h
  · exact .inl h
  · simp only [Queue.entries, List.mem_append, List.mem_singleton] at h ⊢
    exact or_assoc.mpr h

theorem Queue.entries_run {q q' : Queue} {t : Thread} (h : q.run = some (q', t)) :
    q'.entries = q.entries := by
  obtain ⟨e, hrunning, hitems, hnew, -⟩ := run_eq h
  simp [Queue.entries, hrunning, hitems, hnew]

namespace Queue.All

variable {q q' : Queue} {P : Entry → Prop}

theorem push (h : q.All P) {k : Kind} {r : Nat} (hnew : P ⟨k, r, q.enq⟩) : (q.push k r).All P := by
  intro e he
  rcases Queue.mem_push he with hold | rfl
  · exact h e hold
  · exact hnew

theorem pushes (h : q.All P) {k : Kind} {l : List Nat} (hnew : ∀ r ∈ l, ∀ n, P ⟨k, r, n⟩) :
    (l.foldl (fun q r => q.push k r) q).All P := by
  induction l generalizing q with
  | nil => exact h
  | cons r l ih =>
    refine ih (h.push (hnew r List.mem_cons_self _)) (fun r' hr' => ?_)
    exact hnew r' (List.mem_cons_of_mem r hr')

theorem finish (h : q.All P) : q.finish.All P := by
  intro e he
  exact h e (Queue.mem_entries he)

theorem run (h : q.All P) {t : Thread} (hrun : q.run = some (q', t)) : q'.All P := by
  intro e he
  exact h e (Queue.entries_run hrun ▸ he)

end Queue.All

section Step

variable {a : Choice} {s s' : Shared} {t t' : Thread} {call : Call} {P : Entry → Prop}

theorem step_workQ_all (hP : s.workQ.All P) (h : step a s t = some (s', t'))
    (hteardown : t.pc = .tmoQueue → P ⟨.stgtDelete, t.rport, s.workQ.enq⟩)
    (hdelete : t.pc = .delSection → (s.rport t.rport).targetId = none →
      P ⟨.rportDelete, t.rport, s.workQ.enq⟩)
    (hremove : t.pc = .rmSection → ∀ r ∈ s.rports ++ s.bindings, ∀ n, P ⟨.rportDelete, r, n⟩) :
    s'.workQ.All P := by
  rcases step_workQ h with hq | ⟨hpc, hq⟩ | ⟨hpc, hid, hq⟩ | ⟨-, hq⟩ | ⟨hpc, hq⟩
  all_goals rw [hq]
  · exact hP
  · exact hP.push (hteardown hpc)
  · exact hP.push (hdelete hpc hid)
  · exact hP.finish
  · exact hP.pushes (hremove hpc)

theorem step_devlossQ_all (hP : s.devlossQ.All P) (h : step a s t = some (s', t'))
    (hfail : t.pc = .delArmFail → P ⟨.failIo, t.rport, s.devlossQ.enq⟩)
    (hloss : t.pc = .delArmLoss → P ⟨.devLoss, t.rport, s.devlossQ.enq⟩) :
    s'.devlossQ.All P := by
  rcases step_devlossQ h with hq | ⟨hpc, hq⟩ | ⟨hpc, hq⟩ | ⟨-, hq⟩
  all_goals rw [hq]
  · exact hP
  · exact hP.push (hfail hpc)
  · exact hP.push (hloss hpc)
  · exact hP.finish

theorem step_scsiQ_all (hP : s.scsiQ.All P) (h : step a s t = some (s', t'))
    (hown : t.pc = .addRestart ∨ t.pc = .addScanQueue ∨ t.pc = .roleScan →
      P ⟨.scan, t.rport, s.scsiQ.enq⟩)
    (hfound : ∀ r, t.pc = .addSearch → s.findBinding t.key = some r →
      P ⟨.scan, r, s.scsiQ.enq⟩) : s'.scsiQ.All P := by
  rcases step_scsiQ h with hq | ⟨hpc, hq⟩ | ⟨r, hpc, -, -, hfind, hq⟩ | ⟨-, hq⟩
  all_goals rw [hq]
  · exact hP
  · exact hP.push (hown hpc)
  · exact hP.push (hfound r hpc hfind)
  · exact hP.finish

theorem enter_workQ_all (hP : s.workQ.All P) (h : enter call s = some (s', t)) :
    s'.workQ.All P := by
  rcases enter_workQ h with hq | ⟨-, hq⟩
  · exact hq ▸ hP
  · exact hP.run hq

theorem enter_devlossQ_all (hP : s.devlossQ.All P) (h : enter call s = some (s', t))
    (hfail : ∀ r, (s.rport r).failIoArmed = true → P ⟨.failIo, r, s.devlossQ.enq⟩)
    (hloss : ∀ r, (s.rport r).devLossArmed = true → P ⟨.devLoss, r, s.devlossQ.enq⟩) :
    s'.devlossQ.All P := by
  rcases enter_devlossQ h with hq | ⟨r, -, harmed, hq⟩ | ⟨r, -, harmed, hq⟩ | ⟨-, hq⟩
  · exact hq ▸ hP
  · exact hq ▸ hP.push (hfail r harmed)
  · exact hq ▸ hP.push (hloss r harmed)
  · exact hP.run hq

theorem enter_scsiQ_all (hP : s.scsiQ.All P) (h : enter call s = some (s', t)) :
    s'.scsiQ.All P := by
  rcases enter_scsiQ h with hq | ⟨-, hq⟩
  · exact hq ▸ hP
  · exact hP.run hq

end Step

/-! ### Kinds -/

/-- Each queue has items of its own kinds only. -/
def Kinds (s : Shared) : Prop := ∀ n, (s.queue n).All fun e => e.kind.queue = n

theorem reachable_kinds {c : Config Shared Thread} (h : machine.Reachable initial c) :
    Kinds c.shared := by
  refine Machine.Reach.invariant (fun c => Kinds c.shared) ?_ ?_ ?_ h
  · intro n e he
    cases n <;> cases he
  · intro c call s t _ hI _ hs n
    cases n with
    | work => exact enter_workQ_all (hI .work) hs
    | devloss => exact enter_devlossQ_all (hI .devloss) hs (fun _ _ => rfl) (fun _ _ => rfl)
    | scsi => exact enter_scsiQ_all (hI .scsi) hs
  · intro c i a t s t' _ hI _ _ hs n
    cases n with
    | work =>
      exact step_workQ_all (hI .work) hs (fun _ => rfl) (fun _ _ => rfl) (fun _ _ _ _ => rfl)
    | devloss => exact step_devlossQ_all (hI .devloss) hs (fun _ => rfl) (fun _ => rfl)
    | scsi => exact step_scsiQ_all (hI .scsi) hs (fun _ => rfl) (fun _ _ _ => rfl)

/-! ### What is named was created -/

/-- The call has a port. -/
def Thread.names (t : Thread) : Bool :=
  match t.pc with
  | .addTest | .addFlush | .addFlushWait | .addSearch | .addCreate | .done => false
  | .rmFlag | .rmSection | .rmFlushDevloss | .rmWaitDevloss | .rmFlushWork | .rmWaitWork
  | .rmFlushScsi | .rmWaitScsi => false
  | _ => true

structure Known (s : Shared) : Prop where
  listed : ∀ r, r ∈ s.rports ∨ r ∈ s.bindings → r < s.nextRport
  ports : ∀ r, (s.rport r).hands = true ∨ (s.rport r).devLossArmed = true ∨
    (s.rport r).failIoArmed = true → r < s.nextRport
  work : s.workQ.All fun e => e.rport < s.nextRport
  devloss : s.devlossQ.All fun e => e.rport < s.nextRport
  scsi : s.scsiQ.All fun e => e.rport < s.nextRport

section Step

variable {a : Choice} {s s' : Shared} {t t' : Thread}

/-- The port of a call is listed when the call finds it, or is new. -/
theorem step_rport (h : step a s t = some (s', t')) (hnames : t'.names = true) :
    (t.names = true ∧ t'.rport = t.rport) ∨ t'.rport ∈ s.rports ∨ t'.rport ∈ s.bindings ∨
      t'.rport < s'.nextRport := by
  obtain ⟨_, hpc, hs⟩ := stepped h
  clear h
  cases hs
  all_goals try exact absurd hnames Bool.false_ne_true
  case addSearch_cancel r hfind _ | addSearch_blocked r hfind _ =>
    exact .inr (.inl (Shared.mem_of_findBlocked hfind).1)
  case addSearch_binding r _ hfind _ | addSearch_target r _ hfind _ =>
    exact .inr (.inr (.inl (Shared.mem_of_findBinding hfind).1))
  case addCreate_target | addCreate => exact .inr (.inr (.inr (Nat.lt_succ_self _)))
  all_goals exact .inl ⟨by rw [Thread.names, hpc], rfl⟩

theorem step_nextRport (h : step a s t = some (s', t')) : s.nextRport ≤ s'.nextRport := by
  obtain ⟨_, hpc, hs⟩ := stepped h
  clear h
  cases hs
  case rmSection => exact Nat.le_of_eq (foldl_delete_lists _ s).1.symm
  case addCreate_target | addCreate => exact Nat.le_succ _
  all_goals exact Nat.le_refl _

theorem step_listed (h : step a s t = some (s', t')) {r : Nat}
    (hr : r ∈ s'.rports ∨ r ∈ s'.bindings) :
    r ∈ s.rports ∨ r ∈ s.bindings ∨ (t.names = true ∧ r = t.rport) ∨ r < s'.nextRport := by
  obtain ⟨_, hpc, hs⟩ := stepped h
  clear h
  cases hs
  all_goals try exact hr.imp_right .inl
  all_goals simp only [Thread.names, hpc, Shared.upd, Shared.startScan, Shared.delete,
    Shared.endAdd] at hr ⊢
  all_goals grind -linarith [→ Shared.mem_of_findBinding, foldl_delete_lists]

theorem step_armed (h : step a s t = some (s', t')) {r : Nat}
    (hr : (s'.rport r).hands = true ∨ (s'.rport r).devLossArmed = true ∨
      (s'.rport r).failIoArmed = true) :
    ((s.rport r).hands = true ∨ (s.rport r).devLossArmed = true ∨
      (s.rport r).failIoArmed = true) ∨ (t.names = true ∧ r = t.rport) := by
  obtain ⟨_, hpc, hs⟩ := stepped h
  clear h
  cases hs
  all_goals try exact .inl hr
  all_goals simp only [Thread.names, hpc, Shared.upd, Shared.startScan, Shared.delete,
    Shared.endAdd, Shared.endRolechg, foldl_delete_rport] at hr ⊢
  all_goals grind -linarith

theorem step_known (hk : Known s) (ht : t.names = true → t.rport < s.nextRport)
    (h : step a s t = some (s', t')) :
    Known s' ∧ (t'.names = true → t'.rport < s'.nextRport) := by
  have hnext := step_nextRport h
  have hname : ∀ pc, t.pc = pc → ({ pc := pc } : Thread).names = true →
      t.rport < s'.nextRport := by
    intro pc hpc hnames
    subst hpc
    exact Nat.lt_of_lt_of_le (ht hnames) hnext
  have hall : ∀ q : Queue, (q.All fun e => e.rport < s.nextRport) →
      q.All fun e => e.rport < s'.nextRport :=
    fun q hq e he => Nat.lt_of_lt_of_le (hq e he) hnext
  refine ⟨⟨fun r hr => ?_, fun r hr => ?_, ?_, ?_, ?_⟩, fun hnames => ?_⟩
  · rcases step_listed h hr with hold | hold | ⟨hnames, rfl⟩ | hlt
    · exact Nat.lt_of_lt_of_le (hk.listed r (.inl hold)) hnext
    · exact Nat.lt_of_lt_of_le (hk.listed r (.inr hold)) hnext
    · exact Nat.lt_of_lt_of_le (ht hnames) hnext
    · exact hlt
  · rcases step_armed h hr with hold | ⟨hnames, rfl⟩
    · exact Nat.lt_of_lt_of_le (hk.ports r hold) hnext
    · exact Nat.lt_of_lt_of_le (ht hnames) hnext
  · refine step_workQ_all (hall _ hk.work) h (fun hpc => hname _ hpc rfl)
      (fun hpc _ => hname _ hpc rfl) (fun _ r hr _ => ?_)
    exact Nat.lt_of_lt_of_le (hk.listed r (List.mem_append.mp hr)) hnext
  · exact step_devlossQ_all (hall _ hk.devloss) h (fun hpc => hname _ hpc rfl)
      (fun hpc => hname _ hpc rfl)
  · refine step_scsiQ_all (hall _ hk.scsi) h (fun hpc => ?_) (fun r _ hfind => ?_)
    · rcases hpc with hpc | hpc | hpc
      all_goals exact hname _ hpc rfl
    · exact Nat.lt_of_lt_of_le (hk.listed r (.inr (Shared.mem_of_findBinding hfind).1)) hnext
  · rcases step_rport h hnames with ⟨hold, hsame⟩ | hmem | hmem | hlt
    · exact hsame ▸ Nat.lt_of_lt_of_le (ht hold) hnext
    · exact Nat.lt_of_lt_of_le (hk.listed _ (.inl hmem)) hnext
    · exact Nat.lt_of_lt_of_le (hk.listed _ (.inr hmem)) hnext
    · exact hlt

theorem enter_ports {call : Call} (h : enter call s = some (s', t)) :
    s'.nextRport = s.nextRport ∧ s'.rports = s.rports ∧ s'.bindings = s.bindings ∧
      (∀ r, (s'.rport r).hands = true ∨ (s'.rport r).devLossArmed = true ∨
          (s'.rport r).failIoArmed = true →
        (s.rport r).hands = true ∨ (s.rport r).devLossArmed = true ∨
          (s.rport r).failIoArmed = true) := by
  cases call
  all_goals simp only [enter] at h
  all_goals split at h
  all_goals simp only [Option.some.injEq, Prod.mk.injEq, reduceCtorEq] at h
  all_goals obtain ⟨rfl, -⟩ := h
  all_goals simp only [Shared.upd, true_and]
  all_goals grind -linarith

theorem enter_rport {call : Call} (hk : Known s) (h : enter call s = some (s', t))
    (hnames : t.names = true) : t.rport < s.nextRport := by
  cases call
  case runWork | runDevloss | runScsi =>
    simp only [enter] at h
    split at h
    · rename_i hrun
      simp only [Option.some.injEq, Prod.mk.injEq] at h
      obtain ⟨-, rfl⟩ := h
      obtain ⟨e, -, hitems, -, -, rfl⟩ := run_eq hrun
      first
        | exact hk.work e (Queue.mem_entries (hitems ▸ List.mem_cons_self))
        | exact hk.devloss e (Queue.mem_entries (hitems ▸ List.mem_cons_self))
        | exact hk.scsi e (Queue.mem_entries (hitems ▸ List.mem_cons_self))
    · cases h
  all_goals simp only [enter] at h
  all_goals split at h
  all_goals simp only [Option.some.injEq, Prod.mk.injEq, reduceCtorEq] at h
  all_goals obtain ⟨-, rfl⟩ := h
  all_goals simp only [Thread.names, Bool.false_eq_true] at hnames
  · rename_i hguard
    exact hk.ports _ (.inl hguard)
  · rename_i hguard
    exact hk.ports _ (.inl hguard)

theorem enter_known {call : Call} (hk : Known s) (h : enter call s = some (s', t)) :
    Known s' ∧ (t.names = true → t.rport < s'.nextRport) := by
  obtain ⟨hnext, hrports, hbindings, hports⟩ := enter_ports h
  refine ⟨⟨?_, fun r hr => ?_, ?_, ?_, ?_⟩, fun hnames => ?_⟩
  all_goals rw [hnext]
  · rw [hrports, hbindings]
    exact hk.listed
  · exact hk.ports r (hports r hr)
  · exact enter_workQ_all hk.work h
  · exact enter_devlossQ_all hk.devloss h (fun r hr => hk.ports r (.inr (.inr hr)))
      (fun r hr => hk.ports r (.inr (.inl hr)))
  · exact enter_scsiQ_all hk.scsi h
  · exact enter_rport hk h hnames

end Step

/-- Everything that a reachable state names was created. -/
theorem reachable_known {c : Config Shared Thread} (h : machine.Reachable initial c) :
    Known c.shared ∧ Each (fun _ t => t.names = true → t.rport < c.shared.nextRport) c.pool := by
  refine Machine.Reach.invariant (fun c => Known c.shared ∧
    Each (fun _ t => t.names = true → t.rport < c.shared.nextRport) c.pool) ?_ ?_ ?_ h
  · refine ⟨⟨?_, ?_, ?_, ?_, ?_⟩, each_nil _⟩
    all_goals simp [initial, Queue.All, Queue.entries, Queue.empty]
  · intro c call s t _ hI _ hs
    obtain ⟨hknown, hnew⟩ := enter_known hI.1 hs
    refine ⟨hknown, hI.2.append (fun i u _ hu hnames => ?_) hnew⟩
    rw [(enter_ports hs).1]
    exact hu hnames
  · intro c i a t s t' _ hI _ hi hs
    obtain ⟨hknown, hnew⟩ := step_known hI.1 (hI.2 i t hi) hs
    refine ⟨hknown, hI.2.set (fun j u _ _ hu hnames => ?_) hnew⟩
    exact Nat.lt_of_lt_of_le (hu hnames) (step_nextRport hs)

/-! ### Who executes an item -/

/-- The kind of the item whose function the thread is in. -/
def Thread.work (t : Thread) : Option Kind :=
  match t.pc with
  | .tmoSection | .tmoQueue | .tmoReturn => some .devLoss
  | .failTest | .failReturn => some .failIo
  | .scanTest | .scanSection => some .scan
  | .sdCallback | .sdTest | .sdClear | .sdRemove =>
      if t.final then some .rportDelete else some .stgtDelete
  | .cancelFail | .cancelFailFlush | .cancelFailWait | .cancelLoss | .cancelLossFlush
  | .cancelLossWait =>
      if t.caller = .stgtDelete then if t.final then some .rportDelete else some .stgtDelete
      else none
  | .fdTest | .fdFlush | .fdFlushWait | .fdTarget | .fdFree => some .rportDelete
  | _ => none

def Thread.worksOn (n : QueueName) (t : Thread) : Nat :=
  if t.work.map Kind.queue = some n then 1 else 0

@[simp] theorem Queue.push_running (q : Queue) (k : Kind) (r : Nat) :
    (q.push k r).running = q.running := by
  unfold Queue.push
  split <;> rfl

@[simp] theorem Queue.pushes_running (l : List Nat) (q : Queue) (k : Kind) :
    (l.foldl (fun q r => q.push k r) q).running = q.running := by
  induction l generalizing q with
  | nil => rfl
  | cons r l ih => simp [ih]

@[simp] theorem Queue.finish_running (q : Queue) : q.finish.running = none := rfl

section Step

variable {a : Choice} {s s' : Shared} {t t' : Thread}

/-- The last step of the function of a work item. -/
def Thread.ends (t : Thread) : Bool :=
  match t.pc with
  | .tmoQueue | .tmoReturn | .failReturn | .scanSection | .fdFree => true
  | .sdRemove => !t.final
  | _ => false

/-- A thread goes on with its item, or is through with it. -/
theorem step_work (h : step a s t = some (s', t')) :
    (t.ends = false → t'.work = t.work ∧ (t.work ≠ none → t'.rport = t.rport)) ∧
      (t.ends = true → t'.work = none) := by
  obtain ⟨_, hpc, hs⟩ := stepped h
  clear h
  cases hs
  case cancelLoss_armed | cancelLossWait =>
    simp only [Thread.ends, Thread.work, hpc]
    cases t.caller <;> simp [Caller.next]
  all_goals simp only [Thread.work, Thread.ends, hpc]
  all_goals grind -linarith

theorem step_running (h : step a s t = some (s', t')) (n : QueueName) :
    (s'.queue n).running =
      if t.ends = true ∧ t.work.map Kind.queue = some n then none else (s.queue n).running := by
  obtain ⟨_, hpc, hs⟩ := stepped h
  clear h
  cases hs
  all_goals simp only [Thread.ends, hpc, Bool.false_eq_true, false_and, if_false]
  all_goals try rfl
  all_goals cases n
  all_goals simp [Shared.queue, Thread.work, Kind.queue, Shared.upd, Shared.startScan,
    Shared.delete, Shared.endRolechg, foldl_delete_queues, *]

theorem ends_work (h : t.ends = true) : ∃ k, t.work = some k := by
  unfold Thread.ends at h
  unfold Thread.work
  split at h
  all_goals simp_all

/-- What a new call does to what the queues execute. -/
theorem enter_queue {call : Call} (h : enter call s = some (s', t)) :
    (t.work = none ∧ ∀ n, (s'.queue n).running = (s.queue n).running) ∨
    ∃ n, (s.queue n).run = some (s'.queue n, t) ∧
      ∀ m, m ≠ n → (s'.queue m).running = (s.queue m).running := by
  cases call
  all_goals simp only [enter] at h
  all_goals split at h
  all_goals simp only [Option.some.injEq, Prod.mk.injEq, reduceCtorEq] at h
  all_goals obtain ⟨rfl, rfl⟩ := h
  case add | delete | rolechg | removeHost | fireFailIo | fireDevLoss =>
    refine .inl ⟨rfl, fun n => ?_⟩
    cases n <;> simp [Shared.queue, Shared.upd]
  · rename_i hrun
    refine .inr ⟨.work, hrun, fun m hm => ?_⟩
    cases m <;> simp [Shared.queue] at hm ⊢
  · rename_i hrun
    refine .inr ⟨.devloss, hrun, fun m hm => ?_⟩
    cases m <;> simp [Shared.queue] at hm ⊢
  · rename_i hrun
    refine .inr ⟨.scsi, hrun, fun m hm => ?_⟩
    cases m <;> simp [Shared.queue] at hm ⊢

theorem entry_work (e : Entry) :
    ({ pc := e.kind.entry, rport := e.rport } : Thread).work = some e.kind := by
  cases hkind : e.kind
  all_goals simp [Thread.work, Kind.entry]

end Step

/-- A thread in the function of a work item is what the world of the queue executes, and
    there is one such thread for each queue that executes something. -/
structure Workers (c : Config Shared Thread) : Prop where
  item : Each (fun _ t => ∀ k, t.work = some k →
    ∃ n, (c.shared.queue k.queue).running = some ⟨k, t.rport, n⟩) c.pool
  one : ∀ n, total (Thread.worksOn n) c.pool = (c.shared.queue n).running.toList.length

theorem reachable_workers {c : Config Shared Thread} (h : machine.Reachable initial c) :
    Workers c := by
  refine Machine.Reach.invariant Workers ?_ ?_ ?_ h
  · refine ⟨each_nil _, fun n => ?_⟩
    cases n <;> rfl
  · intro c call s t hc hI _ hs
    rcases enter_queue hs with ⟨hnone, hsame⟩ | ⟨n, hrun, hsame⟩
    · refine ⟨hI.item.append (fun i u _ hu k hk => ?_) (fun k hk => ?_), fun n => ?_⟩
      · rw [hsame]
        exact hu k hk
      · rw [hnone] at hk
        cases hk
      · rw [total_append, hsame, hI.one]
        simp [Thread.worksOn, hnone]
    · obtain ⟨e, hidle, hitems, hnew, -, rfl⟩ := run_eq hrun
      have hqueue : e.kind.queue = n :=
        reachable_kinds hc n e (Queue.mem_entries (hitems ▸ List.mem_cons_self))
      have hwork := entry_work e
      refine ⟨hI.item.append (fun i u hi hu k hk => ?_) (fun k hk => ?_), fun m => ?_⟩
      · obtain ⟨ticket, hticket⟩ := hu k hk
        refine ⟨ticket, ?_⟩
        rw [hsame]
        · exact hticket
        · intro heq
          rw [heq, hidle] at hticket
          cases hticket
      · rw [hwork, Option.some.injEq] at hk
        subst hk
        exact ⟨e.ticket, by rw [hqueue, hnew]⟩
      · rw [total_append, hI.one]
        by_cases hm : m = n
        · subst hm
          simp [Thread.worksOn, hwork, hqueue, hidle, hnew]
        · have hne : n ≠ m := fun heq => hm heq.symm
          simp [Thread.worksOn, hwork, hqueue, hsame m hm, hne]
  · intro c i a t s t' hc hI _ hi hs
    have hrunning := step_running hs
    obtain ⟨hgo, hend⟩ := step_work hs
    cases hends : t.ends with
    | false =>
      simp only [hends, Bool.false_eq_true, false_and, if_false] at hrunning
      obtain ⟨hwork, hrport⟩ := hgo hends
      refine ⟨hI.item.set (fun j u _ _ hu k hk => ?_) (fun k hk => ?_), fun n => ?_⟩
      · rw [hrunning]
        exact hu k hk
      · rw [hwork] at hk
        obtain ⟨m, hm⟩ := hI.item i t hi k hk
        refine ⟨m, ?_⟩
        rw [hrunning, hrport (by simp [hk])]
        exact hm
      · have hone := hI.one n
        rw [total_eq_others _ hi] at hone
        rw [total_set _ _ hi, hrunning, ← hone]
        simp only [Thread.worksOn, hwork]
    | true =>
      obtain ⟨k, hk⟩ := ends_work hends
      have hdone := hend hends
      simp only [hends, hk, Option.map_some, Option.some.injEq, true_and] at hrunning
      have hone := hI.one
      simp only [total_eq_others _ hi, Thread.worksOn, hk, Option.map_some,
        Option.some.injEq] at hone
      obtain ⟨m, hm⟩ := hI.item i t hi k hk
      refine ⟨hI.item.set (fun j u hji hj hu k' hk' => ?_) (fun k' hk' => ?_), fun n => ?_⟩
      · obtain ⟨m', hm'⟩ := hu k' hk'
        refine ⟨m', ?_⟩
        rw [hrunning, if_neg]
        · exact hm'
        · -- two threads do not execute for one queue
          intro heq
          have htwo := hone k.queue
          have hle := le_others (Thread.worksOn k.queue) hji hj
          simp only [Thread.worksOn, hk', Option.map_some, heq, if_true] at hle htwo
          rw [hm'] at htwo
          simp only [Option.toList_some, List.length_singleton] at htwo
          omega
      · rw [hdone] at hk'
        cases hk'
      · have hn := hone n
        rw [total_set _ _ hi, hrunning]
        by_cases heq : k.queue = n
        · subst heq
          rw [hm] at hn
          simp only [if_true, Option.toList_some, List.length_singleton] at hn
          simp only [Thread.worksOn, hdone, Option.map_none, reduceCtorEq, if_false, if_true,
            Option.toList_none, List.length_nil]
          omega
        · simp only [heq, if_false, Nat.add_zero] at hn ⊢
          simp only [Thread.worksOn, hdone, Option.map_none, reduceCtorEq, if_false, Nat.add_zero]
          exact hn

/-! ### Tickets -/

/-- A queue hands out tickets in order. -/
def Queue.Ticketed (q : Queue) : Prop := q.All fun e => e.ticket < q.enq

theorem Queue.Ticketed.push {q : Queue} (h : q.Ticketed) (k : Kind) (r : Nat) :
    (q.push k r).Ticketed := by
  unfold Queue.push
  split
  · exact h
  · intro e he
    simp only [Queue.entries, List.mem_append, List.mem_singleton] at he
    rcases he with hold | hold | rfl
    · exact Nat.lt_succ_of_lt (h e (List.mem_append_left _ hold))
    · exact Nat.lt_succ_of_lt (h e (Queue.mem_entries hold))
    · exact Nat.lt_succ_self _

theorem Queue.Ticketed.pushes {q : Queue} (h : q.Ticketed) (k : Kind) (l : List Nat) :
    (l.foldl (fun q r => q.push k r) q).Ticketed := by
  induction l generalizing q with
  | nil => exact h
  | cons r l ih => exact ih (h.push k r)

theorem Queue.Ticketed.run {q q' : Queue} {t : Thread} (h : q.Ticketed)
    (hrun : q.run = some (q', t)) : q'.Ticketed := by
  obtain ⟨e, -, -, -, henq, -⟩ := run_eq hrun
  intro e' he'
  rw [henq]
  exact h e' (Queue.entries_run hrun ▸ he')

theorem reachable_ticketed {c : Config Shared Thread} (h : machine.Reachable initial c) :
    ∀ n, (c.shared.queue n).Ticketed := by
  refine Machine.Reach.invariant (fun c => ∀ n, (c.shared.queue n).Ticketed) ?_ ?_ ?_ h
  · intro n e he
    cases n <;> cases he
  · intro c call s t _ hI _ hs n
    cases n with
    | work =>
      have hwork := hI .work
      rcases enter_workQ hs with hq | ⟨-, hq⟩
      · simp only [Shared.queue, hq] at hwork ⊢
        exact hwork
      · exact hwork.run hq
    | devloss =>
      have hloss := hI .devloss
      rcases enter_devlossQ hs with hq | ⟨r, -, -, hq⟩ | ⟨r, -, -, hq⟩ | ⟨-, hq⟩
      · simp only [Shared.queue, hq] at hloss ⊢
        exact hloss
      · simp only [Shared.queue, hq] at hloss ⊢
        exact hloss.push _ _
      · simp only [Shared.queue, hq] at hloss ⊢
        exact hloss.push _ _
      · exact hloss.run hq
    | scsi =>
      have hscsi := hI .scsi
      rcases enter_scsiQ hs with hq | ⟨-, hq⟩
      · simp only [Shared.queue, hq] at hscsi ⊢
        exact hscsi
      · exact hscsi.run hq
  · intro c i a t s t' _ hI _ _ hs n
    cases n with
    | work =>
      have hwork := hI .work
      rcases step_workQ hs with hq | ⟨-, hq⟩ | ⟨-, -, hq⟩ | ⟨-, hq⟩ | ⟨-, hq⟩
      all_goals simp only [Shared.queue, hq] at hwork ⊢
      · exact hwork
      · exact hwork.push _ _
      · exact hwork.push _ _
      · exact Queue.All.finish hwork
      · exact hwork.pushes _ _
    | devloss =>
      have hloss := hI .devloss
      rcases step_devlossQ hs with hq | ⟨-, hq⟩ | ⟨-, hq⟩ | ⟨-, hq⟩
      all_goals simp only [Shared.queue, hq] at hloss ⊢
      · exact hloss
      · exact hloss.push _ _
      · exact hloss.push _ _
      · exact Queue.All.finish hloss
    | scsi =>
      have hscsi := hI .scsi
      rcases step_scsiQ hs with hq | ⟨-, hq⟩ | ⟨r, -, -, -, -, hq⟩ | ⟨-, hq⟩
      all_goals simp only [Shared.queue, hq] at hscsi ⊢
      · exact hscsi
      · exact hscsi.push _ _
      · exact hscsi.push _ _
      · exact Queue.All.finish hscsi

end VmkLinux.Scsi.Fc
