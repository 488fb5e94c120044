/-
  VmkLinux/CharDev/PrivateData.lean
  =================================
  **The private data of an open character device** (`vmklinux26/vmware/linux_char.c`):
  `LinuxCharOpen`, `LinuxCharIoctl`, `LinuxCharPoll`, `LinuxCharRead`, `LinuxCharWrite`,
  `LinuxCharFasync` and `LinuxCharClose`, on one descriptor.

  Each call makes a `struct file` of its own, copies `attr->clientData` into it, calls the driver,
  and copies `private_data` back; `LinuxCharOpen` does not clear the file first.  Calls may
  overlap; `LinuxCharOpen` is the first, and `LinuxCharClose` the last, made when no other is
  under way.  Where a handler sets the field to something new only while no other call has a copy,
  no call takes a copy before it is written back, and `open` leaves nothing of what was in the
  block (`orderly`), no value is lost (`private_data_kept`).

  `latest` is not in the source: it is the value that a completed handler has assigned last.
-/
import VmkLinux.Interleave

namespace VmkLinux.CharDev

open VmkLinux.Interleave

/-! ### Data -/

inductive Op where
  | open_
  | ioctl
  | poll
  | read
  | write
  | fasync
  | close
deriving DecidableEq, Repr

inductive Phase where
  | fresh
  | opening
  | opened
  | closed
deriving DecidableEq, Repr

/-- The descriptor.  `clientData` is 0 for `NULL`; `calls` counts the calls under way. -/
structure Shared where
  clientData : Nat := 0
  phase : Phase := .fresh
  calls : Nat := 0
  latest : Nat := 0
deriving DecidableEq, Repr

inductive Pc where
  | alloc
  | handlerStart
  | inHandler
  | writeBack
  | done
deriving DecidableEq, Repr

/-- A call: `privateData` is the field of its `struct file`, and `handlers` says how many handlers
    it may still call.  `assigned` says that the handler has assigned the field, `made` that a
    handler of the call has, and `changed` that it has assigned something new. -/
structure Thread where
  op : Op
  pc : Pc := .alloc
  privateData : Nat := 0
  handlers : Nat := 1
  assigned : Bool := false
  made : Bool := false
  changed : Bool := false
deriving DecidableEq, Repr

/-- A call, with the number of handlers that the driver has for it: up to three for an `ioctl`. -/
structure Call where
  op : Op
  handlers : Nat := 1
deriving DecidableEq, Repr

/-- What the heap and the driver do next.  `block` is what the heap has in the place of the field;
    `again` is a return of `-ENOIOCTLCMD`, and `leave` says whether the call succeeds. -/
inductive Choice where
  | block (contents : Nat)
  | noMemory
  | assign (value : Nat)
  | again
  | leave (ok : Bool)
deriving DecidableEq, Repr

/-! ### Steps -/

/-- The call comes to its end. -/
def finish (s : Shared) (t : Thread) (phase : Phase) : Shared × Thread :=
  ({ s with calls := s.calls - 1, phase := phase }, { t with pc := .done })

def enter (_me : Nat) (call : Call) (s : Shared) : Option (Shared × Thread) :=
  if call.handlers ≤ (if call.op = .ioctl then 3 else 1) then
    match call.op with
    | .open_ =>
        if s.phase = .fresh then
          if call.handlers = 0 then
            some ({ s with phase := .opened }, { op := .open_, pc := .done })
          else some ({ s with phase := .opening, calls := s.calls + 1 },
            { op := .open_, handlers := 1 })
        else none
    | .close =>
        if s.phase = .opened ∧ s.calls = 0 then
          if call.handlers = 0 then
            some ({ s with phase := .closed }, { op := .close, pc := .done })
          else some ({ s with phase := .closed, calls := s.calls + 1 },
            { op := .close, handlers := 1 })
        else none
    | op =>
        if s.phase = .opened then
          if call.handlers = 0 then some (s, { op := op, pc := .done })
          else some ({ s with calls := s.calls + 1 }, { op := op, handlers := call.handlers })
        else none
  else none

/-- The handler returns: what it has assigned is the latest value. -/
def completed (s : Shared) (t : Thread) : Shared :=
  if t.assigned then { s with latest := t.privateData } else s

def step (a : Choice) (s : Shared) (t : Thread) : Option (Shared × Thread) :=
  match t.pc, a with
  | .alloc, .noMemory =>
      some (finish s t (if t.op = .open_ then .closed else s.phase))
  | .alloc, .block contents =>
      -- `LinuxCharOpen` leaves the block as it is
      some (s, { t with
        pc := .handlerStart
        privateData := if t.op = .open_ then contents else s.clientData })
  | .handlerStart, _ =>
      some (s, { t with pc := .inHandler, handlers := t.handlers - 1, assigned := false })
  | .inHandler, .assign value =>
      some (s, { t with
        privateData := value
        assigned := true
        made := true
        changed := t.changed || decide (value ≠ s.clientData) })
  | .inHandler, .again =>
      if t.handlers = 0 then none else some (completed s t, { t with pc := .handlerStart })
  | .inHandler, .leave _ =>
      if t.op = .close then some (finish (completed s t) t .closed)
      else some (completed s t, { t with pc := .writeBack })
  | .writeBack, .leave ok =>
      some (finish { s with clientData := t.privateData } t
        (if t.op = .open_ then if ok then .opened else .closed else s.phase))
  | _, _ => none

def machine : Machine Shared Thread Call Choice := ⟨enter, step⟩

def initial : Config Shared Thread := ⟨{}, []⟩

/-! ### Orderly calls -/

/-- The call has a file of its own. -/
def Thread.copies (t : Thread) : Nat :=
  match t.pc with
  | .handlerStart | .inHandler | .writeBack => 1
  | .alloc | .done => 0

/-- The call has changed its copy. -/
def Thread.changes (t : Thread) : Nat := if t.changed then t.copies else 0

def orderlyStep (s : Shared) (pool : List Thread) (t : Thread) : Choice → Bool
  | .block _ => decide (total Thread.changes pool = 0)
  | .assign value => decide (value = s.clientData) || decide (total Thread.copies pool = 1)
  | .leave _ =>
      decide (t.op ≠ .open_) || decide (t.pc ≠ .inHandler) || t.assigned ||
        decide (t.privateData = 0)
  | _ => true

/-- A call copies the data while no other has changed its copy; a handler assigns something new
    only while no other call has a copy; and `open` assigns the field, or the heap had `NULL` in
    its place. -/
def orderly (c : Config Shared Thread) : Event Call Choice → Bool
  | .start _ => true
  | .act i a =>
      match c.pool[i]? with
      | some t => orderlyStep c.shared c.pool t a
      | none => true

/-! ### The invariant -/

def Thread.inProgress (t : Thread) : Nat := if t.pc = .done then 0 else 1

/-- A copy that was not changed is the descriptor's value, and the latest one; a copy that was is
    the only one, and is the latest value but for what its handler has assigned. -/
structure Thread.Copy (s : Shared) (n : Nat) (t : Thread) : Prop where
  same : t.changed = false → t.privateData = s.clientData ∧ s.latest = s.clientData
  new : t.changed = true →
    n = 1 ∧ t.made = true ∧ (t.pc = .inHandler ∧ t.assigned = true ∨ t.privateData = s.latest)

/-- `LinuxCharOpen` is alone. -/
structure Thread.Opens (s : Shared) (t : Thread) : Prop where
  alone : s.calls = 1
  phase : s.phase = .opening
  before : t.pc ≠ .writeBack → s.latest = 0
  after : t.pc = .writeBack → t.privateData = s.latest
  handlers : t.handlers ≤ 1 ∧ (t.pc = .inHandler → t.handlers = 0)

/-- What is known of a thread while `n` threads have a copy. -/
structure Thread.Fits (s : Shared) (n : Nat) (t : Thread) : Prop where
  copy : t.op ≠ .open_ → t.copies = 1 → t.Copy s n
  opens : t.op = .open_ → t.inProgress = 1 → t.Opens s
  closes : t.op = .close → t.inProgress = 1 →
    s.calls = 1 ∧ s.phase = .closed ∧ (t.pc = .alloc → s.latest = s.clientData)
  phase : t.op ≠ .open_ → t.op ≠ .close → t.inProgress = 1 → s.phase = .opened
  alloc : t.pc = .alloc → t.changed = false

structure Steady (s : Shared) (n : Nat) : Prop where
  fresh : s.phase = .fresh → s.latest = 0 ∧ s.clientData = 0 ∧ s.calls = 0
  opened : s.phase = .opened → n = 0 → s.latest = s.clientData

structure Kept (c : Config Shared Thread) : Prop where
  calls : c.shared.calls = total Thread.inProgress c.pool
  fits : Each (fun _ t => t.Fits c.shared (total Thread.copies c.pool)) c.pool
  steady : Steady c.shared (total Thread.copies c.pool)

section Step

variable {s s' : Shared} {t t' u : Thread} {a : Choice} {n m : Nat}

theorem copies_le_inProgress (t : Thread) : t.copies ≤ t.inProgress := by
  unfold Thread.copies Thread.inProgress
  cases t.pc <;> simp

theorem step_inProgress (h : step a s t = some (s', t')) : t.inProgress = 1 := by
  unfold step at h
  unfold Thread.inProgress
  cases hpc : t.pc <;> simp [hpc] at h ⊢

/-- A copy is taken when the block is there. -/
theorem step_copies (h : step a s t = some (s', t')) :
    t'.copies ≤ t.copies ∨ t.copies = 0 ∧ t'.copies = 1 ∧ ∃ contents, a = .block contents := by
  unfold step at h
  cases hpc : t.pc <;> cases a
  all_goals simp only [hpc, reduceCtorEq] at h
  all_goals repeat' split at h
  all_goals simp only [finish, completed, Option.some.injEq, Prod.mk.injEq,
    reduceCtorEq] at h
  all_goals obtain ⟨rfl, rfl⟩ := h
  all_goals simp [Thread.copies, hpc]

/-- A call that has not changed its copy leaves the values as they are. -/
theorem step_unchanged (h : step a s t = some (s', t')) (hop : t.op ≠ .open_)
    (hcopy : t.copies = 1 → t.privateData = s.clientData ∧ s.latest = s.clientData) :
    s'.latest = s.latest ∧ s'.clientData = s.clientData := by
  unfold step at h
  cases hpc : t.pc <;> cases a
  all_goals simp only [hpc, Thread.copies, forall_const, reduceCtorEq] at h hcopy
  all_goals repeat' split at h
  all_goals simp only [finish, completed, Option.some.injEq, Prod.mk.injEq,
    reduceCtorEq] at h
  all_goals obtain ⟨rfl, rfl⟩ := h
  all_goals grind -linarith

theorem step_phase (h : step a s t = some (s', t')) (hop : t.op ≠ .open_) (hop' : t.op ≠ .close) :
    s'.phase = s.phase := by
  unfold step at h
  repeat' split at h
  all_goals simp only [finish, completed, Option.some.injEq, Prod.mk.injEq,
    reduceCtorEq] at h
  all_goals obtain ⟨rfl, -⟩ := h
  all_goals grind -linarith

/-- What a step of `t` means for another thread: two threads have two copies, and two calls under
    way. -/
theorem step_other (h : step a s t = some (s', t')) (ht : t.Fits s n) (hu : u.Fits s n)
    (hcopies : m + t.copies = n) (hm : u.copies ≤ m)
    (hcalls : t.inProgress + u.inProgress ≤ s.calls)
    (hblock : ∀ contents, a = .block contents → u.changes = 0) :
    u.Fits s' (m + t'.copies) := by
  have hle := copies_le_inProgress u
  have hone := step_inProgress h
  by_cases hu₀ : u.inProgress = 0
  · exact ⟨fun _ h => by omega, fun _ h => by omega, fun _ h => by omega, fun _ _ h => by omega,
      hu.alloc⟩
  have htwo : 2 ≤ s.calls := by omega
  have hopen : t.op ≠ .open_ := fun hop => by
    have halone := (ht.opens hop hone).alone
    omega
  have hclose : t.op ≠ .close := fun hop => by
    have halone := (ht.closes hop hone).1
    omega
  have hu₁ : u.inProgress = 1 := by
    unfold Thread.inProgress at hu₀ ⊢
    split at hu₀
    · exact absurd rfl hu₀
    · rename_i hpc
      rw [if_neg hpc]
  refine ⟨fun hop hc => ?_, fun hop => ?_, fun hop => ?_, fun hop hop' _ => ?_, hu.alloc⟩
  · have hcopy := hu.copy hop hc
    have hunchanged : s'.latest = s.latest ∧ s'.clientData = s.clientData := by
      refine step_unchanged h hopen fun htc => (ht.copy hopen htc).same ?_
      by_contra hch
      have hn := ((ht.copy hopen htc).new (by simpa using hch)).1
      omega
    refine ⟨fun hch => ?_, fun hch => ?_⟩
    · rw [hunchanged.1, hunchanged.2]
      exact hcopy.same hch
    · obtain ⟨hn, hmade, hvalue⟩ := hcopy.new hch
      rw [hunchanged.1]
      refine ⟨?_, hmade, hvalue⟩
      rcases step_copies h with hle' | ⟨-, -, contents, ha⟩
      · omega
      · have hzero := hblock contents ha
        simp only [Thread.changes, hch, if_true] at hzero
        omega
  · exact absurd (hu.opens hop hu₁).alone (by omega)
  · exact absurd (hu.closes hop hu₁).1 (by omega)
  · rw [step_phase h hopen hclose]
    exact hu.phase hop hop' hu₁

/-- What a step of a thread means for itself. -/
theorem step_self (h : step a s t = some (s', t')) (ht : t.Fits s n)
    (hsteady : Steady s n) (hcopies : m + t.copies = n)
    (hlatest : ∀ contents, a = .block contents → 0 < m → s.latest = s.clientData)
    (hassign : ∀ value, a = .assign value → value = s.clientData ∨ n = 1)
    (hopen : ∀ ok, a = .leave ok → t.op ≠ .open_ ∨ t.pc ≠ .inHandler ∨ t.assigned = true ∨
      t.privateData = 0) : t'.Fits s' (m + t'.copies) := by
  obtain ⟨hcopy, hopens, hcloses, hphase, halloc⟩ := ht
  unfold step at h
  cases hpc : t.pc <;> cases a
  all_goals simp only [hpc, reduceCtorEq] at h
  all_goals repeat' split at h
  all_goals simp only [finish, completed, Option.some.injEq, Prod.mk.injEq,
    reduceCtorEq] at h
  all_goals obtain ⟨rfl, rfl⟩ := h
  all_goals simp only [Thread.copies, Thread.inProgress, hpc, reduceCtorEq, if_false]
    at hcopies hcopy hopens hcloses hphase
  all_goals refine ⟨fun hop hc => ⟨fun hch => ?_, fun hch => ?_⟩,
    fun hop hp => ⟨?_, ?_, fun hw => ?_, fun hw => ?_, ?_, fun hw => ?_⟩, fun hop hp => ?_,
    fun hop hop' hp => ?_, ?_⟩
  all_goals simp only [Thread.copies, Thread.inProgress] at *
  all_goals grind -linarith [Thread.Copy, Thread.Opens, Steady]

/-- What a step means for the descriptor. -/
theorem step_steady (h : step a s t = some (s', t')) (ht : t.Fits s n) (hsteady : Steady s n)
    (hcopies : m + t.copies = n) : Steady s' (m + t'.copies) := by
  obtain ⟨hcopy, hopens, hcloses, hphase, halloc⟩ := ht
  obtain ⟨hfresh, hopened⟩ := hsteady
  unfold step at h
  cases hpc : t.pc <;> cases a
  all_goals simp only [hpc, reduceCtorEq] at h
  all_goals repeat' split at h
  all_goals simp only [finish, completed, Option.some.injEq, Prod.mk.injEq,
    reduceCtorEq] at h
  all_goals obtain ⟨rfl, rfl⟩ := h
  all_goals simp only [Thread.copies, Thread.inProgress, hpc, reduceCtorEq, if_false]
    at hcopies hcopy hopens hcloses hphase
  all_goals simp only [Thread.copies]
  all_goals constructor
  all_goals grind -linarith [Thread.Copy, Thread.Opens]

end Step

/-! ### Whole runs -/

theorem step_calls {s s' : Shared} {t t' : Thread} {a : Choice} {k : Nat}
    (h : step a s t = some (s', t')) (hk : s.calls = k + t.inProgress) :
    s'.calls = k + t'.inProgress := by
  have hone := step_inProgress h
  unfold step at h
  repeat' split at h
  all_goals simp only [finish, completed, Option.some.injEq, Prod.mk.injEq,
    reduceCtorEq] at h
  all_goals obtain ⟨rfl, rfl⟩ := h
  all_goals simp only [Thread.inProgress] at *
  all_goals grind -linarith

/-- A thread that has come to its end fits, whatever the descriptor. -/
theorem fits_of_done {s s' : Shared} {t : Thread} {n n' : Nat} (ht : t.Fits s n)
    (h : t.inProgress = 0) : t.Fits s' n' := by
  have hle := copies_le_inProgress t
  exact ⟨fun _ h => by omega, fun _ h => by omega, fun _ h => by omega, fun _ _ h => by omega,
    ht.alloc⟩

/-- A call is made alone, or it only adds to the calls under way. -/
theorem enter_cases {me : Nat} {call : Call} {s g : Shared} {t : Thread}
    (h : enter me call s = some (g, t)) :
    s.phase = .fresh ∨ s.calls = 0 ∨
      s.phase = .opened ∧ g = { s with calls := s.calls + t.inProgress } := by
  unfold enter at h
  repeat' split at h
  all_goals simp only [Option.some.injEq, Prod.mk.injEq, reduceCtorEq] at h
  all_goals obtain ⟨rfl, rfl⟩ := h
  all_goals simp only [Thread.inProgress]
  all_goals grind -linarith

theorem kept_enter {c : Config Shared Thread} {call : Call} {g : Shared} {t : Thread}
    (hI : Kept c) (h : enter c.pool.length call c.shared = some (g, t)) :
    Kept ⟨g, c.pool ++ [t]⟩ := by
  obtain ⟨hcalls, hfits, hfresh, hopened⟩ := hI
  have hle : total Thread.copies c.pool ≤ total Thread.inProgress c.pool :=
    total_le_total fun u _ => copies_le_inProgress u
  have hdone : c.shared.calls = 0 → ∀ (i : Nat) (u : Thread), c.pool[i]? = some u →
      u.inProgress = 0 := by
    intro hzero i u hu
    have hu' := le_total Thread.inProgress hu
    omega
  have hnew : t.copies = 0 ∧ g.calls = c.shared.calls + t.inProgress := by
    unfold enter at h
    repeat' split at h
    all_goals simp only [Option.some.injEq, Prod.mk.injEq, reduceCtorEq] at h
    all_goals obtain ⟨rfl, rfl⟩ := h
    all_goals simp [Thread.copies, Thread.inProgress]
  have hself : t.Fits g (total Thread.copies c.pool) := by
    unfold enter at h
    repeat' split at h
    all_goals simp only [Option.some.injEq, Prod.mk.injEq, reduceCtorEq] at h
    all_goals obtain ⟨rfl, rfl⟩ := h
    all_goals refine ⟨fun hop hc => ⟨fun hch => ?_, fun hch => ?_⟩,
      fun hop hp => ⟨?_, ?_, fun hw => ?_, fun hw => ?_, ?_, fun hw => ?_⟩, fun hop hp => ?_,
      fun hop hop' hp => ?_, ?_⟩
    -- most of it is about another operation
    all_goals try cases hop
    all_goals simp only [Thread.copies, Thread.inProgress] at *
    all_goals grind -linarith
  refine ⟨?_, ?_, ?_⟩
  · rw [total_append, ← hcalls]
    exact hnew.2
  · rw [total_append, hnew.1, Nat.add_zero]
    refine hfits.append (fun i u hu hfit => ?_) hself
    rcases enter_cases h with hphase | hzero | ⟨hphase, rfl⟩
    · exact fits_of_done hfit (hdone (hfresh hphase).2.2 i u hu)
    · exact fits_of_done hfit (hdone hzero i u hu)
    · refine ⟨fun hop hc => ⟨(hfit.copy hop hc).same, (hfit.copy hop hc).new⟩, fun hop hp => ?_,
        fun hop hp => ?_, hfit.phase, hfit.alloc⟩
      · have hopening := (hfit.opens hop hp).phase
        rw [hphase] at hopening
        cases hopening
      · have hclosed := (hfit.closes hop hp).2.1
        rw [hphase] at hclosed
        cases hclosed
  · rw [total_append, hnew.1, Nat.add_zero]
    unfold enter at h
    repeat' split at h
    all_goals simp only [Option.some.injEq, Prod.mk.injEq, reduceCtorEq] at h
    all_goals obtain ⟨rfl, rfl⟩ := h
    all_goals constructor
    all_goals grind -linarith

theorem kept_step {c : Config Shared Thread} {i : Nat} {a : Choice} {t t' : Thread} {g : Shared}
    (hI : Kept c) (hok : orderly c (.act i a) = true) (ht : c.pool[i]? = some t)
    (h : step a c.shared t = some (g, t')) : Kept ⟨g, c.pool.set i t'⟩ := by
  obtain ⟨hcalls, hfits, hsteady⟩ := hI
  have hfit := hfits i t ht
  have hcopies := total_eq_others Thread.copies ht
  have hprogress := total_eq_others Thread.inProgress ht
  have hchanges := total_eq_others Thread.changes ht
  simp only [orderly, ht] at hok
  have hpair : ∀ (j : Nat) (u : Thread), j ≠ i → c.pool[j]? = some u →
      u.copies ≤ others Thread.copies c.pool i ∧
        t.inProgress + u.inProgress ≤ c.shared.calls ∧
        u.changes ≤ others Thread.changes c.pool i := by
    intro j u hji hu
    have hprogress' := le_others Thread.inProgress hji hu
    exact ⟨le_others Thread.copies hji hu, by omega, le_others Thread.changes hji hu⟩
  refine ⟨?_, ?_, ?_⟩
  · rw [total_set _ t' ht]
    exact step_calls h (hcalls.trans hprogress)
  · rw [total_set _ t' ht]
    refine hfits.set (fun j u hji hu hfit' => ?_) ?_
    · obtain ⟨hcopies', hcalls', hchanges'⟩ := hpair j u hji hu
      refine step_other h hfit hfit' hcopies.symm hcopies' hcalls' fun contents ha => ?_
      subst ha
      simp only [orderlyStep, decide_eq_true_eq] at hok
      omega
    · refine step_self h hfit hsteady hcopies.symm (fun contents ha hpos => ?_)
        (fun value ha => ?_) (fun ok ha => ?_)
      · subst ha
        simp only [orderlyStep, decide_eq_true_eq] at hok
        -- another call has a copy, and has not changed it
        obtain ⟨j, u, hji, hu, hcopy⟩ := exists_of_others_pos hpos
        obtain ⟨hcopies', hcalls', hchanges'⟩ := hpair j u hji hu
        have hone := step_inProgress h
        have hle := copies_le_inProgress u
        have hopen : u.op ≠ .open_ := fun hop => by
          have hp : u.inProgress = 1 := by
            unfold Thread.inProgress at hle ⊢
            split at hle
            · omega
            · rename_i hpc
              exact if_neg hpc
          have halone := ((hfits j u hu).opens hop hp).alone
          omega
        have hc : u.copies = 1 := by
          unfold Thread.copies at hcopy ⊢
          cases hpc : u.pc <;> simp_all
        refine (((hfits j u hu).copy hopen hc).same ?_).2
        by_contra hch
        have hch' : u.changed = true := by simpa using hch
        simp only [Thread.changes, hch', if_true] at hchanges'
        omega
      · subst ha
        simpa only [orderlyStep, Bool.or_eq_true, decide_eq_true_eq] using hok
      · subst ha
        simpa only [orderlyStep, Bool.or_eq_true, decide_eq_true_eq, or_assoc] using hok
  · rw [total_set _ t' ht]
    exact step_steady h hfit hsteady hcopies.symm

theorem kept_of_reach {c : Config Shared Thread}
    (h : machine.Reach (fun c e => orderly c e = true) initial c) : Kept c := by
  refine h.invariant Kept ⟨rfl, each_nil _, ?_, ?_⟩ ?_ ?_
  · simp [initial]
  · simp [initial]
  · exact fun c call g t _ hI _ hs => kept_enter hI hs
  · exact fun c i a t g t' _ hI hok ht hs => kept_step hI hok ht hs

/-- A handler starts with the latest value, and a call that has assigned nothing writes back what
    is there. -/
structure Intact (c : Config Shared Thread) : Prop where
  starts : ∀ t ∈ c.pool, t.op ≠ .open_ → t.pc = .handlerStart → t.privateData = c.shared.latest
  leaves : ∀ t ∈ c.pool, t.op ≠ .open_ → t.pc = .writeBack → t.made = false →
    t.privateData = c.shared.clientData

/-- **No assignment of the private data is lost**, where the calls are orderly. -/
theorem private_data_kept {c : Config Shared Thread}
    (h : machine.Reach (fun c e => orderly c e = true) initial c) : Intact c := by
  obtain ⟨-, hfits, -⟩ := kept_of_reach h
  have hcopy : ∀ t ∈ c.pool, t.op ≠ .open_ → t.copies = 1 →
      t.Copy c.shared (total Thread.copies c.pool) := by
    intro t ht hop hc
    obtain ⟨i, hi⟩ := List.mem_iff_getElem?.mp ht
    exact (hfits i t hi).copy hop hc
  refine ⟨fun t ht hop hpc => ?_, fun t ht hop hpc hmade => ?_⟩
  · obtain ⟨hsame, hnew⟩ := hcopy t ht hop (by simp [Thread.copies, hpc])
    cases hch : t.changed with
    | false => exact (hsame hch).1.trans (hsame hch).2.symm
    | true => exact ((hnew hch).2.2).resolve_left (by simp [hpc])
  · obtain ⟨hsame, hnew⟩ := hcopy t ht hop (by simp [Thread.copies, hpc])
    cases hch : t.changed with
    | false => exact (hsame hch).1
    | true =>
      have hmade' := (hnew hch).2.1
      rw [hmade] at hmade'
      cases hmade'

/-- Two reads overlap; then an `ioctl` sets the data, and a third read starts with it. -/
theorem private_data_kept_ioctl :
    ∃ c, machine.Reach (fun c e => orderly c e = true) initial c ∧
      (c.shared.clientData, c.shared.latest, c.pool[4]?.map Thread.privateData) =
        (9, 9, some 9) ∧ Intact c := by
  obtain ⟨c, hc, ho⟩ := machine.exists_reach_of_runIf orderly
    [.start { op := .open_ }, .act 0 (.block 77), .act 0 .again, .act 0 (.assign 5),
      .act 0 (.leave true), .act 0 (.leave true),
      .start { op := .read }, .start { op := .read }, .act 1 (.block 0), .act 2 (.block 0),
      .act 1 .again, .act 2 .again, .act 2 (.leave true), .act 2 (.leave true),
      .act 1 (.leave true), .act 1 (.leave true),
      .start { op := .ioctl, handlers := 2 }, .act 3 (.block 0), .act 3 .again,
      .act 3 (.assign 9), .act 3 .again, .act 3 .again, .act 3 (.leave true), .act 3 (.leave true),
      .start { op := .read }, .act 4 (.block 0)] initial
    (fun c => (c.shared.clientData, c.shared.latest, c.pool[4]?.map Thread.privateData))
    (9, 9, some 9) (by decide)
  exact ⟨c, hc, ho, private_data_kept hc⟩

/-- What was in the block is taken for the data after an `open` that assigns nothing; a `read` is
    started with a value that an `ioctl` has replaced; and one that has assigned nothing is about to
    undo what an `ioctl` has assigned. -/
theorem private_data_lost :
    (∃ c, machine.Reachable initial c ∧
      (c.shared.latest, c.pool[1]?.map fun t => (t.op, t.pc, t.privateData)) =
        (0, some (.read, .handlerStart, 77))) ∧
    (∃ c, machine.Reachable initial c ∧
      (c.shared.latest, c.pool[1]?.map fun t => (t.op, t.pc, t.privateData)) =
        (9, some (.read, .handlerStart, 5))) ∧
    ∃ c, machine.Reachable initial c ∧
      (c.shared.clientData, c.pool[1]?.map fun t => (t.op, t.pc, t.made, t.privateData)) =
        (9, some (.read, .writeBack, false, 5)) := by
  refine ⟨?_, ?_, ?_⟩
  · exact machine.exists_reachable_of_run
      [.start { op := .open_ }, .act 0 (.block 77), .act 0 .again, .act 0 (.leave true),
        .act 0 (.leave true), .start { op := .read }, .act 1 (.block 0)] initial _ _
      (by decide)
  · exact machine.exists_reachable_of_run
      [.start { op := .open_ }, .act 0 (.block 0), .act 0 .again, .act 0 (.assign 5),
        .act 0 (.leave true), .act 0 (.leave true),
        .start { op := .read }, .act 1 (.block 0),
        .start { op := .ioctl }, .act 2 (.block 0), .act 2 .again, .act 2 (.assign 9),
        .act 2 (.leave true), .act 2 (.leave true)] initial _ _ (by decide)
  · exact machine.exists_reachable_of_run
      [.start { op := .open_ }, .act 0 (.block 0), .act 0 .again, .act 0 (.assign 5),
        .act 0 (.leave true), .act 0 (.leave true),
        .start { op := .read }, .act 1 (.block 0), .act 1 .again,
        .start { op := .ioctl }, .act 2 (.block 0), .act 2 .again, .act 2 (.assign 9),
        .act 2 (.leave true), .act 2 (.leave true), .act 1 (.leave true)] initial _ _
      (by decide)

end VmkLinux.CharDev
