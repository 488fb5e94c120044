/-
  VmkLinux/Scsi/FcBindings.lean
  =============================
  **Target id bindings.**  A port is on one of the two lists of its host from its creation to
  its deletion, no two listed ports have the same channel and port name, no two ports have the
  same target id, and a listed port that has a target id is never deleted, so that the next
  `fc_remote_port_add` for its name finds it and its id with it.

  An id is handed out before `device_add`, and is lost with the port where that fails: the binding
  begins with the creation that succeeds.  And `fc_remote_port_rolechg` takes it for granted that
  the driver does not delete the port meanwhile; it hands out an id to a deleted one
  (`id_of_failed_add`).
-/
import VmkLinux.Scsi.FcChanges
import VmkLinux.Scsi.FcQueues

namespace VmkLinux.Scsi.Fc

open VmkLinux.Interleave

/-! ### The invariant -/

def View.Listed (v : View) (r : Nat) : Prop := r ∈ v.rports ∨ r ∈ v.bindings

/-- The name that a call is adding. -/
def Role.name : Role → Option Key
  | .search k | .create k | .device k _ | .result k _ => some k
  | .owner _ | .other => none

/-- The port that a call has in hand. -/
def Role.port : Role → Option Nat
  | .device _ r | .result _ r | .owner r => some r
  | .search _ | .create _ | .other => none

def Role.adds (k : Key) (ρ : Role) : Nat := if ρ.name = some k then 1 else 0

def Role.holds (r : Nat) (ρ : Role) : Nat := if ρ.port = some r then 1 else 0

/-- What a call knows of the ports. -/
def Role.Ok (v : View) : Role → Prop
  | .search k => ∀ r ∈ v.rports, (v.port r).key = k → (v.port r).state ≠ .online
  | .create k => ∀ r, v.Listed r → (v.port r).key ≠ k
  | .device k r | .result k r => (v.port r).key = k
  | .owner _ | .other => True

/-- The two lists hold the live ports, each where its state says. -/
structure View.Lists (v : View) : Prop where
  rports : v.rports.Nodup
  bindings : v.bindings.Nodup
  active : ∀ r ∈ v.rports, (v.port r).live = true ∧
    ((v.port r).state = .online ∨ (v.port r).state = .blocked)
  saved : ∀ r ∈ v.bindings, (v.port r).live = true ∧ (v.port r).state = .notPresent
  listed : ∀ r, (v.port r).live = true → (v.port r).state ≠ .deleted → v.Listed r
  blocked : ∀ r, (v.port r).state = .blocked → r ∈ v.rports
  fresh : ∀ r, v.nextRport ≤ r →
    (v.port r).live = false ∧ (v.port r).targetId = none ∧ (v.port r).hands = false

/-- No id is in use twice. -/
structure View.Ids (v : View) : Prop where
  below : ∀ r i, (v.port r).targetId = some i → i < v.nextTargetId
  distinct : ∀ r r' i, (v.port r).targetId = some i → (v.port r').targetId = some i → r = r'

def View.Names (v : View) : Prop :=
  ∀ r r', v.Listed r → v.Listed r' → (v.port r).key = (v.port r').key → r = r'

/-- One call adds a name, and one has a port in hand, which is online then. -/
structure View.Calls (v : View) (sum : (Role → Nat) → Nat) : Prop where
  adds : ∀ k, sum (Role.adds k) = v.adding.count k ∧ v.adding.count k ≤ 1
  holds : ∀ r, sum (Role.holds r) + (v.port r).hands.toNat ≤ 1
  held : ∀ r, 0 < sum (Role.holds r) + (v.port r).hands.toNat →
    r ∈ v.rports ∧ (v.port r).state = .online

structure View.Bound (v : View) (sum : (Role → Nat) → Nat) : Prop where
  lists : v.Lists
  ids : v.Ids
  names : v.Names
  calls : v.Calls sum

/-- No port is listed twice. -/
theorem View.Lists.nodup {v : View} (h : v.Lists) : (v.rports ++ v.bindings).Nodup := by
  refine List.nodup_append.mpr ⟨h.rports, h.bindings, fun r hr r' hr' heq => ?_⟩
  subst heq
  have hon := (h.active r hr).2
  rw [(h.saved r hr').2] at hon
  simp at hon

/-- What is listed was created, and is not deleted. -/
theorem View.Lists.of_listed {v : View} (h : v.Lists) {r : Nat} (hr : v.Listed r) :
    (v.port r).live = true ∧ (v.port r).state ≠ .deleted ∧ r < v.nextRport := by
  have hlive : (v.port r).live = true ∧ (v.port r).state ≠ .deleted := by
    rcases hr with hr | hr
    · obtain ⟨hlive, hstate | hstate⟩ := h.active r hr <;> simp [hlive, hstate]
    · simp [h.saved r hr]
  refine ⟨hlive.1, hlive.2, ?_⟩
  by_contra hge
  rw [(h.fresh r (Nat.le_of_not_lt hge)).1] at hlive
  cases hlive.1

section Preserved

variable {v v' : View} {ρ ρ' σ : Role} {rest : (Role → Nat) → Nat}

theorem Change.calls (hl : v.Lists) (hc : v.Calls fun w => rest w + w ρ)
    (h : Change v ρ v' ρ') : v'.Calls fun w => rest w + w ρ' := by
  obtain ⟨hrports, hbindings, hactive, hsaved, hlisted, hblocked, hfresh⟩ := hl
  obtain ⟨hadds, hholds, hheld⟩ := hc
  clear hrports hbindings hlisted
  cases h
  case same | missing | device => exact ⟨hadds, hholds, hheld⟩
  all_goals simp only [Role.adds, Role.name, Role.holds, Role.port] at hadds hholds hheld
  all_goals constructor
  all_goals simp only [View.setPort, Role.adds, Role.name, Role.holds, Role.port]
  all_goals try assumption
  all_goals grind -linarith

/-- A change of what the lists do not depend on. -/
theorem View.Lists.congr (hl : v.Lists) (hrports : v'.rports = v.rports)
    (hbindings : v'.bindings = v.bindings) (hnext : v'.nextRport = v.nextRport)
    (hport : ∀ r, (v'.port r).live = (v.port r).live ∧ (v'.port r).state = (v.port r).state)
    (hfresh : ∀ r, v.nextRport ≤ r →
      (v'.port r).targetId = none ∧ (v'.port r).hands = false) : v'.Lists := by
  refine ⟨hrports ▸ hl.rports, hbindings ▸ hl.bindings, fun r hr => ?_, fun r hr => ?_,
    fun r hlive hstate => ?_, fun r hstate => ?_, fun r hr => ?_⟩
  · rw [(hport r).1, (hport r).2]
    exact hl.active r (hrports ▸ hr)
  · rw [(hport r).1, (hport r).2]
    exact hl.saved r (hbindings ▸ hr)
  · rw [(hport r).1] at hlive
    rw [(hport r).2] at hstate
    rw [View.Listed, hrports, hbindings]
    exact hl.listed r hlive hstate
  · rw [(hport r).2] at hstate
    exact hrports ▸ hl.blocked r hstate
  · rw [hnext] at hr
    rw [(hport r).1]
    exact ⟨(hl.fresh r hr).1, hfresh r hr⟩

/-- A port that there is changes in what the lists do not depend on. -/
theorem View.Lists.setPort (hl : v.Lists) {r : Nat} {port : Port} (hr : r < v.nextRport)
    (hport : ∀ r', v'.port r' = if r' = r then port else v.port r')
    (hlive : port.live = (v.port r).live) (hstate : port.state = (v.port r).state)
    (hrports : v'.rports = v.rports) (hbindings : v'.bindings = v.bindings)
    (hnext : v'.nextRport = v.nextRport) : v'.Lists := by
  refine hl.congr hrports hbindings hnext (fun r' => ?_) fun r' hr' => ?_
  · rw [hport]
    split
    · rename_i heq
      rw [heq]
      exact ⟨hlive, hstate⟩
    · exact ⟨rfl, rfl⟩
  · have hne : r' ≠ r := by omega
    rw [hport, if_neg hne]
    exact (hl.fresh r' hr').2

theorem Change.lists (hl : v.Lists) (hc : v.Calls fun w => rest w + w ρ)
    (h : Change v ρ v' ρ') : v'.Lists := by
  have hlt : ∀ r, (v.port r).hands = true → r < v.nextRport := by
    intro r hhands
    by_contra hge
    rw [(hl.fresh r (Nat.le_of_not_lt hge)).2.2] at hhands
    cases hhands
  have hheld := hc.held
  clear hc
  cases h
  case same | missing | device | drop => exact hl
  case begin | quit =>
    exact hl.congr rfl rfl rfl (fun _ => ⟨rfl, rfl⟩) fun r hr => (hl.fresh r hr).2
  case take r hr => exact hl.setPort (hlt r hr) (fun _ => rfl) rfl rfl rfl rfl rfl
  case assign r hr hid => exact hl.setPort hr (fun _ => rfl) rfl rfl rfl rfl rfl
  case hand k r =>
    have hone : Role.holds r (.result k r) = 1 := if_pos rfl
    have hr := (hheld r (by omega)).1
    exact hl.setPort (hl.of_listed (.inl hr)).2.2 (fun _ => rfl) rfl rfl rfl rfl rfl
  all_goals obtain ⟨hrports, hbindings, hactive, hsaved, hlisted, hblocked, hfresh⟩ := hl
  all_goals simp only [Role.holds, Role.port, View.Listed] at hheld hlisted
  all_goals constructor
  all_goals try assumption
  all_goals clear hlt
  all_goals simp only [View.setPort, View.Listed]
  all_goals grind -linarith [List.Nodup.mem_erase_iff, List.nodup_append, List.Nodup.erase]

theorem Change.ids (hl : v.Lists) (hi : v.Ids) (hc : v.Calls fun w => rest w + w ρ)
    (h : Change v ρ v' ρ') : v'.Ids := by
  obtain ⟨hbelow, hdistinct⟩ := hi
  have hheld := hc.held
  have hfresh := hl.fresh
  clear hc hl
  cases h
  all_goals simp only [Role.holds, Role.port] at hheld
  all_goals constructor
  all_goals try assumption
  all_goals simp only [View.setPort]
  all_goals grind -linarith

/-- A port keeps its name. -/
theorem Change.key {r : Nat} (hr : r < v.nextRport) (h : Change v ρ v' ρ') :
    (v'.port r).key = (v.port r).key := by
  have hne : r ≠ v.nextRport := Nat.ne_of_lt hr
  cases h
  all_goals simp only [View.setPort]
  case create => rw [if_neg hne]
  all_goals split
  all_goals first
    | rfl
    | rename_i heq
      rw [heq]

/-- What is listed was listed, or is new and has the name that the call adds. -/
theorem Change.of_listed {r : Nat} (hl : v.Lists) (hr : v'.Listed r) (h : Change v ρ v' ρ') :
    v.Listed r ∨ ∃ k, ρ = .create k ∧ r = v.nextRport ∧ (v'.port r).key = k := by
  have hblocked := hl.blocked
  clear hl
  cases h
  all_goals simp only [View.Listed, View.setPort] at hr ⊢
  all_goals grind -linarith [List.mem_of_mem_erase]

/-- What is online was online, or has the name that the call adds. -/
theorem Change.of_online {r : Nat} (hr : r ∈ v'.rports) (hstate : (v'.port r).state = .online)
    (h : Change v ρ v' ρ') :
    (r ∈ v.rports ∧ (v.port r).state = .online) ∨
      ∃ k, ρ.name = some k ∧ (v'.port r).key = k := by
  cases h
  all_goals simp only [View.setPort, Role.name] at hr hstate ⊢
  all_goals grind -linarith [List.mem_of_mem_erase]

theorem Change.names (hl : v.Lists) (hn : v.Names) (hok : ρ.Ok v) (h : Change v ρ v' ρ') :
    v'.Names := by
  intro r r' hr hr' heq
  rcases h.of_listed hl hr with hold | ⟨k, rfl, hnew, hkey⟩
  · rcases h.of_listed hl hr' with hold' | ⟨k, rfl, -, hkey'⟩
    · rw [h.key (hl.of_listed hold).2.2, h.key (hl.of_listed hold').2.2] at heq
      exact hn r r' hold hold' heq
    · rw [h.key (hl.of_listed hold).2.2] at heq
      exact absurd (heq.trans hkey') (hok r hold)
  · rcases h.of_listed hl hr' with hold' | ⟨k, -, hnew', -⟩
    · rw [h.key (hl.of_listed hold').2.2] at heq
      exact absurd (heq.symm.trans hkey) (hok r' hold')
    · rw [hnew, hnew']

theorem Change.bound (hb : v.Bound fun w => rest w + w ρ) (hok : ρ.Ok v)
    (h : Change v ρ v' ρ') : v'.Bound fun w => rest w + w ρ' where
  lists := h.lists hb.lists hb.calls
  ids := h.ids hb.lists hb.ids hb.calls
  names := h.names hb.lists hb.names hok
  calls := h.calls hb.lists hb.calls

/-- What the call that takes the step knows after it. -/
theorem Change.ok (hb : v.Bound fun w => rest w + w ρ) (hok : ρ.Ok v)
    (h : Change v ρ v' ρ') : ρ'.Ok v' := by
  obtain ⟨⟨hrports, hbindings, hactive, hsaved, hlisted, hblocked, hfresh⟩, hids, hnames, hcalls⟩ :=
    hb
  clear hids hcalls
  cases h
  all_goals simp only [View.setPort, View.Listed, View.Names, Role.Ok] at *
  all_goals grind -linarith

/-- A step leaves what another call knows: only the call that adds a name brings its port
    online. -/
theorem Change.ok_other (hb : v.Bound fun w => rest w + w ρ) (hσ : ∀ w : Role → Nat, w σ ≤ rest w)
    (hok : σ.Ok v) (h : Change v ρ v' ρ') : σ.Ok v' := by
  have hname : ∀ k, σ.name = some k → ρ.name ≠ some k := by
    intro k hk hk'
    have hle := hσ (Role.adds k)
    have hcount := hb.calls.adds k
    simp only [Role.adds, hk, hk', if_true] at hle hcount
    omega
  have hport : ∀ r, σ.port = some r → r < v.nextRport := by
    intro r hr
    have hle := hσ (Role.holds r)
    simp only [Role.holds, hr, if_true] at hle
    have hlisted := (hb.calls.held r (by simp only [Role.holds]; omega)).1
    exact (hb.lists.of_listed (.inl hlisted)).2.2
  cases σ with
  | search k =>
    intro r hr hkey hstate
    rcases h.of_online hr hstate with ⟨hold, hon⟩ | ⟨k', hk', hkey'⟩
    · rw [h.key (hb.lists.of_listed (.inl hold)).2.2] at hkey
      exact hok r hold hkey hon
    · exact hname k rfl (hk'.trans (congrArg some (hkey'.symm.trans hkey)))
  | create k =>
    intro r hr hkey
    rcases h.of_listed hb.lists hr with hold | ⟨k', hk', -, hkey'⟩
    · rw [h.key (hb.lists.of_listed hold).2.2] at hkey
      exact hok r hold hkey
    · refine hname k rfl ?_
      rw [hk', ← hkey, hkey']
      rfl
  | device k r => exact (h.key (hport r rfl)).trans hok
  | result k r => exact (h.key (hport r rfl)).trans hok
  | owner r => trivial
  | other => trivial

/-- A deleted port stays deleted. -/
theorem Change.deleted {r : Nat} (hb : v.Bound fun w => rest w + w ρ) (hr : r < v.nextRport)
    (hstate : (v.port r).state = .deleted) (h : Change v ρ v' ρ') :
    r < v'.nextRport ∧ (v'.port r).state = .deleted := by
  have hsaved := hb.lists.saved
  have hheld := hb.calls.held
  clear hb
  cases h
  all_goals simp only [View.setPort, Role.holds, Role.port] at *
  all_goals grind -linarith

end Preserved

/-! ### The host -/

/-- In `fc_remote_port_rolechg`. -/
def Thread.changes (r : Nat) (t : Thread) : Nat :=
  match t.pc with
  | .roleTest | .roleSection | .roleClear | .roleFlush | .roleFlushWait | .roleScan =>
      if t.rport = r then 1 else 0
  | .cancelFail | .cancelFailFlush | .cancelFailWait | .cancelLoss | .cancelLossFlush
  | .cancelLossWait => if t.caller = .rolechg ∧ t.rport = r then 1 else 0
  | _ => 0

def Shared.Gone (s : Shared) (r : Nat) : Prop :=
  r < s.nextRport ∧ (s.rport r).state = .deleted

/-- The invariant: `changing` counts the changes of roles in progress, and a final delete is
    queued for a deleted port only. -/
structure Bindings (c : Config Shared Thread) : Prop where
  bound : c.shared.view.Bound fun w => total (fun t => w t.role) c.pool
  ok : Each (fun _ t => t.role.Ok c.shared.view) c.pool
  changing : ∀ r, (c.shared.rport r).changing = total (Thread.changes r) c.pool
  final : c.shared.workQ.All fun e => e.kind = .rportDelete → c.shared.Gone e.rport

section Step

variable {a : Choice} {s s' : Shared} {t t' : Thread}

/-- To stop the timers changes nothing that is counted here. -/
theorem stepCancel_frame (h : stepCancel s t = some (s', t')) :
    ∀ r, t'.changes r = t.changes r ∧ (s'.rport r).changing = (s.rport r).changing := by
  unfold stepCancel at h
  cases hpc : t.pc
  all_goals simp only [hpc, reduceCtorEq] at h
  all_goals repeat' split at h
  all_goals simp only [Option.some.injEq, Prod.mk.injEq, reduceCtorEq] at h
  all_goals obtain ⟨rfl, rfl⟩ := h
  all_goals cases hcaller : t.caller
  all_goals simp only [Thread.changes, hpc, hcaller, Caller.next, Shared.upd]
  all_goals grind -linarith

/-- A change of roles begins and ends with its call. -/
theorem step_changing {rest : Nat → Nat} (hsection : t.pc ≠ .rmSection)
    (hnew : (s.rport s.nextRport).changing = 0)
    (hchanging : ∀ r, (s.rport r).changing = rest r + t.changes r)
    (h : step a s t = some (s', t')) :
    ∀ r, (s'.rport r).changing = rest r + t'.changes r := by
  obtain ⟨_, hpc, hs⟩ := stepped h
  cases hs
  case rmSection => exact absurd hpc hsection
  case cancelFail_armed | cancelFail | cancelFailFlush | cancelFailWait | cancelLoss_armed |
      cancelLoss | cancelLossFlush | cancelLossWait =>
    simp only [step, hpc] at h
    intro r
    obtain ⟨hchanges, hport⟩ := stepCancel_frame h r
    rw [hchanges, hport]
    exact hchanging r
  all_goals clear hsection h
  all_goals simp only [Thread.changes, hpc] at hchanging
  all_goals try exact hchanging
  all_goals simp only [Thread.changes, Shared.upd, Shared.startScan, Shared.delete, Shared.endAdd,
    Shared.endRolechg]
  all_goals grind -linarith

/-- A change of roles begins with its call only. -/
theorem step_changing_le (h : step a s t = some (s', t')) (r : Nat) :
    (s'.rport r).changing ≤ (s.rport r).changing := by
  obtain ⟨_, hpc, hs⟩ := stepped h
  clear h
  cases hs
  all_goals try exact Nat.le_refl _
  all_goals simp only [Shared.upd, Shared.startScan, Shared.delete, Shared.endAdd,
    Shared.endRolechg, foldl_delete_rport]
  all_goals grind -linarith

/-- A port without an id is deleted. -/
theorem step_delSection (hpc : t.pc = .delSection) (hid : (s.rport t.rport).targetId = none)
    (h : step a s t = some (s', t')) :
    s'.nextRport = s.nextRport ∧ (s'.rport t.rport).state = .deleted := by
  simp only [step, stepDelete, hpc, hid, if_true, Option.some.injEq, Prod.mk.injEq] at h
  obtain ⟨rfl, -⟩ := h
  simp [Shared.delete, Shared.upd]

theorem enter_changing {call : Call} {rest : Nat → Nat}
    (hchanging : ∀ r, (s.rport r).changing = rest r) (h : enter call s = some (s', t)) :
    ∀ r, (s'.rport r).changing = rest r + t.changes r := by
  cases call
  case runWork | runDevloss | runScsi =>
    simp only [enter] at h
    split at h
    · rename_i q u hrun
      simp only [Option.some.injEq, Prod.mk.injEq] at h
      obtain ⟨rfl, rfl⟩ := h
      obtain ⟨e, -, -, -, -, rfl⟩ := run_eq hrun
      cases hkind : e.kind
      all_goals simp only [Thread.changes, Kind.entry, Nat.add_zero]
      all_goals exact hchanging
    · cases h
  all_goals simp only [enter] at h
  all_goals split at h
  all_goals simp only [Option.some.injEq, Prod.mk.injEq, reduceCtorEq] at h
  all_goals obtain ⟨rfl, rfl⟩ := h
  all_goals simp only [Thread.changes, Shared.upd] at *
  all_goals grind -linarith

end Step

/-- `fc_remove_host` is not called. -/
def attached (_ : Config Shared Thread) : Event Call Choice → Bool
  | .start .removeHost => false
  | _ => true

section Run

variable {c : Config Shared Thread} {call : Call} {i : Nat} {a : Choice} {s : Shared}
  {t t' : Thread}

/-- Before its call a thread adds nothing and holds nothing. -/
theorem Bindings.bound_call (hI : Bindings c) :
    c.shared.view.Bound fun w => total (fun u => w u.role) c.pool + w .other := by
  obtain ⟨hlists, hids, hnames, hadds, hholds, hheld⟩ := hI.bound
  refine ⟨hlists, hids, hnames, ?_⟩
  constructor
  all_goals simp only [Role.adds, Role.name, Role.holds, Role.port, reduceCtorEq, if_false,
    Nat.add_zero] at *
  · exact hadds
  · exact hholds
  · exact hheld

/-- The final delete is of a deleted port. -/
theorem Bindings.gone_of_work (hI : Bindings c) (hW : Workers c) (ht : t ∈ c.pool)
    (hwork : t.work = some .rportDelete) : c.shared.Gone t.rport := by
  obtain ⟨i, hi⟩ := List.mem_iff_getElem?.mp ht
  obtain ⟨n, hn⟩ := hW.item i t hi _ hwork
  have hrunning : c.shared.workQ.running = some ⟨.rportDelete, t.rport, n⟩ := hn
  refine hI.final ⟨.rportDelete, t.rport, n⟩ ?_ rfl
  simp [Queue.entries, hrunning]

theorem Bindings.bound_at (hI : Bindings c) (hi : c.pool[i]? = some t) :
    c.shared.view.Bound fun w => others (fun u => w u.role) c.pool i + w t.role := by
  have hbound := hI.bound
  simp only [total_eq_others _ hi] at hbound
  exact hbound

/-- Nobody changes the roles of a port that is not created. -/
theorem Bindings.changing_fresh (hI : Bindings c)
    (hnames : Each (fun _ t => t.names = true → t.rport < c.shared.nextRport) c.pool) :
    (c.shared.rport c.shared.nextRport).changing = 0 := by
  rw [hI.changing]
  refine total_eq_zero fun u hu => ?_
  obtain ⟨j, hj⟩ := List.mem_iff_getElem?.mp hu
  have hold := hnames j u hj
  have hne : u.names = true → u.rport ≠ c.shared.nextRport := fun hn => Nat.ne_of_lt (hold hn)
  cases hpc : u.pc
  all_goals simp only [Thread.names, hpc, reduceCtorEq, false_implies, forall_const] at hne
  all_goals simp [Thread.changes, hpc, hne]

theorem Bindings.change (hI : Bindings c) (hW : Workers c) (hsection : t.pc ≠ .rmSection)
    (hname : t.names = true → t.rport < c.shared.nextRport)
    (hi : c.pool[i]? = some t) (h : step a c.shared t = some (s, t')) :
    Change c.shared.view t.role s.view t'.role := by
  refine step_change hsection (fun hpc => ?_) (fun hpc => ?_) h
  · exact hname (by simp only [Thread.names, hpc])
  · exact (hI.gone_of_work hW (List.mem_of_getElem? hi) (by simp only [Thread.work, hpc])).2

theorem bindings_enter (h : enter call c.shared = some (s, t)) (hI : Bindings c) :
    Bindings ⟨s, c.pool ++ [t]⟩ := by
  have hchange := enter_change h
  have hbound := hI.bound_call
  constructor
  · simp only [total_append]
    exact hchange.bound hbound trivial
  · refine hI.ok.append (fun i u hu hok => ?_) (hchange.ok hbound trivial)
    exact hchange.ok_other hbound (fun w => le_total (fun u => w u.role) hu) hok
  · simp only [total_append]
    exact enter_changing hI.changing h
  · refine enter_workQ_all (fun e he hkind => ?_) h
    obtain ⟨hlt, hstate⟩ := hI.final e he hkind
    exact hchange.deleted hbound hlt hstate

theorem bindings_step (hW : Workers c) (hsection : t.pc ≠ .rmSection)
    (hnames : Each (fun _ t => t.names = true → t.rport < c.shared.nextRport) c.pool)
    (hi : c.pool[i]? = some t) (h : step a c.shared t = some (s, t')) (hI : Bindings c) :
    Bindings ⟨s, c.pool.set i t'⟩ := by
  have hchange := hI.change hW hsection (hnames i t hi) hi h
  have hbound := hI.bound_at hi
  have hok := hI.ok i t hi
  have hchanging := hI.changing
  simp only [total_eq_others _ hi] at hchanging
  constructor
  · simp only [total_set _ _ hi]
    exact hchange.bound hbound hok
  · refine hI.ok.set (fun j u hji hu hok' => ?_) (hchange.ok hbound hok)
    exact hchange.ok_other hbound (fun w => le_others (fun u => w u.role) hji hu) hok'
  · simp only [total_set _ _ hi]
    exact step_changing hsection (hI.changing_fresh hnames) hchanging h
  · refine step_workQ_all (fun e he hkind => ?_) h (fun _ hkind => by cases hkind)
      (fun hpc hid _ => ?_) (fun hpc => absurd hpc hsection)
    · obtain ⟨hlt, hstate⟩ := hI.final e he hkind
      exact hchange.deleted hbound hlt hstate
    · -- the port was in the hands of the call, so it is one that was created
      have hone : t.role.holds t.rport = 1 := by
        simp [Thread.role, hpc, Role.holds, Role.port]
      have hheld := hbound.calls.held t.rport (by simp only [hone]; omega)
      have hlive := (hbound.lists.active _ hheld.1).1
      obtain ⟨hnext, hstate⟩ := step_delSection hpc hid h
      refine ⟨?_, hstate⟩
      rw [hnext]
      by_contra hnew
      rw [(hbound.lists.fresh _ (Nat.le_of_not_lt hnew)).1] at hlive
      cases hlive

end Run

theorem enter_removes {s s' : Shared} {t : Thread} {call : Call} (hcall : call ≠ .removeHost)
    (h : enter call s = some (s', t)) : t.removes = false := by
  rcases enter_item h with ⟨e, he, rfl⟩ | hpc | hpc | hpc | hpc | ⟨hremove, -⟩
  · cases hkind : e.kind
    all_goals simp [Thread.removes, Kind.entry]
  · simp only [Thread.removes, hpc]
  · simp only [Thread.removes, hpc]
  · simp only [Thread.removes, hpc]
  · simp only [Thread.removes, hpc]
  · exact absurd hremove hcall

theorem step_removes {a : Choice} {s s' : Shared} {t t' : Thread}
    (h : step a s t = some (s', t')) (hremove : t.removes = false) : t'.removes = false := by
  obtain ⟨_, hpc, hs⟩ := stepped h
  clear h
  cases hs
  all_goals try rfl
  case cancelLoss_armed | cancelLossWait => cases t.caller <;> rfl
  all_goals
    rw [Thread.removes, hpc] at hremove
    cases hremove

theorem reach_removes {c : Config Shared Thread}
    (h : machine.Reach (fun c e => attached c e = true) initial c) :
    Each (fun _ t => t.removes = false) c.pool := by
  refine Machine.Reach.invariant (fun c => Each (fun _ t => t.removes = false) c.pool)
    (each_nil _) ?_ ?_ h
  · intro c call s t _ hI hok hs
    refine hI.append (fun _ _ _ hu => hu) (enter_removes ?_ hs)
    rintro rfl
    cases hok
  · intro c i a t s t' _ hI _ hi hs
    exact hI.set (fun _ _ _ _ hu => hu) (step_removes hs (hI i t hi))

theorem ne_rmSection {t : Thread} (h : t.removes = false) : t.pc ≠ .rmSection := by
  intro hpc
  simp only [Thread.removes, hpc, reduceCtorEq] at h

theorem bindings_initial : Bindings initial := by
  constructor
  case bound =>
    refine ⟨?_, ?_, ?_, ?_⟩
    case refine_3 =>
      rintro r r' (hr | hr)
      all_goals cases hr
    all_goals constructor
    all_goals simp [initial, Shared.view, Rport.port]
  all_goals simp [initial, Queue.All, Queue.entries, Queue.empty, each_nil]

theorem reach_bindings {c : Config Shared Thread}
    (h : machine.Reach (fun c e => attached c e = true) initial c) : Bindings c := by
  refine Machine.Reach.invariant Bindings bindings_initial ?_ ?_ h
  · intro c call s t _ hI _ hs
    exact bindings_enter hs hI
  · intro c i a t s t' hc hI _ hi hs
    exact bindings_step (reachable_workers hc.reachable)
      (ne_rmSection (reach_removes hc i t hi)) (reachable_known hc.reachable).2 hi hs hI

/-! ### A binding persists -/

/-- The port is listed under its name with its id, and nobody is creating it. -/
structure Binds (c : Config Shared Thread) (r : Nat) (k : Key) (id : Nat) : Prop where
  listed : c.shared.view.Listed r
  key : (c.shared.rport r).key = k
  targetId : (c.shared.rport r).targetId = some id
  created : ∀ u ∈ c.pool, ¬ (u.pc = .addDevice ∧ u.rport = r)

theorem Change.binds {v v' : View} {ρ ρ' : Role} {rest : (Role → Nat) → Nat} {r id : Nat}
    (hb : v.Bound fun w => rest w + w ρ) (hl : v.Listed r) (hid : (v.port r).targetId = some id)
    (hcreated : ∀ k, ρ ≠ .device k r) (h : Change v ρ v' ρ') :
    v'.Listed r ∧ (v'.port r).key = (v.port r).key ∧ (v'.port r).targetId = some id ∧
      ∀ k, ρ' ≠ .device k r := by
  obtain ⟨⟨hrports, hbindings, hactive, hsaved, -, -, hfresh⟩, -, -, -⟩ := hb
  cases h
  all_goals simp only [View.setPort, View.Listed] at *
  all_goals grind -linarith [List.Nodup.mem_erase_iff]

theorem role_eq_device {t : Thread} {k : Key} {r : Nat} :
    t.role = .device k r ↔ t.pc = .addDevice ∧ t.key = k ∧ t.rport = r := by
  cases hpc : t.pc
  all_goals simp only [Thread.role, hpc, reduceCtorEq, false_and, true_and, Role.device.injEq,
    iff_false, iff_self]
  all_goals split
  all_goals simp only [reduceCtorEq, not_false_eq_true]

theorem binds_of_reach {c c' : Config Shared Thread} {r id : Nat} {k : Key}
    (hc : machine.Reach (fun c e => attached c e = true) initial c) (hbinds : Binds c r k id)
    (h : machine.Reach (fun c e => attached c e = true) c c') : Binds c' r k id := by
  refine Machine.Reach.invariant (fun c => Binds c r k id) hbinds ?_ ?_ h
  · intro d call s t hd hI _ hs
    have hbound := (reach_bindings (hc.trans hd)).bound_call
    obtain ⟨hlisted, hkey, hid, hnew⟩ := (enter_change hs).binds hbound hI.listed
      hI.targetId (fun k' => by simp)
    refine ⟨hlisted, hkey.trans hI.key, hid, fun u hu hdev => ?_⟩
    rcases List.mem_append.mp hu with hu | hu
    · exact hI.created u hu hdev
    · rw [List.mem_singleton.mp hu] at hdev
      exact hnew t.key (role_eq_device.mpr ⟨hdev.1, rfl, hdev.2⟩)
  · intro d i a t s t' hd hI _ hi hs
    have hB := reach_bindings (hc.trans hd)
    have hchange := hB.change (reachable_workers (hc.trans hd).reachable)
      (ne_rmSection (reach_removes (hc.trans hd) i t hi))
      ((reachable_known (hc.trans hd).reachable).2 i t hi) hi hs
    obtain ⟨hlisted, hkey, hid, hnew⟩ := hchange.binds (hB.bound_at hi) hI.listed
      hI.targetId (fun k' hdev => hI.created t (List.mem_of_getElem? hi)
        ⟨(role_eq_device.mp hdev).1, (role_eq_device.mp hdev).2.2⟩)
    refine ⟨hlisted, hkey.trans hI.key, hid, fun u hu hdev => ?_⟩
    rcases List.mem_or_eq_of_mem_set hu with hu | rfl
    · exact hI.created u hu hdev
    · exact hnew u.key (role_eq_device.mpr ⟨hdev.1, rfl, hdev.2⟩)

/-- **Target id bindings.**  In every run of the host before `fc_remove_host`: a live port that
    is not deleted is on one of the two lists, once; the ids of the ports are distinct, and so
    are the names of the listed ports; and when a port that was created and is not deleted has an
    id, every later `fc_remote_port_add` for its name returns it, with this id. -/
theorem target_bindings {c : Config Shared Thread}
    (h : machine.Reach (fun c e => attached c e = true) initial c) :
    (∀ r, (c.shared.rport r).live = true → (c.shared.rport r).state ≠ .deleted →
      (c.shared.rports ++ c.shared.bindings).count r = 1) ∧
    (∀ r r' id, (c.shared.rport r).targetId = some id → (c.shared.rport r').targetId = some id →
      r = r') ∧
    (∀ r ∈ c.shared.rports ++ c.shared.bindings, ∀ r' ∈ c.shared.rports ++ c.shared.bindings,
      (c.shared.rport r).key = (c.shared.rport r').key → r = r') ∧
    ∀ r id, (c.shared.rport r).live = true → (c.shared.rport r).state ≠ .deleted →
      (c.shared.rport r).targetId = some id →
      (∀ u ∈ c.pool, ¬ (u.pc = .addDevice ∧ u.rport = r)) →
      ∀ c', machine.Reach (fun c e => attached c e = true) c c' →
        ∀ t ∈ c'.pool, t.pc = .addReturn → t.key = (c.shared.rport r).key →
          t.rport = r ∧ (c'.shared.rport t.rport).targetId = some id := by
  have hI := reach_bindings h
  obtain ⟨hlists, hids, hnames, -⟩ := hI.bound
  have hmem : ∀ r, r ∈ c.shared.rports ++ c.shared.bindings ↔ c.shared.view.Listed r :=
    fun r => List.mem_append
  refine ⟨fun r hlive hstate => ?_, hids.distinct, fun r hr r' hr' hkey => ?_, ?_⟩
  · have hnodup : (c.shared.rports ++ c.shared.bindings).Nodup := hlists.nodup
    rw [List.Nodup.count hnodup, if_pos ((hmem r).mpr (hlists.listed r hlive hstate))]
  · exact hnames r r' ((hmem r).mp hr) ((hmem r').mp hr') hkey
  · intro r id hlive hstate hid hcreated c' hc' t ht hpc hkey
    have hbinds := binds_of_reach h
      ⟨hlists.listed r hlive hstate, rfl, hid, hcreated⟩ hc'
    have hI' := reach_bindings (h.trans hc')
    obtain ⟨i, hi⟩ := List.mem_iff_getElem?.mp ht
    have hrole : t.role = .result t.key t.rport := by simp only [Thread.role, hpc]
    -- what is returned is listed under the name, and only one port is
    have hheld : t.rport ∈ c'.shared.rports := by
      have hone : t.role.holds t.rport = 1 := by simp [hrole, Role.holds, Role.port]
      exact ((hI'.bound_at hi).calls.held t.rport (by simp only [hone]; omega)).1
    have hown : (c'.shared.rport t.rport).key = t.key := by
      have hok : t.role.Ok c'.shared.view := hI'.ok i t hi
      rw [hrole] at hok
      exact hok
    have hsame : t.rport = r :=
      hI'.bound.names t.rport r (.inl hheld) hbinds.listed
        (hown.trans (hkey.trans hbinds.key.symm))
    exact ⟨hsame, hsame ▸ hbinds.targetId⟩

/-- A port is added as a target. -/
def addRun : List (Event Call Choice) := .start (.add ⟨0, 7⟩ true) :: acts 0 10

/-- The port is deleted, its loss timeout passes, and it comes back. -/
def lossRun : List (Event Call Choice) :=
  List.flatten [[.start (.delete 0)], acts 1 5, [.start (.fireDevLoss 0), .start .runDevloss],
    acts 3 2, [.start .runWork], acts 4 3, [.start (.add ⟨0, 7⟩ true)], acts 5 4]

theorem target_bindings_port_returns :
    ∃ c c', machine.Reach (fun c e => attached c e = true) initial c ∧
      machine.Reach (fun c e => attached c e = true) c c' ∧
      ∃ t ∈ c'.pool, t.pc = .addReturn ∧ t.rport = 0 ∧
        (c'.shared.rport t.rport).targetId = some 0 := by
  obtain ⟨c, c', hc, ho, hc', ho'⟩ := machine.exists_reach_stages attached addRun lossRun initial
    (fun c => ((c.shared.rport 0).live, (c.shared.rport 0).state, (c.shared.rport 0).targetId,
      (c.shared.rport 0).key, c.pool.all fun t => decide (t.pc = .done)))
    (true, .online, some 0, ⟨0, 7⟩, true)
    (fun c => c.pool[5]?.map fun t => (t.pc, t.key)) (some (.addReturn, ⟨0, 7⟩))
    (by decide) (by decide)
  simp only [Prod.mk.injEq, List.all_eq_true, decide_eq_true_eq] at ho
  obtain ⟨hlive, hstate, hid, hkey, hdone⟩ := ho
  have hlisted : (c.shared.rport 0).state ≠ .deleted := by
    rw [hstate]
    decide
  obtain ⟨t, ht, hpc⟩ := Option.map_eq_some_iff.mp ho'
  simp only [Prod.mk.injEq] at hpc
  have hcreated : ∀ u ∈ c.pool, ¬ (u.pc = .addDevice ∧ u.rport = 0) := by
    intro u hu hdev
    rw [hdone u hu] at hdev
    cases hdev.1
  have hmem := List.mem_of_getElem? ht
  obtain ⟨hsame, hid'⟩ := (target_bindings hc).2.2.2 0 0 hlive hlisted hid hcreated c' hc' t
    hmem hpc.1 (hpc.2.trans hkey.symm)
  exact ⟨c, c', hc, hc', t, hmem, hpc.1, hsame, hid'⟩

/-- `device_add` fails for a port that has got id 0; added again, its name gets id 1.  In the
    second run the driver deletes a port while it makes a target of it: the deleted port has got
    id 0, and its name gets id 1. -/
theorem id_of_failed_add :
    (∃ c c', machine.Reach (fun c e => attached c e = true) initial c ∧
      ((c.shared.rport 0).live = true ∧ (c.shared.rport 0).key = ⟨0, 7⟩ ∧
        (c.shared.rport 0).targetId = some 0) ∧
      machine.Reach (fun c e => attached c e = true) c c' ∧
      ∃ t ∈ c'.pool, t.pc = .addReturn ∧ t.key = ⟨0, 7⟩ ∧
        (c'.shared.rport t.rport).targetId = some 1) ∧
    ∃ c c', machine.Reach (fun c e => attached c e = true) initial c ∧
      ((c.shared.rport 0).live = true ∧ (c.shared.rport 0).key = ⟨0, 7⟩ ∧
        (c.shared.rport 0).targetId = some 0) ∧
      machine.Reach (fun c e => attached c e = true) c c' ∧
      ∃ t ∈ c'.pool, t.pc = .addReturn ∧ t.key = ⟨0, 7⟩ ∧
        (c'.shared.rport t.rport).targetId = some 1 := by
  constructor
  · obtain ⟨c, c', hc, ho, hc', ho'⟩ := machine.exists_reach_stages attached
      (.start (.add ⟨0, 7⟩ true) :: acts 0 5)
      (.act 0 { fails := true } :: .start (.add ⟨0, 7⟩ true) :: acts 1 9) initial
      (fun c => ((c.shared.rport 0).live, (c.shared.rport 0).key, (c.shared.rport 0).targetId))
      (true, ⟨0, 7⟩, some 0)
      (fun c => c.pool.any fun t => decide (t.pc = .addReturn ∧ t.key = ⟨0, 7⟩ ∧
        (c.shared.rport t.rport).targetId = some 1))
      true (by decide) (by decide)
    simp only [Prod.mk.injEq, List.any_eq_true, decide_eq_true_eq] at ho ho'
    exact ⟨c, c', hc, ho, hc', ho'⟩
  · obtain ⟨c, c', hc, ho, hc', ho'⟩ := machine.exists_reach_stages attached
      (List.flatten [[.start (.add ⟨0, 7⟩ false)], acts 0 7, [.start (.rolechg 0 true)], acts 1 1,
        [.start (.delete 0)], acts 2 2, acts 1 1])
      (List.flatten [[.start .runWork], acts 3 6, [.start (.add ⟨0, 7⟩ true)], acts 4 9]) initial
      (fun c => ((c.shared.rport 0).live, (c.shared.rport 0).key, (c.shared.rport 0).targetId))
      (true, ⟨0, 7⟩, some 0)
      (fun c => c.pool.any fun t => decide (t.pc = .addReturn ∧ t.key = ⟨0, 7⟩ ∧
        (c.shared.rport t.rport).targetId = some 1))
      true (by decide) (by decide)
    simp only [Prod.mk.injEq, List.any_eq_true, decide_eq_true_eq] at ho ho'
    exact ⟨c, c', hc, ho, hc', ho'⟩

end VmkLinux.Scsi.Fc
