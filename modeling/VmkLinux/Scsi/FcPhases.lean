/-
  VmkLinux/Scsi/FcPhases.lean
  ===========================
  **Before and after `fc_remove_host` takes the ports.**  Up to its section the bindings hold
  (`Bindings`), and a call of the driver that has a port has a listed one.  The section deletes
  all listed ports.  After it (`After`) only a call of `fc_remote_port_add` that had passed its
  test of `VMKLNX_FC_HOST_REMOVING` and had no port yet goes on; the ports it creates are new
  ones, and the old ones keep what they have.
-/
import VmkLinux.Scsi.FcBindings
import VmkLinux.Scsi.FcWork

namespace VmkLinux.Scsi.Fc

open VmkLinux.Interleave

/-! ### Calls that have a port -/

/-- A call of the driver, past its test of `VMKLNX_FC_HOST_REMOVING`, will do something to the
    port. -/
def Thread.active (r : Nat) (t : Thread) : Bool :=
  match t.pc with
  | .addDevice | .addScanFlag | .addScanInc | .addScanQueue | .addRestart
  | .delSection | .delBlock | .delArmFail | .delArmLoss
  | .roleClear | .roleFlush | .roleFlushWait | .roleScan => decide (t.rport = r)
  | .roleSection => decide (t.target = true ∧ t.rport = r)
  | .cancelFail | .cancelFailFlush | .cancelFailWait | .cancelLoss | .cancelLossFlush
  | .cancelLossWait => decide (t.caller ≠ .stgtDelete ∧ t.rport = r)
  | _ => false

/-- `fc_rport_create` is not through with the port. -/
def Thread.creates (r : Nat) (t : Thread) : Bool :=
  match t.pc with
  | .addDevice | .addScanFlag | .addScanInc | .addScanQueue => decide (t.rport = r)
  | _ => false

section Step

variable {a : Choice} {s s' : Shared} {t t' : Thread} {r : Nat}

theorem active_names (h : t.active r = true) : t.names = true ∧ t.rport = r := by
  unfold Thread.active at h
  unfold Thread.names
  cases hpc : t.pc
  all_goals simp [hpc] at h ⊢
  all_goals simp [h]

theorem stepCancel_active (h : stepCancel s t = some (s', t')) :
    t'.active r = t.active r := by
  unfold stepCancel at h
  cases hpc : t.pc
  all_goals simp only [hpc, reduceCtorEq] at h
  all_goals repeat' split at h
  all_goals simp only [Option.some.injEq, Prod.mk.injEq, reduceCtorEq] at h
  all_goals obtain ⟨rfl, rfl⟩ := h
  all_goals cases hcaller : t.caller
  all_goals simp [Thread.active, hpc, hcaller, Caller.next]

theorem step_active (h : step a s t = some (s', t')) (hr : t'.active r = true) :
    t.active r = true ∨ (t.pc = .addCreate ∧ r = s.nextRport) ∨
      (t.pc = .addSearch ∧ (s.findBlocked t.key).or (s.findBinding t.key) = some r) ∨
      ((t.pc = .delTest ∨ t.pc = .roleTest) ∧ s.removing = false) := by
  obtain ⟨_, hpc, hs⟩ := stepped h
  cases hs
  case cancelFail_armed | cancelFail | cancelFailFlush | cancelFailWait | cancelLoss_armed |
      cancelLoss | cancelLossFlush | cancelLossWait =>
    simp only [step, hpc] at h
    exact .inl (stepCancel_active h ▸ hr)
  all_goals clear h
  all_goals try exact absurd hr Bool.false_ne_true
  all_goals simp only [Thread.active, hpc] at hr ⊢
  all_goals grind -linarith

end Step

/-! ### One removal -/

def Thread.removal (t : Thread) : Nat := if t.removes then 1 else 0

/-- There is one `fc_remove_host`, and it has set its flag before its section. -/
structure OneRemoval (c : Config Shared Thread) : Prop where
  one : total Thread.removal c.pool ≤ c.shared.removeCalled.toNat
  flag : ∀ t ∈ c.pool, t.pc = .rmSection → c.shared.removing = true

section Removal

variable {a : Choice} {s s' : Shared} {t t' : Thread}

theorem foldl_delete_flags (l : List Nat) (s : Shared) :
    (l.foldl Shared.delete s).removing = s.removing ∧
      (l.foldl Shared.delete s).removeCalled = s.removeCalled := by
  induction l generalizing s with
  | nil => exact ⟨rfl, rfl⟩
  | cons r l ih => exact ih (s.delete r)

theorem step_removal (h : step a s t = some (s', t')) :
    t'.removal ≤ t.removal ∧ s'.removeCalled = s.removeCalled ∧
      (s.removing = true → s'.removing = true) ∧
      (t'.pc = .rmSection → t.pc = .rmFlag ∧ s'.removing = true) ∧ t'.pc ≠ .rmFlag := by
  obtain ⟨_, hpc, hs⟩ := stepped h
  clear h
  cases hs
  all_goals try exact ⟨Nat.zero_le _, rfl, id, nofun, nofun⟩
  all_goals simp [Thread.removal, Thread.removes, hpc, Shared.upd, foldl_delete_flags]
  all_goals cases t.caller <;> simp [Caller.next]

theorem enter_removal {call : Call} (h : enter call s = some (s', t)) :
    s'.removing = s.removing ∧ t.pc ≠ .rmSection ∧
      (t.removal = 0 ∧ s'.removeCalled = s.removeCalled ∨
        s.removeCalled = false ∧ s'.removeCalled = true ∧ t.removal = 1) := by
  have hentry : ∀ e : Entry, e.kind.entry ≠ .rmSection ∧
      ({ pc := e.kind.entry, rport := e.rport } : Thread).removal = 0 := by
    intro e
    cases e.kind <;> simp [Kind.entry, Thread.removal, Thread.removes]
  cases call
  all_goals simp only [enter] at h
  all_goals split at h
  all_goals simp only [Option.some.injEq, Prod.mk.injEq, reduceCtorEq] at h
  all_goals obtain ⟨rfl, rfl⟩ := h
  case add | delete | rolechg | removeHost | fireFailIo | fireDevLoss =>
    simp_all [Thread.removal, Thread.removes, Shared.upd]
  all_goals
    rename_i hrun
    obtain ⟨e, -, -, -, -, rfl⟩ := run_eq hrun
    exact ⟨rfl, (hentry e).1, .inl ⟨(hentry e).2, rfl⟩⟩

end Removal

theorem reachable_oneRemoval {c : Config Shared Thread} (h : machine.Reachable initial c) :
    OneRemoval c := by
  refine Machine.Reach.invariant OneRemoval ?_ ?_ ?_ h
  · exact ⟨Nat.le_refl _, fun t ht => by cases ht⟩
  · intro c call s t _ hI _ hs
    obtain ⟨hflag, hpc, hone⟩ := enter_removal hs
    constructor
    · have hold := hI.one
      rw [total_append]
      rcases hone with ⟨hzero, hsame⟩ | ⟨hfalse, htrue, hnew⟩
      · rw [hzero, hsame]
        exact hold
      · rw [hfalse] at hold
        simp only [htrue, hnew, Bool.toNat_true, Bool.toNat_false] at hold ⊢
        omega
    · intro u hu hsection
      rcases List.mem_append.mp hu with hu | hu
      · rw [hflag]
        exact hI.flag u hu hsection
      · rw [List.mem_singleton.mp hu] at hsection
        exact absurd hsection hpc
  · intro c i a t s t' _ hI _ hi hs
    obtain ⟨hle, hcalled, hstays, hflag, -⟩ := step_removal hs
    constructor
    · have hold := hI.one
      rw [total_eq_others _ hi] at hold
      rw [total_set _ _ hi, hcalled]
      omega
    · intro u hu hsection
      rcases List.mem_or_eq_of_mem_set hu with hu | rfl
      · exact hstays (hI.flag u hu hsection)
      · exact (hflag hsection).2

/-! ### After the section -/

/-- The ports below `n` were taken by the section; those from `n` on were created since. -/
structure After (n : Nat) (c : Config Shared Thread) : Prop where
  removing : c.shared.removing = true
  called : c.shared.removeCalled = true
  passed : ∀ t ∈ c.pool, t.pc ≠ .rmFlag ∧ t.pc ≠ .rmSection
  first : n ≤ c.shared.nextRport
  bindings : c.shared.bindings = []
  rports : c.shared.rports.Nodup ∧ ∀ r ∈ c.shared.rports, n ≤ r ∧ (c.shared.rport r).live = true
  old : ∀ r, r < n → (c.shared.rport r).state ≠ .blocked ∧
    ((c.shared.rport r).live = true → (c.shared.rport r).state = .deleted)
  new : ∀ r, n ≤ r → r < c.shared.nextRport → (c.shared.rport r).state = .online
  calls : ∀ t ∈ c.pool, ∀ r, t.active r = true → n ≤ r ∧ r < c.shared.nextRport ∧
    (c.shared.rport r).live = true ∧ t.creates r = true
  one : ∀ r, total (fun t => (t.active r).toNat) c.pool ≤ 1
  final : c.shared.workQ.All fun e =>
    e.kind = .rportDelete → e.rport < n ∧ (c.shared.rport e.rport).state = .deleted

section After

variable {c : Config Shared Thread} {call : Call} {i j n : Nat} {a : Choice} {s s' : Shared}
  {t t' u : Thread} {r : Nat}

/-- What a step of a call that is not taken by surprise does to the ports. -/
theorem step_after (hfirst : n ≤ s.nextRport)
    (hbindings : s.bindings = []) (hrports : s.rports.Nodup ∧ ∀ r ∈ s.rports, n ≤ r ∧
      (s.rport r).live = true)
    (hold : ∀ r, r < n → (s.rport r).state ≠ .blocked ∧
      ((s.rport r).live = true → (s.rport r).state = .deleted))
    (hnew : ∀ r, n ≤ r → r < s.nextRport → (s.rport r).state = .online)
    (hcall : ∀ r, t.active r = true → n ≤ r ∧ r < s.nextRport ∧ (s.rport r).live = true ∧
      t.creates r = true)
    (hpassed : t.pc ≠ .rmFlag ∧ t.pc ≠ .rmSection) (hlisted : ∀ r ∈ s.rports, r < s.nextRport)
    (hloss : t.pc = .tmoSection → t.rport < s.nextRport)
    (hfinal : t.pc = .fdFree → (s.rport t.rport).state = .deleted ∧ t.rport < s.nextRport)
    (h : step a s t = some (s', t')) :
    n ≤ s'.nextRport ∧ s'.bindings = [] ∧
      (s'.rports.Nodup ∧ ∀ r ∈ s'.rports, n ≤ r ∧ (s'.rport r).live = true) ∧
      (∀ r, r < n → (s'.rport r).state ≠ .blocked ∧
        ((s'.rport r).live = true → (s'.rport r).state = .deleted)) ∧
      (∀ r, n ≤ r → r < s'.nextRport → (s'.rport r).state = .online) ∧
      ∀ r, r < n → (s'.rport r).state = (s.rport r).state := by
  have hown := hcall t.rport
  clear hcall
  obtain ⟨_, hpc, hs⟩ := stepped h
  clear h
  cases hs
  all_goals try exact ⟨hfirst, hbindings, hrports, hold, hnew, fun _ _ => rfl⟩
  case rmSection => exact absurd hpc hpassed.2
  all_goals simp only [Thread.active, Thread.creates, hpc, reduceCtorEq, decide_true, forall_const,
    and_false] at hown
  all_goals simp only [Shared.upd, Shared.startScan, Shared.endAdd, Shared.endRolechg]
  all_goals grind -linarith [→ Shared.mem_of_findBlocked, → Shared.mem_of_findBinding,
    List.Nodup.mem_erase_iff, List.nodup_append, List.Nodup.erase]

theorem step_live (h : step a s t = some (s', t')) (hr : (s.rport r).live = true) :
    (s'.rport r).live = true ∨ (t.pc = .fdFree ∧ t.rport = r) ∨
      (t.pc = .addDevice ∧ t.rport = r ∧ t'.pc = .done) := by
  obtain ⟨_, hpc, hs⟩ := stepped h
  clear h
  cases hs
  all_goals try exact .inl hr
  all_goals simp only [Shared.upd, Shared.startScan, Shared.delete, Shared.endAdd,
    Shared.endRolechg, foldl_delete_rport]
  all_goals grind -linarith

/-- A creation goes on to the return of `fc_remote_port_add`. -/
theorem step_creating (h : step a s t = some (s', t'))
    (hr : t.creates r = true) (hactive : t'.active r = true) : t'.creates r = true := by
  unfold step at h
  unfold Thread.creates at hr
  cases hpc : t.pc
  all_goals simp only [hpc, Bool.false_eq_true] at hr h
  all_goals simp only [stepAdd, hpc] at h
  all_goals repeat' split at h
  all_goals simp only [Option.some.injEq, Prod.mk.injEq] at h
  all_goals obtain ⟨rfl, rfl⟩ := h
  all_goals simp_all [Thread.active, Thread.creates]

theorem step_created (hpc : t.pc = .addCreate) (h : step a s t = some (s', t'))
    (hactive : t'.active s.nextRport = true) :
    t'.creates s.nextRport = true ∧ s.nextRport < s'.nextRport ∧
      (s'.rport s.nextRport).live = true := by
  simp only [step, stepAdd, hpc] at h
  split at h
  · obtain ⟨rfl, rfl⟩ := Prod.mk.inj (Option.some.inj h)
    cases hactive
  · obtain ⟨rfl, rfl⟩ := Prod.mk.inj (Option.some.inj h)
    simp [Thread.creates, Shared.upd]

theorem After.final_of_work (hI : After n c) (hW : Workers c) (hi : c.pool[i]? = some t)
    (hwork : t.work = some .rportDelete) :
    t.rport < n ∧ (c.shared.rport t.rport).state = .deleted := by
  obtain ⟨m, hrun⟩ := hW.item i t hi _ hwork
  have hrun' : c.shared.workQ.running = some ⟨.rportDelete, t.rport, m⟩ := hrun
  exact hI.final ⟨.rportDelete, t.rport, m⟩ (by simp [Queue.entries, hrun']) rfl

theorem after_ports (hI : After n c) (hk : Known c.shared) (hW : Workers c)
    (hnames : t.names = true → t.rport < c.shared.nextRport) (hi : c.pool[i]? = some t)
    (h : step a c.shared t = some (s, t')) :
    n ≤ s.nextRport ∧ s.bindings = [] ∧
      (s.rports.Nodup ∧ ∀ r ∈ s.rports, n ≤ r ∧ (s.rport r).live = true) ∧
      (∀ r, r < n → (s.rport r).state ≠ .blocked ∧
        ((s.rport r).live = true → (s.rport r).state = .deleted)) ∧
      (∀ r, n ≤ r → r < s.nextRport → (s.rport r).state = .online) ∧
      ∀ r, r < n → (s.rport r).state = (c.shared.rport r).state := by
  have ht := List.mem_of_getElem? hi
  refine step_after hI.first hI.bindings hI.rports hI.old hI.new (hI.calls t ht)
    (hI.passed t ht) (fun r hr => hk.listed r (.inl hr)) (fun hpc => ?_) (fun hpc => ⟨?_, ?_⟩) h
  · exact hnames (by simp only [Thread.names, hpc])
  · exact (hI.final_of_work hW hi (by simp [Thread.work, hpc])).2
  · exact hnames (by simp only [Thread.names, hpc])

theorem after_step (hI : After n c) (hk : Known c.shared) (hW : Workers c)
    (hnames : t.names = true → t.rport < c.shared.nextRport) (hi : c.pool[i]? = some t)
    (h : step a c.shared t = some (s, t')) : After n ⟨s, c.pool.set i t'⟩ := by
  have ht := List.mem_of_getElem? hi
  have hnext := step_nextRport h
  have hfinal : t.pc = .fdFree → (c.shared.rport t.rport).state = .deleted := fun hpc =>
    (hI.final_of_work hW hi (by simp [Thread.work, hpc])).2
  obtain ⟨-, hcalled, hremoving, hsection, hflag⟩ := step_removal h
  obtain ⟨hfirst, hbindings, hrports, hold, hnew, hsame⟩ := after_ports hI hk hW hnames hi h
  -- a port that was created since is freed by the failed creation only
  have hlive : ∀ r, n ≤ r → r < c.shared.nextRport → (c.shared.rport r).live = true →
      (s.rport r).live = true ∨ (t.active r = true ∧ t'.active r = false) := by
    intro r hn hlt hlive
    rcases step_live h hlive with hlive' | ⟨hpc, rfl⟩ | ⟨hpc, rfl, hdone⟩
    · exact .inl hlive'
    · have honline := hI.new t.rport hn hlt
      rw [hfinal hpc] at honline
      cases honline
    · exact .inr ⟨by simp [Thread.active, hpc], by simp [Thread.active, hdone]⟩
  have hnofind : (c.shared.findBlocked t.key).or (c.shared.findBinding t.key) = none := by
    by_contra hsome
    obtain ⟨r, hfind⟩ := Option.ne_none_iff_exists'.mp hsome
    rw [Option.or_eq_some_iff] at hfind
    rcases hfind with hfind | ⟨-, hfind⟩
    · obtain ⟨hmem, hblocked, -⟩ := Shared.mem_of_findBlocked hfind
      rw [hI.new r (hI.rports.2 r hmem).1 (hk.listed r (.inl hmem))] at hblocked
      cases hblocked
    · have hmem := (Shared.mem_of_findBinding hfind).1
      rw [hI.bindings] at hmem
      cases hmem
  have hone : ∀ r, t'.active r = true → t.active r = true ∨ r = c.shared.nextRport := by
    intro r hr
    rcases step_active h hr with hold | ⟨-, rfl⟩ | ⟨-, hfind⟩ | ⟨-, hfalse⟩
    · exact .inl hold
    · exact .inr rfl
    · rw [hnofind] at hfind
      cases hfind
    · rw [hI.removing] at hfalse
      cases hfalse
  have hnobody : ∀ u ∈ c.pool, u.active c.shared.nextRport = false := by
    intro u hu
    by_contra hactive
    rw [Bool.not_eq_false] at hactive
    have hlt := (hI.calls u hu _ hactive).2.1
    omega
  have hcreated : t'.active c.shared.nextRport = true → t.pc = .addCreate ∧
      t'.creates c.shared.nextRport = true ∧ c.shared.nextRport < s.nextRport ∧
      (s.rport c.shared.nextRport).live = true := by
    intro hactive
    have hpc : t.pc = .addCreate := by
      rcases step_active h hactive with hold | ⟨hpc, -⟩ | ⟨-, hfind⟩ | ⟨-, hfalse⟩
      · rw [hnobody t ht] at hold
        cases hold
      · exact hpc
      · rw [hnofind] at hfind
        cases hfind
      · rw [hI.removing] at hfalse
        cases hfalse
    exact ⟨hpc, step_created hpc h hactive⟩
  refine ⟨hremoving hI.removing, hcalled.trans hI.called, fun u hu => ?_, hfirst, hbindings,
    hrports, hold, hnew, ?_, fun r => ?_, ?_⟩
  · rcases List.mem_or_eq_of_mem_set hu with hu | rfl
    · exact hI.passed u hu
    · exact ⟨hflag, fun hpc => (hI.passed t ht).1 (hsection hpc).1⟩
  · intro u hu r hr
    rcases eq_or_exists_of_mem_set hu with rfl | ⟨j, hji, hj⟩
    · rcases hone r hr with hactive | rfl
      · obtain ⟨hn, hlt, hlive', hpc⟩ := hI.calls t ht r hactive
        refine ⟨hn, Nat.lt_of_lt_of_le hlt hnext, ?_, step_creating h hpc hr⟩
        refine (hlive r hn hlt hlive').resolve_right fun hend => ?_
        rw [hr] at hend
        cases hend.2
      · obtain ⟨-, hcreates, hlt, hlive'⟩ := hcreated hr
        exact ⟨hI.first, hlt, hlive', hcreates⟩
    · obtain ⟨hn, hlt, hlive', hpc⟩ := hI.calls u (List.mem_of_getElem? hj) r hr
      refine ⟨hn, Nat.lt_of_lt_of_le hlt hnext, ?_, hpc⟩
      -- only one call has the port
      refine (hlive r hn hlt hlive').resolve_right fun hend => ?_
      have hle := le_others (fun u => (u.active r).toNat) hji hj
      have hsum := hI.one r
      rw [total_eq_others _ hi] at hsum
      simp only [hr, hend.1, Bool.toNat_true] at hle hsum
      omega
  · have hle := hI.one r
    rw [total_eq_others _ hi] at hle
    rw [total_set _ _ hi]
    cases hr : t'.active r with
    | false => simp only [Bool.toNat_false]; omega
    | true =>
      rcases hone r hr with hactive | rfl
      · simp only [hactive, Bool.toNat_true] at hle ⊢
        exact hle
      · rw [others_eq_zero hi (fun u hu => by rw [hnobody u hu]; rfl)]
        simp
  · refine step_workQ_all (fun e he hkind => ?_) h (fun _ hkind => ?_) (fun hpc _ => ?_)
      fun hpc => ?_
    · obtain ⟨hlt, hdeleted⟩ := hI.final e he hkind
      exact ⟨hlt, (hsame _ hlt).trans hdeleted⟩
    · cases hkind
    · obtain ⟨-, -, -, hcreates⟩ := hI.calls t ht t.rport (by simp [Thread.active, hpc])
      simp [Thread.creates, hpc] at hcreates
    · exact absurd hpc (hI.passed t ht).2

theorem enter_active (h : enter call c.shared = some (s, t)) (r : Nat) : t.active r = false := by
  rcases enter_item h with ⟨e, -, rfl⟩ | hpc | hpc | hpc | hpc | ⟨-, hpc⟩
  · cases hkind : e.kind
    all_goals simp [Thread.active, Kind.entry]
  all_goals simp [Thread.active, hpc]

theorem after_enter (hI : After n c) (h : enter call c.shared = some (s, t)) :
    After n ⟨s, c.pool ++ [t]⟩ := by
  obtain ⟨hnext, hrports, hbindings, -⟩ := enter_ports h
  obtain ⟨hremoving, hsection, hone⟩ := enter_removal h
  have hport := fun r => enter_port h r
  have hcalled : t.removal = 0 ∧ s.removeCalled = c.shared.removeCalled := by
    refine hone.resolve_right fun hfirst => ?_
    rw [hI.called] at hfirst
    cases hfirst.1
  constructor
  case removing => exact hremoving.trans hI.removing
  case called => exact hcalled.2.trans hI.called
  case passed =>
    intro u hu
    rcases List.mem_append.mp hu with hu | hu
    · exact hI.passed u hu
    · rw [List.mem_singleton.mp hu]
      refine ⟨fun hflag => ?_, hsection⟩
      have hzero := hcalled.1
      simp [Thread.removal, Thread.removes, hflag] at hzero
  case first => exact hnext ▸ hI.first
  case bindings => exact hbindings.trans hI.bindings
  case rports =>
    show s.rports.Nodup ∧ ∀ r ∈ s.rports, n ≤ r ∧ (s.rport r).live = true
    rw [hrports]
    refine ⟨hI.rports.1, fun r hr => ?_⟩
    rw [(hport r).2.2.1]
    exact hI.rports.2 r hr
  case old =>
    intro r hr
    show (s.rport r).state ≠ .blocked ∧ ((s.rport r).live = true → (s.rport r).state = .deleted)
    rw [(hport r).2.1, (hport r).2.2.1]
    exact hI.old r hr
  case new =>
    intro r hr hlt
    exact (hport r).2.1.trans (hI.new r hr (hnext ▸ hlt))
  case calls =>
    intro u hu r hr
    rcases List.mem_append.mp hu with hu | hu
    · obtain ⟨hn, hlt, hlive, hpc⟩ := hI.calls u hu r hr
      exact ⟨hn, hnext ▸ hlt, (hport r).2.2.1.trans hlive, hpc⟩
    · rw [List.mem_singleton.mp hu, enter_active h r] at hr
      cases hr
  case one =>
    intro r
    rw [total_append, enter_active h r]
    exact hI.one r
  case final =>
    refine enter_workQ_all (fun e he hkind => ?_) h
    obtain ⟨hlt, hdeleted⟩ := hI.final e he hkind
    exact ⟨hlt, (hport e.rport).2.1.trans hdeleted⟩

theorem foldl_delete_erased : ∀ (l : List Nat) (s : Shared), s.rports.Nodup → s.bindings.Nodup →
    ∀ r ∈ l, r ∉ (l.foldl Shared.delete s).rports ∧ r ∉ (l.foldl Shared.delete s).bindings := by
  intro l
  induction l with
  | nil => exact fun _ _ _ _ hr => absurd hr List.not_mem_nil
  | cons a l ih =>
    intro s hrports hbindings r hr
    have hrest := ih (s.delete a) (hrports.erase a) (hbindings.erase a)
    rcases List.mem_cons.mp hr with rfl | hr
    · obtain ⟨-, hsub, hsub'⟩ := foldl_delete_lists l (s.delete r)
      exact ⟨fun hin => (hrports.not_mem_erase) (hsub r hin),
        fun hin => (hbindings.not_mem_erase) (hsub' r hin)⟩
    · exact hrest r hr

/-- The section takes the ports. -/
theorem after_section (hI : Bindings c) (hO : OneRemoval c)
    (hquiet : ∀ t ∈ c.pool, ∀ r, t.active r = false) (hi : c.pool[i]? = some t)
    (hpc : t.pc = .rmSection) (h : step a c.shared t = some (s, t')) :
    After c.shared.nextRport ⟨s, c.pool.set i t'⟩ := by
  have ht := List.mem_of_getElem? hi
  obtain ⟨hrports, hbindings, -, -, hlisted, hblocked, -⟩ := hI.bound.lists
  have hstep := h
  simp only [step, stepRemove, hpc] at h
  obtain ⟨rfl, rfl⟩ := Prod.mk.inj (Option.some.inj h)
  obtain ⟨hremoving, hcalled⟩ := foldl_delete_flags (c.shared.rports ++ c.shared.bindings) c.shared
  obtain ⟨hnext, hsub, hsub'⟩ := foldl_delete_lists (c.shared.rports ++ c.shared.bindings) c.shared
  have herased := foldl_delete_erased (c.shared.rports ++ c.shared.bindings) c.shared hrports
    hbindings
  have hport := foldl_delete_rport (c.shared.rports ++ c.shared.bindings) c.shared
  have hone : t.removal = 1 := by simp [Thread.removal, Thread.removes, hpc]
  have htotal := hO.one
  rw [total_eq_others _ hi, hone] at htotal
  have hknown : ∀ r ∈ c.shared.rports ++ c.shared.bindings, r < c.shared.nextRport :=
    fun r hr => (hI.bound.lists.of_listed (List.mem_append.mp hr)).2.2
  constructor
  case removing => exact hremoving.trans (hO.flag t ht hpc)
  case called =>
    refine hcalled.trans ?_
    by_contra hfalse
    rw [Bool.not_eq_true] at hfalse
    rw [hfalse, Bool.toNat_false] at htotal
    omega
  case passed =>
    intro u hu
    rcases eq_or_exists_of_mem_set hu with rfl | ⟨j, hji, hj⟩
    · exact ⟨by simp, by simp⟩
    · -- there is one `fc_remove_host`
      have hle := le_others Thread.removal hji hj
      have hflag : c.shared.removeCalled.toNat ≤ 1 := Bool.toNat_le _
      refine ⟨fun hpc' => ?_, fun hpc' => ?_⟩ <;>
        simp only [Thread.removal, Thread.removes, hpc', if_true] at hle <;> omega
  case first => exact Nat.le_of_eq hnext.symm
  case bindings =>
    refine List.eq_nil_iff_forall_not_mem.mpr fun r hr => ?_
    exact (herased r (List.mem_append_right _ (hsub' r hr))).2 hr
  case rports =>
    have hnil : ((c.shared.rports ++ c.shared.bindings).foldl Shared.delete c.shared).rports = [] :=
      List.eq_nil_iff_forall_not_mem.mpr fun r hr =>
        (herased r (List.mem_append_left _ (hsub r hr))).1 hr
    rw [hnil]
    exact ⟨List.nodup_nil, fun r hr => absurd hr List.not_mem_nil⟩
  case old =>
    intro r hr
    simp only [hport]
    split
    · simp
    · rename_i hnot
      refine ⟨fun hstate => ?_, fun hlive => ?_⟩
      · exact hnot (List.mem_append_left _ (hblocked r hstate))
      · by_contra hstate
        exact hnot (List.mem_append.mpr (hlisted r hlive hstate))
  case new =>
    intro r hr hlt
    rw [hnext] at hlt
    omega
  case calls =>
    intro u hu r hr
    rcases List.mem_or_eq_of_mem_set hu with hu | rfl
    · rw [hquiet u hu r] at hr
      cases hr
    · cases hr
  case one =>
    intro r
    rw [total_set _ _ hi, others_eq_zero hi fun u hu => by rw [hquiet u hu r]; rfl]
    exact Nat.zero_le 1
  case final =>
    refine step_workQ_all (fun e he hkind => ?_) hstep (fun _ hkind => ?_) (fun hpc' => ?_)
      fun _ r hr m _ => ?_
    · obtain ⟨hlt, hdeleted⟩ := hI.final e he hkind
      refine ⟨hlt, ?_⟩
      simp only [hport]
      split
      · rfl
      · exact hdeleted
    · cases hkind
    · rw [hpc] at hpc'
      cases hpc'
    · refine ⟨hknown r hr, ?_⟩
      simp only [hport]
      rw [if_pos hr]

end After

end VmkLinux.Scsi.Fc
