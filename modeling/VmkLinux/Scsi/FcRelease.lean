/-
  VmkLinux/Scsi/FcRelease.lean
  ============================
  **When a port is freed.**  The final delete of a port flushes what the two flags of the port
  tell it to flush.  Where they tell the truth at the time `fc_remove_host` takes the ports, and
  no call of the driver has one of them (`calm`), nothing that the port owns is outstanding when
  it is freed, nor later (`release_idle`).

  Neither condition is the code's own: `fc_remote_port_delete` arms the timers after it has
  dropped the lock, a scan clears the flag of the scan that was queued behind it, and
  `fc_remote_port_delete` deletes a port whose roles are being changed (`freed_with_work`).
-/
import VmkLinux.Scsi.FcFlags

namespace VmkLinux.Scsi.Fc

open VmkLinux.Interleave

/-! ### The calls that release a port -/

/-- The final delete has waited for the scan. -/
def Thread.scanned (t : Thread) : Bool :=
  match t.pc with
  | .fdTest | .fdFlush | .fdFlushWait => false
  | _ => decide (t.work = some .rportDelete)

/-- What a teardown or a final delete of the port has made sure of. -/
def Thread.stopped (s : Shared) (r : Nat) (t : Thread) : Prop :=
  match t.pc with
  | .fdFlushWait => s.Clear .scan r (· < t.mark)
  | .cancelFailFlush => s.Clear .failIo r fun _ => True
  | .cancelFailWait => s.Clear .failIo r (· < t.mark)
  | .cancelLoss => s.Clear .failIo r fun _ => False
  | .cancelLossFlush => s.Clear .failIo r (fun _ => False) ∧ s.Clear .devLoss r fun _ => True
  | .cancelLossWait => s.Clear .failIo r (fun _ => False) ∧ s.Clear .devLoss r (· < t.mark)
  | .sdClear | .fdFree => s.Clear .failIo r (fun _ => False) ∧ s.Clear .devLoss r fun _ => False
  | .sdRemove =>
      t.final = true → s.Clear .failIo r (fun _ => False) ∧ s.Clear .devLoss r fun _ => False
  | _ => True

structure Thread.Releases (s : Shared) (r : Nat) (t : Thread) : Prop where
  stopped : t.stopped s r
  scanned : t.scanned = true → s.Clear .scan r fun _ => False

section Steps

variable {c : Config Shared Thread} {call : Call} {i n : Nat} {a : Choice} {s s' : Shared}
  {t t' : Thread} {r : Nat}

theorem releases_of_clear (h : t.Releases s r)
    (hclear : ∀ k P, k ≠ .rportDelete → s.Clear k r P → s'.Clear k r P) : t.Releases s' r := by
  refine ⟨?_, fun hs => hclear _ _ (by simp) (h.scanned hs)⟩
  have hstopped := h.stopped
  unfold Thread.stopped at hstopped ⊢
  cases hpc : t.pc
  all_goals simp only [hpc] at hstopped ⊢
  case sdRemove =>
    intro hfinal
    obtain ⟨hfail, hloss⟩ := hstopped hfinal
    exact ⟨hclear _ _ (by simp) hfail, hclear _ _ (by simp) hloss⟩
  all_goals first
    | exact hclear _ _ (by simp) hstopped
    | exact ⟨hclear _ _ (by simp) hstopped.1, hclear _ _ (by simp) hstopped.2⟩

theorem Shared.Clear.imp {k : Kind} {P : Nat → Prop} (h : s.Clear k r fun _ => False) :
    s.Clear k r P :=
  ⟨h.armed, fun e he hkind hr => absurd (h.entries e he hkind hr) id⟩

/-- Where nothing is outstanding everything is made sure of. -/
theorem releases_of_noWork (h : s.NoWork r) : t.Releases s r := by
  have hmono : ∀ k P, k ≠ .rportDelete → s.Clear k r P := fun k P hk => (h k hk).imp
  refine ⟨?_, fun _ => h _ (by simp)⟩
  unfold Thread.stopped
  split
  all_goals first
    | trivial
    | exact hmono _ _ (by simp)
    | exact ⟨hmono _ _ (by simp), hmono _ _ (by simp)⟩
    | exact fun _ => ⟨hmono _ _ (by simp), hmono _ _ (by simp)⟩

/-- A call stays with its port, or begins with one. -/
theorem step_stays (h : step a s t = some (s', t')) :
    t'.rport = t.rport ∨ t'.active t'.rport = true ∨ t'.pc = .addReturn := by
  obtain ⟨_, hpc, hs⟩ := stepped h
  clear h
  cases hs
  all_goals try exact .inl rfl
  all_goals simp [Thread.active]

theorem step_tmoQueue (hpc' : t'.pc = .tmoQueue) (h : step a s t = some (s', t')) :
    t.pc = .tmoSection ∧ t'.rport = t.rport ∧ (s.rport t.rport).state ≠ .deleted := by
  have hnext : t.caller.next ≠ .tmoQueue := by cases t.caller <;> simp [Caller.next]
  obtain ⟨_, hpc, hs⟩ := stepped h
  clear h
  cases hs
  all_goals try contradiction
  all_goals grind -linarith

theorem clear_of_scans (hS : Scans s r) (hflag : (s.rport r).scanPending = false) :
    s.Clear .scan r fun _ => False := by
  refine ⟨rfl, fun e he hkind hr => ?_⟩
  refine Queue.has_eq_zero ?_ e he hkind hr
  by_contra hne
  rw [hS.flagged (Nat.pos_of_ne_zero hne)] at hflag
  cases hflag

theorem clear_of_not_outstanding (hnone : ¬ s.Outstanding r)
    (hrun : ∀ e, s.devlossQ.running = some e → ¬ (e.kind = .devLoss ∧ e.rport = r)) :
    s.Clear .failIo r (fun _ => False) ∧ s.Clear .devLoss r fun _ => False := by
  unfold Shared.Outstanding at hnone
  rw [not_or, not_or, not_or, Bool.not_eq_true, Bool.not_eq_true, Bool.not_eq_true] at hnone
  obtain ⟨hloss, hfail, hhas, hpending⟩ := hnone
  refine ⟨⟨hfail, fun e he hkind hr => ?_⟩, ⟨hloss, fun e he hkind hr => ?_⟩⟩
  · exact Queue.has_eq_zero (Nat.eq_zero_of_not_pos hhas) e he hkind hr
  · have hmem : e ∈ s.devlossQ.entries := he
    rcases List.mem_append.mp hmem with hmem | hmem
    · exact hrun e (by simpa using hmem) ⟨hkind, hr⟩
    · rw [Queue.pending_iff.mpr ⟨e, hmem, hkind, hr⟩] at hpending
      cases hpending

/-- A flag that is clear says that no timer is outstanding; the loss timer may execute. -/
theorem clear_of_timers (hT : Timers s r) (hflag : (s.rport r).devlossPending = false)
    (hrun : ∀ e, s.devlossQ.running = some e → ¬ (e.kind = .devLoss ∧ e.rport = r)) :
    s.Clear .failIo r (fun _ => False) ∧ s.Clear .devLoss r fun _ => False := by
  refine clear_of_not_outstanding (fun hout => ?_) hrun
  rw [hT.flagged hout] at hflag
  cases hflag

/-- The call stops the timers of its port. -/
def Thread.cancels (t : Thread) : Bool :=
  match t.pc with
  | .cancelFail | .cancelFailFlush | .cancelFailWait | .cancelLoss | .cancelLossFlush
  | .cancelLossWait => true
  | _ => false

/-- A teardown stops the two timers of its port. -/
theorem releases_cancel (hticket : ∀ n, (c.shared.queue n).Ticketed)
    (hT : Timers c.shared t.rport) (hstopped : t.stopped c.shared t.rport)
    (hscanned : t.scanned = true → s.Clear .scan t.rport fun _ => False)
    (hcaller : t.cancels = true → t.caller = .stgtDelete)
    (hclear : ∀ k P, k ≠ .rportDelete → c.shared.Clear k t.rport P → s.Clear k t.rport P)
    (h : stepCancel c.shared t = some (s, t')) : t'.Releases s t.rport := by
  unfold stepCancel at h
  cases hpc : t.pc
  all_goals simp only [hpc, reduceCtorEq] at h
  all_goals simp only [Thread.stopped, Thread.cancels, hpc, forall_const] at hstopped hcaller
  case cancelFail =>
    split at h
    · rename_i harmed
      obtain ⟨rfl, rfl⟩ := Prod.mk.inj (Option.some.inj h)
      have hzero := has_of_armed hT (.inr rfl) harmed
      refine ⟨⟨by simp [Shared.armed, Shared.upd], fun e he hkind hr => ?_⟩, ?_⟩
      · exact Queue.has_eq_zero hzero e he hkind hr
      · simpa [Thread.scanned, Thread.work, hpc, hcaller] using hscanned
    · rename_i harmed
      obtain ⟨rfl, rfl⟩ := Prod.mk.inj (Option.some.inj h)
      refine ⟨⟨by simpa [Shared.armed] using harmed, fun _ _ _ _ => trivial⟩, ?_⟩
      simpa [Thread.scanned, Thread.work, hpc, hcaller] using hscanned
  case cancelFailFlush =>
    obtain ⟨rfl, rfl⟩ := Prod.mk.inj (Option.some.inj h)
    refine ⟨clear_of_ticketed hstopped.armed (hticket .devloss), ?_⟩
    simpa [Thread.scanned, Thread.work, hpc, hcaller] using hscanned
  case cancelFailWait =>
    split at h
    · rename_i hflushed
      obtain ⟨rfl, rfl⟩ := Prod.mk.inj (Option.some.inj h)
      refine ⟨clear_of_flushed hstopped hflushed, ?_⟩
      simpa [Thread.scanned, Thread.work, hpc, hcaller] using hscanned
    · cases h
  case cancelLoss =>
    simp only [hcaller, Caller.next] at h
    split at h
    · rename_i harmed
      obtain ⟨rfl, rfl⟩ := Prod.mk.inj (Option.some.inj h)
      have hzero := has_of_armed hT (.inl rfl) harmed
      refine ⟨⟨hclear _ _ (by simp) hstopped, by simp [Shared.armed, Shared.upd],
        fun e he hkind hr => ?_⟩, ?_⟩
      · exact Queue.has_eq_zero hzero e he hkind hr
      · simpa [Thread.scanned, Thread.work, hpc, hcaller] using hscanned
    · rename_i harmed
      obtain ⟨rfl, rfl⟩ := Prod.mk.inj (Option.some.inj h)
      refine ⟨⟨hstopped, by simpa [Shared.armed] using harmed, fun _ _ _ _ => trivial⟩, ?_⟩
      simpa [Thread.scanned, Thread.work, hpc, hcaller] using hscanned
  case cancelLossFlush =>
    obtain ⟨rfl, rfl⟩ := Prod.mk.inj (Option.some.inj h)
    refine ⟨⟨hstopped.1, clear_of_ticketed hstopped.2.armed (hticket .devloss)⟩, ?_⟩
    simpa [Thread.scanned, Thread.work, hpc, hcaller] using hscanned
  case cancelLossWait =>
    simp only [hcaller, Caller.next] at h
    split at h
    · rename_i hflushed
      obtain ⟨rfl, rfl⟩ := Prod.mk.inj (Option.some.inj h)
      refine ⟨⟨hstopped.1, clear_of_flushed hstopped.2 hflushed⟩, ?_⟩
      simpa [Thread.scanned, Thread.work, hpc, hcaller] using hscanned
    · cases h

/-- A teardown or a final delete takes its own step. -/
theorem releases_teardown (hI : Targeted c) (hticket : ∀ n, (c.shared.queue n).Ticketed)
    (hT : Timers c.shared t.rport) (hS : Scans c.shared t.rport)
    (hstopped : t.stopped c.shared t.rport)
    (hscanned : t.scanned = true → s.Clear .scan t.rport fun _ => False)
    (hok : t.pc = .sdTest → t.final = true → (c.shared.rport t.rport).devlossPending = false →
      ∀ e, c.shared.devlossQ.running = some e → ¬ (e.kind = .devLoss ∧ e.rport = t.rport))
    (hclear : ∀ k P, k ≠ .rportDelete → c.shared.Clear k t.rport P → s.Clear k t.rport P)
    (h : stepTeardown c.shared t = some (s, t')) : t'.Releases s t.rport := by
  unfold stepTeardown at h
  cases hpc : t.pc
  all_goals simp only [hpc, reduceCtorEq] at h
  all_goals simp only [Thread.stopped, hpc] at hstopped
  case sdCallback =>
    obtain ⟨rfl, rfl⟩ := Prod.mk.inj (Option.some.inj h)
    refine ⟨trivial, ?_⟩
    simpa [Thread.scanned, Thread.work, hpc] using hscanned
  case sdTest =>
    split at h
    · obtain ⟨rfl, rfl⟩ := Prod.mk.inj (Option.some.inj h)
      refine ⟨trivial, ?_⟩
      simpa [Thread.scanned, Thread.work, hpc] using hscanned
    · rename_i hflag
      rw [Bool.not_eq_true] at hflag
      obtain ⟨rfl, rfl⟩ := Prod.mk.inj (Option.some.inj h)
      refine ⟨fun hfinal => clear_of_timers hT hflag (hok hpc hfinal hflag), ?_⟩
      simpa [Thread.scanned, Thread.work, hpc] using hscanned
  case sdClear =>
    obtain ⟨rfl, rfl⟩ := Prod.mk.inj (Option.some.inj h)
    refine ⟨fun _ => ⟨hclear _ _ (by simp) hstopped.1, hclear _ _ (by simp) hstopped.2⟩, ?_⟩
    simpa [Thread.scanned, Thread.work, hpc] using hscanned
  case sdRemove =>
    split at h
    · rename_i hfinal
      obtain ⟨rfl, rfl⟩ := Prod.mk.inj (Option.some.inj h)
      refine ⟨hstopped hfinal, ?_⟩
      simpa [Thread.scanned, Thread.work, hpc, hfinal] using hscanned
    · obtain ⟨rfl, rfl⟩ := Prod.mk.inj (Option.some.inj h)
      exact ⟨trivial, by simp [Thread.scanned, Thread.work]⟩
  case fdTest =>
    split at h
    · obtain ⟨rfl, rfl⟩ := Prod.mk.inj (Option.some.inj h)
      exact ⟨trivial, by simp [Thread.scanned]⟩
    · rename_i hflag
      rw [Bool.not_eq_true] at hflag
      obtain ⟨rfl, rfl⟩ := Prod.mk.inj (Option.some.inj h)
      exact ⟨trivial, fun _ => clear_of_scans hS hflag⟩
  case fdFlush =>
    obtain ⟨rfl, rfl⟩ := Prod.mk.inj (Option.some.inj h)
    exact ⟨clear_of_ticketed rfl (hticket .scsi), by simp [Thread.scanned]⟩
  case fdFlushWait =>
    split at h
    · rename_i hflushed
      obtain ⟨rfl, rfl⟩ := Prod.mk.inj (Option.some.inj h)
      exact ⟨trivial, fun _ => clear_of_flushed hstopped hflushed⟩
    · cases h
  case fdTarget =>
    split at h
    · rename_i hid
      obtain ⟨rfl, rfl⟩ := Prod.mk.inj (Option.some.inj h)
      exact releases_of_noWork (noWork_of_targetId hI hid)
    · obtain ⟨rfl, rfl⟩ := Prod.mk.inj (Option.some.inj h)
      refine ⟨trivial, ?_⟩
      simpa [Thread.scanned, Thread.work, hpc] using hscanned
  case fdFree =>
    obtain ⟨rfl, rfl⟩ := Prod.mk.inj (Option.some.inj h)
    exact ⟨trivial, by simp [Thread.scanned, Thread.work]⟩

/-- Every other step ends its call, or begins what has nothing to make sure of. -/
theorem releases_of_other (h : stepAdd a s t = some (s', t') ∨ stepDelete a s t = some (s', t') ∨
      stepRolechg s t = some (s', t') ∨ stepTimer s t = some (s', t') ∨
      stepRemove s t = some (s', t')) : t'.Releases s' r := by
  rcases h with h | h | h | h | h
  all_goals simp only [stepAdd, stepDelete, stepRolechg, stepTimer, stepRemove] at h
  all_goals repeat' split at h
  all_goals simp only [Option.some.injEq, Prod.mk.injEq, reduceCtorEq] at h
  all_goals obtain ⟨rfl, rfl⟩ := h
  all_goals constructor
  all_goals simp [Thread.stopped, Thread.scanned, Thread.work]

theorem releases_step (hI : Targeted c) (hticket : ∀ n, (c.shared.queue n).Ticketed)
    (hT : Timers c.shared r) (hS : Scans c.shared r) (hrel : t.Releases c.shared r)
    (hr : t.rport = r) (hactive : t.active r = false)
    (hok : t.pc = .sdTest → t.final = true → (c.shared.rport r).devlossPending = false →
      ∀ e, c.shared.devlossQ.running = some e → ¬ (e.kind = .devLoss ∧ e.rport = r))
    (hclear : ∀ k P, k ≠ .rportDelete → c.shared.Clear k r P → s.Clear k r P)
    (h : step a c.shared t = some (s, t')) : t'.Releases s r := by
  subst hr
  have hscanned : t.scanned = true → s.Clear .scan t.rport fun _ => False :=
    fun hs => hclear _ _ (by simp) (hrel.scanned hs)
  have hcaller : t.cancels = true → t.caller = .stgtDelete := by
    intro hcancels
    unfold Thread.cancels at hcancels
    unfold Thread.active at hactive
    cases hpc : t.pc
    all_goals simp [hpc] at hcancels hactive
    all_goals exact hactive
  rcases step_cases h with h | h | h | h | h | h | h
  · exact releases_of_other (a := a) (.inl h)
  · exact releases_of_other (a := a) (.inr (.inl h))
  · exact releases_of_other (a := a) (.inr (.inr (.inl h)))
  · exact releases_cancel hticket hT hrel.stopped hscanned hcaller hclear h
  · exact releases_of_other (a := a) (.inr (.inr (.inr (.inl h))))
  · exact releases_teardown hI hticket hT hS hrel.stopped hscanned hok hclear h
  · exact releases_of_other (a := a) (.inr (.inr (.inr (.inr h))))

end Steps

/-! ### The runs without the defects -/

instance (r : Nat) : DecidableRel (Late r) := fun _ _ => inferInstanceAs (Decidable (¬ _))

instance (s : Shared) (r : Nat) : Decidable (s.Outstanding r) :=
  inferInstanceAs (Decidable (_ ∨ _))

instance (s : Shared) (r : Nat) : Decidable (Timers s r) :=
  decidable_of_iff
    (((s.armed .devLoss r).toNat + s.devlossQ.has .devLoss r ≤ 1 ∧
        (s.armed .failIo r).toNat + s.devlossQ.has .failIo r ≤ 1) ∧
      (0 < s.devlossQ.has .devLoss r → s.armed .failIo r = false) ∧
      s.devlossQ.entries.Pairwise (Late r) ∧
      (s.Outstanding r → (s.rport r).devlossPending = true))
    ⟨fun h => ⟨h.1.1, h.1.2, h.2.1, h.2.2.1, h.2.2.2⟩,
      fun h => ⟨⟨h.loss, h.fail⟩, h.order, h.late, h.flagged⟩⟩

instance (s : Shared) (r : Nat) : Decidable (Scans s r) :=
  decidable_of_iff
    (s.scsiQ.has .scan r ≤ 1 ∧ (0 < s.scsiQ.has .scan r → (s.rport r).scanPending = true))
    ⟨fun h => ⟨h.1, h.2⟩, fun h => ⟨h.once, h.flagged⟩⟩

/-- The loss timer of the port executes. -/
def Shared.losing (s : Shared) (r : Nat) : Bool :=
  s.devlossQ.running.any fun e => decide (e.kind = .devLoss ∧ e.rport = r)

/-- A teardown of the port has tested the flag, and not cleared it. -/
def Thread.stopping (r : Nat) (t : Thread) : Bool :=
  decide ((t.cancels = true ∨ t.pc = .sdClear) ∧ t.rport = r)

/-- The two flags of the port tell the truth, and nobody is about to change that. -/
def settledPort (c : Config Shared Thread) (r : Nat) : Bool :=
  decide (Timers c.shared r) && decide (Scans c.shared r) &&
    (c.pool.all fun t => decide ¬ (t.pc = .tmoQueue ∧ t.rport = r)) &&
    (!decide (c.shared.Outstanding r) && !c.shared.losing r || c.pool.all fun t => !t.stopping r)

/-- `fc_remote_port_delete` deletes a port that has no id when nobody changes its roles.
    `fc_remove_host` takes the ports when no call of the driver has one and their flags tell the
    truth; of a deleted port the loss timer fires after the fast-fail timer, and is not executing
    when the final delete finds its flag clear. -/
def calm (c : Config Shared Thread) : Event Call Choice → Bool
  | .start (.fireDevLoss r) =>
      decide ((c.shared.rport r).state ≠ .deleted) || !c.shared.armed .failIo r
  | .start _ => true
  | .act i _ =>
      match c.pool[i]? with
      | some t =>
          match t.pc with
          | .delSection =>
              decide ((c.shared.rport t.rport).targetId ≠ none) ||
                decide ((c.shared.rport t.rport).changing = 0)
          | .rmSection =>
              (c.pool.all fun u => !u.active u.rport) &&
                (c.shared.rports ++ c.shared.bindings).all fun r => settledPort c r
          | .sdTest =>
              !t.final || (c.shared.rport t.rport).devlossPending || !c.shared.losing t.rport
          | _ => true
      | none => true

/-- What is kept for a port that `fc_remove_host` has deleted. -/
structure Doomed (c : Config Shared Thread) (r : Nat) : Prop where
  timers : Timers c.shared r
  scans : Scans c.shared r
  last : c.shared.workQ.entries.Pairwise (Last r)
  idle : ∀ t ∈ c.pool, t.queues r = false
  threads : ∀ t ∈ c.pool, t.rport = r → t.Releases c.shared r
  freed : (c.shared.rport r).live = false → c.shared.NoWork r

section Runs

variable {c : Config Shared Thread} {call : Call} {i n : Nat} {a : Choice} {s : Shared}
  {t t' : Thread} {r : Nat}

theorem enter_releases (h : enter call c.shared = some (s, t)) : t.Releases s r := by
  rcases enter_item h with ⟨e, -, rfl⟩ | hpc | hpc | hpc | hpc | ⟨-, hpc⟩
  · cases hkind : e.kind
    all_goals constructor <;> simp [Thread.stopped, Thread.scanned, Thread.work, Kind.entry]
  all_goals constructor <;> simp [Thread.stopped, Thread.scanned, Thread.work, hpc]

theorem doomed_enter (hD : Doomed c r) (hdeleted : (c.shared.rport r).state = .deleted)
    (hok : calm c (.start call) = true) (h : enter call c.shared = some (s, t)) :
    Doomed ⟨s, c.pool ++ [t]⟩ r := by
  obtain ⟨-, -, hlive, -, hdevloss, hscan⟩ := enter_port h r
  refine ⟨?_, scans_enter hD.scans hscan h, last_enter hD.last h, fun u hu => ?_,
    fun u hu hr => ?_, fun hdead => ?_⟩
  · refine timers_enter hD.timers (fun hcall => ?_) hdevloss h
    subst hcall
    simpa [calm, hdeleted] using hok
  · rcases List.mem_append.mp hu with hu | hu
    · exact hD.idle u hu
    · rw [List.mem_singleton.mp hu]
      exact enter_queues h r
  · rcases List.mem_append.mp hu with hu | hu
    · exact releases_of_clear (hD.threads u hu hr) fun k P _ hC => clear_enter h hC
    · rw [List.mem_singleton.mp hu]
      exact enter_releases h
  · intro k hk
    exact clear_enter h (hD.freed (hlive ▸ hdead) k hk)

/-- A port is freed by its final delete with none of its work outstanding. -/
theorem noWork_of_final (hW : Workers c) (hD : Doomed c r) (hi : c.pool[i]? = some t)
    (hpc : t.pc = .fdFree) (hr : t.rport = r) : c.shared.NoWork r := by
  subst hr
  have hrel := hD.threads t (List.mem_of_getElem? hi) rfl
  have hstopped := hrel.stopped
  simp only [Thread.stopped, hpc] at hstopped
  intro k hk
  cases k with
  | devLoss => exact hstopped.2
  | failIo => exact hstopped.1
  | scan => exact hrel.scanned (by simp [Thread.scanned, Thread.work, hpc])
  | stgtDelete =>
    refine ⟨rfl, fun e he hkind hr => ?_⟩
    -- the final delete executes, and was queued last
    obtain ⟨m, hrun⟩ := hW.item i t hi .rportDelete (by simp [Thread.work, hpc])
    have hrun' : c.shared.workQ.running = some ⟨.rportDelete, t.rport, m⟩ := hrun
    have hentries :
        c.shared.workQ.entries = ⟨.rportDelete, t.rport, m⟩ :: c.shared.workQ.items := by
      simp [Queue.entries, hrun']
    have hlast := hD.last
    have hmem : e ∈ c.shared.workQ.entries := he
    rw [hentries, List.pairwise_cons] at hlast
    rw [hentries, List.mem_cons] at hmem
    rcases hmem with rfl | hmem
    · cases hkind
    · exact hlast.1 e hmem ⟨rfl, rfl, hkind, hr⟩
  | rportDelete => exact absurd rfl hk

theorem doomed_step (hA : After n c) (hA' : After n ⟨s, c.pool.set i t'⟩) (hI : Targeted c)
    (hW : Workers c) (hticket : ∀ n, (c.shared.queue n).Ticketed) (hD : Doomed c r) (hr : r < n)
    (hdeleted : (c.shared.rport r).state = .deleted) (hok : calm c (.act i a) = true)
    (hi : c.pool[i]? = some t) (h : step a c.shared t = some (s, t')) :
    Doomed ⟨s, c.pool.set i t'⟩ r := by
  have ht := List.mem_of_getElem? hi
  have hactive : t.active r = false := by
    by_contra hne
    rw [Bool.not_eq_false] at hne
    have hn := (hA.calls t ht r hne).1
    omega
  have hactive' : t'.active r = false := by
    by_contra hne
    rw [Bool.not_eq_false] at hne
    have hlt := (List.getElem?_eq_some_iff.mp hi).1
    have hn := (hA'.calls t' (List.mem_of_getElem? (List.getElem?_set_self hlt)) r hne).1
    omega
  have hidle := hD.idle t ht
  have hnew : r ≠ c.shared.nextRport := by
    have hfirst := hA.first
    omega
  have hbindings : r ∉ c.shared.bindings := by simp [hA.bindings]
  have hclear : ∀ k P, k ≠ .rportDelete → c.shared.Clear k r P → s.Clear k r P :=
    fun k P hk hC => clear_step hk hidle (fun _ => hbindings) h hC
  refine ⟨?_, ?_, ?_, fun u hu => ?_, fun u hu hur => ?_, fun hdead k hk => ?_⟩
  · refine timers_step hW hD.timers hidle hactive hnew hbindings (fun hpc htr => ?_) hi h
    have hstopped := (hD.threads t ht htr).stopped
    simpa only [Thread.stopped, hpc] using hstopped
  · exact scans_step hW hD.scans hidle hactive hnew hbindings hi h
  · exact last_step hD.last hidle (hA.passed t ht).2 h
  · rcases List.mem_or_eq_of_mem_set hu with hu | rfl
    · exact hD.idle u hu
    · by_contra hne
      rw [Bool.not_eq_false] at hne
      rcases queues_cases hne with hact | ⟨hpc, rfl⟩
      · rw [hactive'] at hact
        cases hact
      · obtain ⟨htmo, hsame, hstate⟩ := step_tmoQueue hpc h
        rw [hsame] at hdeleted
        exact hstate hdeleted
  · rcases List.mem_or_eq_of_mem_set hu with hu | rfl
    · exact releases_of_clear (hD.threads u hu hur) hclear
    · rcases step_stays h with hsame | hact | hret
      · have hrt := hsame.symm.trans hur
        refine releases_step hI hticket hD.timers hD.scans (hD.threads t ht hrt) hrt hactive
          (fun hpc hfinal hflag e hrun hboth => ?_) hclear h
        simp [calm, hi, hpc, hfinal, hrt, hflag, Shared.losing, hrun, hboth] at hok
      · rw [hur, hactive'] at hact
        cases hact
      · exact ⟨by simp [Thread.stopped, hret], by simp [Thread.scanned, Thread.work, hret]⟩
  · cases hlive : (c.shared.rport r).live with
    | false => exact hclear k _ hk (hD.freed hlive k hk)
    | true =>
      rcases step_live h hlive with hstill | ⟨hpc, hrt⟩ | ⟨hpc, hrt, -⟩
      · rw [show (s.rport r).live = false from hdead] at hstill
        cases hstill
      · exact hclear k _ hk (noWork_of_final hW hD hi hpc hrt k hk)
      · simp [Thread.active, hpc, hrt] at hactive

theorem last_section (hL : c.shared.workQ.entries.Pairwise (Last r)) (l : List Nat) :
    (l.foldl (fun q r' => q.push .rportDelete r') c.shared.workQ).entries.Pairwise (Last r) := by
  generalize c.shared.workQ = q at hL ⊢
  induction l generalizing q with
  | nil => exact hL
  | cons r' l ih => exact ih _ (Queue.pairwise_push hL fun e _ hboth => by cases hboth.2.2.1)

theorem pairwise_last (h : c.shared.workQ.All fun e => e.kind = .rportDelete → e.rport ≠ r) :
    c.shared.workQ.entries.Pairwise (Last r) := by
  refine List.pairwise_iff_forall_sublist.mpr fun {e e'} hsub hboth => ?_
  exact h e (hsub.subset List.mem_cons_self) hboth.1 hboth.2.1

theorem pairwise_last_of_clear (h : c.shared.Clear .stgtDelete r fun _ => False) :
    c.shared.workQ.entries.Pairwise (Last r) := by
  refine List.pairwise_iff_forall_sublist.mpr fun {e e'} hsub hboth => ?_
  exact h.entries e' (hsub.subset (by simp)) hboth.2.2.1 hboth.2.2.2

/-- Where nothing is outstanding nothing is to be kept. -/
theorem doomed_of_noWork (hN : c.shared.NoWork r) (hidle : ∀ t ∈ c.pool, t.queues r = false) :
    Doomed c r where
  timers := timers_of_clear (hN _ (by simp)) (hN _ (by simp))
  scans := by
    have hzero : c.shared.scsiQ.has .scan r = 0 := Queue.has_of_all (hN .scan (by simp)).entries
    exact ⟨by omega, fun hpos => by omega⟩
  last := pairwise_last_of_clear (hN _ (by simp))
  idle := hidle
  threads _ _ _ := releases_of_noWork hN
  freed _ := hN

/-- What the section finds for a port that it deletes. -/
theorem doomed_of_settled (hB : Bindings c) (hW : Workers c)
    (hquiet : ∀ t ∈ c.pool, ∀ r, t.active r = false)
    (hr : r ∈ c.shared.rports ++ c.shared.bindings) (hok : settledPort c r = true) :
    Doomed c r := by
  simp only [settledPort, Bool.and_eq_true, decide_eq_true_eq, Bool.not_eq_true', Bool.or_eq_true,
    decide_eq_false_iff_not, List.all_eq_true] at hok
  obtain ⟨⟨⟨hT, hS⟩, htmo⟩, hstopping⟩ := hok
  obtain ⟨hlive, hstate, -⟩ := hB.bound.lists.of_listed (List.mem_append.mp hr)
  -- no final delete of the port is queued or executes
  have hfinal : ∀ t ∈ c.pool, t.rport = r → t.work ≠ some .rportDelete := by
    rintro t ht rfl hwork
    exact hstate (hB.gone_of_work hW ht hwork).2
  constructor
  case timers => exact hT
  case scans => exact hS
  case last =>
    refine pairwise_last fun e he hkind heq => ?_
    have hgone := hB.final e he hkind
    exact hstate (heq ▸ hgone.2)
  case idle =>
    intro t ht
    by_contra hne
    rw [Bool.not_eq_false] at hne
    rcases queues_cases hne with hact | ⟨hpc, rfl⟩
    · rw [hquiet t ht r] at hact
      cases hact
    · exact htmo t ht ⟨hpc, rfl⟩
  case threads =>
    rintro t ht rfl
    have hnot := hfinal t ht rfl
    refine ⟨?_, fun hscanned => ?_⟩
    · by_cases hstop : t.stopping t.rport = true
      · -- no timer is outstanding
        have hnone : ¬ c.shared.Outstanding t.rport ∧ c.shared.losing t.rport = false := by
          refine hstopping.resolve_right fun hall => ?_
          rw [hall t ht] at hstop
          cases hstop
        obtain ⟨hfail, hloss⟩ := clear_of_not_outstanding hnone.1 fun e he hboth => by
          simp [Shared.losing, he, hboth] at hnone
        simp only [Thread.stopping, decide_eq_true_eq, and_true] at hstop
        unfold Thread.stopped
        cases hpc : t.pc
        all_goals simp [Thread.cancels, hpc] at hstop
        all_goals first
          | trivial
          | exact hfail.imp
          | exact ⟨hfail, hloss.imp⟩
      · simp only [Thread.stopping, decide_eq_true_eq, and_true, not_or] at hstop
        unfold Thread.stopped
        cases hpc : t.pc
        all_goals simp [Thread.cancels, hpc] at hstop
        all_goals simp [Thread.work, hpc] at hnot
        all_goals simp [hnot]
    · simp only [Thread.scanned] at hscanned
      split at hscanned
      all_goals first
        | cases hscanned
        | exact absurd (of_decide_eq_true hscanned) hnot
  case freed =>
    intro hdead
    exact absurd (hlive.symm.trans hdead) (by simp)

theorem doomed_section (hD : Doomed c r) (hpc : t.pc = .rmSection)
    (h : step a c.shared t = some (s, t')) : Doomed ⟨s, c.pool.set i t'⟩ r := by
  have hclear : ∀ k P, k ≠ .rportDelete → c.shared.Clear k r P → s.Clear k r P :=
    fun k P hk hC => clear_step hk (by simp [Thread.queues, hpc]) (by simp [hpc]) h hC
  simp only [step, stepRemove, hpc] at h
  obtain ⟨rfl, rfl⟩ := Prod.mk.inj (Option.some.inj h)
  obtain ⟨hdevloss, hscsi, hwork⟩ :=
    foldl_delete_queues (c.shared.rports ++ c.shared.bindings) c.shared
  have hport := foldl_delete_rport (c.shared.rports ++ c.shared.bindings) c.shared r
  generalize (c.shared.rports ++ c.shared.bindings).foldl Shared.delete c.shared = s' at *
  have hsame : (s'.rport r).devlossPending = (c.shared.rport r).devlossPending ∧
      (s'.rport r).scanPending = (c.shared.rport r).scanPending ∧
      (s'.rport r).live = (c.shared.rport r).live ∧
      ∀ k, s'.armed k r = c.shared.armed k r := by
    have harmed : (s'.rport r).devLossArmed = (c.shared.rport r).devLossArmed ∧
        (s'.rport r).failIoArmed = (c.shared.rport r).failIoArmed := by
      rw [hport]
      split <;> exact ⟨rfl, rfl⟩
    refine ⟨?_, ?_, ?_, fun k => ?_⟩
    · rw [hport]
      split <;> rfl
    · rw [hport]
      split <;> rfl
    · rw [hport]
      split <;> rfl
    · cases k <;> simp [Shared.armed, harmed]
  obtain ⟨hflag, hscan, hlive, harmed⟩ := hsame
  refine ⟨?_, ?_, hwork ▸ last_section hD.last _, fun u hu => ?_, fun u hu hr => ?_, ?_⟩
  · exact hD.timers.mono (fun k hk => harmed k ▸ hk) (fun k => Nat.le_of_eq (by rw [hdevloss]))
      (hdevloss ▸ hD.timers.late) (fun hp => hdevloss ▸ hp) fun _ hold => hflag.trans hold
  · exact ⟨hscsi ▸ hD.scans.once, fun hpos => hscan.trans (hD.scans.flagged (hscsi ▸ hpos))⟩
  · rcases List.mem_or_eq_of_mem_set hu with hu | rfl
    · exact hD.idle u hu
    · rfl
  · rcases List.mem_or_eq_of_mem_set hu with hu | rfl
    · exact releases_of_clear (hD.threads u hu hr) hclear
    · exact ⟨trivial, by simp [Thread.scanned, Thread.work]⟩
  · exact fun hdead k hk => hclear k _ hk (hD.freed (hlive ▸ hdead) k hk)

/-! ### Each port is deleted once -/

theorem step_deletes (h : step a c.shared t = some (s, t')) :
    (s.rport r).deletes = (c.shared.rport r).deletes ∨
      (r = c.shared.nextRport ∧ (s.rport r).deletes = 0) ∨
      (t.pc = .delSection ∧ t.rport = r ∧ (s.rport r).state = .deleted ∧
        (s.rport r).deletes = (c.shared.rport r).deletes + 1) ∨
      (t.pc = .rmSection ∧ r ∈ c.shared.rports ++ c.shared.bindings ∧
        (s.rport r).state = .deleted ∧ (s.rport r).deletes = (c.shared.rport r).deletes +
          (c.shared.rports ++ c.shared.bindings).count r) := by
  obtain ⟨_, hpc, hs⟩ := stepped h
  clear h
  cases hs
  all_goals try exact .inl rfl
  all_goals simp only [Shared.upd, Shared.startScan, Shared.delete, Shared.endAdd,
    Shared.endRolechg, foldl_delete_rport]
  all_goals grind -linarith

/-- `rport_delete_work` is queued for a deleted port, and once. -/
def DeletedOnce (s : Shared) : Prop :=
  ∀ r, (s.rport r).deletes ≤ 1 ∧
    (¬ (r < s.nextRport ∧ (s.rport r).state = .deleted) → (s.rport r).deletes = 0)

theorem deletedOnce_step (hI : DeletedOnce c.shared) (hk : Known c.shared)
    (hnames : t.names = true → t.rport < c.shared.nextRport)
    (hgone : ∀ r, c.shared.Gone r → s.Gone r)
    (hdelete : t.pc = .delSection → ¬ c.shared.Gone t.rport)
    (hremove : t.pc = .rmSection → ∀ r ∈ c.shared.rports ++ c.shared.bindings,
      ¬ c.shared.Gone r ∧ (c.shared.rports ++ c.shared.bindings).count r ≤ 1)
    (h : step a c.shared t = some (s, t')) : DeletedOnce s := by
  intro r
  obtain ⟨hle, hzero⟩ := hI r
  have hnext := step_nextRport h
  by_cases hold : c.shared.Gone r
  · have hnew := hgone r hold
    refine ⟨?_, fun hnot => absurd hnew hnot⟩
    rcases step_deletes (r := r) h with heq | ⟨rfl, -⟩ | ⟨hpc, rfl, -⟩ | ⟨hpc, hr, -⟩
    · rw [heq]
      exact hle
    · exact absurd hold.1 (Nat.lt_irrefl _)
    · exact absurd hold (hdelete hpc)
    · exact absurd hold (hremove hpc r hr).1
  · have hnone := hzero hold
    rcases step_deletes (r := r) h with
      heq | ⟨-, heq⟩ | ⟨hpc, rfl, hstate, heq⟩ | ⟨hpc, hr, hstate, heq⟩
    · rw [heq, hnone]
      exact ⟨Nat.zero_le 1, fun _ => rfl⟩
    · rw [heq]
      exact ⟨Nat.zero_le 1, fun _ => rfl⟩
    · rw [heq, hnone]
      refine ⟨Nat.le_refl 1, fun hnot => absurd ⟨?_, hstate⟩ hnot⟩
      exact Nat.lt_of_lt_of_le (hnames (by simp only [Thread.names, hpc])) hnext
    · have hcount := (hremove hpc r hr).2
      rw [heq, hnone]
      refine ⟨by omega, fun hnot => absurd ⟨?_, hstate⟩ hnot⟩
      exact Nat.lt_of_lt_of_le (hk.listed r (List.mem_append.mp hr)) hnext

theorem deletedOnce_enter (hI : DeletedOnce c.shared) (h : enter call c.shared = some (s, t)) :
    DeletedOnce s := by
  intro r
  obtain ⟨-, hstate, -, hdeletes, -⟩ := enter_port h r
  rw [hstate, hdeletes, (enter_ports h).1]
  exact hI r

/-! ### Whole runs -/

/-- A deleted port has no id, and nobody is to give it one. -/
def Unassigned (s : Shared) : Prop :=
  ∀ r, s.Gone r → (s.rport r).targetId = none ∧ (s.rport r).changing = 0

/-- What becomes a deleted port was one, or is a port without an id that is deleted now. -/
theorem step_gone (hpc : t.pc ≠ .rmSection) (h : step a c.shared t = some (s, t'))
    (hr : s.Gone r) :
    (c.shared.Gone r ∧ ((s.rport r).targetId = (c.shared.rport r).targetId ∨
      t.pc = .roleSection ∧ t.rport = r)) ∨
    (t.pc = .delSection ∧ t.rport = r ∧ (c.shared.rport r).targetId = none ∧
      (s.rport r).targetId = none) := by
  obtain ⟨_, hpc', hs⟩ := stepped h
  clear h
  cases hs
  case rmSection => exact absurd hpc' hpc
  all_goals try exact .inl ⟨hr, .inl rfl⟩
  all_goals simp only [Shared.Gone, Shared.upd, Shared.startScan, Shared.delete, Shared.endAdd,
    Shared.endRolechg] at hr ⊢
  all_goals grind -linarith

theorem unassigned_step (hB : Bindings c) (hI : Unassigned c.shared)
    (hok : calm c (.act i a) = true) (hpc : t.pc ≠ .rmSection) (hi : c.pool[i]? = some t)
    (h : step a c.shared t = some (s, t')) : Unassigned s := by
  intro r hr
  have hle := step_changing_le h r
  rcases step_gone hpc h hr with ⟨hgone, hsame⟩ | ⟨hdelete, rfl, hid, hid'⟩
  · obtain ⟨hnone, hzero⟩ := hI r hgone
    refine ⟨?_, by omega⟩
    rcases hsame with hsame | ⟨hrole, rfl⟩
    · rw [hsame, hnone]
    · -- a change of roles is counted
      have hcount := hB.changing t.rport
      rw [total_eq_others _ hi] at hcount
      simp only [Thread.changes, hrole, if_true] at hcount
      omega
  · simp only [calm, hi, hdelete, hid, ne_eq, not_true_eq_false, decide_false, Bool.false_or,
      decide_eq_true_eq] at hok
    exact ⟨hid', by omega⟩

/-- A deleted port is not in the hands of the driver, who cannot change its roles. -/
theorem unassigned_enter (hB : Bindings c) (hI : Unassigned c.shared)
    (h : enter call c.shared = some (s, t)) : Unassigned s := by
  have hfree : ∀ r, (c.shared.rport r).hands = true → ¬ c.shared.Gone r := by
    intro r hhands hgone
    have hheld := hB.bound.calls.held r (by
      show 0 < _ + (c.shared.rport r).hands.toNat
      rw [hhands]
      exact Nat.succ_pos _)
    have hstate : (c.shared.rport r).state = .online := hheld.2
    rw [hgone.2] at hstate
    cases hstate
  intro r hr
  have hold : c.shared.Gone r := by
    refine ⟨?_, ?_⟩
    · have hnext := (enter_ports h).1
      have hlt := hr.1
      omega
    · rw [← (enter_port h r).2.1]
      exact hr.2
  obtain ⟨hnone, hzero⟩ := hI r hold
  cases call
  all_goals simp only [enter] at h
  all_goals split at h
  all_goals simp only [Option.some.injEq, Prod.mk.injEq, reduceCtorEq] at h
  all_goals obtain ⟨rfl, -⟩ := h
  all_goals try exact ⟨hnone, hzero⟩
  all_goals simp only [Shared.upd]
  all_goals grind -linarith

/-- Before and after `fc_remove_host` takes the ports. -/
inductive Phase (c : Config Shared Thread) : Prop
  | before : Bindings c → Unassigned c.shared → Phase c
  | after (n : Nat) : After n c →
      (∀ r, r < n → (c.shared.rport r).state = .deleted → Doomed c r) → Phase c

theorem phase_enter (hI : Phase c) (hok : calm c (.start call) = true)
    (h : enter call c.shared = some (s, t)) : Phase ⟨s, c.pool ++ [t]⟩ := by
  cases hI with
  | before hB hU => exact .before (bindings_enter h hB) (unassigned_enter hB hU h)
  | after n hA hD =>
    refine .after n (after_enter hA h) fun r hr hdeleted => ?_
    have hold : (c.shared.rport r).state = .deleted := (enter_port h r).2.1 ▸ hdeleted
    exact doomed_enter (hD r hr hold) hold hok h

/-- The section takes the ports. -/
theorem phase_section (hB : Bindings c) (hU : Unassigned c.shared) (hO : OneRemoval c)
    (hW : Workers c) (hI : Targeted c)
    (hok : calm c (.act i a) = true) (hi : c.pool[i]? = some t) (hpc : t.pc = .rmSection)
    (h : step a c.shared t = some (s, t')) : Phase ⟨s, c.pool.set i t'⟩ := by
  simp only [calm, hi, hpc, Bool.and_eq_true, List.all_eq_true, Bool.not_eq_true'] at hok
  obtain ⟨hcalls, hports⟩ := hok
  have hquiet : ∀ u ∈ c.pool, ∀ r, u.active r = false := by
    intro u hu r
    by_contra hne
    rw [Bool.not_eq_false] at hne
    obtain ⟨-, rfl⟩ := active_names hne
    rw [hcalls u hu] at hne
    cases hne
  refine .after c.shared.nextRport (after_section hB hO hquiet hi hpc h) fun r hlt hdeleted => ?_
  refine doomed_section ?_ hpc h
  by_cases hr : r ∈ c.shared.rports ++ c.shared.bindings
  · exact doomed_of_settled hB hW hquiet hr (hports r hr)
  · -- the port was deleted before, and never was a target
    have hold : (c.shared.rport r).state = .deleted := by
      simp only [step, stepRemove, hpc] at h
      obtain ⟨rfl, rfl⟩ := Prod.mk.inj (Option.some.inj h)
      simp only [foldl_delete_rport] at hdeleted
      rw [if_neg hr] at hdeleted
      exact hdeleted
    have hid : (c.shared.rport r).targetId = none := (hU r ⟨hlt, hold⟩).1
    refine doomed_of_noWork (noWork_of_targetId hI hid) fun u hu => ?_
    by_contra hne
    rw [Bool.not_eq_false] at hne
    exact (hI.calls u hu r hne).targetId hid

theorem phase_step (hI : Phase c) (hc : machine.Reachable initial c)
    (hok : calm c (.act i a) = true) (hi : c.pool[i]? = some t)
    (h : step a c.shared t = some (s, t')) : Phase ⟨s, c.pool.set i t'⟩ := by
  have hW := reachable_workers hc
  have hT := targeted_of_reachable hc
  obtain ⟨hk, hnames⟩ := reachable_known hc
  cases hI with
  | before hB hU =>
    by_cases hpc : t.pc = .rmSection
    · exact phase_section hB hU (reachable_oneRemoval hc) hW hT hok hi hpc h
    · exact .before (bindings_step hW hpc hnames hi h hB) (unassigned_step hB hU hok hpc hi h)
  | after n hA hD =>
    have hA' := after_step hA hk hW (hnames i t hi) hi h
    refine .after n hA' fun r hr hdeleted => ?_
    obtain ⟨-, -, -, -, -, hsame⟩ := after_ports hA hk hW (hnames i t hi) hi h
    have hold := (hsame r hr).symm.trans hdeleted
    exact doomed_step hA hA' hT hW (reachable_ticketed hc) (hD r hr hold) hr hold hok hi h

/-- A deleted port stays deleted, and is not deleted again. -/
theorem phase_deletes (hI : Phase c) (hc : machine.Reachable initial c) (hi : c.pool[i]? = some t)
    (h : step a c.shared t = some (s, t')) :
    (∀ r, c.shared.Gone r → s.Gone r) ∧ (t.pc = .delSection → ¬ c.shared.Gone t.rport) ∧
      (t.pc = .rmSection → ∀ r ∈ c.shared.rports ++ c.shared.bindings,
        ¬ c.shared.Gone r ∧ (c.shared.rports ++ c.shared.bindings).count r ≤ 1) := by
  have hW := reachable_workers hc
  have ht := List.mem_of_getElem? hi
  obtain ⟨hk, hnames⟩ := reachable_known hc
  cases hI with
  | before hB hU =>
    have hlists := hB.bound.lists
    refine ⟨fun r hr => ?_, fun hpc hr => ?_, fun hpc r hr => ⟨fun hgone => ?_, ?_⟩⟩
    · by_cases hpc : t.pc = .rmSection
      · simp only [step, stepRemove, hpc] at h
        obtain ⟨rfl, rfl⟩ := Prod.mk.inj (Option.some.inj h)
        refine ⟨?_, ?_⟩
        · rw [(foldl_delete_lists _ _).1]
          exact hr.1
        · rw [foldl_delete_rport]
          split
          · rfl
          · exact hr.2
      · exact (hB.change hW hpc (hnames i t hi) hi h).deleted (hB.bound_at hi) hr.1 hr.2
    · have hone : t.role.holds t.rport = 1 := by
        simp [Thread.role, hpc, Role.holds, Role.port]
      have hheld := (hB.bound_at hi).calls.held t.rport (by simp only [hone]; omega)
      exact (hlists.of_listed (.inl hheld.1)).2.1 hr.2
    · exact (hlists.of_listed (List.mem_append.mp hr)).2.1 hgone.2
    · have hcount := hlists.nodup.count (a := r)
      have hle : (c.shared.rports ++ c.shared.bindings).count r ≤ 1 := by
        rw [show (c.shared.rports ++ c.shared.bindings).count r = _ from hcount]
        split <;> omega
      exact hle
  | after n hA hD =>
    obtain ⟨-, -, -, -, -, hsame⟩ := after_ports hA hk hW (hnames i t hi) hi h
    refine ⟨fun r hr => ?_, fun hpc => ?_, fun hpc => absurd hpc (hA.passed t ht).2⟩
    · have hlt : r < n := by
        by_contra hge
        have honline := hA.new r (Nat.le_of_not_lt hge) hr.1
        rw [hr.2] at honline
        cases honline
      exact ⟨Nat.lt_of_lt_of_le hr.1 (step_nextRport h), (hsame r hlt).trans hr.2⟩
    · obtain ⟨-, -, -, hcreates⟩ := hA.calls t ht t.rport (by simp [Thread.active, hpc])
      simp [Thread.creates, hpc] at hcreates

structure Released (c : Config Shared Thread) : Prop where
  phase : Phase c
  once : DeletedOnce c.shared

theorem reach_released (h : machine.Reach (fun c e => calm c e = true) initial c) :
    Released c := by
  refine Machine.Reach.invariant Released ?_ ?_ ?_ h
  · refine ⟨.before bindings_initial fun r hr => ?_, fun r => ⟨Nat.zero_le 1, fun _ => rfl⟩⟩
    exact absurd hr.1 (Nat.not_lt_zero r)
  · intro c call s t _ hI hok hs
    exact ⟨phase_enter hI.phase hok hs, deletedOnce_enter hI.once hs⟩
  · intro c i a t s t' hc hI hok hi hs
    have hc := hc.reachable
    obtain ⟨hk, hnames⟩ := reachable_known hc
    obtain ⟨hgone, hdelete, hremove⟩ := phase_deletes hI.phase hc hi hs
    exact ⟨phase_step hI.phase hc hok hi hs,
      deletedOnce_step hI.once hk (hnames i t hi) hgone hdelete hremove hs⟩

end Runs

/-- **An rport is freed when none of its work is pending.** -/
theorem release_idle {c : Config Shared Thread}
    (h : machine.Reach (fun c e => calm c e = true) initial c) :
    (∀ t ∈ c.pool, t.pc = .fdFree → c.shared.NoWork t.rport) ∧
    (∀ r, c.shared.Gone r → (c.shared.rport r).live = false → c.shared.NoWork r) ∧
    ∀ r, (c.shared.rport r).deletes ≤ 1 := by
  have hI := reach_released h
  have hT := targeted_of_reachable h.reachable
  have hW := reachable_workers h.reachable
  refine ⟨fun t ht hpc => ?_, fun r hr hdead => ?_, fun r => (hI.once r).1⟩
  · have hwork : t.work = some .rportDelete := by simp [Thread.work, hpc]
    cases hI.phase with
    | before hB hU => exact noWork_of_targetId hT (hU _ (hB.gone_of_work hW ht hwork)).1
    | after n hA hD =>
      obtain ⟨i, hi⟩ := List.mem_iff_getElem?.mp ht
      obtain ⟨hlt, hdeleted⟩ := hA.final_of_work hW hi hwork
      exact noWork_of_final hW (hD t.rport hlt hdeleted) hi hpc rfl
  · cases hI.phase with
    | before hB hU => exact noWork_of_targetId hT (hU r hr).1
    | after n hA hD =>
      have hlt : r < n := by
        by_contra hge
        have honline := hA.new r (Nat.le_of_not_lt hge) hr.1
        rw [hr.2] at honline
        cases honline
      exact (hD r hlt hr.2).freed hdead

/-- A port that its driver has deleted is taken by `fc_remove_host`, and freed. -/
theorem release_idle_after_delete :
    ∃ c, machine.Reach (fun c e => calm c e = true) initial c ∧ c.shared.Gone 0 ∧
      (c.shared.rport 0).live = false ∧ c.shared.NoWork 0 := by
  obtain ⟨c, hc, ho⟩ := machine.exists_reach_of_runIf calm
    (List.flatten [[.start (.add ⟨0, 7⟩ true)], acts 0 10, [.start (.delete 0)], acts 1 5,
      [.start .removeHost], acts 2 2, [.start .runWork], acts 3 2, [.start .runScsi], acts 4 2,
      acts 3 11])
    initial (fun c => (c.shared.nextRport, (c.shared.rport 0).state, (c.shared.rport 0).live))
    (1, .deleted, false) (by decide)
  simp only [Prod.mk.injEq] at ho
  have hgone : c.shared.Gone 0 := ⟨by omega, ho.2.1⟩
  exact ⟨c, hc, hgone, ho.2.2, (release_idle hc).2.1 0 hgone ho.2.2⟩

/-- `fc_remote_port_delete` has marked the port and dropped the lock; `fc_remove_host` comes in
    between, the port is freed, and only then the timers are armed.  In the second run the first
    scan takes the flag of the second one, and the final delete does not wait for it.  In the
    third the port is deleted and freed while it is made a target, and only then scanned. -/
theorem freed_with_work :
    (∃ c, machine.Reachable initial c ∧ (c.shared.rport 0).live = false ∧
      (c.shared.rport 0).devLossArmed = true) ∧
    (∃ c, machine.Reachable initial c ∧ (c.shared.rport 0).live = false ∧
      c.shared.scsiQ.pending .scan 0 = true) ∧
    ∃ c, machine.Reachable initial c ∧ c.shared.removing = false ∧
      (c.shared.rport 0).live = false ∧ c.shared.scsiQ.pending .scan 0 = true := by
  refine ⟨?_, ?_, ?_⟩
  · obtain ⟨c, hc, ho⟩ := machine.exists_reachable_of_run
      (List.flatten [[.start (.add ⟨0, 7⟩ true)], acts 0 10, [.start (.delete 0)], acts 1 2,
        [.start .removeHost], acts 2 2, [.start .runScsi], acts 3 2, [.start .runWork],
        acts 4 13, acts 1 3])
      initial (fun c => ((c.shared.rport 0).live, (c.shared.rport 0).devLossArmed))
      (false, true) (by decide)
    simp only [Prod.mk.injEq] at ho
    exact ⟨c, hc, ho⟩
  · obtain ⟨c, hc, ho⟩ := machine.exists_reachable_of_run
      (List.flatten [[.start (.add ⟨0, 7⟩ true)], acts 0 10, [.start .runScsi],
        [.start (.delete 0)], acts 2 5, [.start (.add ⟨0, 7⟩ true)], acts 3 10, acts 1 2,
        [.start .removeHost], acts 4 2, [.start .runWork], acts 5 6])
      initial (fun c => ((c.shared.rport 0).live, c.shared.scsiQ.pending .scan 0))
      (false, true) (by decide)
    simp only [Prod.mk.injEq] at ho
    exact ⟨c, hc, ho⟩
  · obtain ⟨c, hc, ho⟩ := machine.exists_reachable_of_run
      (List.flatten [[.start (.add ⟨0, 7⟩ false)], acts 0 7, [.start (.rolechg 0 true)], acts 1 1,
        [.start (.delete 0)], acts 2 2, [.start .runWork], acts 3 3, acts 1 11])
      initial (fun c => (c.shared.removing, (c.shared.rport 0).live,
        c.shared.scsiQ.pending .scan 0)) (false, false, true) (by decide)
    simp only [Prod.mk.injEq] at ho
    exact ⟨c, hc, ho⟩

end VmkLinux.Scsi.Fc
