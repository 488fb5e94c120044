/-
  VmkLinux/Completion/Tokens.lean
  ===============================
  **Tokens.**  `done` is the number of calls of `complete` less the number of waits
  that took a token, as long as `complete` is not called on a counter at its limit.

  A timed wait should return a positive value exactly when it took a token.  On the
  slow path it does: the value is what `schedule_timeout` left, a zero leaves
  without a token, and a signal is reported as a negative value.  On the fast path
  the token is taken whatever the timeout is, and the timeout is returned as it came
  (`tokens_conserved_and_reported`), so that a call with a timeout of zero that finds
  a token says it has timed out (`zero_timeout_takes_token`).
-/
import VmkLinux.Completion.Model

namespace VmkLinux.Completion

open VmkLinux.Interleave

/-! ### Conservation -/

/-- The calls of `complete`, and the waits that took a token. -/
def Pc.completes : Pc → Nat
  | .completed => 1
  | _ => 0

def Pc.consumes : Pc → Nat
  | .returned _ true => 1
  | _ => 0

/-- `complete` is not called where `done++` wraps. -/
def noWrap (c : Config Shared Pc) : Event Call Choice → Bool
  | .start (.complete _) => decide (c.shared.done + 1 < 2 ^ 32)
  | _ => true

theorem waitBody_counts {signal : Bool} {s s' : Shared} {w : Wait} {pc : Pc}
    (h : waitBody signal s w = (s', pc)) : pc.consumes = 0 ∧ pc.completes = 0 := by
  rcases waitBody_cases h with ⟨state, -, hpc⟩ | ⟨-, -, rfl⟩
  · rcases hpc with ⟨-, rfl⟩ | ⟨-, rfl⟩
    · exact ⟨rfl, rfl⟩
    · exact ⟨rfl, rfl⟩
  · exact ⟨rfl, rfl⟩

/-- A step takes a token off `done` exactly when its call returns with one. -/
theorem step_tokens {a : Choice} {s s' : Shared} {pc pc' : Pc}
    (h : step a s pc = some (s', pc')) :
    s'.done + pc'.consumes = s.done + pc.consumes ∧ pc'.completes = pc.completes := by
  cases pc with
  | waitLock w =>
    rcases waitLock_cases h with ⟨-, hbody⟩ | ⟨hdone, rfl, rfl⟩
    · obtain ⟨hconsumes, hcompletes⟩ := waitBody_counts hbody
      rw [waitBody_done hbody, hconsumes, hcompletes]
      exact ⟨rfl, rfl⟩
    · exact ⟨Nat.sub_add_cancel (Nat.pos_of_ne_zero hdone), rfl⟩
  | relock w =>
    rcases relock_cases h with ⟨-, rfl, rfl⟩ | ⟨-, -, hbody⟩ | ⟨-, hdone, rfl, rfl⟩
    · exact ⟨rfl, rfl⟩
    · obtain ⟨hconsumes, hcompletes⟩ := waitBody_counts hbody
      rw [waitBody_done hbody, hconsumes, hcompletes]
      exact ⟨rfl, rfl⟩
    · exact ⟨Nat.sub_add_cancel (Nat.pos_of_ne_zero hdone), rfl⟩
  | _ =>
    simp only [step] at h
    repeat' split at h
    all_goals simp only [Option.some.injEq, Prod.mk.injEq, reduceCtorEq] at h
    all_goals obtain ⟨rfl, rfl⟩ := h
    all_goals exact ⟨rfl, rfl⟩

/-- A start adds a token exactly when it is one of `complete`. -/
theorem enter_tokens {c : Config Shared Pc} {call : Call} {s' : Shared} {pc : Pc}
    (h : enter c.pool.length c.shared call = some (s', pc)) (hok : noWrap c (.start call) = true) :
    s'.done = c.shared.done + pc.completes ∧ pc.consumes = 0 := by
  cases call with
  | complete late =>
    simp only [enter, Option.some.injEq, Prod.mk.injEq] at h
    obtain ⟨rfl, rfl⟩ := h
    simp only [noWrap, decide_eq_true_eq] at hok
    rw [complete_done, Nat.mod_eq_of_lt hok]
    exact ⟨rfl, rfl⟩
  | wait kind timeout stale =>
    simp only [enter, Option.some.injEq, Prod.mk.injEq] at h
    obtain ⟨rfl, rfl⟩ := h
    exact ⟨rfl, rfl⟩
  | waitTimeout i =>
    simp only [enter] at h
    split at h
    · simp only [Option.some.injEq, Prod.mk.injEq] at h
      obtain ⟨rfl, rfl⟩ := h
      exact ⟨rfl, rfl⟩
    · cases h

theorem tokens_conserved {c : Config Shared Pc}
    (h : machine.Reach (fun c e => noWrap c e = true) initial c) :
    total Pc.completes c.pool = c.shared.done + total Pc.consumes c.pool := by
  refine Machine.Reach.invariant
    (fun c => total Pc.completes c.pool = c.shared.done + total Pc.consumes c.pool) rfl ?_ ?_ h
  · intro c call s pc _ hI hok hs
    obtain ⟨hdone, hconsumes⟩ := enter_tokens hs hok
    simp only [total_append]
    omega
  · intro c i a pc s pc' _ hI _ hi hs
    obtain ⟨htokens, hcompletes⟩ := step_tokens hs
    rw [total_eq_others _ hi, total_eq_others _ hi] at hI
    rw [total_set _ _ hi, total_set _ _ hi]
    show _ = s.done + _
    omega

/-! ### Return values -/

/-- What a timed wait knows of its timeout.  A call on the slow path found no token
    at its entry, and comes back from `schedule_timeout` with no negative value. -/
def Pc.Reports : Pc → Prop
  | .waitLock w => w.timeout = w.arg
  | .scheduleTimeout w | .modTimer w | .delTimer w | .schedule w true => w.entry = 0
  | .schedule w false | .relock w => w.entry = 0 ∧ (w.kind ≠ .plain → 0 ≤ w.timeout)
  | .returned w consumed =>
      w.kind ≠ .plain → ((0 < w.timeout ↔ consumed = true) ↔ (0 < w.arg ∨ w.entry = 0))
  | _ => True

theorem waitBody_reports {signal : Bool} {s s' : Shared} {w : Wait} {pc : Pc}
    (h : waitBody signal s w = (s', pc)) (hentry : w.entry = 0) : pc.Reports := by
  rcases waitBody_cases h with ⟨state, -, hpc⟩ | ⟨-, -, rfl⟩
  · rcases hpc with ⟨hplain, rfl⟩ | ⟨-, rfl⟩
    · exact ⟨hentry, fun hne => absurd hplain hne⟩
    · exact hentry
  · intro _
    simp [hentry, erestartsys]

theorem step_reports {a : Choice} {s s' : Shared} {pc pc' : Pc}
    (h : step a s pc = some (s', pc')) (hI : pc.Reports) : pc'.Reports := by
  cases pc with
  | waitLock w =>
    rcases waitLock_cases h with ⟨hdone, hbody⟩ | ⟨hdone, -, rfl⟩
    · exact waitBody_reports hbody hdone
    · intro _
      have htimeout : w.timeout = w.arg := hI
      simp [htimeout, hdone]
  | relock w =>
    obtain ⟨hentry, hnonneg⟩ := hI
    rcases relock_cases h with ⟨hout, -, rfl⟩ | ⟨-, -, hbody⟩ | ⟨hout, -, -, rfl⟩
    · intro _
      simp only [Wait.timedOut, decide_eq_true_eq] at hout
      simp [hentry, hout.2]
    · exact waitBody_reports hbody hentry
    · intro hkind
      have hpos : 0 < w.timeout := by
        have hge := hnonneg hkind
        simp only [Wait.timedOut, decide_eq_false_iff_not, not_and] at hout
        have hne := hout hkind
        omega
      simp [hentry, hpos]
  | scheduleTimeout w =>
    have hentry : w.entry = 0 := hI
    simp only [step] at h
    repeat' split at h
    all_goals simp only [Option.some.injEq, Prod.mk.injEq] at h
    all_goals obtain ⟨rfl, rfl⟩ := h
    · rename_i hmax
      refine ⟨hentry, fun _ => ?_⟩
      rw [hmax, maxScheduleTimeout]
      decide
    · exact ⟨hentry, fun _ => Int.le_refl _⟩
    · exact hentry
  | delTimer w =>
    obtain ⟨state, -, hpc⟩ := delTimer_cases h
    rcases hpc with ⟨-, rfl⟩ | ⟨-, rfl⟩
    · refine ⟨hI, fun _ => ?_⟩
      show 0 ≤ if a.diff < 0 then 0 else a.diff
      split
      · exact Int.le_refl _
      · omega
    · exact hI
  | schedule w timed =>
    cases timed with
    | true | false =>
      simp only [step] at h
      repeat' split at h
      all_goals simp only [Option.some.injEq, Prod.mk.injEq, reduceCtorEq] at h
      all_goals obtain ⟨rfl, rfl⟩ := h
      all_goals first | exact hI | contradiction
  | modTimer w =>
    simp only [step, Option.some.injEq, Prod.mk.injEq] at h
    obtain ⟨rfl, rfl⟩ := h
    exact hI
  | _ => cases h

theorem enter_reports {me : Nat} {s s' : Shared} {call : Call} {pc : Pc}
    (h : enter me s call = some (s', pc)) : pc.Reports := by
  cases call with
  | complete late =>
    simp only [enter, Option.some.injEq, Prod.mk.injEq] at h
    obtain ⟨rfl, rfl⟩ := h
    exact trivial
  | wait kind timeout stale =>
    simp only [enter, Option.some.injEq, Prod.mk.injEq] at h
    obtain ⟨rfl, rfl⟩ := h
    exact rfl
  | waitTimeout i =>
    simp only [enter] at h
    split at h
    · simp only [Option.some.injEq, Prod.mk.injEq] at h
      obtain ⟨rfl, rfl⟩ := h
      exact trivial
    · cases h

theorem waits_report {ok : Config Shared Pc → Event Call Choice → Prop} {c : Config Shared Pc}
    (h : machine.Reach ok initial c) : Each (fun _ pc => pc.Reports) c.pool := by
  refine Machine.Reach.invariant (fun c => Each (fun _ pc => pc.Reports) c.pool)
    (each_nil _) ?_ ?_ h
  · intro c call s pc _ hI _ hs
    exact hI.append (fun _ _ _ hu => hu) (enter_reports hs)
  · intro c i a pc s pc' _ hI _ hi hs
    exact hI.set (fun _ _ _ _ hu => hu) (step_reports hs (hI i pc hi))

/-- **Tokens are conserved**, as long as the counter does not wrap, and a timed wait
    reports truthfully whether it took one exactly when its timeout was positive or it
    found no token at its entry. -/
theorem tokens_conserved_and_reported {c : Config Shared Pc}
    (h : machine.Reach (fun c e => noWrap c e = true) initial c) :
    total Pc.completes c.pool = c.shared.done + total Pc.consumes c.pool ∧
    ∀ (i : Nat) (w : Wait) (consumed : Bool), c.pool[i]? = some (.returned w consumed) →
      w.kind ≠ .plain → ((0 < w.timeout ↔ consumed = true) ↔ (0 < w.arg ∨ w.entry = 0)) := by
  constructor
  · exact tokens_conserved h
  · intro i w consumed hi hkind
    exact waits_report h i (.returned w consumed) hi hkind

/-- A wait for at most three jiffies takes the token of an earlier `complete`. -/
theorem timed_wait_reports_token : ∃ c,
    machine.Reach (fun c e => noWrap c e = true) initial c ∧
    (c.shared.done, c.pool) = (0, [.completed, .returned ⟨1, .timeout, 3, 1, 3⟩ true]) ∧
    total Pc.completes c.pool = c.shared.done + total Pc.consumes c.pool ∧
    ((0 < (3 : Int) ↔ true = true) ↔ (0 < (3 : Int) ∨ 1 = 0)) := by
  obtain ⟨c, hc, hobs⟩ := machine.exists_reach_of_runIf noWrap
    [.start (.complete false), .start (.wait .timeout 3 false), .act 1 ⟨false, 0⟩]
    initial (fun c => (c.shared.done, c.pool))
    (0, [.completed, .returned ⟨1, .timeout, 3, 1, 3⟩ true]) (by decide)
  have hpool : c.pool[1]? = some (.returned ⟨1, .timeout, 3, 1, 3⟩ true) :=
    congrArg (fun o => o.2[1]?) hobs
  obtain ⟨htokens, hreports⟩ := tokens_conserved_and_reported hc
  exact ⟨c, hc, hobs, htokens, hreports 1 _ true hpool (by decide)⟩

/-- A wait with a timeout of zero takes the token of an earlier `complete` and
    returns zero. -/
theorem zero_timeout_takes_token : ∃ c, machine.Reachable initial c ∧
    ¬ (total Pc.completes c.pool = c.shared.done + total Pc.consumes c.pool ∧
      ∀ (i : Nat) (w : Wait) (consumed : Bool), c.pool[i]? = some (.returned w consumed) →
        w.kind ≠ .plain → (0 < w.timeout ↔ consumed = true)) := by
  obtain ⟨c, hc, hobs⟩ := machine.exists_reachable_of_run
    [.start (.complete false), .start (.wait .timeout 0 false), .act 1 ⟨false, 0⟩]
    initial (fun c => c.pool) [.completed, .returned ⟨1, .timeout, 0, 1, 0⟩ true] (by decide)
  refine ⟨c, hc, ?_⟩
  rintro ⟨-, hreports⟩
  have hpool : c.pool[1]? = some (.returned ⟨1, .timeout, 0, 1, 0⟩ true) :=
    congrArg (fun pool => pool[1]?) hobs
  have hfalse := hreports 1 _ true hpool (by decide)
  simp at hfalse

end VmkLinux.Completion
