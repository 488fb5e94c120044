/-
  VmkLinux/Sequence.lean
  ======================
  **Sequences of calls**: one state, and calls that are made one after the other.

  Where a module is entered by one world at a time, or under one lock, a call is one step: a
  function from the state before it to the state after it, `none` where the caller may not make
  it.  Nothing here knows which calls there are.
-/
import Mathlib.Data.List.Basic

namespace VmkLinux.Sequence

variable {S C : Type}

/-- The calls one after the other, each checked against `ok` before it is made. -/
def runIf (step : C → S → Option S) (ok : S → C → Bool) : List C → S → Option S
  | [], s => some s
  | call :: calls, s =>
      if ok s call then
        match step call s with
        | some s' => runIf step ok calls s'
        | none => none
      else none

/-- The states that a sequence of calls from `s₀` leads to when every call satisfies `ok` in the
    state it is made in. -/
inductive Reach (step : C → S → Option S) (ok : S → C → Prop) (s₀ : S) : S → Prop
  | init : Reach step ok s₀ s₀
  | call {s s' : S} {call : C} :
      Reach step ok s₀ s → ok s call → step call s = some s' → Reach step ok s₀ s'

/-- The states that some sequence of calls leads to. -/
def Reachable (step : C → S → Option S) (s₀ : S) : S → Prop := Reach step (fun _ _ => True) s₀

/-- Every call of a sequence satisfies `P`, which sees the state before it and the state
    after it. -/
def AllCalls (step : C → S → Option S) (P : S → C → S → Prop) : List C → S → Prop
  | [], _ => True
  | call :: calls, s => ∀ s', step call s = some s' → P s call s' ∧ AllCalls step P calls s'

variable {step : C → S → Option S} {s₀ s : S}

theorem Reach.reachable {ok : S → C → Prop} (h : Reach step ok s₀ s) : Reachable step s₀ s := by
  induction h with
  | init => exact .init
  | call _ _ hs ih => exact .call ih trivial hs

/-- **Invariant rule.** -/
theorem Reach.invariant {ok : S → C → Prop} (I : S → Prop) (hinit : I s₀)
    (hstep : ∀ s call s', I s → ok s call → step call s = some s' → I s')
    (h : Reach step ok s₀ s) : I s := by
  induction h with
  | init => exact hinit
  | call _ hok hs ih => exact hstep _ _ _ ih hok hs

theorem Reach.trans_runIf {ok : S → C → Bool} :
    ∀ {calls : List C} {s s' : S}, Reach step (fun s call => ok s call = true) s₀ s →
      runIf step ok calls s = some s' → Reach step (fun s call => ok s call = true) s₀ s' := by
  intro calls
  induction calls with
  | nil =>
    intro s s' hs hrun
    simp only [runIf, Option.some.injEq] at hrun
    subst hrun
    exact hs
  | cons call calls ih =>
    intro s s' hs hrun
    simp only [runIf] at hrun
    split at hrun
    · rename_i hok
      split at hrun
      · rename_i s₁ hstep
        exact ih (.call hs hok hstep) hrun
      · cases hrun
    · cases hrun

variable (step) in
/-- What a sequence of calls shows at its end can be reached. -/
theorem exists_reach_of_runIf {O : Type} (ok : S → C → Bool) (calls : List C) (s₀ : S)
    (observe : S → O) (o : O) (h : (runIf step ok calls s₀).map observe = some o) :
    ∃ s, Reach step (fun s call => ok s call = true) s₀ s ∧ observe s = o := by
  obtain ⟨s, hs, ho⟩ := Option.map_eq_some_iff.mp h
  exact ⟨s, Reach.trans_runIf .init hs, ho⟩

variable (step) in
theorem exists_reachable_of_run {O : Type} (calls : List C) (s₀ : S) (observe : S → O) (o : O)
    (h : (runIf step (fun _ _ => true) calls s₀).map observe = some o) :
    ∃ s, Reachable step s₀ s ∧ observe s = o := by
  obtain ⟨s, hs, ho⟩ := exists_reach_of_runIf step _ calls s₀ observe o h
  exact ⟨s, hs.reachable, ho⟩

/-- Two properties of calls that agree where an invariant holds, of which the first keeps the
    invariant, hold of the same sequences. -/
theorem allCalls_iff {P Q : S → C → S → Prop} (I : S → Prop)
    (hiff : ∀ s call s', I s → step call s = some s' → (P s call s' ↔ Q s call s'))
    (hinv : ∀ s call s', I s → step call s = some s' → P s call s' → I s') :
    ∀ (calls : List C) (s : S), I s → (AllCalls step P calls s ↔ AllCalls step Q calls s) := by
  intro calls
  induction calls with
  | nil => intro s _; exact Iff.rfl
  | cons call calls ih =>
    intro s hs
    constructor
    · intro h s' hstep
      have hP := (h s' hstep).1
      exact ⟨(hiff s call s' hs hstep).mp hP,
        (ih s' (hinv s call s' hs hstep hP)).mp (h s' hstep).2⟩
    · intro h s' hstep
      have hP := (hiff s call s' hs hstep).mpr (h s' hstep).1
      exact ⟨hP, (ih s' (hinv s call s' hs hstep hP)).mpr (h s' hstep).2⟩

end VmkLinux.Sequence
