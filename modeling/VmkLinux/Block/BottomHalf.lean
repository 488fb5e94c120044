/-
  VmkLinux/Block/BottomHalf.lean
  ==============================
  **The completions of block commands** (`vmklinux26/vmware/linux_block.c`): the list
  `linuxBHCompletionList`, its producers `LinuxBlockScheduleCompletion` and
  `blk_complete_request`, and the bottom half `LinuxBlockBH`.

  The vmkernel keeps a bit per PCPU: `vmk_BottomHalfSchedulePCPU` sets it, and `LinuxBlockBH` is
  called on a PCPU after its bit was cleared.  All PCPUs share one list.

  `LinuxBlockBH` stops after `BLOCK_MAX_BH_COMMANDS` entries and does not ask to be called again:
  what is left on the list then waits for the next completion (`block_completions_stranded`).
  Whether something is left is settled when the last bit is cleared: the bottom half that starts
  then and those under way must be able to take what they find (`roomAtStart`).
-/
import VmkLinux.Interleave
import VmkLinux.Block.Bio

namespace VmkLinux.Block.BottomHalf

open VmkLinux.Interleave
open VmkLinux.Block.Io (LinuxBlockBuffer)

/-! ### Data -/

/-- `BLOCK_MAX_BH_COMMANDS`. -/
def blockMaxBhCommands : Nat := 25

/-- `pending` are the PCPUs on which `linuxBlockBHNum` is pending, and `completed` the commands
    that `LinuxBlockCompleteCommand` was called for, the last one first. -/
structure Shared where
  linuxBHCompletionList : List LinuxBlockBuffer := []
  pending : List Nat := []
  completed : List Nat := []
deriving DecidableEq, Repr

inductive Pc where
  /-- `LinuxBlockScheduleCompletion` and `blk_complete_request`. -/
  | addTail
  | schedule
  /-- `LinuxBlockBH`. -/
  | test
  | take
  | complete
  | done
deriving DecidableEq, Repr

structure Thread where
  pc : Pc
  llb : Option LinuxBlockBuffer := none
  count : Nat := 0
deriving DecidableEq, Repr

inductive Call where
  | scheduleCompletion (cmd : Nat)
  | blkCompleteRequest (llb : LinuxBlockBuffer)
  /-- The vmkernel runs the bottom half on a PCPU. -/
  | linuxBlockBH (pcpu : Nat)
deriving DecidableEq, Repr

/-! ### Producers and the bottom half -/

def enter (_ : Nat) (call : Call) (s : Shared) : Option (Shared × Thread) :=
  match call with
  | .scheduleCompletion cmd => some (s, { pc := .addTail, llb := some ⟨cmd, true, .specialIo⟩ })
  | .blkCompleteRequest llb => some (s, { pc := .addTail, llb := some llb })
  | .linuxBlockBH pcpu =>
      if pcpu ∈ s.pending then some ({ s with pending := s.pending.erase pcpu }, { pc := .test })
      else none

/-- `LinuxBlockCompleteCommand`, or nothing for a core dump. -/
def completeCommand (llb : LinuxBlockBuffer) (s : Shared) : Shared :=
  match llb.spccmd with
  | .specialIo | .normalIo => { s with completed := llb.cmd :: s.completed }
  | .dumpIo => s

/-- `pcpu` is the PCPU that the thread runs on. -/
def step (pcpu : Nat) (s : Shared) (t : Thread) : Option (Shared × Thread) :=
  match t.pc with
  | .addTail =>
      some ({ s with linuxBHCompletionList := s.linuxBHCompletionList ++ t.llb.toList },
        { t with pc := .schedule })
  | .schedule => some ({ s with pending := s.pending.insert pcpu }, { t with pc := .done })
  | .test =>
      if t.count = blockMaxBhCommands then some (s, { t with pc := .done })
      else some (s, { t with pc := .take, count := t.count + 1 })
  | .take =>
      match s.linuxBHCompletionList with
      | [] => some (s, { t with pc := .done })
      | llb :: llbs =>
          some ({ s with linuxBHCompletionList := llbs },
            { t with pc := .complete, llb := some llb })
  | .complete =>
      match t.llb with
      | some llb => some (completeCommand llb s, { t with pc := .test })
      | none => none
  | .done => none

def machine : Machine Shared Thread Call Nat := ⟨enter, step⟩

def initial : Config Shared Thread := ⟨{}, []⟩

/-! ### Entries that are left -/

def Thread.busy (t : Thread) : Bool := decide (t.pc ≠ .done)

/-- A producer that has still to set a bit. -/
def Thread.producing (t : Thread) : Bool := decide (t.pc = .addTail) || decide (t.pc = .schedule)

/-- How many entries a bottom half may still take. -/
def Thread.room (t : Thread) : Nat :=
  match t.pc with
  | .test | .complete => blockMaxBhCommands - t.count
  | .take => blockMaxBhCommands - t.count + 1
  | _ => 0

/-- A bottom half that starts, where it clears the last bit and no producer is going to set one,
    finds no more entries than it and those under way may take. -/
def roomAtStart (c : Config Shared Thread) : Event Call Nat → Bool
  | .start (.linuxBlockBH pcpu) =>
      decide (c.shared.pending.erase pcpu ≠ []) || c.pool.any Thread.producing ||
        decide (c.shared.linuxBHCompletionList.length ≤
          blockMaxBhCommands + total Thread.room c.pool)
  | _ => true

/-- With nobody under way a list with entries has its bottom half pending. -/
def NotStranded (c : Config Shared Thread) : Prop :=
  (∀ t ∈ c.pool, t.busy = false) → c.shared.linuxBHCompletionList ≠ [] → c.shared.pending ≠ []

/-- A bit is set, or is going to be, or what is under way can take all entries. -/
def Roomy (c : Config Shared Thread) : Prop :=
  c.shared.pending ≠ [] ∨ c.pool.any Thread.producing = true ∨
    c.shared.linuxBHCompletionList.length ≤ total Thread.room c.pool

section Step

variable {c : Config Shared Thread} {s s' : Shared} {t t' : Thread} {pcpu : Nat}

/-- A producer sets a bit after it has added its entry; a bottom half takes an entry, or finds
    none, or passes on. -/
theorem step_room (h : step pcpu s t = some (s', t')) :
    t'.producing = true ∨ s'.pending ≠ [] ∨
      (t.producing = false ∧ s'.pending = s.pending ∧
        (s'.linuxBHCompletionList = [] ∨
          s'.linuxBHCompletionList.length + t.room ≤
            s.linuxBHCompletionList.length + t'.room)) := by
  unfold step at h
  cases hpc : t.pc with
  | addTail =>
    simp only [hpc, Option.some.injEq, Prod.mk.injEq] at h
    obtain ⟨-, rfl⟩ := h
    exact Or.inl rfl
  | schedule =>
    simp only [hpc, Option.some.injEq, Prod.mk.injEq] at h
    obtain ⟨rfl, -⟩ := h
    exact Or.inr (Or.inl (List.ne_nil_of_mem (List.mem_insert_self ..)))
  | test =>
    have hproducing : t.producing = false := by simp [Thread.producing, hpc]
    simp only [hpc] at h
    split at h
    · rename_i hcount
      simp only [Option.some.injEq, Prod.mk.injEq] at h
      obtain ⟨rfl, rfl⟩ := h
      refine Or.inr (Or.inr ⟨hproducing, rfl, Or.inr ?_⟩)
      simp only [Thread.room, hpc]
      omega
    · rename_i hcount
      simp only [Option.some.injEq, Prod.mk.injEq] at h
      obtain ⟨rfl, rfl⟩ := h
      refine Or.inr (Or.inr ⟨hproducing, rfl, Or.inr ?_⟩)
      simp only [Thread.room, hpc]
      omega
  | take =>
    have hproducing : t.producing = false := by simp [Thread.producing, hpc]
    simp only [hpc] at h
    split at h
    · rename_i hnil
      simp only [Option.some.injEq, Prod.mk.injEq] at h
      obtain ⟨rfl, rfl⟩ := h
      exact Or.inr (Or.inr ⟨hproducing, rfl, Or.inl hnil⟩)
    · rename_i llb llbs hcons
      simp only [Option.some.injEq, Prod.mk.injEq] at h
      obtain ⟨rfl, rfl⟩ := h
      refine Or.inr (Or.inr ⟨hproducing, rfl, Or.inr ?_⟩)
      simp only [Thread.room, hpc, hcons, List.length_cons]
      omega
  | complete =>
    have hproducing : t.producing = false := by simp [Thread.producing, hpc]
    simp only [hpc] at h
    split at h
    · rename_i llb hllb
      simp only [Option.some.injEq, Prod.mk.injEq] at h
      obtain ⟨rfl, rfl⟩ := h
      refine Or.inr (Or.inr ⟨hproducing, ?_, Or.inr ?_⟩)
      · unfold completeCommand
        split <;> rfl
      · simp only [Thread.room, hpc]
        unfold completeCommand
        split <;> exact Nat.le_refl _
    · cases h
  | done => simp [hpc] at h

theorem roomy_act {i : Nat} (hI : Roomy c) (hi : c.pool[i]? = some t)
    (hs : step pcpu c.shared t = some (s', t')) : Roomy ⟨s', c.pool.set i t'⟩ := by
  have hany : ∀ u : Thread, (c.pool.set i u).any Thread.producing =
      (u.producing || (c.pool.eraseIdx i).any Thread.producing) := fun u => any_set _ u hi
  rcases step_room hs with hnew | hpending | ⟨hold, hsame, hroom⟩
  · exact Or.inr (Or.inl (by simp [hany, hnew]))
  · exact Or.inl hpending
  · rcases hI with hpending | hproducing | hle
    · exact Or.inl (hsame ▸ hpending)
    · -- the producer is another thread
      have hset : c.pool.set i t = c.pool := by
        obtain ⟨hlt, rfl⟩ := List.getElem?_eq_some_iff.mp hi
        exact List.set_getElem_self hlt
      have hothers := hany t
      rw [hset, hproducing, hold, Bool.false_or] at hothers
      exact Or.inr (Or.inl (by simp [hany, ← hothers]))
    · right
      right
      rcases hroom with hnil | hroom
      · rw [hnil]
        exact Nat.zero_le _
      · show s'.linuxBHCompletionList.length ≤ total Thread.room (c.pool.set i t')
        rw [total_eq_others _ hi] at hle
        rw [total_set _ t' hi]
        omega

theorem roomy_start {call : Call} (hok : roomAtStart c (.start call) = true)
    (hs : enter c.pool.length call c.shared = some (s', t)) : Roomy ⟨s', c.pool ++ [t]⟩ := by
  cases call with
  | scheduleCompletion cmd =>
    simp only [enter, Option.some.injEq, Prod.mk.injEq] at hs
    obtain ⟨-, rfl⟩ := hs
    exact Or.inr (Or.inl (by simp [Thread.producing]))
  | blkCompleteRequest llb =>
    simp only [enter, Option.some.injEq, Prod.mk.injEq] at hs
    obtain ⟨-, rfl⟩ := hs
    exact Or.inr (Or.inl (by simp [Thread.producing]))
  | linuxBlockBH pcpu =>
    simp only [enter] at hs
    split at hs
    · simp only [Option.some.injEq, Prod.mk.injEq] at hs
      obtain ⟨rfl, rfl⟩ := hs
      simp only [roomAtStart, Bool.or_eq_true, decide_eq_true_eq] at hok
      rcases hok with (hpending | hproducing) | hle
      · exact Or.inl hpending
      · exact Or.inr (Or.inl (by simp [hproducing]))
      · right
        right
        show c.shared.linuxBHCompletionList.length ≤ total Thread.room (c.pool ++ [_])
        rw [total_append]
        simp only [Thread.room]
        omega
    · cases hs

end Step

/-! ### Whole runs -/

theorem roomy_of_reach {c : Config Shared Thread}
    (h : machine.Reach (fun c e => roomAtStart c e = true) initial c) : Roomy c := by
  have hinit : Roomy initial := Or.inr (Or.inr (Nat.le_refl 0))
  refine Machine.Reach.invariant Roomy hinit ?_ ?_ h
  · intro c call s' t _ _ hok hs
    exact roomy_start hok hs
  · intro c i pcpu t s' t' _ hI _ hi hs
    exact roomy_act hI hi hs

/-- **Completions are not stranded** in a run in which each bottom half that clears the last bit
    finds what it and those under way may take, or a producer that is going to set a bit. -/
theorem block_completions_covered {c : Config Shared Thread}
    (h : machine.Reach (fun c e => roomAtStart c e = true) initial c) : NotStranded c := by
  intro hidle hne
  rcases roomy_of_reach h with hpending | hproducing | hle
  · exact hpending
  · obtain ⟨t, hmem, ht⟩ := List.any_eq_true.mp hproducing
    have hbusy := hidle t hmem
    simp only [Thread.busy, decide_eq_false_iff_not, not_not] at hbusy
    simp [Thread.producing, hbusy] at ht
  · have hzero : total Thread.room c.pool = 0 := total_eq_zero fun t hmem => by
      have hbusy := hidle t hmem
      simp only [Thread.busy, decide_eq_false_iff_not, not_not] at hbusy
      simp [Thread.room, hbusy]
    rw [hzero] at hle
    exact absurd (List.length_eq_zero_iff.mp (Nat.le_zero.mp hle)) hne

/-- The bottom half finds 25 entries and takes them; the one that comes meanwhile on PCPU 1 has
    set the bit there. -/
theorem block_completions_second_pcpu :
    ∃ c, machine.Reach (fun c e => roomAtStart c e = true) initial c ∧
      (c.shared.linuxBHCompletionList.length, c.shared.completed.length, c.shared.pending,
        c.pool.any Thread.busy) = (1, 25, [1], false) ∧ NotStranded c := by
  obtain ⟨c, hc, ho⟩ := machine.exists_reach_of_runIf roomAtStart
    (((List.range 25).flatMap fun i => [.start (.scheduleCompletion i), .act i 0, .act i 0]) ++
      .start (.linuxBlockBH 0) :: .start (.scheduleCompletion 25) :: .act 26 1 :: .act 26 1 ::
      List.replicate 76 (.act 25 0))
    initial (fun c => (c.shared.linuxBHCompletionList.length, c.shared.completed.length,
      c.shared.pending, c.pool.any Thread.busy)) (1, 25, [1], false) (by decide +kernel)
  exact ⟨c, hc, ho, block_completions_covered hc⟩

/-- Of 26 completions that are scheduled on one PCPU before the bottom half runs there, the last
    stays on the list, and nothing is pending. -/
theorem block_completions_stranded : ∃ c, machine.Reachable initial c ∧ ¬ NotStranded c := by
  obtain ⟨c, hc, ho⟩ := machine.exists_reachable_of_run
    (((List.range 26).flatMap fun i => [.start (.scheduleCompletion i), .act i 0, .act i 0]) ++
      .start (.linuxBlockBH 0) :: List.replicate 76 (.act 26 0))
    initial (fun c => (c.pool.all fun t => !t.busy, c.shared.linuxBHCompletionList,
      c.shared.pending)) (true, [⟨25, true, .specialIo⟩], []) (by decide +kernel)
  simp only [Prod.mk.injEq, List.all_eq_true, Bool.not_eq_true'] at ho
  obtain ⟨hidle, hlist, hpending⟩ := ho
  refine ⟨c, hc, fun hns => hns hidle ?_ hpending⟩
  rw [hlist]
  exact List.cons_ne_nil _ _

end VmkLinux.Block.BottomHalf
