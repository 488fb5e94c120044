/-
  VmkLinux/Scsi/Invariant.lean
  ============================
  **The completion of a command.**  A command whose `NEED_CMDDONE` is set has one
  completion to come, and at any time that completion is in one place only: the driver
  has still to call `scsi_done`, a call of `SCSILinuxCmdDone` has still to decide, or
  the completion is parked as `CMDDONE_ATTEMPTED` with whoever holds
  `DELAY_CMDDONE`.  `DELAY_CMDDONE` has exactly one holder, an aborter or the work
  item of the timeout, and the holder that clears it takes a parked completion along:
  until it decides, the command has no holder although its completion was attempted.

  `CmdInv` says this of one command and of what the calls in progress do for it; here
  are the moves that keep it, and `ExactlyOnce.lean` shows that the machine makes no
  others.
-/
import VmkLinux.Scsi.Model

namespace VmkLinux.Scsi

open VmkLinux.Interleave

/-! ### What the calls do for a command -/

/-- The parties that call `SCSILinuxCmdDone`. -/
inductive Party where
  | queue
  | driver
  | work
  | abort
deriving DecidableEq, Repr

def Caller.party : Caller → Party
  | .queue => .queue
  | .driver => .driver
  | .work => .work
  | .abort _ => .abort

/-- What some calls do for one command: how many calls of `SCSILinuxCmdDone` have still
    to decide, and how many are about to put it on a completion list, for each party;
    how many hold its `DELAY_CMDDONE`; how many handle its timeout, up to their own
    call of `scsi_done`. -/
structure Load where
  deciding : Party → Nat
  putting : Party → Nat
  owns : Nat
  timing : Nat

namespace Load

def none : Load := ⟨fun _ => 0, fun _ => 0, 0, 0⟩

def decide (k : Party) : Load := ⟨fun k' => if k' = k then 1 else 0, fun _ => 0, 0, 0⟩

def put (k : Party) : Load := ⟨fun _ => 0, fun k' => if k' = k then 1 else 0, 0, 0⟩

def own (n : Nat) : Load := ⟨fun _ => 0, fun _ => 0, n, 0⟩

/-- A timeout that does not hold `DELAY_CMDDONE`, and one that does. -/
def timeout : Load := ⟨fun _ => 0, fun _ => 0, 0, 1⟩

def work : Load := ⟨fun _ => 0, fun _ => 0, 1, 1⟩

def add (l l' : Load) : Load where
  deciding := fun k => l.deciding k + l'.deciding k
  putting := fun k => l.putting k + l'.putting k
  owns := l.owns + l'.owns
  timing := l.timing + l'.timing

theorem add_right_comm (l l' l'' : Load) : l.add (l'.add l'') = (l.add l'').add l' := by
  simp only [add, mk.injEq]
  refine ⟨?_, ?_, ?_, ?_⟩
  · funext k
    omega
  · funext k
    omega
  · omega
  · omega

@[simp] theorem add_none (l : Load) : l.add .none = l := rfl

end Load

def Handler.load (x y : Nat) : Handler → Load
  | .abort a => .own (a.list.count x)
  | .work => if y = x then .work else .none

/-- What a caller of `SCSILinuxCmdDone` has still to do for command `x` when it is back. -/
def Caller.load (x : Nat) : Caller → Load
  | .abort a => .own (a.todo.count x)
  | _ => .none

/-- What a call does for command `x`. -/
def Pc.load (x : Nat) : Pc → Load
  | .doneLock y k | .doneTimer y k | .doneRelock y k =>
      (if y = x then .decide k.party else .none : Load).add (k.load x)
  | .refusedTimer y | .refusedTest y => if y = x then .decide .queue else .none
  | .doneSchedule y k => (if y = x then .put k.party else .none : Load).add (k.load x)
  | .abortLoop a | .abortFinish a => .own (a.list.count x)
  | .finishLoop a => .own (a.todo.count x)
  | .notReached _ k => k.load x
  | .tryAbort h y | .abortStatus h y _ => h.load x y
  | .timedOut y => if y = x then .timeout else .none
  | .workFinish y => if y = x then .work else .none
  | _ => .none

def loadOf (x : Nat) (pool : List Pc) : Load where
  deciding := fun k => total (fun pc => (pc.load x).deciding k) pool
  putting := fun k => total (fun pc => (pc.load x).putting k) pool
  owns := total (fun pc => (pc.load x).owns) pool
  timing := total (fun pc => (pc.load x).timing) pool

def othersLoad (x : Nat) (pool : List Pc) (i : Nat) : Load where
  deciding := fun k => others (fun pc => (pc.load x).deciding k) pool i
  putting := fun k => others (fun pc => (pc.load x).putting k) pool i
  owns := others (fun pc => (pc.load x).owns) pool i
  timing := others (fun pc => (pc.load x).timing) pool i

theorem loadOf_append (x : Nat) (pool : List Pc) (pc : Pc) :
    loadOf x (pool ++ [pc]) = (loadOf x pool).add (pc.load x) := by
  simp only [loadOf, total_append, Load.add]

theorem loadOf_eq_others (x : Nat) {pool : List Pc} {i : Nat} {pc : Pc}
    (h : pool[i]? = some pc) : loadOf x pool = (othersLoad x pool i).add (pc.load x) := by
  simp only [loadOf, total_eq_others _ h, Load.add, othersLoad]

theorem loadOf_set (x : Nat) {pool : List Pc} {i : Nat} {pc : Pc} (pc' : Pc)
    (h : pool[i]? = some pc) :
    loadOf x (pool.set i pc') = (othersLoad x pool i).add (pc'.load x) := by
  simp only [loadOf, total_set _ _ h, Load.add, othersLoad]

/-! ### The invariant of one command -/

/-- Where the completion of a command is, before it is put on a completion list. -/
def tokens (c : ScsiCmnd) (l : Load) : Nat :=
  l.deciding .queue + l.deciding .driver + l.deciding .work + l.deciding .abort
    + if c.driver = .holds then 1 else 0

def puttings (l : Load) : Nat :=
  l.putting .queue + l.putting .driver + l.putting .work + l.putting .abort

structure CmdInv (c : ScsiCmnd) (l : Load) : Prop where
  owned : l.owns = if c.delayCmddone then 1 else 0
  timer : (if c.timerArmed then 1 else 0) + l.timing + l.deciding .work + l.putting .work ≤ 1
  driver : l.deciding .driver + l.putting .driver = if c.driver = .calling then 1 else 0
  queue : c.driver ≠ .none → l.deciding .queue + l.putting .queue = 0
  clean : c.delayedPuts = 0 ∧ c.doubled = false
  fresh : c.given = false → c.needCmddone = false ∧ c.delayCmddone = false ∧
    c.cmddoneAttempted = false ∧ c.timerArmed = false ∧ c.driver = .none ∧
    tokens c l = 0 ∧ puttings l + c.puts = 0 ∧ l.timing = 0
  needed : c.needCmddone = true → puttings l + c.puts = 0 ∧
    (c.cmddoneAttempted = false → tokens c l = 1) ∧
    (c.cmddoneAttempted = true → c.delayCmddone = true → tokens c l = 0) ∧
    (c.cmddoneAttempted = true → c.delayCmddone = false →
      tokens c l = 1 ∧ l.deciding .work + l.deciding .abort = 1)
  completed : c.given = true → c.needCmddone = false →
    c.delayCmddone = false ∧ tokens c l = 0 ∧ puttings l + c.puts = 1

section CmdInv

variable {c : ScsiCmnd} {l r : Load} {k : Caller} {π : Party}

/-- What `CmdInv` reads of a command. -/
theorem CmdInv.congr (hI : CmdInv c l) {device : Nat} {ioTimeout serial : Bool} :
    CmdInv { c with device := device, ioTimeout := ioTimeout, serialNumber := serial } l :=
  ⟨hI.owned, hI.timer, hI.driver, hI.queue, hI.clean, hI.fresh, hI.needed, hI.completed⟩

theorem CmdInv.deleteTimer (hI : CmdInv c l) : CmdInv c.deleteTimer l := by
  have htimer :
      (if false = true then 1 else 0) + l.timing + l.deciding .work + l.putting .work ≤ 1 := by
    have hle := hI.timer
    simp only [Bool.false_eq_true, if_false]
    omega
  refine ⟨hI.owned, htimer, hI.driver, hI.queue, hI.clean, ?_, hI.needed, hI.completed⟩
  intro hgiven
  obtain ⟨hneed, hdelay, hattempted, -, hrest⟩ := hI.fresh hgiven
  exact ⟨hneed, hdelay, hattempted, rfl, hrest⟩

theorem CmdInv.given_of_need (hI : CmdInv c l) (hneed : c.needCmddone = true) :
    c.given = true := by
  by_contra hnot
  simp only [Bool.not_eq_true] at hnot
  rw [(hI.fresh hnot).1] at hneed
  cases hneed

/-- A command that is delayed is in need of its completion. -/
theorem CmdInv.need_of_delay (hI : CmdInv c l) (hdelay : c.delayCmddone = true) :
    c.needCmddone = true := by
  by_contra hnot
  simp only [Bool.not_eq_true] at hnot
  cases hgiven : c.given with
  | false =>
    rw [(hI.fresh hgiven).2.1] at hdelay
    cases hdelay
  | true =>
    rw [(hI.completed hgiven hnot).1] at hdelay
    cases hdelay

/-- A call that has still to decide finds the command in need of it. -/
theorem CmdInv.need_of_decide (hI : CmdInv c (r.add (.decide π))) :
    c.needCmddone = true ∧ tokens c (r.add (.decide π)) = 1 := by
  have htokens : 0 < tokens c (r.add (.decide π)) := by
    cases π
    all_goals simp only [tokens, Load.add, Load.decide, if_true]
    all_goals omega
  have hneed : c.needCmddone = true := by
    by_contra hnot
    simp only [Bool.not_eq_true] at hnot
    cases hgiven : c.given with
    | false =>
      have hzero := (hI.fresh hgiven).2.2.2.2.2.1
      omega
    | true =>
      have hzero := (hI.completed hgiven hnot).2.1
      omega
  refine ⟨hneed, ?_⟩
  obtain ⟨-, hheld, hparked, hgap⟩ := hI.needed hneed
  cases hattempted : c.cmddoneAttempted with
  | false => exact hheld hattempted
  | true =>
    cases hdelay : c.delayCmddone with
    | false => exact (hgap hattempted hdelay).1
    | true =>
      have hzero := hparked hattempted hdelay
      omega

/-- A call decides while the command is delayed: its completion is parked. -/
theorem CmdInv.park (hI : CmdInv c (r.add (.decide k.party))) (hdelay : c.delayCmddone = true) :
    CmdInv ({ c with cmddoneAttempted := true }.doneReturn k) r := by
  obtain ⟨hneed, htokens⟩ := hI.need_of_decide
  have hgiven := hI.given_of_need hneed
  have hputs := (hI.needed hneed).1
  obtain ⟨howned, htimer, hdriver, hqueue, hclean, -, -, -⟩ := hI
  cases k
  all_goals simp only [Load.add, Load.decide, Caller.party, tokens, puttings] at *
  all_goals constructor
  all_goals simp [ScsiCmnd.doneReturn, tokens, puttings, hneed, hdelay, hgiven]
  all_goals grind

/-- A call decides while the command is not delayed: it takes the completion. -/
theorem CmdInv.take (hI : CmdInv c (r.add (.decide π))) (hdelay : c.delayCmddone = false) :
    CmdInv { c with needCmddone := false } (r.add (.put π)) := by
  obtain ⟨hneed, htokens⟩ := hI.need_of_decide
  have hgiven := hI.given_of_need hneed
  have hputs := (hI.needed hneed).1
  obtain ⟨howned, htimer, hdriver, hqueue, hclean, -, -, -⟩ := hI
  cases π
  all_goals simp only [Load.add, Load.decide, Load.put, tokens, puttings] at *
  all_goals constructor
  all_goals simp [tokens, puttings, hdelay, hgiven]
  all_goals grind

/-- The completion that a call took is put on a list; the command is not delayed. -/
theorem CmdInv.put (hI : CmdInv c (r.add (.put k.party))) :
    CmdInv (c.put.doneReturn k) r := by
  have hputting : 0 < puttings (r.add (.put k.party)) := by
    cases k.party
    all_goals simp only [puttings, Load.add, Load.put, if_true]
    all_goals omega
  have hneed : c.needCmddone = false := by
    by_contra hnot
    simp only [Bool.not_eq_false] at hnot
    have hzero := (hI.needed hnot).1
    omega
  have hgiven : c.given = true := by
    by_contra hnot
    simp only [Bool.not_eq_true] at hnot
    have hzero := (hI.fresh hnot).2.2.2.2.2.2.1
    omega
  obtain ⟨hdelay, htokens, hputs⟩ := hI.completed hgiven hneed
  obtain ⟨howned, htimer, hdriver, hqueue, hclean, -, -, -⟩ := hI
  cases k
  all_goals simp only [Load.add, Load.put, Caller.party, tokens, puttings] at *
  all_goals constructor
  all_goals simp [ScsiCmnd.put, ScsiCmnd.doneReturn, tokens, puttings, hneed, hdelay, hgiven]
  all_goals grind

/-- An aborter delays the command, whose completion has not been attempted. -/
theorem CmdInv.collect {n : Nat} (hI : CmdInv c (r.add (.own n))) (hneed : c.needCmddone = true)
    (hattempted : c.cmddoneAttempted = false) (hdelay : c.delayCmddone = false) :
    CmdInv { c with delayCmddone := true } (r.add (.own (n + 1))) := by
  have hgiven := hI.given_of_need hneed
  obtain ⟨hputs, hheld, -, -⟩ := hI.needed hneed
  obtain ⟨howned, htimer, hdriver, hqueue, hclean, -, -, -⟩ := hI
  simp only [Load.add, Load.own, tokens, puttings] at *
  constructor
  all_goals simp [tokens, puttings, hneed, hgiven, hattempted]
  all_goals grind

theorem CmdInv.delay_of_own {n : Nat} (hI : CmdInv c (r.add (.own (n + 1)))) :
    c.delayCmddone = true := by
  by_contra hnot
  have howned := hI.owned
  simp [Load.add, Load.own, hnot] at howned

/-- An aborter clears `DELAY_CMDDONE` and takes a parked completion along. -/
theorem CmdInv.finish {n : Nat} (hI : CmdInv c (r.add (.own (n + 1)))) :
    CmdInv { c with delayCmddone := false }
      ((r.add (.own n)).add (if c.cmddoneAttempted then .decide .abort else .none)) := by
  have hdelay := hI.delay_of_own
  have hneed := hI.need_of_delay hdelay
  have hgiven := hI.given_of_need hneed
  obtain ⟨hputs, hheld, hparked, -⟩ := hI.needed hneed
  obtain ⟨howned, htimer, hdriver, hqueue, hclean, -, -, -⟩ := hI
  cases hattempted : c.cmddoneAttempted
  all_goals simp only [Load.add, Load.own, Load.decide, Load.none, tokens, puttings] at *
  all_goals constructor
  all_goals simp [tokens, puttings, hneed, hgiven]
  all_goals grind

/-- The timeout delays the command while no aborter is about to complete it.  Its
    completion cannot have been attempted and taken up again: that would be the work of
    another timeout. -/
theorem CmdInv.delay (hI : CmdInv c (r.add .timeout)) (hneed : c.needCmddone = true)
    (hdelay : c.delayCmddone = false) (habort : r.deciding .abort = 0) :
    CmdInv { c with delayCmddone := true } (r.add .work) := by
  have hgiven := hI.given_of_need hneed
  obtain ⟨hputs, hheld, -, hgap⟩ := hI.needed hneed
  have hattempted : c.cmddoneAttempted = false := by
    by_contra hnot
    simp only [Bool.not_eq_false] at hnot
    have hwork := (hgap hnot hdelay).2
    have htimer := hI.timer
    simp only [Load.add, Load.timeout] at hwork htimer
    omega
  obtain ⟨howned, htimer, hdriver, hqueue, hclean, -, -, -⟩ := hI
  simp only [Load.add, Load.timeout, Load.work, tokens, puttings] at *
  constructor
  all_goals simp [tokens, puttings, hneed, hgiven, hattempted]
  all_goals grind

/-- The timeout finds the command completed, or delayed by an aborter. -/
theorem CmdInv.timeout_none (hI : CmdInv c (r.add .timeout)) : CmdInv c (r.add .none) := by
  obtain ⟨howned, htimer, hdriver, hqueue, hclean, hfresh, hneeded, hcompleted⟩ := hI
  refine ⟨howned, ?_, hdriver, hqueue, hclean, ?_, hneeded, hcompleted⟩
  · simp only [Load.add, Load.timeout, Load.none] at htimer ⊢
    omega
  · intro hgiven
    obtain ⟨hneed, hdelay, hattempted, harmed, hnone, htokens, hputs, htiming⟩ := hfresh hgiven
    simp only [Load.add, Load.timeout] at htiming
    omega

/-- The work item clears `DELAY_CMDDONE` and takes a parked completion along. -/
theorem CmdInv.workFinish (hI : CmdInv c (r.add .work)) :
    CmdInv { c with delayCmddone := false }
      (r.add (if c.cmddoneAttempted then .decide .work else .none)) := by
  have hdelay : c.delayCmddone = true := by
    by_contra hnot
    have howned := hI.owned
    simp [Load.add, Load.work, hnot] at howned
  have hneed := hI.need_of_delay hdelay
  have hgiven := hI.given_of_need hneed
  obtain ⟨hputs, hheld, hparked, -⟩ := hI.needed hneed
  obtain ⟨howned, htimer, hdriver, hqueue, hclean, -, -, -⟩ := hI
  cases hattempted : c.cmddoneAttempted
  all_goals simp only [Load.add, Load.work, Load.decide, Load.none, tokens, puttings] at *
  all_goals constructor
  all_goals simp [tokens, puttings, hneed, hgiven]
  all_goals grind

/-- A fresh command is made ready, and the call is about to complete it. -/
theorem CmdInv.fail (hI : CmdInv c (r.add .none)) (hgiven : c.given = false) :
    CmdInv c.need (r.add (.decide .queue)) := by
  obtain ⟨hneed, hdelay, hattempted, harmed, hnone, htokens, hputs, htiming⟩ := hI.fresh hgiven
  obtain ⟨howned, htimer, hdriver, hqueue, hclean, -, -, -⟩ := hI
  simp only [Load.add, Load.decide, Load.none, tokens, puttings] at *
  constructor
  all_goals simp [ScsiCmnd.need, tokens, puttings, hdelay, hattempted, harmed, hnone]
  all_goals grind

/-- A fresh command is given to the driver. -/
theorem CmdInv.submit (H : Host) {refused : Bool} (hI : CmdInv c (r.add .none))
    (hgiven : c.given = false) :
    CmdInv (c.submit H refused) (r.add (if refused then .decide .queue else .none)) := by
  obtain ⟨hneed, hdelay, hattempted, harmed, hnone, htokens, hputs, htiming⟩ := hI.fresh hgiven
  obtain ⟨howned, htimer, hdriver, hqueue, hclean, -, -, -⟩ := hI
  cases refused
  all_goals simp only [Load.add, Load.decide, Load.none, tokens, puttings] at *
  all_goals constructor
  all_goals simp [ScsiCmnd.submit, ScsiCmnd.need, tokens, puttings, hdelay, hattempted]
  all_goals grind

/-- The driver calls `scsi_done`. -/
theorem CmdInv.scsiDone (hI : CmdInv c l) (hholds : c.driver = .holds) :
    CmdInv { c with driver := .calling } (l.add (.decide .driver)) := by
  obtain ⟨howned, htimer, hdriver, hqueue, hclean, hfresh, hneeded, hcompleted⟩ := hI
  simp only [tokens, puttings] at *
  constructor
  all_goals simp [Load.add, Load.decide, tokens, puttings]
  all_goals grind

/-- The timer of the command expires. -/
theorem CmdInv.cmdTimedOut (hI : CmdInv c l) (harmed : c.timerArmed = true) :
    CmdInv c.deleteTimer (l.add .timeout) := by
  obtain ⟨howned, htimer, hdriver, hqueue, hclean, hfresh, hneeded, hcompleted⟩ := hI
  simp only [tokens, puttings] at *
  constructor
  all_goals simp [ScsiCmnd.deleteTimer, Load.add, Load.timeout, tokens, puttings]
  all_goals grind

theorem CmdInv.get (hI : CmdInv c l) (hgiven : c.given = false) (sdev : Nat) :
    CmdInv (.get sdev) l := by
  obtain ⟨hneed, hdelay, hattempted, harmed, hnone, htokens, hputs, htiming⟩ := hI.fresh hgiven
  obtain ⟨howned, htimer, hdriver, hqueue, hclean, -, -, -⟩ := hI
  simp only [tokens, puttings] at *
  constructor
  all_goals simp [ScsiCmnd.get, tokens, puttings]
  all_goals grind

end CmdInv

end VmkLinux.Scsi
