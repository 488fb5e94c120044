/-
  VmkLinux/Ioctl/Dispatch.lean
  ============================
  **The three ioctl entries** (`vmklinux26/vmware/linux_block.c`, `linux_scsi_vmk_if.c`,
  `linux_char.c`): `LinuxBlockIoctl`, `SCSILinuxIoctl` and `LinuxCharIoctl`, which pass a command
  on to `compat_ioctl`, `unlocked_ioctl` and `ioctl` of a driver.

  The rule is that a handler is tried when those before it are absent or have returned
  `-ENOIOCTLCMD`, by which they say that they have done nothing (`rule`).  A command is then
  executed once (`rule_once`).  `LinuxBlockIoctl` has the
  test of `done` the other way round; and what a handler returns as a `long` reaches the caller as
  an `int`.
-/
import Mathlib.Data.List.Basic

namespace VmkLinux.Ioctl

/-! ### Handlers -/

inductive Entry where
  | compatIoctl
  | unlockedIoctl
  | ioctl
deriving DecidableEq, Repr

/-- `vmk_IoctlCallerSize`. -/
inductive CallerSize where
  | caller64
  | caller32
deriving DecidableEq, Repr

inductive Status where
  | ok
  | invalidAdapter
  | invalidTarget
  | notSupported
  | notImplemented
  | noMemory
deriving DecidableEq, Repr

/-- `-ENOIOCTLCMD`, as an `int` or as a `long`. -/
def noIoctlCmd (w : Nat) : BitVec w := BitVec.ofInt w (-515)

/-- A handler of a driver with state `σ`, which returns a number of `w` bits. -/
structure Handler (w : Nat) (A σ : Type) where
  call : A → σ → BitVec w × σ
  refused : ∀ a s, (call a s).1 = noIoctlCmd w → (call a s).2 = s

/-- `*drvErr`, the state of the driver, and the handlers that have been called. -/
structure Run (σ : Type) where
  drvErr : BitVec 32
  state : σ
  tried : List Entry := []

section Code

variable {w : Nat} {A σ : Type}

/-- The call of a handler; the result is stored in an `int32_t`. -/
def Run.call (r : Run σ) (entry : Entry) (h : Handler w A σ) (a : A) : Run σ where
  drvErr := (h.call a r.state).1.setWidth 32
  state := (h.call a r.state).2
  tried := r.tried ++ [entry]

/-- A handler that is called if it is there and nothing is done yet.  `isDone` is the test of the
    result that sets `done`. -/
def attempt (entry : Entry) (h : Option (Handler w A σ)) (a : A) (isDone : BitVec 32 → Bool)
    (r : Run σ × Bool) : Run σ × Bool :=
  if r.2 then r
  else
    match h with
    | none => r
    | some h => (r.1.call entry h a, isDone (r.1.call entry h a).drvErr)

/-- `compat_ioctl` is for 32-bit callers only. -/
def compatOf (callerSize : CallerSize) (h : Option (Handler w A σ)) : Option (Handler w A σ) :=
  if callerSize = .caller32 then h else none

/-! ### Block devices -/

/-- What `compat_ioctl` and `unlocked_ioctl` are called with. -/
structure FileArgs where
  fFlags : BitVec 32
  cmd : BitVec 32
  arg : BitVec 64
deriving DecidableEq, Repr

/-- What `ioctl` is called with: the inode and the rest. -/
structure InodeArgs extends FileArgs where
  iRdev : BitVec 32
deriving DecidableEq, Repr

/-- `block_device_operations` or `file_operations`. -/
structure Operations (σ : Type) where
  compatIoctl : Option (Handler 64 FileArgs σ) := none
  unlockedIoctl : Option (Handler 64 FileArgs σ) := none
  ioctl : Option (Handler 32 InodeArgs σ) := none

/-- `LinuxBlockAdapter`. -/
structure BlockAdapter (σ : Type) where
  ops : Option (Operations σ)
  major : BitVec 32
  minorShift : BitVec 32

/-- `i_rdev` of the inode for a disk; shifts take their amount modulo 32. -/
def BlockAdapter.rdev (dev : BlockAdapter σ) (targetId : BitVec 32) : BitVec 32 :=
  (dev.major <<< 20) ||| (targetId <<< (dev.minorShift.toNat % 32))

/-- `LinuxBlockIoctl`; `noMemory` says that the inode is not allocated. -/
def linuxBlockIoctl (dev : Option (BlockAdapter σ)) (targetId : BitVec 32) (noMemory : Bool)
    (args : FileArgs) (callerSize : CallerSize) (r : Run σ) : Status × Run σ :=
  match dev with
  | none => (.invalidAdapter, r)
  | some dev =>
      match dev.ops with
      | none => (.notSupported, r)
      | some ops =>
          if ops.ioctl.isNone then (.notSupported, r)
          else if noMemory then (.noMemory, r)
          else
            let asked := attempt .compatIoctl (compatOf callerSize ops.compatIoctl) args
              (· = noIoctlCmd 32) (r, false)
            (.ok, (attempt .ioctl ops.ioctl { args with iRdev := dev.rdev targetId }
              (fun _ => false) asked).1)

/-! ### SCSI hosts -/

/-- `cmd` and `arg`. -/
structure ScsiArgs where
  cmd : BitVec 32
  arg : BitVec 64
deriving DecidableEq, Repr

/-- `scsi_host_template`. -/
structure HostTemplate (σ : Type) where
  compatIoctl : Option (Handler 32 ScsiArgs σ) := none
  ioctl : Option (Handler 32 ScsiArgs σ) := none

/-- `SCSILinuxIoctl`: `hostt` is `none` where `sh` or `sh->hostt` is `NULL`, and `sdev` says that
    there is a device. -/
def scsiLinuxIoctl (hostt : Option (HostTemplate σ)) (sdev : Bool) (args : ScsiArgs)
    (callerSize : CallerSize) (r : Run σ) : Status × Run σ :=
  match hostt with
  | none => (.notSupported, r)
  | some hostt =>
      if hostt.ioctl.isNone then (.notSupported, r)
      else if !sdev then (.invalidTarget, r)
      else
        let asked := attempt .compatIoctl (compatOf callerSize hostt.compatIoctl) args
          (· ≠ noIoctlCmd 32) (r, false)
        (.ok, (attempt .ioctl hostt.ioctl args (fun _ => false) asked).1)

/-! ### Character devices -/

/-- `vmk_CharDevFdAttr`. -/
structure FdAttr where
  major : BitVec 32
  minor : BitVec 32
  openFlags : BitVec 32
deriving DecidableEq, Repr

/-- `MKDEV(attr->major & 0xff, attr->minor & 0xff)`. -/
def FdAttr.rdev (attr : FdAttr) : BitVec 32 :=
  ((attr.major &&& 0xff) <<< 20) ||| (attr.minor &&& 0xff)

/-- `LinuxCharIoctl`, from the operations of the device that was selected on. -/
def linuxCharIoctl (ops : Operations σ) (attr : FdAttr) (noMemory : Bool) (cmd : BitVec 32)
    (userData : BitVec 64) (callerSize : CallerSize) (r : Run σ) : Status × Run σ :=
  if ops.compatIoctl.isNone && ops.unlockedIoctl.isNone && ops.ioctl.isNone then
    (.notImplemented, r)
  else if ops.unlockedIoctl.isNone && ops.ioctl.isNone && callerSize == .caller64 then
    (.notImplemented, r)
  else if noMemory then (.noMemory, r)
  else
    let args : FileArgs := { fFlags := attr.openFlags, cmd := cmd, arg := userData }
    let asked := attempt .compatIoctl (compatOf callerSize ops.compatIoctl) args
      (· ≠ noIoctlCmd 32) (r, false)
    let asked := attempt .unlockedIoctl ops.unlockedIoctl args (· ≠ noIoctlCmd 32) asked
    (.ok, (attempt .ioctl ops.ioctl { args with iRdev := attr.rdev } (fun _ => false) asked).1)

/-! ### The rule -/

/-- A handler that is there, with the arguments of the call. -/
structure Candidate (σ : Type) where
  entry : Entry
  run : σ → Int × σ

/-- The handler executes the command. -/
def Candidate.Takes (c : Candidate σ) (s : σ) : Prop := (c.run s).1 ≠ -515

/-- What a call comes to. -/
structure Outcome (σ : Type) where
  result : Int
  state : σ
  tried : List Entry

/-- The handlers before the last in their order, and the last: each is tried when the one before
    it has returned `-ENOIOCTLCMD`. -/
def rule : List (Candidate σ) → Candidate σ → σ → Outcome σ
  | [], last, s => { result := (last.run s).1, state := (last.run s).2, tried := [last.entry] }
  | c :: cs, last, s =>
      if (c.run s).1 = -515 then
        let rest := rule cs last (c.run s).2
        { rest with tried := c.entry :: rest.tried }
      else { result := (c.run s).1, state := (c.run s).2, tried := [c.entry] }

def Handler.candidate (h : Handler w A σ) (entry : Entry) (a : A) : Candidate σ where
  entry := entry
  run := fun s => ((h.call a s).1.toInt, (h.call a s).2)

/-- The candidate of a handler that may be absent. -/
def candidates (entry : Entry) (h : Option (Handler w A σ)) (a : A) : List (Candidate σ) :=
  (h.map fun h => h.candidate entry a).toList

/-- From the first run on, the handlers have come to what the rule says. -/
def Outcome.Follows (o : Outcome σ) (r r' : Run σ) : Prop :=
  r'.drvErr.toInt = o.result ∧ r'.state = o.state ∧ r'.tried = r.tried ++ o.tried

/-- Who returns `-ENOIOCTLCMD` has left the state alone. -/
def Candidate.Lawful (c : Candidate σ) : Prop := ∀ s, ¬c.Takes s → (c.run s).2 = s

theorem rule_of_refused {c : Candidate σ} {s : σ} (hc : c.Lawful) (h : ¬c.Takes s)
    (cs : List (Candidate σ)) (last : Candidate σ) :
    rule (c :: cs) last s
      = { rule cs last s with tried := c.entry :: (rule cs last s).tried } := by
  rw [rule, if_pos (not_not.mp h), hc s h]

theorem rule_of_taken {c : Candidate σ} {s : σ} (h : c.Takes s) (cs : List (Candidate σ))
    (last : Candidate σ) : rule (c :: cs) last s = ⟨(c.run s).1, (c.run s).2, [c.entry]⟩ := by
  rw [rule, if_neg h]

/-- The command is executed by one of the handlers, called in the state of the beginning: the
    result and the state are what it gives.  It takes the command where any of them does. -/
def Outcome.Once (o : Outcome σ) (cs : List (Candidate σ)) (s : σ) : Prop :=
  ∃ c ∈ cs, o.result = (c.run s).1 ∧ o.state = (c.run s).2 ∧ ((∃ d ∈ cs, d.Takes s) → c.Takes s)

theorem rule_once {cs : List (Candidate σ)} (last : Candidate σ) (s : σ)
    (hcs : ∀ c ∈ cs, c.Lawful) : (rule cs last s).Once (cs ++ [last]) s := by
  induction cs with
  | nil =>
    refine ⟨last, List.mem_singleton_self last, rfl, rfl, ?_⟩
    rintro ⟨d, hd, htakes⟩
    rwa [← List.mem_singleton.mp hd]
  | cons c cs ih =>
    by_cases htakes : c.Takes s
    · rw [rule_of_taken htakes]
      exact ⟨c, List.mem_cons_self, rfl, rfl, fun _ => htakes⟩
    · obtain ⟨d, hd, hresult, hstate, hd_takes⟩ := ih fun c hc => hcs c (List.mem_cons_of_mem _ hc)
      rw [rule_of_refused (hcs c List.mem_cons_self) htakes]
      refine ⟨d, List.mem_cons_of_mem c hd, hresult, hstate, ?_⟩
      rintro ⟨e, he, he_takes⟩
      rcases List.mem_cons.mp he with rfl | he
      · exact absurd he_takes htakes
      · exact hd_takes ⟨e, he, he_takes⟩

/-! ### Results -/

/-- The result is not changed by being stored in an `int32_t`. -/
def FitsInt (x : BitVec w) : Prop := (x.setWidth 32).toInt = x.toInt

theorem toInt_noIoctlCmd (hw : 32 ≤ w) : (noIoctlCmd w).toInt = -515 := by
  have hpow : 2 ^ 32 ≤ 2 ^ w := Nat.pow_le_pow_right (by decide) hw
  rw [noIoctlCmd, BitVec.toInt_ofInt]
  apply Int.bmod_eq_of_le
  · omega
  · omega

theorem eq_noIoctlCmd_iff (hw : 32 ≤ w) (x : BitVec w) : x = noIoctlCmd w ↔ x.toInt = -515 := by
  rw [← toInt_noIoctlCmd hw, BitVec.toInt_inj]

theorem Handler.lawful (hw : 32 ≤ w) (h : Handler w A σ) (entry : Entry) (a : A) :
    (h.candidate entry a).Lawful := by
  intro s hs
  exact h.refused a s ((eq_noIoctlCmd_iff hw _).mpr (not_not.mp hs))

theorem candidates_lawful (hw : 32 ≤ w) (entry : Entry) (h : Option (Handler w A σ)) (a : A) :
    ∀ c ∈ candidates entry h a, c.Lawful := by
  intro c hc
  cases h with
  | none => exact absurd hc List.not_mem_nil
  | some h =>
    rw [List.mem_singleton.mp hc]
    exact h.lawful hw entry a

theorem attempt_done (entry : Entry) (h : Option (Handler w A σ)) (a : A)
    (isDone : BitVec 32 → Bool) (r : Run σ) : attempt entry h a isDone (r, true) = (r, true) := rfl

theorem attempt_none (entry : Entry) (a : A) (isDone : BitVec 32 → Bool) (r : Run σ × Bool) :
    attempt entry (none : Option (Handler w A σ)) a isDone r = r := by
  unfold attempt
  split <;> rfl

theorem attempt_some (entry : Entry) (h : Handler w A σ) (a : A) (isDone : BitVec 32 → Bool)
    (r : Run σ) :
    attempt entry (some h) a isDone (r, false)
      = (r.call entry h a, isDone (r.call entry h a).drvErr) := rfl

theorem fitsInt_of_toInt_eq {y : BitVec 32} {x : BitVec w} (hw : 32 ≤ w)
    (h : y.toInt = x.toInt) : FitsInt x := by
  have hextended : x = y.signExtend w := by
    rw [← BitVec.toInt_inj, BitVec.toInt_signExtend_of_le hw, h]
  have htruncated : x.setWidth 32 = y := by
    apply BitVec.eq_of_getLsbD_eq
    intro i hi
    have hiw : i < w := by omega
    rw [hextended, BitVec.getLsbD_setWidth, BitVec.getLsbD_signExtend, decide_eq_true hi,
      decide_eq_true hiw, if_pos hi, Bool.true_and, Bool.true_and]
  rw [FitsInt, htruncated, h]

theorem setWidth_eq_noIoctlCmd_iff (hw : 32 ≤ w) {x : BitVec w} (hx : FitsInt x) :
    x.setWidth 32 = noIoctlCmd 32 ↔ x = noIoctlCmd w := by
  rw [eq_noIoctlCmd_iff (Nat.le_refl 32), eq_noIoctlCmd_iff hw, hx]

theorem fitsInt_noIoctlCmd (hw : 32 ≤ w) : FitsInt (noIoctlCmd w) := by
  have hsame : (noIoctlCmd 32).toInt = (noIoctlCmd w).toInt := by
    rw [toInt_noIoctlCmd (Nat.le_refl 32), toInt_noIoctlCmd hw]
  exact fitsInt_of_toInt_eq hw hsame

theorem fitsInt_int (x : BitVec 32) : FitsInt x := by rw [FitsInt, BitVec.setWidth_eq]

/-- A handler before the last, with the test of its result the right way round.  `rest` is what
    the function does after it, and `P` says when that follows the rule. -/
theorem follows_attempt (hw : 32 ≤ w) {entry : Entry} {h : Option (Handler w A σ)} {a : A}
    {r : Run σ} {cs : List (Candidate σ)} {last : Candidate σ} (rest : Run σ × Bool → Run σ)
    (hdone : ∀ r', rest (r', true) = r') (P : Prop)
    (hrest : ∀ r', r'.state = r.state →
      ((rule cs last r.state).Follows r' (rest (r', false)) ↔ P)) :
    (rule (candidates entry h a ++ cs) last r.state).Follows r
        (rest (attempt entry h a (· ≠ noIoctlCmd 32) (r, false)))
      ↔ (∀ h' ∈ h, FitsInt (h'.call a r.state).1) ∧
        ((∀ h' ∈ h, (h'.call a r.state).1 = noIoctlCmd w) → P) := by
  cases h with
  | none =>
    rw [attempt_none]
    exact (hrest r rfl).trans ⟨fun hP => ⟨nofun, fun _ => hP⟩, fun hP => hP.2 nofun⟩
  | some h =>
    simp only [Option.mem_some_iff, forall_eq']
    rw [attempt_some]
    change (rule (h.candidate entry a :: cs) last r.state).Follows r _ ↔ _
    by_cases hno : (h.call a r.state).1 = noIoctlCmd w
    · have hrefused : ¬(h.candidate entry a).Takes r.state :=
        not_not.mpr ((eq_noIoctlCmd_iff hw _).mp hno)
      have hfits : FitsInt (h.call a r.state).1 := by
        rw [hno]
        exact fitsInt_noIoctlCmd hw
      have hstate : (r.call entry h a).state = r.state := h.refused a r.state hno
      have hagain : (r.call entry h a).drvErr = noIoctlCmd 32 :=
        (setWidth_eq_noIoctlCmd_iff hw hfits).mpr hno
      rw [rule_of_refused (h.lawful hw entry a) hrefused, hagain, decide_eq_false (not_not.mpr rfl)]
      have htried : ∀ o : Outcome σ, ∀ r', { o with tried := entry :: o.tried }.Follows r r'
          ↔ o.Follows (r.call entry h a) r' := by
        intro o r'
        unfold Outcome.Follows Run.call
        rw [List.append_assoc]
        rfl
      exact ((htried _ _).trans (hrest _ hstate)).trans
        ⟨fun hP => ⟨hfits, fun _ => hP⟩, fun hP => hP.2 hno⟩
    · have htakes : (h.candidate entry a).Takes r.state := fun h515 =>
        hno ((eq_noIoctlCmd_iff hw _).mpr h515)
      rw [rule_of_taken htakes]
      constructor
      · intro hfollows
        exact ⟨fitsInt_of_toInt_eq hw hfollows.1, fun h' => absurd h' hno⟩
      · intro hfits
        have hother : (r.call entry h a).drvErr ≠ noIoctlCmd 32 := fun h' =>
          hno ((setWidth_eq_noIoctlCmd_iff hw hfits.1).mp h')
        rw [decide_eq_true hother, hdone]
        exact ⟨hfits.1, rfl, rfl⟩

/-- The last handler, `ioctl`. -/
theorem follows_last (h : Handler 32 A σ) (a : A) {s : σ} (r : Run σ) (hs : r.state = s) :
    (rule [] (h.candidate .ioctl a) s).Follows r
        (attempt .ioctl (some h) a (fun _ => false) (r, false)).1 ↔ True := by
  subst hs
  exact iff_true_intro ⟨fitsInt_int _, rfl, rfl⟩

/-! ### The three entries -/

/-- The handlers of a block device before `ioctl`. -/
def blockCandidates (compat : Option (Handler 64 FileArgs σ)) (callerSize : CallerSize)
    (args : FileArgs) : List (Candidate σ) :=
  candidates .compatIoctl (compatOf callerSize compat) args

def scsiCandidates (compat : Option (Handler 32 ScsiArgs σ)) (callerSize : CallerSize)
    (args : ScsiArgs) : List (Candidate σ) :=
  candidates .compatIoctl (compatOf callerSize compat) args

def charCandidates (compat unlocked : Option (Handler 64 FileArgs σ)) (callerSize : CallerSize)
    (args : FileArgs) : List (Candidate σ) :=
  candidates .compatIoctl (compatOf callerSize compat) args ++
    candidates .unlockedIoctl unlocked args

/-- `LinuxBlockIoctl` follows the rule only where it does not come to `compat_ioctl`: when that
    refuses the command it is the last, and when it takes it `ioctl` comes after it. -/
theorem block_follows_iff (compat unlocked : Option (Handler 64 FileArgs σ))
    (ioctl : Handler 32 InodeArgs σ) (dev : BlockAdapter σ) (targetId : BitVec 32)
    (args : FileArgs) (callerSize : CallerSize) (r : Run σ) :
    (rule (blockCandidates compat callerSize args)
        (ioctl.candidate .ioctl { args with iRdev := dev.rdev targetId }) r.state).Follows r
      (linuxBlockIoctl (some { dev with ops := some ⟨compat, unlocked, some ioctl⟩ }) targetId
        false args callerSize r).2
      ↔ callerSize = .caller64 ∨ compat = none := by
  have hcompat : compatOf callerSize compat = none ↔ callerSize = .caller64 ∨ compat = none := by
    cases callerSize <;> simp [compatOf]
  rw [← hcompat]
  change (rule (candidates .compatIoctl (compatOf callerSize compat) args) _ _).Follows r
    (attempt .ioctl (some ioctl) _ _
      (attempt .compatIoctl (compatOf callerSize compat) args _ (r, false))).1 ↔ _
  cases compatOf callerSize compat with
  | none =>
    rw [attempt_none]
    exact iff_of_true ((follows_last ioctl _ r rfl).mpr trivial) rfl
  | some h =>
    rw [attempt_some]
    refine iff_of_false ?_ nofun
    change ¬(rule [h.candidate .compatIoctl args] _ _).Follows r _
    by_cases hno : (h.call args r.state).1 = noIoctlCmd 64
    · have hrefused : ¬(h.candidate .compatIoctl args).Takes r.state :=
        not_not.mpr ((eq_noIoctlCmd_iff (by decide) _).mp hno)
      have hstop : (r.call .compatIoctl h args).drvErr = noIoctlCmd 32 := by
        change ((h.call args r.state).1).setWidth 32 = _
        rw [hno]
        decide
      rw [rule_of_refused (h.lawful (by decide) _ _) hrefused, decide_eq_true hstop, attempt_done]
      intro hfollows
      have hone : [Entry.compatIoctl] = [.compatIoctl, .ioctl] :=
        List.append_cancel_left hfollows.2.2
      exact absurd hone (by decide)
    · have htakes : (h.candidate .compatIoctl args).Takes r.state := fun h515 =>
        hno ((eq_noIoctlCmd_iff (by decide) _).mpr h515)
      rw [rule_of_taken htakes]
      intro hfollows
      by_cases hstop : (r.call .compatIoctl h args).drvErr = noIoctlCmd 32
      · rw [decide_eq_true hstop, attempt_done] at hfollows
        have hfits : FitsInt (h.call args r.state).1 := hfollows.1
        exact hno ((setWidth_eq_noIoctlCmd_iff (by decide) hfits).mp hstop)
      · rw [decide_eq_false hstop, attempt_some] at hfollows
        have htwo : r.tried ++ [.compatIoctl] ++ [.ioctl] = r.tried ++ [Entry.compatIoctl] :=
          hfollows.2.2
        have hlen := congrArg List.length htwo
        simp at hlen

/-- What `compat_ioctl` and `unlocked_ioctl` of a character device return, where they are asked,
    can be told to the caller. -/
def CharFits (compat unlocked : Option (Handler 64 FileArgs σ)) (args : FileArgs) (s : σ) : Prop :=
  (∀ h ∈ compat, FitsInt (h.call args s).1) ∧
    ((∀ h ∈ compat, (h.call args s).1 = noIoctlCmd 64) →
      ∀ h ∈ unlocked, FitsInt (h.call args s).1)

theorem char_follows_iff (compat unlocked : Option (Handler 64 FileArgs σ))
    (ioctl : Handler 32 InodeArgs σ) (attr : FdAttr) (cmd : BitVec 32) (userData : BitVec 64)
    (callerSize : CallerSize) (r : Run σ) :
    (rule (charCandidates compat unlocked callerSize ⟨attr.openFlags, cmd, userData⟩)
        (ioctl.candidate .ioctl ⟨⟨attr.openFlags, cmd, userData⟩, attr.rdev⟩) r.state).Follows r
      (linuxCharIoctl ⟨compat, unlocked, some ioctl⟩ attr false cmd userData callerSize r).2
      ↔ CharFits (compatOf callerSize compat) unlocked ⟨attr.openFlags, cmd, userData⟩ r.state := by
  have hcode :
      (linuxCharIoctl ⟨compat, unlocked, some ioctl⟩ attr false cmd userData callerSize r).2
      = (attempt .ioctl (some ioctl) ⟨⟨attr.openFlags, cmd, userData⟩, attr.rdev⟩ (fun _ => false)
          (attempt .unlockedIoctl unlocked ⟨attr.openFlags, cmd, userData⟩ (· ≠ noIoctlCmd 32)
            (attempt .compatIoctl (compatOf callerSize compat) ⟨attr.openFlags, cmd, userData⟩
              (· ≠ noIoctlCmd 32) (r, false)))).1 := by
    unfold linuxCharIoctl
    simp
  rw [hcode]
  refine (follows_attempt (by decide)
    (fun p => (attempt .ioctl (some ioctl) ⟨⟨attr.openFlags, cmd, userData⟩, attr.rdev⟩
      (fun _ => false)
      (attempt .unlockedIoctl unlocked ⟨attr.openFlags, cmd, userData⟩ (· ≠ noIoctlCmd 32) p)).1)
    (fun _ => rfl) (∀ h ∈ unlocked, FitsInt (h.call ⟨attr.openFlags, cmd, userData⟩ r.state).1) ?_)
  intro r' hr'
  rw [← hr', ← List.append_nil (candidates .unlockedIoctl unlocked _)]
  refine (follows_attempt (by decide)
    (fun p => (attempt .ioctl (some ioctl) ⟨⟨attr.openFlags, cmd, userData⟩, attr.rdev⟩
      (fun _ => false) p).1) (fun _ => rfl) True
    fun r'' hr'' => follows_last ioctl _ r'' hr'').trans ?_
  exact ⟨fun h => h.1, fun h => ⟨h, fun _ => trivial⟩⟩

theorem scsi_follows (compat : Option (Handler 32 ScsiArgs σ)) (ioctl : Handler 32 ScsiArgs σ)
    (args : ScsiArgs) (callerSize : CallerSize) (r : Run σ) :
    (rule (scsiCandidates compat callerSize args) (ioctl.candidate .ioctl args) r.state).Follows r
      (scsiLinuxIoctl (some ⟨compat, some ioctl⟩) true args callerSize r).2 := by
  rw [scsiCandidates, ← List.append_nil (candidates .compatIoctl _ _)]
  refine (follows_attempt (Nat.le_refl 32)
    (fun p => (attempt .ioctl (some ioctl) args (fun _ => false) p).1) (fun _ => rfl) True
    fun r' hr' => follows_last ioctl args r' hr').mpr ⟨?_, fun _ => trivial⟩
  intro h _
  exact fitsInt_int _

/-- **The three entries follow one rule, by which a command is executed once,** except that
    `LinuxBlockIoctl` does not where it comes to `compat_ioctl`, and that `LinuxCharIoctl` does
    not where what it is told is no `int`.  Where there is no memory for the inode no handler is
    tried. -/
theorem ioctl_dispatch (r : Run σ) (callerSize : CallerSize) :
    (∀ (compat unlocked : Option (Handler 64 FileArgs σ)) (ioctl : Handler 32 InodeArgs σ)
        (dev : BlockAdapter σ) (targetId : BitVec 32) (args : FileArgs),
      let o := rule (blockCandidates compat callerSize args)
        (ioctl.candidate .ioctl { args with iRdev := dev.rdev targetId }) r.state
      let call := fun noMemory => linuxBlockIoctl
        (some { dev with ops := some ⟨compat, unlocked, some ioctl⟩ }) targetId noMemory args
        callerSize r
      (o.Follows r (call false).2 ↔ callerSize = .caller64 ∨ compat = none) ∧
        o.Once (blockCandidates compat callerSize args ++
          [ioctl.candidate .ioctl { args with iRdev := dev.rdev targetId }]) r.state ∧
        call true = (.noMemory, r)) ∧
    (∀ (compat : Option (Handler 32 ScsiArgs σ)) (ioctl : Handler 32 ScsiArgs σ) (args : ScsiArgs),
      let o := rule (scsiCandidates compat callerSize args) (ioctl.candidate .ioctl args) r.state
      o.Follows r (scsiLinuxIoctl (some ⟨compat, some ioctl⟩) true args callerSize r).2 ∧
        o.Once (scsiCandidates compat callerSize args ++ [ioctl.candidate .ioctl args]) r.state) ∧
    ∀ (compat unlocked : Option (Handler 64 FileArgs σ)) (ioctl : Handler 32 InodeArgs σ)
        (attr : FdAttr) (cmd : BitVec 32) (userData : BitVec 64),
      let args : FileArgs := ⟨attr.openFlags, cmd, userData⟩
      let o := rule (charCandidates compat unlocked callerSize args)
        (ioctl.candidate .ioctl ⟨args, attr.rdev⟩) r.state
      let call := fun noMemory =>
        linuxCharIoctl ⟨compat, unlocked, some ioctl⟩ attr noMemory cmd userData callerSize r
      (o.Follows r (call false).2 ↔
          CharFits (compatOf callerSize compat) unlocked args r.state) ∧
        o.Once (charCandidates compat unlocked callerSize args ++
          [ioctl.candidate .ioctl ⟨args, attr.rdev⟩]) r.state ∧
        call true = (.noMemory, r) := by
  refine ⟨?_, ?_, ?_⟩
  · intro compat unlocked ioctl dev targetId args
    refine ⟨block_follows_iff compat unlocked ioctl dev targetId args callerSize r, ?_, rfl⟩
    exact rule_once _ _ (candidates_lawful (by decide) _ _ _)
  · intro compat ioctl args
    refine ⟨scsi_follows compat ioctl args callerSize r, ?_⟩
    exact rule_once _ _ (candidates_lawful (by decide) _ _ _)
  · intro compat unlocked ioctl attr cmd userData
    refine ⟨char_follows_iff compat unlocked ioctl attr cmd userData callerSize r, ?_, ?_⟩
    · apply rule_once
      intro c hc
      rcases List.mem_append.mp hc with hc | hc
      · exact candidates_lawful (by decide) _ _ _ c hc
      · exact candidates_lawful (by decide) _ _ _ c hc
    · unfold linuxCharIoctl
      simp

end Code

/-- A handler that counts the commands it has executed. -/
def counting (w : Nat) (A : Type) (result : BitVec w) (h : result ≠ noIoctlCmd w) :
    Handler w A Nat where
  call := fun _ s => (result, s + 1)
  refused := fun _ _ h' => absurd h' h

/-- A handler that has no command. -/
def refusing (w : Nat) (A : Type) : Handler w A Nat where
  call := fun _ s => (noIoctlCmd w, s)
  refused := fun _ _ _ => rfl

def disk : BlockAdapter Nat := { ops := none, major := 8, minorShift := 4 }

/-- The call of a 32-bit program for the disk 1. -/
def callDisk (compat : Handler 64 FileArgs Nat) : Run Nat :=
  (linuxBlockIoctl
    (some { disk with ops := some ⟨some compat, none, some (counting 32 InodeArgs 0 (by decide))⟩ })
    1 false { fFlags := 0, cmd := 0x5310, arg := 0 } .caller32 { drvErr := 0, state := 0 }).2

/-- A command that `compat_ioctl` takes is executed twice, and one that it refuses is dropped
    although `ioctl` would take it. -/
theorem command_executed_twice_or_dropped :
    ((callDisk (counting 64 FileArgs 0 (by decide))).tried = [.compatIoctl, .ioctl] ∧
      (callDisk (counting 64 FileArgs 0 (by decide))).state = 2) ∧
    ((callDisk (refusing 64 FileArgs)).tried = [.compatIoctl] ∧
      (callDisk (refusing 64 FileArgs)).drvErr = noIoctlCmd 32 ∧
      (callDisk (refusing 64 FileArgs)).state = 0) ∧
    ∀ compat : Handler 64 FileArgs Nat,
      ¬(rule (blockCandidates (some compat) .caller32 ⟨0, 0x5310, 0⟩)
          ((counting 32 InodeArgs 0 (by decide)).candidate .ioctl ⟨⟨0, 0x5310, 0⟩, disk.rdev 1⟩)
          0).Follows { drvErr := 0, state := 0 } (callDisk compat) := by
  refine ⟨⟨by decide, by decide⟩, ⟨by decide, by decide, by decide⟩, ?_⟩
  intro compat hfollows
  have hcond := (block_follows_iff (some compat) none (counting 32 InodeArgs 0 (by decide)) disk 1
    ⟨0, 0x5310, 0⟩ .caller32 { drvErr := 0, state := 0 }).mp hfollows
  exact absurd hcond (by simp)

end VmkLinux.Ioctl
