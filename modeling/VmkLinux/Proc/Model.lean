/-
  VmkLinux/Proc/Model.lean
  ========================
  **The proc emulation** (`vmklinux26/vmware/linux_proc.c`): `create_proc_entry`, `proc_mkdir` and
  `remove_proc_entry`, with `LinuxProcCreateEntry`, `LinuxProcRemoveEntry` and the functions on
  `linuxEntries` and the `subdir` lists.

  `linuxProcLock` is held for the most part of a call, so a call is one step.  A
  `proc_dir_entry` is known by a number that is used once; the first five are the static ones.
  `subdir` is the list that begins there and goes on with `next`.  What the allocations answer
  (`Memory`), and `is_vmvisor`, are arguments.

  Cutting a path at its last slash, and splitting what is left at slashes, is dropping the last
  of its components, and is written so.
-/
import VmkLinux.Sequence
import Mathlib.Logic.Function.Basic

namespace VmkLinux.Proc

/-! ### Data -/

abbrev Name := List Char

/-- `MAX_NAME_LEN`. -/
def maxNameLen : Nat := 256

/-- `struct proc_dir_entry`; `namelen` is the length of `name`. -/
structure Pde where
  name : Name := []
  parent : Option Nat := none
  subdir : List Nat := []
  deleted : Bool := false
deriving DecidableEq, Repr

/-- `LinuxProcEntry`. -/
structure LinuxProcEntry where
  name : Name
  parent : Nat
  drvEntry : Nat
deriving DecidableEq, Repr

structure State where
  pde : Nat → Pde
  nextPde : Nat
  freed : List Nat
  linuxEntries : List LinuxProcEntry

def procRoot : Nat := 0
def procRootDriver : Nat := 1
def procNet : Nat := 2
def procScsi : Nat := 3
def procBus : Nat := 4

/-- One of the static entries. -/
def isStatic (p : Nat) : Bool := decide (p < 5)

def initial : State := ⟨fun _ => {}, 5, [], []⟩

/-- What `vmk_ProcEntryCreate`, `LinuxProc_AllocPDE` and the allocation of a `LinuxProcEntry`
    answer. -/
structure Memory where
  vmkEntry : Bool := true
  pde : Bool := true
  entry : Bool := true
deriving DecidableEq, Repr

/-! ### Lists -/

def State.setPde (s : State) (q : Nat) (f : Pde → Pde) : State :=
  { s with pde := Function.update s.pde q (f (s.pde q)) }

/-- `LinuxProcAttachPDE`. -/
def State.attach (s : State) (q p : Nat) : State :=
  (s.setPde q fun e => { e with parent := some p }).setPde p fun e =>
    { e with subdir := q :: e.subdir }

/-- `LinuxProcDetachPDE`. -/
def State.detach (s : State) (q p : Nat) : State :=
  if q ∈ (s.pde p).subdir then
    (s.setPde q fun e => { e with parent := none }).setPde p fun e =>
      { e with subdir := e.subdir.erase q }
  else s

@[simp] theorem State.detach_linuxEntries (s : State) (q p : Nat) :
    (s.detach q p).linuxEntries = s.linuxEntries := by
  rw [State.detach]
  split <;> rfl

@[simp] theorem State.detach_freed (s : State) (q p : Nat) : (s.detach q p).freed = s.freed := by
  rw [State.detach]
  split <;> rfl

@[simp] theorem State.detach_nextPde (s : State) (q p : Nat) :
    (s.detach q p).nextPde = s.nextPde := by
  rw [State.detach]
  split <;> rfl

/-- `LinuxProc_AllocPDE`. -/
def State.allocPde (s : State) (name : Name) : State :=
  { s with pde := Function.update s.pde s.nextPde { name := name }, nextPde := s.nextPde + 1 }

/-- `LinuxProc_FreePDE`. -/
def State.freePde (s : State) (q : Nat) : State := { s with freed := q :: s.freed }

/-- `LinuxProcAddEntry`, with memory. -/
def State.addEntry (s : State) (name : Name) (parent entry : Nat) : State :=
  { s with linuxEntries := ⟨name.take maxNameLen, parent, entry⟩ :: s.linuxEntries }

/-- `LinuxProcDeleteEntry`. -/
def State.deleteEntry (s : State) (entry : LinuxProcEntry) : State :=
  { s with linuxEntries := s.linuxEntries.erase entry }

/-- `LinuxProcFindEntryByPtr`. -/
def State.findEntryByPtr (s : State) (entry : Nat) : Option LinuxProcEntry :=
  s.linuxEntries.find? fun e => e.drvEntry = entry

/-! ### Paths -/

def components (path : Name) : List Name := path.splitOn '/'

/-- One round of `LinuxProcFindEntryByPath`. -/
def State.findEntry (s : State) (name : Name) (parent : Nat) : Option LinuxProcEntry :=
  s.linuxEntries.find? fun e => e.name = name.take maxNameLen ∧ e.parent = parent

/-- The loop of `LinuxProcFindEntryByPath`. -/
def State.walk (s : State) : List Name → Nat → Option LinuxProcEntry
  | [], _ => none
  | [name], parent => s.findEntry name parent
  | name :: names, parent =>
      match s.findEntry name parent with
      | some entry => s.walk names entry.drvEntry
      | none => none

/-- `LinuxProcFindEntryByPath`. -/
def State.findEntryByPath (s : State) (path : Name) (parent : Option Nat) :
    Option LinuxProcEntry :=
  s.walk (components path) (parent.getD procRoot)

/-- The parent, `none` for `NULL`, and the name that `LinuxProcCreateEntry` comes to. -/
def State.resolve (s : State) (name : Name) (parent : Option Nat) : Option Nat × Name :=
  match parent with
  | some p => (some p, (components name).getLastD [])
  | none =>
      let parentName := name.take (maxNameLen - 1)
      if '/' ∈ parentName then
        match s.walk (components parentName).dropLast procRoot with
        | some lpe => (some lpe.drvEntry, (components parentName).getLastD [])
        -- the parent stays `NULL`
        | none => (none, name)
      else (some procRoot, name)

/-- The first entry of the directory whose name, as far as it goes, is that of `name`. -/
def State.findPrefix (s : State) (name : Name) (p : Nat) : Option Nat :=
  (s.pde p).subdir.find? fun q => (s.pde q).name.isPrefixOf name

/-! ### The calls -/

/-- `LinuxProcCreateEntry` has a `vmk_ProcEntry` for the parent. -/
def State.validParent (isVmvisor : Bool) (s : State) (p : Nat) : Bool :=
  decide (p = procRoot ∨ p = procRootDriver ∨ p = procNet ∨ p = procScsi) ||
    isVmvisor && decide (p = procBus) || (s.findEntryByPtr p).isSome && !(s.pde p).deleted

/-- `LinuxProcCreateEntry` from the allocations on. -/
def State.makeEntry (isVmvisor : Bool) (memory : Memory) (name : Name) (parent : Option Nat)
    (s : State) : Option Nat × State :=
  if memory.vmkEntry = false ∨ memory.pde = false then (none, s)
  else
    match parent with
    | none => (none, s)
    | some p =>
        if s.validParent isVmvisor p = false then (none, s)
        else
          let pde := s.nextPde
          let attached := (s.allocPde name).attach pde p
          if memory.entry then (some pde, attached.addEntry name p pde)
          else (none, (attached.detach pde p).freePde pde)

/-- `LinuxProcCreateEntry`: what it returns and the state, `none` where it follows `NULL`. -/
def State.createEntry (isVmvisor : Bool) (memory : Memory) (name : Name) (parent : Option Nat)
    (isDir : Bool) (s : State) : Option (Option Nat × State) :=
  let target := s.resolve name parent
  if isDir then
    match target.1 with
    | none => none
    | some p =>
        match s.findPrefix target.2 p with
        | some q => some ((s.findEntryByPtr q).map LinuxProcEntry.drvEntry, s)
        | none => some (s.makeEntry isVmvisor memory target.2 target.1)
  else some (s.makeEntry isVmvisor memory target.2 target.1)

/-- The end of `remove_proc_entry`, for what may be a node of `proc_mknod`. -/
def State.removeNode (name : Name) (parent : Option Nat) (s : State) : State :=
  let p := parent.getD procRoot
  match s.findPrefix name p with
  | some q =>
      ((s.setPde p fun e => { e with subdir := e.subdir.erase q }).setPde q fun e =>
        { e with parent := none }).freePde q
  | none => s

/-- `remove_proc_entry` with `LinuxProcRemoveEntry`. -/
def State.removeProcEntry (name : Name) (parent : Option Nat) (s : State) : State :=
  match s.findEntryByPath name parent with
  | none => s.removeNode name parent
  | some lpe =>
      let p := parent.getD lpe.parent
      let pde := lpe.drvEntry
      let marked := s.setPde pde fun e => { e with deleted := true }
      if (marked.pde pde).subdir ≠ [] then marked.removeNode name parent
      else ((marked.detach pde p).deleteEntry lpe).freePde pde

inductive Call where
  | createProcEntry (name : Name) (isDir : Bool) (parent : Option Nat) (memory : Memory)
  | procMkdir (name : Name) (parent : Option Nat) (memory : Memory)
  | removeProcEntry (name : Name) (parent : Option Nat)
deriving DecidableEq, Repr

/-- What a call returns, and the state after it. -/
def State.exec (isVmvisor : Bool) (call : Call) (s : State) : Option (Option Nat × State) :=
  match call with
  | .createProcEntry name isDir parent memory => s.createEntry isVmvisor memory name parent isDir
  | .procMkdir name parent memory => s.createEntry isVmvisor memory name parent true
  | .removeProcEntry name parent => some (none, s.removeProcEntry name parent)

def step (isVmvisor : Bool) (call : Call) (s : State) : Option State :=
  (s.exec isVmvisor call).map Prod.snd

end VmkLinux.Proc
