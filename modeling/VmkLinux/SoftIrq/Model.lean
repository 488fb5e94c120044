/-
  VmkLinux/SoftIrq/Model.lean
  ===========================
  **Bottom halves, softirqs and tasklets** (`vmklinux26/vmware/linux_stubs.c`,
  `vmklinux26/linux/kernel/softirq.c`, `include/linux/interrupt.h`): `Linux_BHInternal`,
  `Linux_BHInternal_static`, `Linux_BHHandler`, `__raise_softirq_irqoff`, `do_softirq`, the
  tasklet functions and `tasklet_action`, on any number of PCPUs.

  A call runs on one PCPU: worlds are not preempted, and an interrupt or a bottom half returns to
  where it came from.  Here the calls of a PCPU take turns in any order, which is more than
  interrupts can do; several of them may be in `Linux_BHHandler`.  What is done with interrupts
  disabled is one step, since nobody else looks at the lists and bits of that PCPU, and so is an
  atomic operation on a bit or a counter.  A routine, a softirq action or the function of a tasklet
  may do anything that is a call here.

  The lists are heads and `next` fields, as in the source.  Not in the source: `bhList` and
  `list`, what the lists hold; `bhPlace` and `place`, where each node and each tasklet is; and
  `queued` and `started`, how often a routine was queued and was started.
-/
import VmkLinux.Interleave
import VmkLinux.TailQueue

namespace VmkLinux.SoftIrq

open VmkLinux.Interleave

/-! ### Data -/

/-- A `LinuxBHData`: `softirqLinuxBHData` of a PCPU, or one that a call has allocated. -/
inductive Node where
  | softirq (cpu : Nat)
  | heap (call : Nat)
deriving DecidableEq, Repr

/-- Where a node is: nowhere, on the list of a PCPU, or in what a call of `Linux_BHHandler` has
    taken and not started. -/
inductive BhPlace where
  | out
  | list (cpu : Nat)
  | chain (call : Nat)
deriving DecidableEq, Repr

/-- `vmkLinuxPCPU` and the nodes. -/
structure Bh where
  /-- `linuxBHList`. -/
  head : Nat → Option Node
  next : Node → Option Node
  /-- The bottom half is scheduled. -/
  scheduled : Nat → Bool
  /-- `softirq_pending`. -/
  pending : Nat → BitVec 32
  bhList : Nat → List Node
  bhPlace : Node → BhPlace
  queued : Node → Nat
  started : Node → Nat

/-- `tasklet_vec[cpu]` or `tasklet_hi_vec[cpu]`. -/
structure Vec where
  hi : Bool
  cpu : Nat
deriving DecidableEq, Repr

/-- Where a tasklet is, or which call has set its `TASKLET_STATE_SCHED`. -/
inductive Place where
  | idle
  | listed (v : Vec)
  | action (call : Nat)
  | scheduling (call : Nat)
  | killing (call : Nat)
deriving DecidableEq, Repr

/-- The tasklets. -/
structure Tk where
  vec : Vec → Option Nat
  next : Nat → Option Nat
  /-- `TASKLET_STATE_SCHED` and `TASKLET_STATE_RUN`. -/
  sched : Nat → Bool
  run : Nat → Bool
  count : Nat → Int
  list : Vec → List Nat
  place : Nat → Place

structure Shared where
  bh : Bh
  tk : Tk
  /-- `BUG()` was called. -/
  bug : Bool
  /-- `vmklnx_is_panic()`. -/
  panic : Bool

inductive Pc where
  /-- `Linux_BHInternal`, with its node. -/
  | bhLink
  /-- `raise_softirq`: the bit is set, and the node linked. -/
  | raise
  | raiseLink
  /-- `tasklet_schedule` and `tasklet_hi_schedule`. -/
  | testAndSet
  | schedLink
  /-- `tasklet_disable`. -/
  | disableWait
  /-- `tasklet_kill`. -/
  | killTest
  | killYield
  | killWait
  | killClear
  /-- `Linux_BHHandler`. -/
  | walk
  | call
  | ret
  /-- `do_softirq`. -/
  | softirq
  /-- `tasklet_action` and `tasklet_hi_action`. -/
  | take
  | pop
  | trylock
  | readCount
  | clearSched
  | func
  | unlock
  | unlockBack
  | putBack
  | done
deriving DecidableEq, Repr

/-- A call, with its arguments and variables; `chain` is what `Linux_BHHandler` has not started,
    and `rest` what `tasklet_action` has still to take up. -/
structure Thread where
  pc : Pc
  me : Nat
  cpu : Nat := 0
  nr : Nat := 0
  d : Option Node := none
  nextD : Option Node := none
  bits : BitVec 32 := 0
  hi : Bool := false
  list : Option Nat := none
  t : Nat := 0
  chain : List Node := []
  rest : List Nat := []
deriving DecidableEq, Repr

inductive Call where
  /-- `Linux_BHInternal`, and whether `vmk_HeapAlloc` has a node. -/
  | bh (cpu : Nat) (alloc : Bool)
  | raiseSoftirq (cpu nr : Nat)
  /-- `tasklet_schedule` or `tasklet_hi_schedule`. -/
  | taskletSchedule (v : Vec) (t : Nat)
  | taskletDisable (t : Nat)
  | taskletEnable (t : Nat)
  | taskletKill (t : Nat)
  | bhHandler (cpu : Nat)
  | panic
deriving DecidableEq, Repr

/-! ### Bottom halves and softirqs -/

/-- `Linux_BHInternal` and `Linux_BHInternal_static`, from where they disable interrupts. -/
def Bh.push (b : Bh) (cpu : Nat) (d : Node) : Bh :=
  { b with
    next := Function.update b.next d (b.head cpu)
    head := Function.update b.head cpu (some d)
    scheduled := Function.update b.scheduled cpu true
    bhList := Function.update b.bhList cpu (d :: b.bhList cpu)
    bhPlace := Function.update b.bhPlace d (.list cpu)
    queued := Function.update b.queued d (b.queued d + 1) }

/-- `Linux_BHHandler` takes the list; `me` is the call. -/
def Bh.take (b : Bh) (cpu me : Nat) : Bh :=
  { b with
    head := Function.update b.head cpu none
    scheduled := Function.update b.scheduled cpu false
    bhList := Function.update b.bhList cpu []
    bhPlace := fun d => if d ∈ b.bhList cpu then .chain me else b.bhPlace d }

/-- The routine of a node is called. -/
def Bh.start (b : Bh) (d : Node) : Bh :=
  { b with
    bhPlace := Function.update b.bhPlace d .out
    started := Function.update b.started d (b.started d + 1) }

def softirqBit (nr : Nat) : BitVec 32 := 1#32 <<< nr

/-- `LinuxAtomicFetchAndOrSoftirqFlag`. -/
def Bh.fetchOr (b : Bh) (cpu nr : Nat) : Bh :=
  { b with pending := Function.update b.pending cpu (b.pending cpu ||| softirqBit nr) }

/-- `LinuxAtomicReadWriteSoftirqFlag(0)`. -/
def Bh.clear (b : Bh) (cpu : Nat) : Bh :=
  { b with pending := Function.update b.pending cpu 0 }

/-- `__raise_softirq_irqoff` with interrupts disabled. -/
def Bh.raiseIrqoff (b : Bh) (cpu nr : Nat) : Bh :=
  if b.pending cpu = 0 then (b.fetchOr cpu nr).push cpu (.softirq cpu) else b.fetchOr cpu nr

/-! ### Tasklets -/

/-- `HI_SOFTIRQ` and `TASKLET_SOFTIRQ`. -/
def Vec.nr (v : Vec) : Nat := if v.hi then 0 else 5

def maxSoftirq : Nat := 32

/-- A tasklet goes to the head of a list. -/
def Tk.push (k : Tk) (v : Vec) (t : Nat) : Tk :=
  { k with
    next := Function.update k.next t (k.vec v)
    vec := Function.update k.vec v (some t)
    list := Function.update k.list v (t :: k.list v)
    place := Function.update k.place t (.listed v) }

/-- `tasklet_action` takes the list; `me` is the call. -/
def Tk.take (k : Tk) (v : Vec) (me : Nat) : Tk :=
  { k with
    vec := Function.update k.vec v none
    list := Function.update k.list v []
    place := fun t => if t ∈ k.list v then .action me else k.place t }

/-- `TASKLET_STATE_SCHED` is set by a call, or cleared. -/
def Tk.setSched (k : Tk) (t : Nat) (p : Place) : Tk :=
  { k with
    sched := Function.update k.sched t (decide (p ≠ .idle))
    place := Function.update k.place t p }

def Tk.setRun (k : Tk) (t : Nat) (r : Bool) : Tk :=
  { k with run := Function.update k.run t r }

def Tk.addCount (k : Tk) (t : Nat) (n : Int) : Tk :=
  { k with count := Function.update k.count t (k.count t + n) }

/-- A tasklet is linked and its softirq raised, with interrupts disabled. -/
def linkTasklet (s : Shared) (v : Vec) (t : Nat) : Shared :=
  { s with tk := s.tk.push v t, bh := s.bh.raiseIrqoff v.cpu v.nr }

/-! ### Calls -/

def enter (me : Nat) (call : Call) (s : Shared) : Option (Shared × Thread) :=
  match call with
  | .bh cpu alloc => some (s, { pc := if alloc then .bhLink else .done, me := me, cpu := cpu })
  | .raiseSoftirq cpu nr =>
      if nr < 32 then some (s, { pc := .raise, me := me, cpu := cpu, nr := nr }) else none
  | .taskletSchedule v t =>
      -- after a panic `tasklet_schedule` calls the function itself
      if s.panic = true ∧ v.hi = false then some (s, { pc := .done, me := me })
      else some (s, { pc := .testAndSet, me := me, cpu := v.cpu, hi := v.hi, t := t })
  | .taskletDisable t =>
      some ({ s with tk := s.tk.addCount t 1 }, { pc := .disableWait, me := me, t := t })
  | .taskletEnable t => some ({ s with tk := s.tk.addCount t (-1) }, { pc := .done, me := me })
  | .taskletKill t => some (s, { pc := .killTest, me := me, t := t })
  | .bhHandler cpu =>
      some ({ s with bh := s.bh.take cpu me },
        { pc := .walk, me := me, cpu := cpu, d := s.bh.head cpu, chain := s.bh.bhList cpu })
  | .panic => some ({ s with panic := true }, { pc := .done, me := me })

def Thread.vec (t : Thread) : Vec := ⟨t.hi, t.cpu⟩

/-- One step of `tasklet_schedule`, `tasklet_disable` and `tasklet_kill`. -/
def stepTasklet (s : Shared) (t : Thread) : Option (Shared × Thread) :=
  match t.pc with
  | .testAndSet =>
      if s.tk.sched t.t then some (s, { t with pc := .done })
      else
        some ({ s with tk := s.tk.setSched t.t (.scheduling t.me) }, { t with pc := .schedLink })
  | .schedLink => some (linkTasklet s t.vec t.t, { t with pc := .done })
  | .disableWait => if s.tk.run t.t then none else some (s, { t with pc := .done })
  | .killTest =>
      if s.tk.sched t.t then some (s, { t with pc := .killYield })
      else some ({ s with tk := s.tk.setSched t.t (.killing t.me) }, { t with pc := .killWait })
  | .killYield => if s.tk.sched t.t then none else some (s, { t with pc := .killTest })
  | .killWait => if s.tk.run t.t then none else some (s, { t with pc := .killClear })
  | .killClear => some ({ s with tk := s.tk.setSched t.t .idle }, { t with pc := .done })
  | _ => none

/-- One step of `tasklet_action` and `tasklet_hi_action`. -/
def stepAction (s : Shared) (t : Thread) : Option (Shared × Thread) :=
  match t.pc with
  | .take =>
      some ({ s with tk := s.tk.take t.vec t.me },
        { t with pc := .pop, list := s.tk.vec t.vec, rest := s.tk.list t.vec })
  | .pop =>
      match t.list with
      | none => some (s, { t with pc := .softirq, nr := t.nr + 1 })
      | some x =>
          some (s, { t with pc := .trylock, t := x, list := s.tk.next x, rest := t.rest.tail })
  | .trylock =>
      if s.tk.run t.t then some (s, { t with pc := .putBack })
      else some ({ s with tk := s.tk.setRun t.t true }, { t with pc := .readCount })
  | .readCount => some (s, { t with pc := if s.tk.count t.t = 0 then .clearSched else .unlockBack })
  | .clearSched =>
      some ({ s with tk := s.tk.setSched t.t .idle, bug := s.bug || !s.tk.sched t.t },
        { t with pc := .func })
  | .func => some (s, { t with pc := .unlock })
  | .unlock => some ({ s with tk := s.tk.setRun t.t false }, { t with pc := .pop })
  | .unlockBack => some ({ s with tk := s.tk.setRun t.t false }, { t with pc := .putBack })
  | .putBack => some (linkTasklet s t.vec t.t, { t with pc := .pop })
  | _ => none

/-- One step of `Linux_BHInternal`, `raise_softirq`, `Linux_BHHandler` and `do_softirq`. -/
def stepBh (s : Shared) (t : Thread) : Option (Shared × Thread) :=
  match t.pc with
  | .bhLink => some ({ s with bh := s.bh.push t.cpu (.heap t.me) }, { t with pc := .done })
  | .raise =>
      some ({ s with bh := s.bh.fetchOr t.cpu t.nr },
        { t with pc := if s.bh.pending t.cpu = 0 then .raiseLink else .done })
  | .raiseLink =>
      some ({ s with bh := s.bh.push t.cpu (.softirq t.cpu) }, { t with pc := .done })
  | .walk =>
      match t.d with
      | none => some (s, { t with pc := .done })
      | some x => some (s, { t with pc := .call, nextD := s.bh.next x })
  | .call =>
      match t.d with
      | none => none
      | some x =>
          match x with
          | .softirq _ =>
              -- `Linux_Softirq` begins with the exchange of `do_softirq`
              some ({ s with bh := (s.bh.start x).clear t.cpu },
                { t with
                  pc := .softirq
                  nr := 0
                  bits := s.bh.pending t.cpu
                  chain := t.chain.tail })
          | .heap _ =>
              some ({ s with bh := s.bh.start x }, { t with pc := .ret, chain := t.chain.tail })
  | .ret => some (s, { t with pc := .walk, d := t.nextD })
  | .softirq =>
      if t.nr < maxSoftirq then
        if t.bits.getLsbD t.nr then
          if t.nr = 0 then some (s, { t with pc := .take, hi := true })
          else if t.nr = 5 then some (s, { t with pc := .take, hi := false })
          else some (s, { t with nr := t.nr + 1 })
        else some (s, { t with nr := t.nr + 1 })
      else some (s, { t with pc := .ret })
  | _ => none

def step (_a : Unit) (s : Shared) (t : Thread) : Option (Shared × Thread) :=
  match t.pc with
  | .testAndSet | .schedLink | .disableWait | .killTest | .killYield | .killWait | .killClear =>
      stepTasklet s t
  | .take | .pop | .trylock | .readCount | .clearSched | .func | .unlock | .unlockBack | .putBack =>
      stepAction s t
  | .bhLink | .raise | .raiseLink | .walk | .call | .ret | .softirq => stepBh s t
  | .done => none

def machine : Machine Shared Thread Call Unit := ⟨enter, step⟩

def initial : Config Shared Thread :=
  ⟨⟨⟨fun _ => none, fun _ => none, fun _ => false, fun _ => 0, fun _ => [], fun _ => .out,
      fun _ => 0, fun _ => 0⟩,
    ⟨fun _ => none, fun _ => none, fun _ => false, fun _ => false, fun _ => 0, fun _ => [],
      fun _ => .idle⟩, false, false⟩, []⟩

end VmkLinux.SoftIrq
