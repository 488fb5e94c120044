/-
  VmkLinux/Mempool/Model.lean
  ===========================
  **Memory pools**, `vmklinux26/linux/mm/mempool.c`, as a machine over the calls of
  `mempool_alloc`, `mempool_free` and `mempool_resize` for one pool.

  What is done under the lock of the pool is one step, and so is every call of its `alloc`
  and `free` functions and every look at the pool without the lock.  An element is named
  by a number.  `live` are the elements that `alloc` has returned and `free` has not taken
  back: it returns none of these again, and to give it anything else is an error.  `held`
  are the elements that callers have got from `mempool_alloc` and not returned.

  A `BUG_ON` that strikes, a store behind the array of elements or a wrong call of `free`
  ends a call in `crashed`.  Sizes are numbers without a width, and flags for allocations
  are left out.
-/
import VmkLinux.Interleave
import Mathlib.Data.List.Basic
import VmkLinux.Errno

namespace VmkLinux.Mempool

open Interleave

/-! ### Data -/

/-- `mempool_t`, with what is known about its elements. -/
structure Shared where
  minNr : Nat
  currNr : Nat
  elements : List Nat
  live : List Nat
  held : List Nat
deriving DecidableEq, Repr

/-- The points between two steps. -/
inductive Pc where
  | alloc
  /-- `mempool_alloc`, after `pool->alloc` has returned `NULL`. -/
  | allocLock
  | returned (element : Option Nat)
  | free (element : Nat)
  /-- `mempool_free`, with the `curr_nr` that it has seen without the lock. -/
  | freeRead (element curr : Nat)
  | freeLock (element : Nat)
  /-- Before the last `pool->free`. -/
  | drop (element : Nat)
  | freed
  | resize (newMinNr : Nat)
  | shrinkFree (newMinNr element : Nat)
  | shrinkLock (newMinNr : Nat)
  /-- Before the `kmalloc` of a larger array. -/
  | grow (newMinNr : Nat)
  | growLock (newMinNr : Nat)
  | fill
  | fillLock (element : Nat)
  | raced (element : Nat)
  | resized (ret : Int)
  | crashed
deriving DecidableEq, Repr

inductive Call where
  | alloc
  | free (element : Nat)
  | resize (newMinNr : Nat)
deriving DecidableEq, Repr

/-- What the surroundings choose: the result of `pool->alloc`, and whether there is memory for
    an array. -/
structure Choice where
  element : Option Nat
  memory : Bool
deriving DecidableEq, Repr

/-! ### Elements -/

def addElement (s : Shared) (element : Nat) : Option Shared :=
  if s.minNr ≤ s.currNr then none
  else if s.currNr < s.elements.length then
    some { s with elements := s.elements.set s.currNr element, currNr := s.currNr + 1 }
  else none

def removeElement (s : Shared) : Option (Nat × Shared) :=
  if s.currNr = 0 then none
  else s.elements[s.currNr - 1]?.map fun e => (e, { s with currNr := s.currNr - 1 })

/-- `pool->free`. -/
def poolFree (s : Shared) (element : Nat) : Option Shared :=
  if element ∈ s.live then some { s with live := s.live.erase element } else none

/-- Where a call goes from what it did, unless that has failed. -/
def orCrash (s : Shared) (next : Pc) : Option Shared → Shared × Pc
  | some s' => (s', next)
  | none => (s, .crashed)

/-! ### Setting up and taking down -/

/-- `free_pool`, with a bound for its loop. -/
def freePool : Nat → Shared → Option Shared
  | 0, s => if s.currNr = 0 then some s else none
  | fuel + 1, s =>
      if s.currNr = 0 then some s
      else do
        let (e, s') ← removeElement s
        let s' ← poolFree s' e
        freePool fuel s'

/-- The loop of `mempool_create_node`, where `alloc` says what the calls of `alloc_fn` return:
    the pool, or what is left where one has returned `NULL`. -/
def createLoop (alloc : Nat → Option Nat) : Nat → Shared → Option (Except Shared Shared)
  | 0, s => some (.ok s)
  | n + 1, s =>
      match alloc s.currNr with
      | none => (freePool s.currNr s).map .error
      | some e => do
          let s' ← addElement { s with live := e :: s.live } e
          createLoop alloc n s'

/-- `mempool_create_node`, after its allocations for itself. -/
def mempoolCreateNode (minNr : Nat) (alloc : Nat → Option Nat) : Option (Except Shared Shared) :=
  createLoop alloc minNr ⟨minNr, 0, List.replicate minNr 0, [], []⟩

def mempoolDestroy (s : Shared) : Option Shared :=
  if s.currNr ≠ s.minNr then none else freePool s.currNr s

/-! ### Steps -/

/-- The loop that makes the pool smaller, from where it holds the lock. -/
def shrinkLoop (s : Shared) (newMinNr : Nat) : Shared × Pc :=
  if newMinNr < s.currNr then
    match removeElement s with
    | some (e, s') => (s', .shrinkFree newMinNr e)
    | none => (s, .crashed)
  else ({ s with minNr := newMinNr }, .resized 0)

/-- The loop that fills the pool, from where it holds the lock. -/
def fillLoop (s : Shared) : Shared × Pc :=
  if s.currNr < s.minNr then (s, .fill) else (s, .resized 0)

/-- The larger array takes the place of the other. -/
def newElements (s : Shared) (newMinNr : Nat) : Option Shared :=
  if s.currNr ≤ newMinNr then
    some { s with
      elements := s.elements.take s.currNr ++ List.replicate (newMinNr - s.currNr) 0
      minNr := newMinNr }
  else none

def step (a : Choice) (s : Shared) : Pc → Option (Shared × Pc)
  | .alloc =>
      match a.element with
      | none => some (s, .allocLock)
      | some e =>
          if e ∈ s.live then none
          else some ({ s with live := e :: s.live, held := e :: s.held }, .returned (some e))
  | .allocLock =>
      if s.currNr ≠ 0 then
        match removeElement s with
        | some (e, s') => some ({ s' with held := e :: s'.held }, .returned (some e))
        | none => some (s, .crashed)
      else some (s, .returned none)
  | .free e => some (s, .freeRead e s.currNr)
  | .freeRead e curr => some (s, if curr < s.minNr then .freeLock e else .drop e)
  | .freeLock e =>
      some (if s.currNr < s.minNr then orCrash s .freed (addElement s e) else (s, .drop e))
  | .drop e => some (orCrash s .freed (poolFree s e))
  | .resize n => some (if n ≤ s.minNr then shrinkLoop s n else (s, .grow n))
  | .shrinkFree n e => some (orCrash s (.shrinkLock n) (poolFree s e))
  | .shrinkLock n => some (shrinkLoop s n)
  | .grow n => some (s, if a.memory then .growLock n else .resized (-enomem))
  | .growLock n =>
      if n ≤ s.minNr then some (s, .resized 0)
      else
        match newElements s n with
        | some s' => some (fillLoop s')
        | none => some (s, .crashed)
  | .fill =>
      match a.element with
      | none => some (s, .resized 0)
      | some e => if e ∈ s.live then none else some ({ s with live := e :: s.live }, .fillLock e)
  | .fillLock e =>
      if s.currNr < s.minNr then
        match addElement s e with
        | some s' => some (fillLoop s')
        | none => some (s, .crashed)
      else some (s, .raced e)
  | .raced e => some (orCrash s (.resized 0) (poolFree s e))
  | .returned _ | .freed | .resized _ | .crashed => none

/-- Only an element that a caller holds is freed; no pool gets the size 0. -/
def enter (s : Shared) : Call → Option (Shared × Pc)
  | .alloc => some (s, .alloc)
  | .free e => if e ∈ s.held then some ({ s with held := s.held.erase e }, .free e) else none
  | .resize n => some (s, if n = 0 then .crashed else .resize n)

/-- The machine of one pool. -/
def machine : Machine Shared Pc Call Choice where
  start := fun _ call s => enter s call
  act := step

/-- The call is one of `mempool_resize` and has not returned. -/
def Pc.resizing : Pc → Bool
  | .resize _ | .shrinkFree _ _ | .shrinkLock _ | .grow _ | .growLock _ | .fill | .fillLock _
  | .raced _ => true
  | _ => false

/-- The call has returned. -/
def Pc.atEnd : Pc → Bool
  | .returned _ | .freed | .resized _ => true
  | _ => false

/-- The element that a call has taken and not yet passed on. -/
def Pc.element : Pc → Option Nat
  | .free e | .freeRead e _ | .freeLock e | .drop e | .shrinkFree _ e | .fillLock e | .raced e =>
      some e
  | _ => none

end VmkLinux.Mempool
