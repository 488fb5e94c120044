/-
  VmkLinux/Klist/Model.lean
  =========================
  **Lists that may be changed while they are walked**, `vmklinux26/linux/lib/klist.c` on
  `lib/kref.c`: one `struct klist`, any number of callers that add, delete and remove
  nodes, and any number of iterations.

  A critical section of `k_lock` is one step, but where it counts a reference down to
  zero: `klist_release` is then a step of its own, with the lock still held, as the
  `kref_get` of `klist_iter_init_node` takes no lock and may come in between.  Nor does the
  initialisation of a node; each is the start of its call.  `put` is called after the lock
  has been given up, which is again a step of its own.  A node is named after the call
  that adds it, so a node that is added a second time is a new one.  `k_list` is the list
  of the nodes on it, and `n_node.next` is read from it.

  What the owner of a node promises stands in `enter`: the reference of `klist_add_head` or
  `klist_add_tail` is given up once, by `klist_del` or `klist_remove`.  An iteration may
  start from any node.  Without counterpart in the source: `owned`, whether the owner's
  reference is still held, `poisoned`, whether a `next` has been read from a node that is
  off the list, and the `Walk` of an iteration.  `get` and `put` count the calls of the
  functions of that name, of a list that has them.
-/
import Mathlib.Algebra.Group.Nat.Defs
import Mathlib.Data.List.Nodup
import VmkLinux.Interleave

namespace VmkLinux.Klist

open VmkLinux.Interleave

/-! ### Data -/

/-- `struct klist`, and the `struct klist_node`s that were made for it. -/
structure Shared where
  /-- `k_list`. -/
  list : List Nat
  /-- Whether `k_lock` is held in between two steps. -/
  locked : Bool
  /-- `n_ref`. -/
  ref : Nat → Nat
  /-- Whether `n_removed` has been completed. -/
  removed : Nat → Bool
  /-- Whether `n_klist` is set: `klist_node_attached`. -/
  attached : Nat → Bool
  get : Nat → Nat
  put : Nat → Nat
  owned : Nat → Bool
  poisoned : Bool

/-- `klist_init`. -/
def klistInit : Shared where
  list := []
  locked := false
  ref := fun _ => 0
  removed := fun _ => false
  attached := fun _ => false
  get := fun _ => 0
  put := fun _ => 0
  owned := fun _ => false
  poisoned := false

/-- What an iteration had before it when it was set up, and what it has returned. -/
structure Walk where
  ahead : List Nat
  seen : List Nat
deriving DecidableEq, Repr

/-- The callers of `klist_del`: its own, `klist_remove` and `klist_iter_exit`. -/
inductive For where
  | del
  | remove
  | iterExit
deriving DecidableEq, Repr

/-- The points between two atomic steps. -/
inductive Pc where
  /-- `add_head` or `add_tail`, at the lock. -/
  | add (n : Nat) (tail : Bool)
  | added
  /-- `klist_del`, at the lock. -/
  | del (n : Nat) (caller : For)
  /-- `klist_del`, in `klist_release`. -/
  | delRelease (n : Nat) (caller : For)
  /-- `klist_del`, before its call of `put`. -/
  | delPut (n : Nat) (caller : For)
  | deleted
  /-- `klist_remove`, in `wait_for_completion`. -/
  | waits (n : Nat)
  | removed (n : Nat)
  /-- Between two calls for a `klist_iter` with this `i_cur`. -/
  | iter (cur : Option Nat) (w : Walk)
  /-- `klist_next`, in `klist_release` for the node `n` that it leaves; `next` comes next. -/
  | nextRelease (n : Nat) (next : Option Nat) (w : Walk)
  /-- `klist_next`, before its call of `put` for the node `n` that it has left. -/
  | nextPut (n : Nat) (cur : Option Nat) (w : Walk)
  /-- `klist_next` has returned `NULL`. -/
  | ended (w : Walk)
  | exited
deriving DecidableEq, Repr

inductive Call where
  /-- `klist_add_head` and `klist_add_tail`. -/
  | add (tail : Bool)
  | del (n : Nat)
  | remove (n : Nat)
  /-- `klist_iter_init_node`, and `klist_iter_init` with no node. -/
  | iterInitNode (n : Option Nat)
deriving DecidableEq, Repr

/-- What the owner of an iterator calls next. -/
inductive Choice where
  | next
  | exit
deriving DecidableEq, Repr

/-! ### Steps -/

/-- `klist_node_init`. -/
def nodeInit (s : Shared) (n : Nat) : Shared :=
  { s with
    ref := Function.update s.ref n 1
    attached := Function.update s.attached n true
    get := Function.update s.get n (s.get n + 1) }

/-- `kref_get`. -/
def krefGet (s : Shared) (n : Nat) : Shared :=
  { s with ref := Function.update s.ref n (s.ref n + 1) }

/-- `klist_release`.  A task in `klist_remove` may be back before `n_klist` is cleared, as
    `complete` comes first; the two are one step here, and only `attached` tells. -/
def release (s : Shared) (n : Nat) : Shared :=
  { s with
    list := s.list.erase n
    removed := Function.update s.removed n true
    attached := Function.update s.attached n false }

/-- The `atomic_dec_and_test` of `kref_put`; it finds zero where `ref` was one. -/
def krefDec (s : Shared) (n : Nat) : Shared :=
  { s with ref := Function.update s.ref n (s.ref n - 1) }

/-- The nodes after `n`. -/
def after (n : Nat) : List Nat → List Nat
  | [] => []
  | m :: list => if m = n then list else after n list

/-- `klist_next` reads the `next` of the node it stands at. -/
def readNext (s : Shared) (n : Nat) : Shared :=
  { s with poisoned := s.poisoned || decide (n ∉ s.list) }

/-- The node that `klist_next` goes on to. -/
def following (s : Shared) : Option Nat → Option Nat
  | none => s.list.head?
  | some n => (after n s.list).head?

/-- `kref_get` of a node that `klist_next` has found. -/
def take (s : Shared) : Option Nat → Shared
  | none => s
  | some n => krefGet s n

/-- Where `klist_next` goes on after its call of `put`. -/
def Pc.next (w : Walk) : Option Nat → Pc
  | some n => .iter (some n) { w with seen := w.seen ++ [n] }
  | none => .ended w

/-- Where `klist_del` goes on after its call of `put`. -/
def For.back (n : Nat) : For → Pc
  | .del => .deleted
  | .remove => .waits n
  | .iterExit => .exited

/-- The critical section of `klist_next`, up to the release of `i_cur` where it comes to that. -/
def klistNext (s : Shared) (w : Walk) (cur : Option Nat) : Shared × Pc :=
  match cur with
  | none => (take s (following s none), Pc.next w (following s none))
  | some n =>
      let s' := krefDec (readNext s n) n
      if s.ref n = 1 then
        ({ s' with locked := true }, .nextRelease n (following s (some n)) w)
      else (take s' (following s (some n)), Pc.next w (following s (some n)))

def step (a : Choice) (s : Shared) : Pc → Option (Shared × Pc)
  | .add n tail =>
      if s.locked then none
      else some ({ s with
        list := if tail then s.list ++ [n] else n :: s.list
        owned := Function.update s.owned n true }, .added)
  | .del n caller =>
      if s.locked then none
      else if s.ref n = 1 then some ({ krefDec s n with locked := true }, .delRelease n caller)
      else some (krefDec s n, caller.back n)
  | .delRelease n caller => some ({ release s n with locked := false }, .delPut n caller)
  | .delPut n caller =>
      some ({ s with put := Function.update s.put n (s.put n + 1) }, caller.back n)
  | .waits n => if s.removed n then some (s, .removed n) else none
  | .iter cur w =>
      match a with
      | .next => if s.locked then none else some (klistNext s w cur)
      | .exit =>
          match cur with
          | some n => some (s, .del n .iterExit)
          | none => some (s, .exited)
  | .nextRelease n next w =>
      some ({ take (release s n) next with locked := false }, .nextPut n next w)
  | .nextPut n cur w =>
      some ({ s with put := Function.update s.put n (s.put n + 1) }, Pc.next w cur)
  | .added | .deleted | .removed _ | .ended _ | .exited => none

def enter (me : Nat) (s : Shared) : Call → Option (Shared × Pc)
  | .add tail => some (nodeInit s me, .add me tail)
  | .del n =>
      if s.owned n then some ({ s with owned := Function.update s.owned n false }, .del n .del)
      else none
  | .remove n =>
      if s.owned n then some ({ s with owned := Function.update s.owned n false }, .del n .remove)
      else none
  | .iterInitNode none => some (s, .iter none ⟨s.list, []⟩)
  | .iterInitNode (some n) => some (krefGet s n, .iter (some n) ⟨after n s.list, []⟩)

/-- The machine of one list. -/
def machine : Machine Shared Pc Call Choice where
  start := fun me call s => enter me s call
  act := fun a s pc => step a s pc

def initial : Config Shared Pc := ⟨klistInit, []⟩

end VmkLinux.Klist
