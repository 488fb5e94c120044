/-
  VmkLinux/Idr/Model.lean
  =======================
  **Identifiers for pointers**, `vmklinux26/linux/lib/idr.c`: a tree of layers with 64
  entries each, in which the digits of an identifier lead to its pointer.

  A pointer in a layer is a pointer of the user or one to a layer, and the value 0 is
  `NULL`.  Every layer has one parent, so that a tree is a value; the array `pa` of a loop
  holds the layers above with the entries through which it has come.  Callers take turns
  on an `idr`, and its lock for the list of free layers is left out.  The list `idFree`
  stands for the chain of layers through `ary[0]`, its length for `id_free_cnt`.

  A function returns `none` where the source would take a pointer of the user for a layer
  or a layer for one, where an identifier becomes too large for an `int`, and where a
  bound given for its loops is too small.
-/
import Mathlib.Data.List.Basic
import Mathlib.Data.Fin.Basic
import Mathlib.Algebra.Group.Int.Defs
import Mathlib.Algebra.Group.Nat.Defs
import VmkLinux.Errno

namespace VmkLinux.Idr

/-! ### Data -/

def idrBits : Nat := 6

def maxIdShift : Nat := 31

def maxIdBit : Nat := 2 ^ maxIdShift

def maxLevel : Nat := (maxIdShift + idrBits - 1) / idrBits

def idrFreeMax : Nat := maxLevel + maxLevel

/-- `struct idr_layer`. -/
structure Layer (α : Type) where
  bitmap : BitVec 64
  ary : Fin 64 → α
  count : Int

/-- A pointer. -/
inductive Slot where
  | user (ptr : Nat)
  | layer (p : Layer Slot)

abbrev IdrLayer := Layer Slot

def null : Slot := .user 0

def Slot.isNull : Slot → Bool
  | .user ptr => ptr == 0
  | .layer _ => false

/-- What the constructor of the cache makes. -/
def blank : IdrLayer := ⟨0, fun _ => null, 0⟩

/-- `struct idr`. -/
structure Handle where
  top : Slot
  idFree : List IdrLayer
  layers : Nat

def idrInit : Handle := ⟨null, [], 0⟩

namespace Layer

variable {α : Type}

def set (p : Layer α) (i : Fin 64) (a : α) : Layer α :=
  { p with ary := fun j => if j = i then a else p.ary j }

def bit (p : Layer α) (i : Fin 64) : Bool := p.bitmap.getLsbD i

def setBit (p : Layer α) (i : Fin 64) : Layer α :=
  { p with bitmap := p.bitmap ||| BitVec.twoPow 64 i }

def clearBit (p : Layer α) (i : Fin 64) : Layer α :=
  { p with bitmap := p.bitmap &&& ~~~BitVec.twoPow 64 i }

/-- The bitmap is `IDR_FULL`. -/
def full (p : Layer α) : Bool := p.bitmap == BitVec.allOnes 64

/-- `find_next_bit` in the complement of the bitmap. -/
@[irreducible] def nextSpace (p : Layer α) (n : Fin 64) : Option (Fin 64) :=
  Fin.find? fun m => decide (n ≤ m) && !p.bit m

end Layer

/-- The digit of an identifier for the layers `level` above the leaves. -/
def digit (id level : Nat) : Fin 64 := Fin.ofNat 64 (id >>> (idrBits * level))

/-- The layers above a place in the tree, each with the entry that leads there. -/
abbrev Path := List (IdrLayer × Fin 64)

/-- The tree in which `s` has taken its place. -/
def plug : Slot → Path → Slot
  | s, [] => s
  | s, (q, i) :: pa => plug (.layer (q.set i s)) pa

/-! ### Free layers -/

/-- Free layers, but for the link in entry 0, are as the constructor of the cache makes them. -/
def Zeroed (q : IdrLayer) : Prop := q.set 0 null = blank

def allocLayer : List IdrLayer → Option (IdrLayer × List IdrLayer)
  | [] => none
  | p :: free => some (p.set 0 null, free)

/-- The loop of `idr_pre_get`, which may find memory for `memory` layers. -/
def preGetLoop : Nat → Nat → List IdrLayer → List IdrLayer × Bool
  | 0, _, free => (free, true)
  | _ + 1, 0, free => (free, false)
  | missing + 1, memory + 1, free => preGetLoop missing memory (blank :: free)

def idrPreGet (idp : Handle) (memory : Nat) : Handle × Bool :=
  let (free, ok) := preGetLoop (idrFreeMax - idp.idFree.length) memory idp.idFree
  ({ idp with idFree := free }, ok)

/-- `idr_destroy`, with the layers that it gives back to the cache. -/
def idrDestroy (idp : Handle) : Handle × List IdrLayer :=
  ({ idp with idFree := [] }, idp.idFree.map fun p => p.set 0 null)

/-! ### New identifiers -/

inductive SubAlloc where
  | done (id : Nat) (top : Slot) (free : List IdrLayer)
  /-- `-1`. -/
  | noLayer (top : Slot) (free : List IdrLayer)
  /-- `-2`, with the new `starting_id`. -/
  | grow (id : Nat) (top : Slot) (free : List IdrLayer)
  /-- `-3`. -/
  | noSpace (top : Slot) (free : List IdrLayer)

/-- The last loop of `sub_alloc`: what is full is marked in the layer above. -/
def markFull (id : Nat) : Nat → IdrLayer → Path → Slot
  | _, p, [] => .layer p
  | level, p, (q, i) :: pa =>
      if p.full then markFull id (level + 1) ((q.set i (.layer p)).setBit (digit id (level + 1))) pa
      else plug (.layer p) ((q, i) :: pa)

/-- Where the loop of `sub_alloc` is. -/
structure Place where
  free : List IdrLayer
  level : Nat
  p : IdrLayer
  pa : Path
  id : Nat

/-- One turn of the loop: its end, or where it goes on. -/
def subAllocTurn (ptr : Nat) (c : Place) : Option (SubAlloc ⊕ Place) :=
  let n := digit c.id c.level
  match c.p.nextSpace n with
  | none =>
      -- No space here: back to the layer above.
      let id := (c.id ||| (2 ^ (idrBits * (c.level + 1)) - 1)) + 1
      if maxIdBit ≤ id then none
      else
        match c.pa with
        | [] => some (.inl (.grow id (.layer c.p) c.free))
        | (q, i) :: pa => some (.inr ⟨c.free, c.level + 1, q.set i (.layer c.p), pa, id⟩)
  | some m =>
      let id :=
        if m ≠ n then
          ((c.id >>> (idrBits * c.level)) ^^^ n.val ^^^ m.val) <<< (idrBits * c.level)
        else c.id
      if maxIdBit ≤ id then some (.inl (.noSpace (plug (.layer c.p) c.pa) c.free))
      else
        match c.level with
        | 0 =>
            let p := (c.p.set m (.user ptr)).setBit m
            some (.inl (.done id (markFull id 0 { p with count := p.count + 1 } c.pa) c.free))
        | level + 1 =>
            match c.p.ary m with
            | .layer q => some (.inr ⟨c.free, level, q, (c.p, m) :: c.pa, id⟩)
            | .user 0 =>
                match allocLayer c.free with
                | none => some (.inl (.noLayer (plug (.layer c.p) c.pa) c.free))
                | some (new, free) =>
                    let p := { c.p with count := c.p.count + 1 }
                    some (.inr ⟨free, level, new, (p, m) :: c.pa, id⟩)
            | .user (_ + 1) => none

def subAlloc (ptr : Nat) : Nat → Place → Option SubAlloc
  | 0, _ => none
  | fuel + 1, c =>
      match subAllocTurn ptr c with
      | none => none
      | some (.inl r) => some r
      | some (.inr c) => subAlloc ptr fuel c

/-- The tear-down in `idr_get_new_above_int`, where `built` layers are above the old top. -/
def tearDown : Nat → Slot → List IdrLayer → List IdrLayer
  | built + 1, .layer p, free =>
      tearDown built (p.ary 0) ({ p.set 0 null with bitmap := 0, count := 0 } :: free)
  | _, _, free => free

/-- The loop that puts layers above the top `p` of a tree; with a bound for their number. -/
def addLayers (id : Nat) : Nat → Nat → IdrLayer → Nat → List IdrLayer →
    Except (List IdrLayer) (Nat × IdrLayer × List IdrLayer)
  | 0, layers, p, _, free => .ok (layers, p, free)
  | room + 1, layers, p, built, free =>
      if id < 2 ^ (layers * idrBits) then .ok (layers, p, free)
      else if p.count = 0 then addLayers id room (layers + 1) p built free
      else
        match allocLayer free with
        | none => .error (tearDown built (.layer p) free)
        | some (new, free) =>
            let new := { new.set 0 (.layer p) with count := 1 }
            addLayers id room (layers + 1) (if p.full then new.setBit 0 else new) (built + 1) free

/-- The layer that is put above a full one. -/
def above (p : IdrLayer) : IdrLayer := ({ blank.set 0 (.layer p) with count := 1 }).setBit 0

/-- What there is at the top to begin with. -/
def topLayer (idp : Handle) : Option (Except Unit (Nat × IdrLayer × List IdrLayer)) :=
  match idp.top with
  | .layer p => some (.ok (idp.layers, p, idp.idFree))
  | .user 0 =>
      match allocLayer idp.idFree with
      | none => some (.error ())
      | some (p, free) => some (.ok (1, p, free))
  | .user (_ + 1) => none

/-- `idr_get_new_above_int`, with a bound for its loops: the identifier, or the error that
    its callers make of the return value. -/
def idrGetNewAboveInt (ptr : Nat) : Nat → Handle → Nat → Option (Handle × Except Int Nat)
  | 0, _, _ => none
  | fuel + 1, idp, id =>
      match topLayer idp with
      | none => none
      | some (.error ()) => some (idp, .error (-eagain))
      | some (.ok (layers, p, free)) =>
          match addLayers id (maxLevel - 1 - layers) layers p 0 free with
          | .error free => some ({ idp with idFree := free }, .error (-eagain))
          | .ok (layers, p, free) =>
              match subAlloc ptr (fuel + 1) ⟨free, layers - 1, p, [], id⟩ with
              | none => none
              | some (.done id top free) => some (⟨top, free, layers⟩, .ok id)
              | some (.noLayer top free) => some (⟨top, free, layers⟩, .error (-eagain))
              | some (.noSpace top free) => some (⟨top, free, layers⟩, .error (-enospc))
              | some (.grow id top free) => idrGetNewAboveInt ptr fuel ⟨top, free, layers⟩ id

def idrGetNewAbove (fuel : Nat) (idp : Handle) (ptr startingId : Nat) :
    Option (Handle × Except Int Nat) :=
  idrGetNewAboveInt ptr fuel idp startingId

def idrGetNew (fuel : Nat) (idp : Handle) (ptr : Nat) : Option (Handle × Except Int Nat) :=
  idrGetNewAboveInt ptr fuel idp 0

/-! ### Removing -/

/-- The loop of `sub_remove` that lets go of layers: the tree, the free layers and whether the
    last layer has gone. -/
def releaseLoop : Path → IdrLayer → List IdrLayer → Slot × List IdrLayer × Bool
  | [], p, free =>
      let p := { p with count := p.count - 1 }
      if p.count = 0 then (null, p :: free, true) else (.layer p, free, false)
  | (q, i) :: pa, p, free =>
      let p := { p with count := p.count - 1 }
      if p.count = 0 then releaseLoop pa (q.set i null) (p :: free)
      else (plug (.layer p) ((q, i) :: pa), free, false)

def subRemove (id : Nat) :
    Nat → Slot → Path → List IdrLayer → Option (Slot × List IdrLayer × Bool)
  | _, .user 0, pa, free => some (plug null pa, free, false)
  | _, .user (_ + 1), _, _ => none
  | 0, .layer p, pa, free =>
      let n := digit id 0
      if p.bit n then some (releaseLoop pa ((p.clearBit n).set n null) free)
      else some (plug (.layer p) pa, free, false)
  | level + 1, .layer p, pa, free =>
      let n := digit id (level + 1)
      subRemove id level (p.ary n) ((p.clearBit n, n) :: pa) free

/-- The end of `idr_remove`, with the layer that it gives back to the cache. -/
def trimFree (idp : Handle) : Handle × Option IdrLayer :=
  if idrFreeMax ≤ idp.idFree.length then
    match allocLayer idp.idFree with
    | some (p, free) => ({ idp with idFree := free }, some p)
    | none => (idp, none)
  else (idp, none)

/-- A layer at the top with only its first entry is dropped. -/
def dropTop (idp : Handle) : Handle :=
  match idp.top with
  | .layer p =>
      if p.count = 1 ∧ 1 < idp.layers ∧ (p.ary 0).isNull = false then
        ⟨p.ary 0, { p with bitmap := 0, count := 0 } :: idp.idFree, idp.layers - 1⟩
      else idp
  | .user _ => idp

def idrRemove (idp : Handle) (id : Nat) : Option (Handle × Option IdrLayer) := do
  let (top, free, emptied) ← subRemove (id % maxIdBit) (idp.layers - 1) idp.top [] idp.idFree
  pure (trimFree (dropTop ⟨top, free, if emptied then 0 else idp.layers⟩))

/-! ### Looking up -/

def findLoop (id : Nat) : Nat → Slot → Option Nat
  | 0, .user ptr => some ptr
  | 0, .layer _ => none
  | _ + 1, .user ptr => if ptr = 0 then some 0 else none
  | n + 1, .layer p => findLoop id n (p.ary (digit id n))

def idrFind (idp : Handle) (id : Nat) : Option Nat :=
  let id := id % maxIdBit
  if 2 ^ (idp.layers * idrBits) ≤ id then some 0 else findLoop id idp.layers idp.top

/-- The loop of `idr_replace` and the store after it: the old pointer and the new tree. -/
def replaceLoop (id ptr : Nat) : Nat → Slot → Option (Except Int (Nat × Slot))
  | _, .user 0 => some (.error (-enoent))
  | _, .user (_ + 1) => none
  | 0, .layer p =>
      let n := digit id 0
      if p.bit n then
        match p.ary n with
        | .user old => some (.ok (old, .layer (p.set n (.user ptr))))
        | .layer _ => none
      else some (.error (-enoent))
  | level + 1, .layer p =>
      let n := digit id (level + 1)
      match replaceLoop id ptr level (p.ary n) with
      | some (.ok (old, s)) => some (.ok (old, .layer (p.set n s)))
      | r => r

def idrReplace (idp : Handle) (ptr id : Nat) : Option (Handle × Except Int Nat) :=
  let id := id % maxIdBit
  if 2 ^ (idp.layers * idrBits) ≤ id then some (idp, .error (-einval))
  else
    match replaceLoop id ptr (idp.layers - 1) idp.top with
    | none => none
    | some (.error e) => some (idp, .error e)
    | some (.ok (old, s)) => some ({ idp with top := s }, .ok old)

end VmkLinux.Idr
