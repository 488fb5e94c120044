/-
  VmkLinux/Stubs/HashChains.lean
  ==============================
  **The hash table** (`vmklinux26/vmware/linux_hashtab.c`, `linux/hash.h`): `vmklnx_hashtab_create`
  and the calls that insert, remove and find an item.

  What the table is for is a finite map from keys to items.  Each chain is kept in the order of
  its keys, and a search stops at the first larger one; the high bits of the hash are an index of
  the table, because there are as many of them as its order says.

  The table is memory from the block of `kmalloc` on: an access outside of the block is `none`.
  Up to order 28 the block holds the table (`create_overruns_iff`).
-/
import Mathlib.Algebra.BigOperators.Group.Finset.Basic
import VmkLinux.OrderedChain
import VmkLinux.Sequence
import VmkLinux.Heap.Kmalloc
import VmkLinux.Errno

namespace VmkLinux.Stubs.HashChains

open VmkLinux.OrderedChain VmkLinux.Sequence VmkLinux.Heap

/-! ### The code -/

/-- `struct vmklnx_hashtab_item`; `ptr` is where it is. -/
structure Item where
  ptr : Nat
  key : BitVec 64
deriving DecidableEq, Repr

/-- The block of the table, and the chain at each of its `hlist_head`s. -/
structure Table where
  bytes : Nat
  heads : Nat → List Item

/-- `struct vmklnx_hashtab`. -/
structure Hashtab where
  size : BitVec 32
  count : BitVec 32
  order : BitVec 32
  table : Table

/-- `hash_long`. -/
def hashLong (val : BitVec 64) (bits : BitVec 32) : BitVec 64 :=
  let hash := val
  let n := hash
  let n := n <<< 18
  let hash := hash - n
  let n := n <<< 33
  let hash := hash - n
  let n := n <<< 3
  let hash := hash + n
  let n := n <<< 3
  let hash := hash - n
  let n := n <<< 4
  let hash := hash + n
  let n := n <<< 2
  let hash := hash + n
  hash >>> ((64 - bits).toNat % 64)

/-- `ht->table[i]`. -/
def Table.get (t : Table) (i : Nat) : Option (List Item) :=
  if 8 * (i + 1) ≤ t.bytes then some (t.heads i) else none

def Table.set (t : Table) (i : Nat) (chain : List Item) : Option Table :=
  if 8 * (i + 1) ≤ t.bytes then some { t with heads := Function.update t.heads i chain } else none

/-- The loop of `vmklnx_hashtab_create` from `i` on, with as many heads to go. -/
def initLoop : Nat → Nat → Table → Option Table
  | 0, _, t => some t
  | n + 1, i, t => (t.set i []).bind (initLoop n (i + 1))

/-- The bytes of a block, where the heap has one of that size. -/
def blockOf (heap : BitVec 32 → Bool) (n : BitVec 32) : Option Nat :=
  if heap n then some n.toNat else none

/-- `vmklnx_hashtab_create`, which returns `-ENOMEM` with no table.  `garbage` is what the block
    has had in it. -/
def create (heap : BitVec 32 → Bool) (garbage : Nat → List Item) (order : BitVec 32) :
    Option (Int × Option Hashtab) :=
  let size : BitVec 32 := shiftOne order.toNat
  match kmalloc (blockOf heap) (size.setWidth 64 * 8) with
  | none => some (-enomem, none)
  | some bytes => do
      let table ← initLoop size.toNat 0 { bytes := bytes, heads := garbage }
      return (0, some { size := size, count := 0, order := order, table := table })

/-- `hashed_key`, an `unsigned int`. -/
def Hashtab.hashed (ht : Hashtab) (key : BitVec 64) : Nat :=
  ((hashLong key ht.order).setWidth 32).toNat

/-- The loop of `vmklnx_hashtab_find_key`. -/
def findLoop (key : BitVec 64) : List Item → Option Item
  | [] => none
  | entry :: list =>
      if entry.key = key then some entry
      else if key < entry.key then none
      else findLoop key list

def findKey (ht : Hashtab) (key : BitVec 64) : Option (Option Item) := do
  let chain ← ht.table.get (ht.hashed key)
  return findLoop key chain

/-- What a call returns, and the item that it stores for its caller. -/
structure Reply where
  status : Int
  item : Option Item := none
deriving DecidableEq, Repr

/-- `vmklnx_hashtab_find_item`. -/
def findItem (ht : Hashtab) (key : BitVec 64) : Option (Reply × Hashtab) := do
  match ← findKey ht key with
  | none => return ({ status := -einval }, ht)
  | some entry => return ({ status := 0, item := some entry }, ht)

/-- The loop of `vmklnx_hashtab_insert_item`, with the chain as far as `parent`; `none` where it
    meets the key.  The item is linked behind `parent`, or at the head. -/
def insertLoop (item : Item) (parents : List Item) : List Item → Option (List Item)
  | [] => some (parents ++ [item])
  | entry :: list =>
      if entry.key = item.key then none
      else if item.key < entry.key then some (parents ++ item :: entry :: list)
      else insertLoop item (parents ++ [entry]) list

/-- `vmklnx_hashtab_insert_item`. -/
def insertItem (ht : Hashtab) (item : Item) : Option (Reply × Hashtab) := do
  let chain ← ht.table.get (ht.hashed item.key)
  match insertLoop item [] chain with
  | none => return ({ status := -einval }, ht)
  | some chain =>
      let table ← ht.table.set (ht.hashed item.key) chain
      return ({ status := 0 }, { ht with table := table, count := ht.count + 1 })

/-- `vmklnx_hashtab_remove_key`; `wanted` says that the caller asks for the item. -/
def removeKey (ht : Hashtab) (key : BitVec 64) (wanted : Bool) : Option (Reply × Hashtab) := do
  match ← findKey ht key with
  | none => return ({ status := -einval }, ht)
  | some entry =>
      let chain ← ht.table.get (ht.hashed key)
      let table ← ht.table.set (ht.hashed key) (chain.erase entry)
      return ({ status := 0, item := if wanted then some entry else none },
        { ht with table := table, count := ht.count - 1 })

/-- `vmklnx_hashtab_remove_item`. -/
def removeItem (ht : Hashtab) (item : Item) : Option (Reply × Hashtab) :=
  removeKey ht item.key false

/-! ### Calls -/

inductive Call where
  | insert (item : Item)
  | removeKey (key : BitVec 64) (wanted : Bool)
  | removeItem (item : Item)
  | find (key : BitVec 64)
deriving DecidableEq, Repr

def exec : Call → Hashtab → Option (Reply × Hashtab)
  | .insert item, ht => insertItem ht item
  | .removeKey key wanted, ht => removeKey ht key wanted
  | .removeItem item, ht => removeItem ht item
  | .find key, ht => findItem ht key

/-- An item is inserted only while it is in no chain. -/
def Call.Proper (call : Call) (ht : Hashtab) : Prop :=
  match call with
  | .insert item => ∀ i < ht.size.toNat, ∀ entry ∈ ht.table.heads i, entry.ptr ≠ item.ptr
  | _ => True

instance (call : Call) (ht : Hashtab) : Decidable (call.Proper ht) :=
  match call with
  | .insert item => inferInstanceAs
      (Decidable (∀ i < ht.size.toNat, ∀ entry ∈ ht.table.heads i, entry.ptr ≠ item.ptr))
  | .removeKey _ _ => isTrue trivial
  | .removeItem _ => isTrue trivial
  | .find _ => isTrue trivial

def step (call : Call) (ht : Hashtab) : Option Hashtab :=
  if call.Proper ht then (exec call ht).map Prod.snd else none

/-! ### The map -/

/-- The map that the table stands for. -/
def Hashtab.map (ht : Hashtab) (key : BitVec 64) : Option Item :=
  lookup Item.key (ht.table.heads (ht.hashed key)) key

/-- How many items are in the chains. -/
def Hashtab.stored (ht : Hashtab) : Nat :=
  ∑ i ∈ Finset.range ht.size.toNat, (ht.table.heads i).length

/-- Each chain goes up, and has only keys that belong to it. -/
def Sound (ht : Hashtab) : Prop :=
  ∀ i < ht.size.toNat, Increasing Item.key (ht.table.heads i) ∧
    ∀ entry ∈ ht.table.heads i, ht.hashed entry.key = i

/-- A removal by key from the map. -/
def RemovesKey (ht : Hashtab) (key : BitVec 64) (wanted : Bool) (reply : Reply)
    (ht' : Hashtab) : Prop :=
  match ht.map key with
  | none => reply.status = -einval ∧ ht' = ht
  | some item => reply = { status := 0, item := if wanted then some item else none } ∧
      ht'.map = Function.update ht.map key none

/-- What a call returns and does, in terms of the map. -/
def Refines (ht : Hashtab) (call : Call) (reply : Reply) (ht' : Hashtab) : Prop :=
  match call with
  | .insert item =>
      match ht.map item.key with
      | none => reply.status = 0 ∧ ht'.map = Function.update ht.map item.key (some item)
      | some _ => reply.status = -einval ∧ ht' = ht
  | .removeKey key wanted => RemovesKey ht key wanted reply ht'
  | .removeItem item => RemovesKey ht item.key false reply ht'
  | .find key =>
      ht' = ht ∧ match ht.map key with
        | none => reply.status = -einval
        | some item => reply = { status := 0, item := some item }

/-! ### The index -/

theorem hashLong_lt (key : BitVec 64) {order : BitVec 32} (h1 : 1 ≤ order.toNat)
    (h31 : order.toNat ≤ 31) : (hashLong key order).toNat < 2 ^ order.toNat := by
  have hamount : (64 - order).toNat % 64 = 64 - order.toNat := by
    have h64 : (64 : BitVec 32).toNat = 64 := rfl
    rw [BitVec.toNat_sub, h64]
    omega
  have hpow : 2 ^ (64 - order.toNat) * 2 ^ order.toNat = 2 ^ 64 := by
    rw [← Nat.pow_add]
    congr 1
    omega
  unfold hashLong
  rw [BitVec.toNat_ushiftRight, hamount, Nat.shiftRight_eq_div_pow]
  apply Nat.div_lt_of_lt_mul
  rw [hpow]
  exact BitVec.isLt _

/-- The sizes: the table is in its block, and the order is one of those a table is made with. -/
structure Placed (ht : Hashtab) : Prop where
  order_pos : 1 ≤ ht.order.toNat
  order_le : ht.order.toNat ≤ 31
  size_eq : ht.size.toNat = 2 ^ ht.order.toNat
  inside : 8 * ht.size.toNat ≤ ht.table.bytes

theorem Placed.hashed_lt {ht : Hashtab} (h : Placed ht) (key : BitVec 64) :
    ht.hashed key < ht.size.toNat := by
  have hlt := hashLong_lt key h.order_pos h.order_le
  have hpow : 2 ^ ht.order.toNat ≤ 2 ^ 31 := Nat.pow_le_pow_right (by decide) h.order_le
  rw [h.size_eq, Hashtab.hashed, BitVec.toNat_setWidth]
  omega

theorem Placed.get {ht : Hashtab} (h : Placed ht) (key : BitVec 64) :
    ht.table.get (ht.hashed key) = some (ht.table.heads (ht.hashed key)) := by
  have hlt := h.hashed_lt key
  have hinside := h.inside
  exact if_pos (by omega)

theorem Placed.set {ht : Hashtab} (h : Placed ht) (key : BitVec 64) (chain : List Item) :
    ht.table.set (ht.hashed key) chain
      = some { ht.table with
          heads := Function.update ht.table.heads (ht.hashed key) chain } := by
  have hlt := h.hashed_lt key
  have hinside := h.inside
  exact if_pos (by omega)

/-! ### The searches -/

theorem key_trans (a b c : BitVec 64) (hab : a < b) (hbc : b < c) : a < c :=
  BitVec.lt_trans hab hbc

theorem findLoop_eq (key : BitVec 64) (chain : List Item) (h : Increasing Item.key chain) :
    findLoop key chain = lookup Item.key chain key := by
  induction chain with
  | nil => rfl
  | cons entry list ih =>
    rw [findLoop]
    split
    · next hkey =>
      subst hkey
      exact lookup_cons_self.symm
    · next hne =>
      split
      · next hlt => exact (lookup_of_lt_head key_trans h hlt).symm
      · rw [lookup_cons_of_ne hne]
        exact ih (List.pairwise_cons.mp h).2

/-- The search of an insertion ends at its key, or between the smaller keys and the larger. -/
theorem insertLoop_cases (item : Item) (list parents : List Item)
    (h : Increasing Item.key (parents ++ list)) (hparents : ∀ p ∈ parents, p.key < item.key) :
    (∃ entry, lookup Item.key (parents ++ list) item.key = some entry) ∧
        insertLoop item parents list = none ∨
      lookup Item.key (parents ++ list) item.key = none ∧
        ∃ below above, parents ++ list = below ++ above ∧ (∀ p ∈ below, p.key < item.key) ∧
          (∀ q ∈ above, item.key < q.key) ∧
          insertLoop item parents list = some (below ++ item :: above) := by
  have hpassed : lookup Item.key parents item.key = none :=
    lookup_eq_none_iff.mpr fun p hp => Std.ne_of_lt (hparents p hp)
  induction list generalizing parents with
  | nil =>
    refine .inr ⟨?_, parents, [], rfl, hparents, nofun, rfl⟩
    rw [List.append_nil]
    exact hpassed
  | cons entry list ih =>
    have hrest : Increasing Item.key (entry :: list) := (List.pairwise_append.mp h).2.1
    rw [insertLoop, lookup_append, hpassed, Option.none_or]
    split
    · next hkey =>
      left
      rw [← hkey]
      exact ⟨⟨entry, lookup_cons_self⟩, rfl⟩
    · next hne =>
      split
      · next hlt =>
        refine .inr ⟨lookup_of_lt_head key_trans hrest hlt, parents, entry :: list, rfl, hparents,
          ?_, rfl⟩
        exact forall_of_head (R := fun a b : Item => a.key < b.key)
          (fun _ _ _ => key_trans _ _ _) hrest hlt
      · next hge =>
        have hless : entry.key < item.key := BitVec.lt_of_le_ne (BitVec.not_lt.mp hge) hne
        have hsame : parents ++ entry :: list = (parents ++ [entry]) ++ list := by simp
        have hmore : ∀ p ∈ parents ++ [entry], p.key < item.key := by
          intro p hp
          rcases List.mem_append.mp hp with hp | hp
          · exact hparents p hp
          · rwa [List.mem_singleton.mp hp]
        have hnone : lookup Item.key (parents ++ [entry]) item.key = none :=
          lookup_eq_none_iff.mpr fun p hp => Std.ne_of_lt (hmore p hp)
        rw [hsame] at h ⊢
        have hnext := ih (parents ++ [entry]) h hmore hnone
        rw [lookup_append, hnone, Option.none_or] at hnext
        rwa [lookup_cons_of_ne hne]

/-! ### One chain -/

/-- The table with another chain for a key, and another count. -/
def Hashtab.withChain (ht : Hashtab) (key : BitVec 64) (chain : List Item) (count : BitVec 32) :
    Hashtab :=
  { ht with
    table := { ht.table with heads := Function.update ht.table.heads (ht.hashed key) chain }
    count := count }

/-- What stands at every time between two calls. -/
structure Inv (ht : Hashtab) : Prop where
  placed : Placed ht
  sound : Sound ht
  count_eq : ht.count = BitVec.ofNat 32 ht.stored

section WithChain

variable {ht : Hashtab} {key : BitVec 64} {chain : List Item} {count : BitVec 32}

@[simp] theorem hashed_withChain (k : BitVec 64) :
    (ht.withChain key chain count).hashed k = ht.hashed k := rfl

@[simp] theorem heads_withChain : (ht.withChain key chain count).table.heads
    = Function.update ht.table.heads (ht.hashed key) chain := rfl

@[simp] theorem size_withChain : (ht.withChain key chain count).size = ht.size := rfl

theorem map_withChain {value : Option Item}
    (h : lookup Item.key chain
      = Function.update (lookup Item.key (ht.table.heads (ht.hashed key))) key value) :
    (ht.withChain key chain count).map = Function.update ht.map key value := by
  funext k
  rw [Hashtab.map, hashed_withChain, heads_withChain]
  by_cases hhash : ht.hashed k = ht.hashed key
  · rw [hhash, Function.update_self, h]
    by_cases hk : k = key
    · rw [hk, Function.update_self, Function.update_self]
    · rw [Function.update_of_ne hk, Function.update_of_ne hk, ← hhash]
      rfl
  · have hk : k ≠ key := fun heq => hhash (heq ▸ rfl)
    rw [Function.update_of_ne hhash, Function.update_of_ne hk]
    rfl

theorem stored_withChain (h : ht.hashed key < ht.size.toNat) :
    (ht.withChain key chain count).stored + (ht.table.heads (ht.hashed key)).length
      = ht.stored + chain.length := by
  have hmem : ht.hashed key ∈ Finset.range ht.size.toNat := Finset.mem_range.mpr h
  have hbefore := Finset.add_sum_erase (Finset.range ht.size.toNat)
    (fun i => (ht.table.heads i).length) hmem
  have hafter := Finset.add_sum_erase (Finset.range ht.size.toNat)
    (fun i => (Function.update ht.table.heads (ht.hashed key) chain i).length) hmem
  have hothers : ∑ i ∈ (Finset.range ht.size.toNat).erase (ht.hashed key),
        (Function.update ht.table.heads (ht.hashed key) chain i).length
      = ∑ i ∈ (Finset.range ht.size.toNat).erase (ht.hashed key),
        (ht.table.heads i).length := by
    apply Finset.sum_congr rfl
    intro i hi
    rw [Function.update_of_ne (Finset.ne_of_mem_erase hi)]
  rw [hothers, Function.update_self] at hafter
  unfold Hashtab.stored
  rw [size_withChain, heads_withChain, ← hafter, ← hbefore]
  omega

theorem sound_withChain (h : Sound ht) (hchain : Increasing Item.key chain)
    (hkeys : ∀ entry ∈ chain, ht.hashed entry.key = ht.hashed key) :
    Sound (ht.withChain key chain count) := by
  intro i hi
  rw [heads_withChain]
  simp only [hashed_withChain]
  by_cases heq : i = ht.hashed key
  · rw [heq, Function.update_self]
    exact ⟨hchain, hkeys⟩
  · rw [Function.update_of_ne heq]
    exact h i hi

theorem placed_withChain (h : Placed ht) : Placed (ht.withChain key chain count) :=
  ⟨h.order_pos, h.order_le, h.size_eq, h.inside⟩

end WithChain

/-! ### The calls -/

section Calls

variable {ht : Hashtab} (h : Inv ht)

include h

theorem Inv.chain (key : BitVec 64) :
    Increasing Item.key (ht.table.heads (ht.hashed key)) ∧
      ∀ entry ∈ ht.table.heads (ht.hashed key), ht.hashed entry.key = ht.hashed key :=
  h.sound _ (h.placed.hashed_lt key)

theorem findKey_eq (key : BitVec 64) : findKey ht key = some (ht.map key) := by
  rw [findKey, h.placed.get key, Option.bind_eq_bind, Option.bind_some,
    findLoop_eq key _ (h.chain key).1]
  rfl

theorem findItem_spec (key : BitVec 64) :
    ∃ reply ht', findItem ht key = some (reply, ht') ∧ Inv ht' ∧
      Refines ht (.find key) reply ht' := by
  rw [findItem, findKey_eq h key]
  cases hmap : ht.map key with
  | none =>
    refine ⟨{ status := -einval }, ht, rfl, h, rfl, ?_⟩
    rw [hmap]
  | some entry =>
    refine ⟨{ status := 0, item := some entry }, ht, rfl, h, rfl, ?_⟩
    rw [hmap]

theorem insertItem_spec (item : Item) :
    ∃ reply ht', insertItem ht item = some (reply, ht') ∧ Inv ht' ∧
      Refines ht (.insert item) reply ht' := by
  obtain ⟨hinc, hkeys⟩ := h.chain item.key
  rw [insertItem, h.placed.get item.key, Option.bind_eq_bind, Option.bind_some]
  rcases insertLoop_cases item (ht.table.heads (ht.hashed item.key)) [] hinc nofun with
    ⟨⟨entry, hfound⟩, hloop⟩ | ⟨hnone, below, above, heq, hbelow, habove, hloop⟩
  · have hmap : ht.map item.key = some entry := hfound
    rw [hloop]
    refine ⟨{ status := -einval }, ht, rfl, h, ?_⟩
    rw [Refines, hmap]
    exact ⟨rfl, rfl⟩
  · have hmap : ht.map item.key = none := hnone
    change ht.table.heads (ht.hashed item.key) = below ++ above at heq
    have hlinked : Increasing Item.key (below ++ item :: above) :=
      pairwise_link (heq ▸ hinc) hbelow habove
    have hlength := @stored_withChain ht item.key (below ++ item :: above) (ht.count + 1)
      (h.placed.hashed_lt item.key)
    rw [hloop]
    dsimp only
    rw [h.placed.set]
    refine ⟨{ status := 0 }, ht.withChain item.key (below ++ item :: above) (ht.count + 1), rfl,
      ⟨placed_withChain h.placed, sound_withChain h.sound hlinked ?_, ?_⟩, ?_⟩
    · intro e he
      rcases List.mem_append.mp he with he | he
      · exact hkeys e (heq ▸ List.mem_append_left above he)
      · rcases List.mem_cons.mp he with rfl | he
        · rfl
        · exact hkeys e (heq ▸ List.mem_append_right below he)
    · rw [heq] at hlength
      simp only [List.length_append, List.length_cons] at hlength
      have hstored : (ht.withChain item.key (below ++ item :: above) (ht.count + 1)).stored
          = ht.stored + 1 := by omega
      rw [hstored, BitVec.ofNat_add, ← h.count_eq]
      rfl
    · rw [Refines, hmap]
      refine ⟨rfl, map_withChain ?_⟩
      rw [lookup_link hlinked, heq]

theorem removeKey_spec (key : BitVec 64) (wanted : Bool) :
    ∃ reply ht', removeKey ht key wanted = some (reply, ht') ∧ Inv ht' ∧
      RemovesKey ht key wanted reply ht' := by
  rw [removeKey, findKey_eq h key]
  cases hmap : ht.map key with
  | none =>
    refine ⟨{ status := -einval }, ht, rfl, h, ?_⟩
    rw [RemovesKey, hmap]
    exact ⟨rfl, rfl⟩
  | some entry =>
    obtain ⟨hinc, hkeys⟩ := h.chain key
    obtain ⟨hmem, hkey⟩ := mem_of_lookup_eq_some hmap
    obtain ⟨below, above, -, heq, herase⟩ := List.exists_erase_eq hmem
    have hlength := @stored_withChain ht key (below ++ above) (ht.count - 1)
      (h.placed.hashed_lt key)
    rw [heq] at hinc hkeys
    rw [Option.bind_eq_bind, Option.bind_some]
    dsimp only
    rw [Option.bind_eq_bind, h.placed.get key, Option.bind_some, herase, h.placed.set]
    refine ⟨{ status := 0, item := if wanted then some entry else none },
      ht.withChain key (below ++ above) (ht.count - 1), rfl,
      ⟨placed_withChain h.placed, sound_withChain h.sound (pairwise_unlink hinc) ?_, ?_⟩, ?_⟩
    · intro e he
      apply hkeys
      rcases List.mem_append.mp he with he | he
      · exact List.mem_append_left _ he
      · exact List.mem_append_right below (List.mem_cons_of_mem entry he)
    · rw [heq] at hlength
      simp only [List.length_append, List.length_cons] at hlength
      have hstored : ht.stored = (ht.withChain key (below ++ above) (ht.count - 1)).stored + 1 := by
        omega
      have hcount := h.count_eq
      rw [hstored, BitVec.ofNat_add] at hcount
      change ht.count - 1 = _
      rw [hcount]
      exact BitVec.add_sub_cancel _ _
    · rw [RemovesKey, hmap]
      refine ⟨rfl, map_withChain ?_⟩
      rw [heq, lookup_unlink hinc, hkey]

end Calls

/-! ### Creation -/

/-- The heads that the loop has passed are empty. -/
theorem initLoop_inside (n i : Nat) (t : Table) (h : 8 * (i + n) ≤ t.bytes) :
    ∃ t', initLoop n i t = some t' ∧ t'.bytes = t.bytes ∧ (∀ j < i, t'.heads j = t.heads j) ∧
      ∀ j, i ≤ j → j < i + n → t'.heads j = [] := by
  induction n generalizing i t with
  | zero =>
    refine ⟨t, rfl, rfl, fun _ _ => rfl, ?_⟩
    intro j hij hj
    omega
  | succ n ih =>
    have hset : t.set i [] = some { t with heads := Function.update t.heads i [] } :=
      if_pos (by omega)
    have hnext : 8 * (i + 1 + n) ≤ t.bytes := by omega
    obtain ⟨t', hrun, hbytes, hbefore, hempty⟩ :=
      ih (i + 1) { t with heads := Function.update t.heads i [] } hnext
    rw [initLoop, hset, Option.bind_some]
    refine ⟨t', hrun, hbytes, ?_, ?_⟩
    · intro j hj
      rw [hbefore j (by omega)]
      exact Function.update_of_ne (Nat.ne_of_lt hj) _ _
    · intro j hij hj
      by_cases heq : j = i
      · subst heq
        rw [hbefore j (Nat.lt_succ_self j)]
        exact Function.update_self _ _ _
      · exact hempty j (by omega) (by omega)

/-- The loop leaves a block that is too small. -/
theorem initLoop_outside (n i : Nat) (t : Table) (h : t.bytes < 8 * (i + (n + 1))) :
    initLoop (n + 1) i t = none := by
  induction n generalizing i t with
  | zero =>
    have hset : t.set i [] = none := if_neg (Nat.not_le.mpr h)
    rw [initLoop, hset]
    rfl
  | succ n ih =>
    have hnext : t.bytes < 8 * (i + 1 + (n + 1)) := by omega
    rw [initLoop, Table.set]
    split
    · exact ih (i + 1) _ hnext
    · rfl

/-- The bytes of a table. -/
def tableSize (order : BitVec 32) : BitVec 64 := (shiftOne order.toNat).setWidth 64 * 8

section Create

variable {order : BitVec 32} (h31 : order.toNat ≤ 31)

include h31

theorem toNat_size : (shiftOne order.toNat).toNat = 2 ^ order.toNat := toNat_shiftOne (by omega)

theorem toNat_tableSize : (tableSize order).toNat = 8 * 2 ^ order.toNat := by
  have hpow : 2 ^ order.toNat ≤ 2 ^ 31 := Nat.pow_le_pow_right (by decide) h31
  have hsize := toNat_size h31
  have height : (8 : BitVec 64).toNat = 8 := rfl
  rw [tableSize, BitVec.toNat_mul, BitVec.toNat_setWidth, hsize, height]
  omega

theorem tableSize_ne_zero : tableSize order ≠ 0 := by
  intro hzero
  have hsize := toNat_tableSize h31
  have hpos : 0 < 2 ^ order.toNat := Nat.two_pow_pos _
  rw [hzero] at hsize
  change 0 = 8 * 2 ^ order.toNat at hsize
  omega

/-- From order 29 on the heap is asked for 2^31 bytes. -/
theorem heapSize_tableSize (h29 : 29 ≤ order.toNat) :
    heapSize (tableSize order) = 0x80000000 := by
  have hpow : 8 * 2 ^ order.toNat = 2 ^ 32 * 2 ^ (order.toNat - 29) := by
    have hsplit : 2 ^ order.toNat = 2 ^ 29 * 2 ^ (order.toNat - 29) := by
      rw [← Nat.pow_add, Nat.add_sub_cancel' h29]
    omega
  have hle : 2 ^ (order.toNat - 29) ≤ 2 ^ 2 := Nat.pow_le_pow_right (by decide) (by omega)
  have hsize := toNat_tableSize h31
  apply heapSize_of_low_zero
  · apply BitVec.eq_of_toNat_eq
    rw [BitVec.toNat_setWidth, hsize, hpow, Nat.mul_mod_right]
    rfl
  · omega

theorem fits_iff : 8 * 2 ^ order.toNat ≤ (heapSize (tableSize order)).toNat
    ↔ order.toNat ≤ 28 := by
  rw [← toNat_tableSize h31, le_heapSize_iff (tableSize_ne_zero h31), toNat_tableSize h31]
  constructor
  · intro hle
    by_contra hmore
    have hpow : 2 ^ 29 ≤ 2 ^ order.toNat := Nat.pow_le_pow_right (by decide) (by omega)
    omega
  · intro hle
    have hpow : 2 ^ order.toNat ≤ 2 ^ 28 := Nat.pow_le_pow_right (by decide) hle
    omega

theorem create_eq (heap : BitVec 32 → Bool) (garbage : Nat → List Item) :
    create heap garbage order
      = if heap (heapSize (tableSize order)) then
          (initLoop (2 ^ order.toNat) 0 ⟨(heapSize (tableSize order)).toNat, garbage⟩).map
            fun table => (0, some ⟨shiftOne order.toNat, 0, order, table⟩)
        else some (-enomem, none) := by
  have hkmalloc : kmalloc (blockOf heap) ((shiftOne order.toNat).setWidth 64 * 8)
      = if heap (heapSize (tableSize order)) then some (heapSize (tableSize order)).toNat
        else none := if_neg (tableSize_ne_zero h31)
  unfold create
  dsimp only
  by_cases hheap : heap (heapSize (tableSize order)) = true
  · rw [if_pos hheap] at hkmalloc ⊢
    rw [hkmalloc, toNat_size h31]
    exact Option.map_eq_bind.symm
  · rw [if_neg hheap] at hkmalloc ⊢
    rw [hkmalloc]

section Granted

variable {heap : BitVec 32 → Bool} {garbage : Nat → List Item}
    (hheap : heap (heapSize (tableSize order)) = true)

include hheap

theorem create_inside (h28 : order.toNat ≤ 28) :
    ∃ t, create heap garbage order = some (0, some ⟨shiftOne order.toNat, 0, order, t⟩) ∧
      8 * 2 ^ order.toNat ≤ t.bytes ∧ ∀ i < 2 ^ order.toNat, t.heads i = [] := by
  have hfits := (fits_iff h31).mpr h28
  obtain ⟨t, hrun, hbytes, -, hempty⟩ := initLoop_inside (2 ^ order.toNat) 0
    ⟨(heapSize (tableSize order)).toNat, garbage⟩ (by simpa using hfits)
  rw [create_eq h31, if_pos hheap, hrun]
  refine ⟨t, rfl, hbytes ▸ hfits, ?_⟩
  intro i hi
  exact hempty i (Nat.zero_le i) (by omega)

theorem create_outside (h29 : 29 ≤ order.toNat) : create heap garbage order = none := by
  have hfits : ¬8 * 2 ^ order.toNat ≤ (heapSize (tableSize order)).toNat := fun hle =>
    absurd ((fits_iff h31).mp hle) (by omega)
  have hpos : 2 ^ order.toNat = (2 ^ order.toNat - 1) + 1 := by
    have := Nat.two_pow_pos order.toNat
    omega
  rw [create_eq h31, if_pos hheap, hpos, initLoop_outside]
  · rfl
  · change (heapSize (tableSize order)).toNat < 8 * (0 + (2 ^ order.toNat - 1 + 1))
    omega

end Granted

/-- From order 29 on a table that is made is larger than its block. -/
theorem create_overruns_iff (heap : BitVec 32 → Bool) (garbage : Nat → List Item) :
    create heap garbage order = none ↔ 29 ≤ order.toNat ∧ heap 0x80000000 = true := by
  by_cases hheap : heap (heapSize (tableSize order)) = true
  · by_cases h28 : order.toNat ≤ 28
    · obtain ⟨t, hcreate, -⟩ := @create_inside order h31 heap garbage hheap h28
      rw [hcreate]
      exact iff_of_false nofun fun h => absurd h.1 (by omega)
    · have h29 : 29 ≤ order.toNat := by omega
      rw [heapSize_tableSize h31 h29] at hheap
      refine iff_of_true (create_outside h31 ?_ h29) ⟨h29, hheap⟩
      rwa [heapSize_tableSize h31 h29]
  · rw [create_eq h31, if_neg hheap]
    refine iff_of_false nofun ?_
    rintro ⟨h29, hgranted⟩
    rw [heapSize_tableSize h31 h29] at hheap
    exact hheap hgranted

/-- A table that was made is empty. -/
theorem inv_of_create (h1 : 1 ≤ order.toNat) {heap : BitVec 32 → Bool}
    {garbage : Nat → List Item} {ht : Hashtab}
    (h : create heap garbage order = some (0, some ht)) : Inv ht ∧ ∀ key, ht.map key = none := by
  have hheap : heap (heapSize (tableSize order)) = true := by
    by_contra hnot
    rw [create_eq h31, if_neg hnot] at h
    exact absurd h (by simp [enomem])
  have h28 : order.toNat ≤ 28 := by
    by_contra hmore
    rw [create_outside h31 hheap (by omega)] at h
    exact absurd h nofun
  obtain ⟨t, hcreate, hbytes, hchains⟩ := @create_inside order h31 heap garbage hheap h28
  rw [hcreate] at h
  obtain rfl := Option.some.inj (Prod.mk.inj (Option.some.inj h)).2
  have hsize := toNat_size h31
  have hplaced : Placed ⟨shiftOne order.toNat, 0, order, t⟩ := by
    refine ⟨h1, h31, hsize, ?_⟩
    change 8 * (shiftOne order.toNat).toNat ≤ t.bytes
    rwa [hsize]
  rw [← hsize] at hchains
  refine ⟨⟨hplaced, ?_, ?_⟩, ?_⟩
  · intro i hi
    rw [hchains i hi]
    exact ⟨List.Pairwise.nil, nofun⟩
  · have hnone : Hashtab.stored ⟨shiftOne order.toNat, 0, order, t⟩ = 0 := by
      apply Finset.sum_eq_zero
      intro i hi
      rw [hchains i (Finset.mem_range.mp hi)]
      rfl
    rw [hnone]
    rfl
  · intro key
    rw [Hashtab.map, hchains _ (hplaced.hashed_lt key)]
    rfl

end Create

/-! ### The table -/

theorem exec_spec {ht : Hashtab} (h : Inv ht) (call : Call) :
    ∃ reply ht', exec call ht = some (reply, ht') ∧ Inv ht' ∧ Refines ht call reply ht' := by
  cases call with
  | insert item => exact insertItem_spec h item
  | removeKey key wanted => exact removeKey_spec h key wanted
  | removeItem item => exact removeKey_spec h item.key false
  | find key => exact findItem_spec h key

theorem step_inv {ht ht' : Hashtab} {call : Call} (h : Inv ht) (hstep : step call ht = some ht') :
    Inv ht' := by
  obtain ⟨reply, next, hexec, hinv, -⟩ := exec_spec h call
  unfold step at hstep
  split at hstep
  · rw [hexec] at hstep
    obtain rfl := Option.some.inj hstep
    exact hinv
  · exact absurd hstep nofun

/-- **The hash table is a finite map,** from its creation on, if it is created inside its block;
    and it counts its items as long as there are fewer than 2^32. -/
theorem hashtab_refines_map (heap : BitVec 32 → Bool) (garbage : Nat → List Item)
    (order : BitVec 32) (h1 : 1 ≤ order.toNat) (h31 : order.toNat ≤ 31) :
    (create heap garbage order = none ↔ 29 ≤ order.toNat ∧ heap 0x80000000 = true) ∧
    ∀ ht₀, create heap garbage order = some (0, some ht₀) →
      (∀ key, ht₀.map key = none) ∧ ∀ ht, Reachable step ht₀ ht →
        Sound ht ∧ (ht.count.toNat = ht.stored ↔ ht.stored < 2 ^ 32) ∧
        ∀ call, call.Proper ht →
          ∃ reply ht', exec call ht = some (reply, ht') ∧ Refines ht call reply ht' := by
  refine ⟨create_overruns_iff h31 heap garbage, ?_⟩
  intro ht₀ hcreate
  obtain ⟨hinit, hempty⟩ := inv_of_create h31 h1 hcreate
  refine ⟨hempty, ?_⟩
  intro ht hreach
  have hinv : Inv ht := hreach.invariant Inv hinit fun _ _ _ hs _ hstep => step_inv hs hstep
  refine ⟨hinv.sound, ?_, ?_⟩
  · rw [hinv.count_eq, BitVec.toNat_ofNat]
    constructor
    · intro hcount
      rw [← hcount]
      exact Nat.mod_lt _ (Nat.two_pow_pos 32)
    · intro hfew
      exact Nat.mod_eq_of_lt hfew
  · intro call _
    obtain ⟨reply, ht', hexec, -, hrefines⟩ := exec_spec hinv call
    exact ⟨reply, ht', hexec, hrefines⟩

/-- A table of four chains: two items come into one of them, the second before the first, and
    the first is taken out again. -/
theorem hashtab_refines_map_chain :
    ∃ ht₀ ht, create (fun _ => true) (fun _ => []) 2 = some (0, some ht₀) ∧
      (∀ key, ht₀.map key = none) ∧ Reachable step ht₀ ht ∧
      ht.table.get 1 = some [⟨2, 4⟩, ⟨1, 7⟩] ∧ Sound ht ∧ ht.count.toNat = ht.stored ∧
      ∃ reply ht', exec (.removeKey 7 true) ht = some (reply, ht') ∧
        reply = { status := 0, item := some ⟨1, 7⟩ } ∧ ht'.map = Function.update ht.map 7 none := by
  obtain ⟨⟨status, made⟩, hcreate, hrest⟩ := Option.bind_eq_some_iff.mp
    (show ((create (fun _ => true) (fun _ => []) 2).bind fun made => made.2.bind fun ht₀ =>
        (runIf step (fun _ _ => true) [.insert ⟨1, 7⟩, .insert ⟨2, 4⟩] ht₀).map fun ht =>
          (made.1, ht.table.get 1, ht.map 7, ht.stored)) =
      some (0, some [⟨2, 4⟩, ⟨1, 7⟩], some ⟨1, 7⟩, 2) by decide)
  obtain ⟨ht₀, rfl, hrest⟩ := Option.bind_eq_some_iff.mp hrest
  obtain ⟨ht, hrun, ho⟩ := Option.map_eq_some_iff.mp hrest
  simp only [Prod.mk.injEq] at ho
  obtain ⟨rfl, hchain, hitem, htwo⟩ := ho
  obtain ⟨hempty, hruns⟩ := (hashtab_refines_map (fun _ => true) (fun _ => []) 2 (by decide)
    (by decide)).2 ht₀ hcreate
  have hreach : Reachable step ht₀ ht := (Reach.trans_runIf .init hrun).reachable
  obtain ⟨hsound, hstored, hcalls⟩ := hruns ht hreach
  obtain ⟨reply, ht', hexec, hrefines⟩ := hcalls (.removeKey 7 true) trivial
  simp only [Refines, RemovesKey, hitem, if_true] at hrefines
  exact ⟨ht₀, ht, hcreate, hempty, hreach, hchain, hsound,
    hstored.mpr (by rw [htwo]; decide), reply, ht', hexec, hrefines⟩

/-- With order 29 the table takes 2^32 bytes, and the heap is asked for half of them. -/
theorem create_overruns_block :
    kmalloc (blockOf fun _ => true) (tableSize 29) = some (2 ^ 31) ∧ (tableSize 29).toNat = 2 ^ 32 ∧
      ¬∃ status ht, create (fun _ => true) (fun _ => []) 29 = some (status, ht) := by
  refine ⟨by decide, by decide, ?_⟩
  rintro ⟨status, ht, hcreate⟩
  have hnone := (@create_overruns_iff 29 (by decide) (fun _ => true) (fun _ => [])).mpr
    ⟨by decide, rfl⟩
  rw [hnone] at hcreate
  exact absurd hcreate nofun

end VmkLinux.Stubs.HashChains
