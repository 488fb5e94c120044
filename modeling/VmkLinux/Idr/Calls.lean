/-
  VmkLinux/Idr/Calls.lean
  =======================
  **Calls on an `idr`, one after the other.**

  `Reach` goes through all orders of calls and keeps the table that their results imply, and
  an account of the layers that came from the slab cache and of those that went back.
  Whatever they were, the next call answers from that table (`idr_is_table`), as long as
  `idr_pre_get` comes first it finds the layers that it needs, and what came from the cache
  and did not go back is in the tree or on the free list (`idr_pre_get_suffices`).
  Only identifiers that have been given out are removed: `idr_remove` does not look at the
  digits of an identifier above the top of the tree.  `idr_get_new_above` with a start above
  0 is not among the calls.
-/
import VmkLinux.Idr.Table

namespace VmkLinux.Idr

/-- Some identifier is free.  The source has no answer for a tree without any. -/
def Table.Room (m : Table) : Prop := ∃ j < 64 ^ 5, m j = none

def Table.put (m : Table) (id : Nat) (ptr : Option Nat) : Table :=
  fun j => if j = id then ptr else m j

/-- How many layers have come from the slab cache, and how many have gone back. -/
structure Account where
  obtained : Nat
  returned : Nat

namespace Account

def get (l : Account) (count : Nat) : Account := { l with obtained := l.obtained + count }

def giveBack (l : Account) (count : Nat) : Account := { l with returned := l.returned + count }

end Account

/-- The calls of `kmem_cache_alloc` by `idr_pre_get` that return a layer. -/
def newLayers (idp : Handle) (memory : Nat) : Nat := min (idrFreeMax - idp.idFree.length) memory

/-- What calls lead to, with the account of the layers and the table that their results imply;
    `false` stands for that a call of `idr_get_new` has failed. -/
inductive Reach (fuel : Nat) : Bool → Account → Handle → Table → Prop
  | init : Reach fuel true ⟨0, 0⟩ idrInit fun _ => none
  | preGet {d : Bool} {l : Account} {h : Handle} {m : Table} (memory : Nat) :
      Reach fuel d l h m → Reach fuel d (l.get (newLayers h memory)) (idrPreGet h memory).1 m
  | getNew {d : Bool} {l : Account} {h h' : Handle} {m : Table} {ptr id : Nat} :
      Reach fuel d l h m → m.Room → idrGetNew fuel h ptr = some (h', .ok id) →
      Reach fuel d l h' (m.put id (some ptr))
  | getNewFailed {d : Bool} {l : Account} {h h' : Handle} {m : Table} {ptr : Nat} {e : Int} :
      Reach fuel d l h m → m.Room → idrGetNew fuel h ptr = some (h', .error e) →
      Reach fuel false l h' m
  | remove {d : Bool} {l : Account} {h h' : Handle} {m : Table} {id : Nat}
        {freed : Option IdrLayer} :
      Reach fuel d l h m → m id ≠ none → idrRemove h id = some (h', freed) →
      Reach fuel d (l.giveBack freed.toList.length) h' (m.put id none)
  | replace {d : Bool} {l : Account} {h h' : Handle} {m : Table} {ptr id old : Nat} :
      Reach fuel d l h m → id < maxIdBit → idrReplace h ptr id = some (h', .ok old) →
      Reach fuel d l h' (m.put id (some ptr))
  | replaceFailed {d : Bool} {l : Account} {h h' : Handle} {m : Table} {ptr id : Nat} {e : Int} :
      Reach fuel d l h m → id < maxIdBit → idrReplace h ptr id = some (h', .error e) →
      Reach fuel d l h' m
  | destroy {d : Bool} {l : Account} {h : Handle} {m : Table} :
      Reach fuel d l h m →
      Reach fuel d (l.giveBack (idrDestroy h).2.length) (idrDestroy h).1 m

section Calls

variable {d : Bool} {l : Account} {fuel : Nat} {h : Handle} {m : Table}

theorem preGetLoop_spec (missing memory : Nat) {free : List IdrLayer}
    (hfree : ∀ q ∈ free, Zeroed q) :
    (∀ q ∈ (preGetLoop missing memory free).1, Zeroed q) ∧
      (preGetLoop missing memory free).1.length = free.length + min missing memory ∧
      ((preGetLoop missing memory free).2 = true → missing ≤ memory) := by
  induction missing generalizing memory free with
  | zero => exact ⟨hfree, by rw [Nat.zero_min]; rfl, fun _ => Nat.zero_le _⟩
  | succ missing ih =>
    cases memory with
    | zero => exact ⟨hfree, rfl, fun hf => by cases hf⟩
    | succ memory =>
      have hblank : Zeroed blank := Layer.set_of_eq _ rfl
      obtain ⟨hzeroed, hlen, hok⟩ := @ih memory (blank :: free)
        (List.forall_mem_cons.mpr ⟨hblank, hfree⟩)
      refine ⟨hzeroed, ?_, fun hret => Nat.succ_le_succ (hok hret)⟩
      rw [List.length_cons] at hlen
      show (preGetLoop missing memory (blank :: free)).1.length = _
      omega

theorem lt_of_lookup_ne_none {id : Nat} (hid : lookup h id ≠ none) : id < 64 ^ h.layers := by
  by_contra hge
  exact hid (if_neg hge)

/-- One call keeps `Inv`, its result tells what becomes of the table, and a layer that came
    from the cache has gone back or is held. -/
theorem Reach.sound (hreach : Reach fuel d l h m) (hfuel : 6 ≤ fuel) :
    Inv d h ∧ lookup h = m ∧ h.held + l.returned = l.obtained := by
  induction hreach with
  | init =>
    refine ⟨inv_idrInit, funext (lookup_null []), ?_⟩
    rw [Handle.held, idrInit, size_null]
    rfl
  | @preGet d l h m memory _ ih =>
    obtain ⟨hinv, hlookup, hheld⟩ := ih
    obtain ⟨hfree, hlen, -⟩ := preGetLoop_spec (idrFreeMax - h.idFree.length) memory hinv.free
    refine ⟨⟨hfree, hinv.top⟩, hlookup, ?_⟩
    show h.top.size + (preGetLoop _ memory h.idFree).1.length + l.returned =
      l.obtained + min (idrFreeMax - h.idFree.length) memory
    rw [Handle.held] at hheld
    omega
  | @getNew d l h h' m ptr id _ hroom hcall ih =>
    obtain ⟨hinv, rfl, hheld⟩ := ih
    obtain ⟨h₁, r, hrun, hsize, hgets⟩ := exists_idrGetNew hinv ptr hroom hfuel
    obtain ⟨rfl, rfl⟩ := Prod.mk.inj (Option.some.inj (hrun.symm.trans hcall))
    rcases hgets with ⟨hr, -⟩ | ⟨id', hr, hinv', hgives⟩
    · cases hr
    · cases hr
      exact ⟨hinv', funext hgives.after, hsize ▸ hheld⟩
  | @getNewFailed d l h h' m ptr e _ hroom hcall ih =>
    obtain ⟨hinv, rfl, hheld⟩ := ih
    obtain ⟨h₁, r, hrun, hsize, hgets⟩ := exists_idrGetNew hinv ptr hroom hfuel
    obtain ⟨rfl, rfl⟩ := Prod.mk.inj (Option.some.inj (hrun.symm.trans hcall))
    rcases hgets with ⟨-, hinv', hlookup, -⟩ | ⟨id', hr, -⟩
    · exact ⟨hinv', hlookup, hsize ▸ hheld⟩
    · cases hr
  | @remove d l h h' m id freed _ hid hcall ih =>
    obtain ⟨hinv, rfl, hheld⟩ := ih
    obtain ⟨h₁, freed₁, hrun, hinv', hlookup, hsize, -⟩ :=
      exists_idrRemove hinv (lt_of_lookup_ne_none hid)
    obtain ⟨rfl, rfl⟩ := Prod.mk.inj (Option.some.inj (hrun.symm.trans hcall))
    refine ⟨hinv', funext hlookup, ?_⟩
    show _ + (l.returned + _) = l.obtained
    omega
  | @replace d l h h' m ptr id old _ hid hcall ih =>
    obtain ⟨hinv, rfl, hheld⟩ := ih
    obtain ⟨h₁, r, hrun, hinv', hsize, hafter⟩ := exists_idrReplace hinv ptr hid
    obtain ⟨rfl, rfl⟩ := Prod.mk.inj (Option.some.inj (hrun.symm.trans hcall))
    refine ⟨hinv', ?_, hsize ▸ hheld⟩
    cases hlookup : lookup h id with
    | some old =>
      rw [hlookup] at hafter
      exact funext hafter.2
    | none =>
      rw [hlookup] at hafter
      rcases hafter.1 with hr | hr <;> cases hr
  | @replaceFailed d l h h' m ptr id e _ hid hcall ih =>
    obtain ⟨hinv, rfl, hheld⟩ := ih
    obtain ⟨h₁, r, hrun, hinv', hsize, hafter⟩ := exists_idrReplace hinv ptr hid
    obtain ⟨rfl, rfl⟩ := Prod.mk.inj (Option.some.inj (hrun.symm.trans hcall))
    refine ⟨hinv', ?_, hsize ▸ hheld⟩
    cases hlookup : lookup h id with
    | some old =>
      rw [hlookup] at hafter
      cases hafter.1
    | none =>
      rw [hlookup] at hafter
      rw [hafter.2]
  | @destroy d l h m _ ih =>
    obtain ⟨hinv, hlookup, hheld⟩ := ih
    refine ⟨⟨fun q hq => (by cases hq), hinv.top⟩, hlookup, ?_⟩
    show h.top.size + 0 + (l.returned + (h.idFree.map fun p => p.set 0 null).length) = l.obtained
    rw [Handle.held] at hheld
    rw [List.length_map]
    omega

/-- **An `idr` is a table.**  After any calls, and as long as some identifier is free:
    `idr_find` returns the pointer in the table that their results imply, or `NULL`;
    `idr_get_new` gives out the least free identifier, or returns `-EAGAIN` with fewer than
    six free layers; `idr_remove` and `idr_replace` succeed on the identifiers in the table,
    and layers go back to the cache as its constructor makes them. -/
theorem idr_is_table (hfuel : 6 ≤ fuel) (hreach : Reach fuel d l h m) :
    (∀ id < maxIdBit, idrFind h id = some ((m id).getD 0)) ∧
      (m.Room → ∀ ptr, ∃ h' r, idrGetNew fuel h ptr = some (h', r) ∧
        ((r = .error (-eagain) ∧ h.idFree.length < 6) ∨
          ∃ id, r = .ok id ∧ id < 64 ^ 5 ∧ m id = none ∧ ∀ j < id, m j ≠ none)) ∧
      (∀ id, m id ≠ none → ∃ h' freed, idrRemove h id = some (h', freed) ∧
        ∀ q, freed = some q → q = blank) ∧
      ∀ id < maxIdBit, ∀ ptr, ∃ h' r, idrReplace h ptr id = some (h', r) ∧
        match m id with
        | some old => r = .ok old
        | none => r = .error (-enoent) ∨ r = .error (-einval) := by
  obtain ⟨hinv, rfl, -⟩ := hreach.sound hfuel
  refine ⟨fun id hid => ?_, fun hroom ptr => ?_, fun id hid => ?_, fun id hid ptr => ?_⟩
  · rw [idrFind_eq hinv, Nat.mod_eq_of_lt hid]
  · obtain ⟨h', r, hrun, -, hgets⟩ := exists_idrGetNew hinv ptr hroom hfuel
    refine ⟨h', r, hrun, ?_⟩
    rcases hgets with ⟨hr, -, -, hlen⟩ | ⟨id, hr, -, hgives⟩
    · exact .inl ⟨hr, hlen⟩
    · exact .inr ⟨id, hr, hgives.lt, hgives.fresh, hgives.least⟩
  · obtain ⟨h', freed, hrun, -, -, -, hfreed⟩ := exists_idrRemove hinv (lt_of_lookup_ne_none hid)
    exact ⟨h', freed, hrun, hfreed⟩
  · obtain ⟨h', r, hrun, -, -, hafter⟩ := exists_idrReplace hinv ptr hid
    refine ⟨h', r, hrun, ?_⟩
    cases hlookup : lookup h id with
    | some old =>
      rw [hlookup] at hafter
      exact hafter.1
    | none =>
      rw [hlookup] at hafter
      exact hafter.1

end Calls

/-- Where a call has left an `idr`. -/
def handle {α : Type} (r : Option (Handle × α)) : Handle := (r.map Prod.fst).getD idrInit

theorem eq_of_issued {r : Option (Handle × Except Int Nat)} {id : Nat}
    (h : (r.bind fun r => r.2.toOption) = some id) : r = some (handle r, .ok id) := by
  obtain ⟨⟨h', e⟩, rfl, he⟩ := Option.bind_eq_some_iff.mp h
  cases e with
  | error e => cases he
  | ok id' =>
    cases he
    rfl

theorem eq_of_kept {r : Option (Handle × Option IdrLayer)} (h : r.isSome = true)
    (hnone : (r.bind Prod.snd).isNone = true) : r = some (handle r, none) := by
  obtain ⟨⟨h', freed⟩, rfl⟩ := Option.isSome_iff_exists.mp h
  cases freed with
  | none => rfl
  | some q => cases hnone

theorem eq_of_freed {r : Option (Handle × Option IdrLayer)}
    (h : (r.bind Prod.snd).isSome = true) : ∃ q, r = some (handle r, some q) := by
  obtain ⟨q, hq⟩ := Option.isSome_iff_exists.mp h
  obtain ⟨⟨h', freed⟩, rfl, rfl⟩ := Option.bind_eq_some_iff.mp hq
  exact ⟨q, rfl⟩

/-- Two identifiers are given out, and the first of them is removed. -/
def reserved : Handle := (idrPreGet idrInit 12).1

def oneGiven : Handle := handle (idrGetNew 6 reserved 5)

def twoGiven : Handle := handle (idrGetNew 6 oneGiven 7)

def oneLeft : Handle := handle (idrRemove twoGiven 0)

def oneLeftTable : Table := ((Table.put (fun _ => none) 0 (some 5)).put 1 (some 7)).put 0 none

theorem reach_oneLeft : Reach 6 true ⟨12, 0⟩ oneLeft oneLeftTable := by
  have hroom : ∀ m : Table, m 2 = none → m.Room := fun m hm => ⟨2, by decide, hm⟩
  have hone : idrGetNew 6 reserved 5 = some (oneGiven, .ok 0) := eq_of_issued (by decide +kernel)
  have htwo : idrGetNew 6 oneGiven 7 = some (twoGiven, .ok 1) := eq_of_issued (by decide +kernel)
  have hremove : idrRemove twoGiven 0 = some (oneLeft, none) :=
    eq_of_kept (by decide +kernel) (by decide +kernel)
  have hreserved : Reach 6 true ⟨12, 0⟩ reserved fun _ => none := Reach.init.preGet 12
  exact ((hreserved.getNew (hroom _ rfl) hone).getNew (hroom _ rfl) htwo).remove (by decide) hremove

theorem idr_is_table_reused :
    idrFind oneLeft 0 = some 0 ∧ idrFind oneLeft 1 = some 7 ∧
      ∃ h' r, idrGetNew 6 oneLeft 9 = some (h', r) ∧
        ((r = .error (-eagain) ∧ oneLeft.idFree.length < 6) ∨
          ∃ id, r = .ok id ∧ id < 64 ^ 5 ∧ oneLeftTable id = none ∧
            ∀ j < id, oneLeftTable j ≠ none) := by
  obtain ⟨hfind, hget, -, -⟩ := idr_is_table (Nat.le_refl 6) reach_oneLeft
  exact ⟨hfind 0 (by decide), hfind 1 (by decide), hget ⟨0, by decide, rfl⟩ 9⟩

/-- 65 has never been given out: its last digit is that of 1, which is removed. -/
example : idrFind (handle (idrRemove oneLeft 65)) 1 = some 0 := by decide +kernel

section Layers

variable {d : Bool} {l : Account} {fuel : Nat} {h : Handle} {m : Table}

/-! ### Layers -/

theorem content_congr {n i j : Nat} {p : IdrLayer}
    (hsame : j % 64 ^ (n + 1) = i % 64 ^ (n + 1)) : p.content n j = p.content n i := by
  induction n generalizing p with
  | zero =>
    unfold Layer.content
    rw [(same_place_iff.mp hsame).2]
    cases p.ary (digit i 0) <;> rfl
  | succ n ih =>
    obtain ⟨hlow, hdigit⟩ := same_place_iff.mp hsame
    unfold Layer.content
    rw [hdigit]
    cases p.ary (digit i (n + 1)) with
    | user ptr => rfl
    | layer c => exact ih hlow

theorem Good.exists_used {n : Nat} {p : IdrLayer} (h : Good d n p) (hcount : p.count ≠ 0) :
    ∃ i, used n p i = true := by
  by_contra hnone
  have hempty : entries (used n p) = 0 := Finset.card_eq_zero.mpr
    (Finset.filter_eq_empty_iff.mpr fun i _ hi => hnone ⟨i, hi⟩)
  have hp := h.2
  rw [hempty] at hp
  exact hcount hp

/-- Where no layer is without an entry, every layer has an identifier. -/
theorem Good.exists_content {n : Nat} {p : IdrLayer} (h : Good true n p) (hcount : p.count ≠ 0) :
    ∃ j < 64 ^ (n + 1), p.content n j ≠ none := by
  induction n generalizing p with
  | zero =>
    obtain ⟨i, hi⟩ := h.exists_used hcount
    have hdigit : digit i.val 0 = i := Fin.ext (by
      rw [val_digit, Nat.pow_zero, Nat.div_one, Nat.mod_eq_of_lt i.isLt])
    refine ⟨i.val, i.isLt, h.content_of_bit ?_⟩
    rw [hdigit]
    exact hi
  | succ n ih =>
    obtain ⟨i, hi⟩ := h.exists_used hcount
    rcases h.1 i with ⟨hnull, -⟩ | ⟨c, hc, hgood, -, hccount⟩
    · rw [used_of_null hnull] at hi
      cases hi
    · obtain ⟨j, hj, hcontent⟩ := ih hgood (hccount rfl)
      have hpos : 0 < 64 ^ (n + 1) := Nat.pow_pos (by omega)
      have hdigit : digit (j + 64 ^ (n + 1) * i.val) (n + 1) = i := Fin.ext (by
        rw [val_digit, Nat.add_mul_div_left _ _ hpos, Nat.div_eq_of_lt hj, Nat.zero_add,
          Nat.mod_eq_of_lt i.isLt])
      refine ⟨j + 64 ^ (n + 1) * i.val, ?_, ?_⟩
      · rw [Nat.pow_succ 64 (n + 1)]
        calc j + 64 ^ (n + 1) * i.val < 64 ^ (n + 1) + 64 ^ (n + 1) * i.val :=
              Nat.add_lt_add_right hj _
          _ = 64 ^ (n + 1) * (i.val + 1) := by rw [Nat.mul_succ, Nat.add_comm]
          _ ≤ 64 ^ (n + 1) * 64 := Nat.mul_le_mul_left _ i.isLt
      · unfold Layer.content
        rw [hdigit, hc]
        show c.content n _ ≠ none
        rw [content_congr (i := j) (Nat.add_mul_mod_self_left _ _ _)]
        exact hcontent

/-- **`idr_pre_get` suffices.**  After any calls, one of `idr_get_new` that follows a successful
    one of `idr_pre_get` gets an identifier; and the layers that came from the cache are in the
    tree, on the free list, or have gone back.  As long as no call of `idr_get_new` has failed,
    an `idr` whose identifiers have all been removed has no tree, and `idr_destroy` gives
    back all of them that have not gone back yet, as the constructor of the cache makes them. -/
theorem idr_pre_get_suffices (hfuel : 6 ≤ fuel) (hreach : Reach fuel d l h m) :
    (∀ memory h₁, idrPreGet h memory = (h₁, true) → m.Room → ∀ ptr, ∃ h' id,
        idrGetNew fuel h₁ ptr = some (h', .ok id)) ∧
      h.top.size + h.idFree.length + l.returned = l.obtained ∧
      (d = true → (∀ id, m id = none) →
        (idrDestroy h).1 = idrInit ∧ (idrDestroy h).2.length + l.returned = l.obtained ∧
          ∀ q ∈ (idrDestroy h).2, q = blank) := by
  refine ⟨fun memory h₁ hpre hroom ptr => ?_, (hreach.sound hfuel).2.2, fun hd hempty => ?_⟩
  · have hreach₁ : Reach fuel d (l.get (newLayers h memory)) h₁ m := by
      have hpreget := hreach.preGet memory
      rw [hpre] at hpreget
      exact hpreget
    obtain ⟨hinv₁, rfl, -⟩ := hreach₁.sound hfuel
    obtain ⟨h', r, hrun, -, hgets⟩ := exists_idrGetNew hinv₁ ptr hroom hfuel
    rcases hgets with ⟨-, -, -, hlen⟩ | ⟨id, rfl, -⟩
    · obtain ⟨-, hlen', hok⟩ := preGetLoop_spec (idrFreeMax - h.idFree.length) memory
        (hreach.sound hfuel).1.free
      have hmemory := hok (congrArg Prod.snd hpre)
      have hfree : (preGetLoop (idrFreeMax - h.idFree.length) memory h.idFree).1 = h₁.idFree :=
        congrArg (fun r => r.1.idFree) hpre
      have hmax : idrFreeMax = 12 := rfl
      rw [hfree] at hlen'
      omega
    · exact ⟨h', id, hrun⟩
  · subst hd
    obtain ⟨hinv, rfl, hheld⟩ := hreach.sound hfuel
    obtain ⟨top, idFree, layers⟩ := h
    rcases hinv.top with ⟨hlayers, htop⟩ | ⟨n, p, hlayers, -, htop, hgood, hcount⟩
    · obtain rfl := hlayers
      obtain rfl := htop
      rw [Handle.held, size_null, Nat.zero_add] at hheld
      refine ⟨rfl, ?_, fun q hq => ?_⟩
      · show (idFree.map fun p => p.set 0 null).length + l.returned = l.obtained
        rw [List.length_map]
        exact hheld
      · obtain ⟨q', hq', rfl⟩ := List.mem_map.mp hq
        exact hinv.free q' hq'
    · obtain rfl := hlayers
      obtain rfl := htop
      obtain ⟨j, hj, hcontent⟩ := hgood.exists_content (hcount rfl)
      have hlookup : lookup ⟨.layer p, idFree, n + 1⟩ j = p.content n j := if_pos hj
      exact absurd (hlookup.symm.trans (hempty j)) hcontent

end Layers

def noneLeft : Handle := handle (idrRemove oneLeft 1)

theorem idr_pre_get_suffices_removed :
    (∃ h' id, idrGetNew 6 reserved 5 = some (h', .ok id)) ∧
      oneLeft.top.size + oneLeft.idFree.length = 12 ∧ (idrDestroy noneLeft).1 = idrInit ∧
      (idrDestroy noneLeft).2.length = 11 ∧ ∀ q ∈ (idrDestroy noneLeft).2, q = blank := by
  obtain ⟨q, hremove⟩ := eq_of_freed (r := idrRemove oneLeft 1) (by decide +kernel)
  have hreach : Reach 6 true ⟨12, 1⟩ noneLeft (oneLeftTable.put 1 none) :=
    reach_oneLeft.remove (by decide) hremove
  have hempty : ∀ id, oneLeftTable.put 1 none id = none := fun id => by
    unfold oneLeftTable Table.put
    split
    · rfl
    · split
      · rfl
      · rfl
  obtain ⟨hinit, hlen, hblank⟩ := (idr_pre_get_suffices (Nat.le_refl 6) hreach).2.2 rfl hempty
  exact ⟨(idr_pre_get_suffices (Nat.le_refl 6) Reach.init).1 12 reserved rfl ⟨0, by decide, rfl⟩ 5,
    (idr_pre_get_suffices (Nat.le_refl 6) reach_oneLeft).2.1, hinit, Nat.add_right_cancel hlen,
    hblank⟩

end VmkLinux.Idr
