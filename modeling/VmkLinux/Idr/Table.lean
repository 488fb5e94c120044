/-
  VmkLinux/Idr/Table.lean
  =======================
  **An `idr` is a table of pointers.**

  What the calls on an `idr` are for is a table from identifiers to pointers: a new
  identifier is the least that is free, and the others keep their pointers.  `Inv` is what
  every call keeps, and `lookup` the table that an `idr` stands for.
-/
import VmkLinux.Idr.Update

namespace VmkLinux.Idr

open Digits

/-! ### The table of a tree -/

abbrev Table := Nat → Option Nat

def lookup (h : Handle) : Table := fun id =>
  if id < 64 ^ h.layers then content h.layers false h.top id else none

structure Inv (d : Bool) (h : Handle) : Prop where
  free : ∀ q ∈ h.idFree, Zeroed q
  top : (h.layers = 0 ∧ h.top = null) ∨
    ∃ n p, h.layers = n + 1 ∧ n < 5 ∧ h.top = .layer p ∧ Good d n p ∧ (d = true → p.count ≠ 0)

/-- The layers of an `idr`: those in its tree and those on its free list. -/
def Handle.held (h : Handle) : Nat := h.top.size + h.idFree.length

/-- The least free identifier is given out for `ptr`. -/
structure Gives (m : Table) (ptr id : Nat) (m' : Table) : Prop where
  lt : id < 64 ^ 5
  fresh : m id = none
  least : ∀ j < id, m j ≠ none
  after : ∀ j, m' j = if j = id then some ptr else m j

theorem inv_idrInit : Inv true idrInit := ⟨fun _ hq => (by cases hq), .inl ⟨rfl, rfl⟩⟩

theorem lookup_null (free : List IdrLayer) (id : Nat) : lookup ⟨null, free, 0⟩ id = none := by
  unfold lookup
  split <;> rfl

theorem lookup_layer (p : IdrLayer) (free : List IdrLayer) (n id : Nat) :
    lookup ⟨.layer p, free, n + 1⟩ id = if id < 64 ^ (n + 1) then p.content n id else none := rfl

theorem Inv.weaken {d : Bool} {h : Handle} (hinv : Inv d h) : Inv false h := by
  refine ⟨hinv.free, ?_⟩
  rcases hinv.top with hnull | ⟨n, p, hlayers, hn, htop, hgood, -⟩
  · exact .inl hnull
  · exact .inr ⟨n, p, hlayers, hn, htop, hgood.weaken, fun hd => by cases hd⟩

theorem two_pow_layers (layers : Nat) : 2 ^ (layers * idrBits) = 64 ^ layers := by
  show 2 ^ (layers * 6) = _
  rw [Nat.mul_comm, Nat.pow_mul]

theorem digit_eq_zero_iff {j n : Nat} (hj : j < 64 ^ (n + 1)) : digit j n = 0 ↔ j < 64 ^ n := by
  have hlt : j / 64 ^ n < 64 := Nat.div_lt_of_lt_mul (by rw [← Nat.pow_succ]; exact hj)
  have hpos : 0 < 64 ^ n := Nat.pow_pos (by omega)
  rw [Fin.ext_iff, val_digit, Nat.mod_eq_of_lt hlt]
  constructor
  · intro hzero
    exact (Nat.div_eq_zero_iff_lt hpos).mp hzero
  · intro hlow
    exact Nat.div_eq_of_lt hlow

/-! ### Looking up -/

section Find

variable {d b : Bool} {n ptr id : Nat} {s : Slot}

theorem findLoop_eq (h : Holds d n b s) : findLoop id n s = some ((content n b s id).getD 0) := by
  induction n generalizing b s with
  | zero =>
    obtain ⟨ptr, rfl, hnull⟩ := h
    cases b with
    | false => rw [hnull rfl]; rfl
    | true => rfl
  | succ n ih =>
    rcases h with ⟨rfl, -⟩ | ⟨p, rfl, hgood, -, -⟩
    · rfl
    · exact ih (hgood.1 _)

/-- **`idr_find`** returns the pointer in the table. -/
theorem idrFind_eq {h : Handle} (hinv : Inv d h) (id : Nat) :
    idrFind h id = some ((lookup h (id % maxIdBit)).getD 0) := by
  unfold idrFind lookup
  dsimp only
  rw [two_pow_layers]
  split
  · rw [if_neg (by omega)]
    rfl
  · rw [if_pos (by omega)]
    rcases hinv.top with ⟨hlayers, htop⟩ | ⟨n, p, hlayers, -, htop, hgood, hcount⟩
    · rw [hlayers, htop]
      rfl
    · rw [hlayers, htop]
      exact findLoop_eq (b := p.full) (hgood.holds hcount)

theorem replaceLoop_of_none (h : Holds d (n + 1) b s) (hnone : content (n + 1) b s id = none) :
    replaceLoop id ptr n s = some (.error (-enoent)) := by
  induction n generalizing b s with
  | zero =>
    rcases h with ⟨rfl, -⟩ | ⟨p, rfl, hgood, -, -⟩
    · rfl
    · have hbit : p.bit (digit id 0) = false := by
        by_contra hbit
        exact Good.content_of_bit hgood (Bool.eq_true_of_not_eq_false hbit) hnone
      unfold replaceLoop
      dsimp only
      rw [hbit]
      rfl
  | succ n ih =>
    rcases h with ⟨rfl, -⟩ | ⟨p, rfl, hgood, -, -⟩
    · rfl
    · unfold replaceLoop
      dsimp only
      rw [ih (hgood.1 _) hnone]

/-- `idr_replace` changes one place of the tree, and nothing else in a layer. -/
theorem exists_replaceLoop {old : Nat} (ptr : Nat) (h : Holds d (n + 1) b s)
    (hsome : content (n + 1) b s id = some old) :
    ∃ s', replaceLoop id ptr n s = some (.ok (old, s')) ∧ Holds d (n + 1) b s' ∧ s' ≠ null ∧
      s'.size = s.size ∧ ∀ j, content (n + 1) b s' j =
        if j % 64 ^ (n + 1) = id % 64 ^ (n + 1) then some ptr else content (n + 1) b s j := by
  induction n generalizing b s with
  | zero =>
    rcases h with ⟨rfl, -⟩ | ⟨p, rfl, hgood, rfl, hcount⟩
    · cases hsome
    · obtain ⟨ptr₀, hary, -⟩ := hgood.1 (digit id 0)
      have hcontent : content 0 (p.bit (digit id 0)) (.user ptr₀) id = some old := by
        rw [← hary]
        exact hsome
      cases hbit : p.bit (digit id 0) with
      | false => rw [hbit] at hcontent; cases hcontent
      | true =>
        rw [hbit] at hcontent
        obtain rfl := Option.some.inj hcontent
        have hself : (p.set (digit id 0) (.user ptr)).ary (digit id 0) = .user ptr :=
          Layer.ary_set_self p _ _
        have hothers := Layer.set_others p (digit id 0) (.user ptr)
        have hupdate : Good d 0 (p.set (digit id 0) (.user ptr)) := by
          refine Good.update hgood hothers ⟨ptr, hself, fun hf => ?_⟩ rfl
          exact absurd (hbit.symm.trans hf) (by simp)
        have hsize := size_update fun i hi => (hothers i hi).2
        rw [hself, hary, size_user, size_user] at hsize
        refine ⟨.layer (p.set (digit id 0) (.user ptr)), ?_,
          .inr ⟨_, rfl, hupdate, rfl, hcount⟩, by simp [null], hsize, fun j => ?_⟩
        · unfold replaceLoop
          dsimp only
          rw [if_pos hbit, hary]
        · by_cases hj : digit j 0 = digit id 0
          · rw [if_pos (same_place_in_leaf.mpr hj)]
            show content 0 (p.bit (digit j 0)) ((p.set _ _).ary (digit j 0)) j = _
            rw [hj, hself, hbit]
            rfl
          · rw [if_neg fun heq => hj (same_place_in_leaf.mp heq)]
            exact content_of_ne (n := 0) hothers hj
  | succ n ih =>
    rcases h with ⟨rfl, -⟩ | ⟨p, rfl, hgood, rfl, hcount⟩
    · cases hsome
    · obtain ⟨s', hrun, hholds, hnull, hsame, hcontent⟩ := ih (hgood.1 (digit id (n + 1))) hsome
      have hself : (p.set (digit id (n + 1)) s').ary (digit id (n + 1)) = s' :=
        Layer.ary_set_self p _ _
      have hothers := Layer.set_others p (digit id (n + 1)) s'
      have hused : used (n + 1) p (digit id (n + 1)) =
          used (n + 1) (p.set (digit id (n + 1)) s') (digit id (n + 1)) := by
        rcases hgood.1 (digit id (n + 1)) with ⟨hnull', hbit⟩ | ⟨c, hc, -⟩
        · have hsome' : content (n + 1) (p.bit (digit id (n + 1)))
              (p.ary (digit id (n + 1))) id = some old := hsome
          rw [hnull', hbit, content_null] at hsome'
          cases hsome'
        · rcases hholds with ⟨hs, -⟩ | ⟨c', rfl, -⟩
          · exact absurd hs hnull
          · rw [used_of_layer hc, used_of_layer hself]
      have hupdate : Good d (n + 1) (p.set (digit id (n + 1)) s') := by
        refine Good.update hgood hothers ?_ ?_
        · rw [hself]
          exact hholds
        · rw [hused]
          rfl
      have hsize := size_update fun i hi => (hothers i hi).2
      rw [hself, hsame] at hsize
      refine ⟨.layer (p.set (digit id (n + 1)) s'), ?_, .inr ⟨_, rfl, hupdate, rfl, hcount⟩,
        by simp [null], Nat.add_right_cancel hsize, fun j => ?_⟩
      · unfold replaceLoop
        dsimp only
        rw [hrun]
      · by_cases hj : digit j (n + 1) = digit id (n + 1)
        · rw [if_congr (same_place_of_digit hj) rfl rfl]
          show content (n + 1) (p.bit (digit j (n + 1))) ((p.set _ _).ary (digit j (n + 1))) j =
            if _ then _ else content (n + 1) (p.bit (digit j (n + 1))) (p.ary (digit j (n + 1))) j
          rw [hj, hself]
          exact hcontent j
        · rw [if_neg fun heq => hj (same_place_iff.mp heq).2]
          exact content_of_ne (n := n + 1) hothers hj

/-- `idr_replace` changes the pointer of an identifier that has been given out. -/
theorem exists_idrReplace {h : Handle} (hinv : Inv d h) (ptr : Nat) (hid : id < maxIdBit) :
    ∃ h' r, idrReplace h ptr id = some (h', r) ∧ Inv d h' ∧ h'.held = h.held ∧
      match lookup h id with
      | some old => r = .ok old ∧ ∀ j, lookup h' j = if j = id then some ptr else lookup h j
      | none => (r = .error (-enoent) ∨ r = .error (-einval)) ∧ h' = h := by
  have hmod : id % maxIdBit = id := Nat.mod_eq_of_lt hid
  unfold idrReplace
  dsimp only
  rw [hmod, two_pow_layers]
  by_cases hle : 64 ^ h.layers ≤ id
  · have hnone : lookup h id = none := if_neg (by omega)
    rw [if_pos hle, hnone]
    exact ⟨h, _, rfl, hinv, rfl, .inr rfl, rfl⟩
  · rw [if_neg hle]
    have hlookup : lookup h id = content h.layers false h.top id := if_pos (by omega)
    obtain ⟨top, idFree, layers⟩ := h
    rcases hinv.top with ⟨hlayers, htop⟩ | ⟨n, p, hlayers, hn, htop, hgood, hcount⟩
    · obtain rfl := hlayers
      obtain rfl := htop
      rw [hlookup]
      exact ⟨_, _, rfl, hinv, rfl, .inl rfl, rfl⟩
    · obtain rfl := hlayers
      obtain rfl := htop
      have hholds := hgood.holds hcount
      have hlookup : lookup ⟨.layer p, idFree, n + 1⟩ id = content (n + 1) p.full (.layer p) id :=
        hlookup
      cases hcontent : content (n + 1) p.full (.layer p) id with
      | none =>
        rw [hlookup, hcontent, Nat.add_sub_cancel]
        dsimp only
        rw [replaceLoop_of_none hholds hcontent]
        exact ⟨_, _, rfl, hinv, rfl, .inl rfl, rfl⟩
      | some old =>
        obtain ⟨s', hrun, hholds', hnull, hsize, hafter⟩ := exists_replaceLoop ptr hholds hcontent
        rw [hlookup, hcontent, Nat.add_sub_cancel]
        dsimp only
        rw [hrun]
        refine ⟨⟨s', idFree, n + 1⟩, _, rfl, ⟨hinv.free, ?_⟩,
          congrArg (· + idFree.length) hsize, rfl, fun j => ?_⟩
        · rcases hholds' with ⟨hs, -⟩ | ⟨p', rfl, hgood', -, hcount'⟩
          · exact absurd hs hnull
          · exact .inr ⟨n, p', rfl, hn, rfl, hgood', hcount'⟩
        · have hid' : id < 64 ^ (n + 1) := not_le.mp hle
          show (if j < 64 ^ (n + 1) then content (n + 1) false s' j else none) =
            if j = id then some ptr
            else if j < 64 ^ (n + 1) then content (n + 1) false (.layer p) j else none
          have hj := hafter j
          rcases hholds' with ⟨hs, -⟩ | ⟨p', rfl, -⟩
          · exact absurd hs hnull
          · by_cases hlt : j < 64 ^ (n + 1)
            · rw [Nat.mod_eq_of_lt hlt, Nat.mod_eq_of_lt hid'] at hj
              rw [if_pos hlt, if_pos hlt]
              exact hj
            · rw [if_neg hlt, if_neg hlt, if_neg (by omega)]

end Find

/-! ### New identifiers -/

section Alloc

variable {d : Bool} {n ptr id : Nat} {p : IdrLayer} {free : List IdrLayer}

/-- What `sub_alloc` leaves behind, starting at the top of a tree. -/
theorem exists_subAlloc_top (ptr : Nat) (h : Good d n p) (hspace : p.full = false)
    (hlow : id % 64 ^ n = 0)
    (hbelow : ∀ i < digit id n, p.bit i = true) (hid : id < 64 ^ (n + 1)) (hn : n < 5)
    (hfree : ∀ q ∈ free, Zeroed q) {fuel : Nat} (hfuel : n < fuel) :
    ∃ r, subAlloc ptr fuel ⟨free, n, p, [], id⟩ = some r ∧
      ((∃ top, r = .noLayer top [] ∧ Inv false ⟨top, [], n + 1⟩ ∧
          lookup ⟨top, [], n + 1⟩ = lookup ⟨.layer p, free, n + 1⟩ ∧ free.length < n ∧
          top.size = (Slot.layer p).size + free.length) ∨
        ∃ id' top free', r = .done id' top free' ∧ Inv d ⟨top, free', n + 1⟩ ∧
          top.size + free'.length = (Slot.layer p).size + free.length ∧
          Gives (lookup ⟨.layer p, free, n + 1⟩) ptr id' (lookup ⟨top, free', n + 1⟩)) := by
  have hmax : 64 ^ (n + 1) ≤ 64 ^ 5 := Nat.pow_le_pow_right (by omega) hn
  obtain ⟨r, hr, hallocates⟩ : ∃ r, subAlloc ptr fuel ⟨free, n, p, [], id⟩ = some r ∧
      Allocates d n p [] free id ptr r :=
    exists_subAlloc h hspace hlow hbelow (Nat.lt_of_lt_of_le hid hmax) hn hfree hfuel
  refine ⟨r, hr, ?_⟩
  rcases hallocates with ⟨p', rfl, hgood, -, hcontent, hlen, hsize⟩ |
    ⟨id', p', k, rfl, -, ⟨hk, hsize⟩, hinserted, hblock, hleast⟩
  · refine .inl ⟨.layer p', rfl, ⟨fun q hq => (by cases hq),
      .inr ⟨n, p', rfl, hn, rfl, hgood, fun hd => by cases hd⟩⟩, funext fun j => ?_, hlen, hsize⟩
    rw [lookup_layer, lookup_layer, hcontent j]
  · have hzero : id / 64 ^ (n + 1) = 0 := Nat.div_eq_of_lt hid
    rw [hzero] at hblock hleast
    have hid' : id' < 64 ^ (n + 1) :=
      (Nat.div_eq_zero_iff_lt (Nat.pow_pos (by omega))).mp hblock
    refine .inr ⟨id', .layer p', free.drop k, rfl,
      ⟨fun q hq => hfree q (List.mem_of_mem_drop hq),
        .inr ⟨n, p', rfl, hn, rfl, hinserted.good, fun _ => hinserted.count⟩⟩, ?_,
      Nat.lt_of_lt_of_le hid' hmax, ?_, fun j hj => ?_, fun j => ?_⟩
    · rw [List.length_drop]
      omega
    · rw [lookup_layer, if_pos hid']
      exact hinserted.fresh
    · have hj' := Nat.lt_trans hj hid'
      rw [lookup_layer, if_pos hj']
      exact hleast j hj (Nat.div_eq_of_lt hj')
    · rw [lookup_layer, lookup_layer, hinserted.content j, Nat.mod_eq_of_lt hid']
      by_cases hj : j < 64 ^ (n + 1)
      · rw [if_pos hj, if_pos hj, Nat.mod_eq_of_lt hj]
      · rw [if_neg hj, if_neg hj, if_neg (by omega)]

theorem addLayers_of_lt {room layers built : Nat} (hid : id < 64 ^ layers) :
    addLayers id room layers p built free = .ok (layers, p, free) := by
  cases room with
  | zero => rfl
  | succ room =>
    unfold addLayers
    rw [two_pow_layers, if_pos hid]

theorem above_others (p : IdrLayer) :
    ∀ i, i ≠ 0 → (above p).bit i = blank.bit i ∧ (above p).ary i = blank.ary i :=
  Layer.setBit_set_others blank 0 (.layer p)

theorem size_above (p : IdrLayer) : (Slot.layer (above p)).size = (Slot.layer p).size + 1 := by
  have hset := size_update (p := blank) fun i hi => (above_others p i hi).2
  have hself : (above p).ary 0 = .layer p := Layer.ary_set_self blank 0 _
  have hnull : blank.ary 0 = null := rfl
  rw [hself, hnull, size_null, size_blank] at hset
  omega

theorem good_above (h : Good d n p) (hfull : p.full = true) (hcount : d = true → p.count ≠ 0) :
    Good d (n + 1) (above p) := by
  have hbit : (above p).bit 0 = true := Layer.bit_setBit_self _ 0
  have hary : (above p).ary 0 = .layer p := Layer.ary_set_self blank 0 _
  refine (good_blank d (n + 1)).update (above_others p) ?_ ?_
  · have hholds := h.holds hcount
    rw [hfull] at hholds
    rw [hbit, hary]
    exact hholds
  · rw [used_of_layer hary, used_of_null rfl]
    rfl

theorem lookup_above {free' : List IdrLayer} (free : List IdrLayer) :
    lookup ⟨.layer (above p), free', n + 2⟩ = lookup ⟨.layer p, free, n + 1⟩ := by
  funext j
  rw [lookup_layer, lookup_layer]
  have hle : 64 ^ (n + 1) ≤ 64 ^ (n + 2) := Nat.pow_le_pow_right (by omega) (by omega)
  by_cases hj : j < 64 ^ (n + 2)
  · rw [if_pos hj]
    by_cases hlow : j < 64 ^ (n + 1)
    · rw [if_pos hlow]
      unfold Layer.content
      rw [(digit_eq_zero_iff hj).mpr hlow]
      rfl
    · rw [if_neg hlow]
      have hdigit : digit j (n + 1) ≠ 0 := fun hzero => hlow ((digit_eq_zero_iff hj).mp hzero)
      rw [content_of_ne (above_others p) hdigit]
      exact blank_content _ j
  · rw [if_neg hj, if_neg (by omega)]

/-- What a call of `idr_get_new` does. -/
def GetsNew (d : Bool) (h : Handle) (ptr : Nat) (h' : Handle) (r : Except Int Nat) : Prop :=
  h'.held = h.held ∧
    ((r = .error (-eagain) ∧ Inv false h' ∧ lookup h' = lookup h ∧ h.idFree.length < 6) ∨
      ∃ id, r = .ok id ∧ Inv d h' ∧ Gives (lookup h) ptr id (lookup h'))

/-- One turn of `idr_get_new_above_int`, up to its call of `sub_alloc`. -/
theorem getNew_turn {h : Handle} {layers layers' : Nat} {p' : IdrLayer}
    {free' : List IdrLayer} (ptr fuel : Nat) (htop : topLayer h = some (.ok (layers, p, free)))
    (hadd : addLayers id (maxLevel - 1 - layers) layers p 0 free = .ok (layers', p', free')) :
    (∀ top free₁, subAlloc ptr (fuel + 1) ⟨free', layers' - 1, p', [], id⟩ =
        some (.noLayer top free₁) →
      idrGetNewAboveInt ptr (fuel + 1) h id = some (⟨top, free₁, layers'⟩, .error (-eagain))) ∧
    (∀ id' top free₁, subAlloc ptr (fuel + 1) ⟨free', layers' - 1, p', [], id⟩ =
        some (.done id' top free₁) →
      idrGetNewAboveInt ptr (fuel + 1) h id = some (⟨top, free₁, layers'⟩, .ok id')) ∧
    ∀ id' top free₁, subAlloc ptr (fuel + 1) ⟨free', layers' - 1, p', [], id⟩ =
        some (.grow id' top free₁) →
      idrGetNewAboveInt ptr (fuel + 1) h id =
        idrGetNewAboveInt ptr fuel ⟨top, free₁, layers'⟩ id' := by
  refine ⟨fun top free₁ hsub => ?_, fun id' top free₁ hsub => ?_, fun id' top free₁ hsub => ?_⟩
  all_goals
    conv_lhs => unfold idrGetNewAboveInt
    rw [htop]
    dsimp only
    rw [hadd]
    dsimp only
    rw [hsub]

/-- The last turn: there is space in the tree `p'`. -/
theorem exists_getNew_space {h : Handle} {layers : Nat} {p' : IdrLayer}
    {free' : List IdrLayer} (ptr fuel : Nat) (htop : topLayer h = some (.ok (layers, p, free)))
    (hadd : addLayers id (maxLevel - 1 - layers) layers p 0 free = .ok (n + 1, p', free'))
    (hgood : Good d n p') (hspace : p'.full = false) (hid : id < 64 ^ (n + 1))
    (hlow : id % 64 ^ n = 0) (hbelow : ∀ i < digit id n, p'.bit i = true) (hn : n < 5)
    (hfree : ∀ q ∈ free', Zeroed q) (hfuel : n ≤ fuel) :
    ∃ h' r, idrGetNewAboveInt ptr (fuel + 1) h id = some (h', r) ∧
      h'.held = (Slot.layer p').size + free'.length ∧
      ((r = .error (-eagain) ∧ Inv false h' ∧
          lookup h' = lookup ⟨.layer p', free', n + 1⟩ ∧ free'.length < n) ∨
        ∃ id', r = .ok id' ∧ Inv d h' ∧
          Gives (lookup ⟨.layer p', free', n + 1⟩) ptr id' (lookup h')) := by
  obtain ⟨r, hr, hcases⟩ := exists_subAlloc_top ptr hgood hspace hlow hbelow hid hn hfree
    (Nat.lt_succ_of_le hfuel)
  obtain ⟨hno, hdone, -⟩ := getNew_turn ptr fuel htop hadd
  rw [Nat.add_sub_cancel] at hno hdone
  rcases hcases with ⟨top, rfl, hinv, hlookup, hlen, hsize⟩ |
    ⟨id', top, free₁, rfl, hinv, hsize, hgives⟩
  · exact ⟨_, _, hno top [] hr, hsize, .inl ⟨rfl, hinv, hlookup, hlen⟩⟩
  · exact ⟨_, _, hdone id' top free₁ hr, hsize, .inr ⟨id', rfl, hinv, hgives⟩⟩

theorem Good.count_of_full (h : Good d n p) (hfull : p.full = true) : p.count ≠ 0 := by
  have hbit := Layer.full_eq_true_iff.mp hfull 0
  cases n with
  | zero => exact h.count_ne_zero (i := 0) hbit
  | succ n =>
    rcases h.1 0 with ⟨-, hzero⟩ | ⟨c, hc, -⟩
    · rw [hbit] at hzero
      cases hzero
    · exact h.count_ne_zero (used_of_layer hc)

/-- The first turn finds that all places of the tree are taken. -/
theorem getNew_full {fuel : Nat} (hfull : p.full = true) (hn : n < 4) :
    idrGetNewAboveInt ptr (fuel + 1) ⟨.layer p, free, n + 1⟩ 0 =
      idrGetNewAboveInt ptr fuel ⟨.layer p, free, n + 1⟩ (64 ^ (n + 1)) := by
  have hnext : ∀ i, p.nextSpace i = none := fun i => by
    cases hi : p.nextSpace i with
    | none => rfl
    | some m =>
      have hm := (Layer.nextSpace_eq_some hi).1
      rw [Layer.full_eq_true_iff.mp hfull m] at hm
      cases hm
  have hpos : 0 < 64 ^ (n + 1) := Nat.pow_pos (by omega)
  have hid : (0 ||| (2 ^ (idrBits * (n + 1)) - 1)) + 1 = 64 ^ (n + 1) := by
    rw [Nat.zero_or, Nat.mul_comm, two_pow_layers]
    omega
  have hlt : 64 ^ (n + 1) < 64 ^ 5 := Nat.pow_lt_pow_right (by omega) (by omega)
  have hturn : subAllocTurn ptr ⟨free, n, p, [], 0⟩ =
      some (.inl (.grow (64 ^ (n + 1)) (.layer p) free)) := by
    unfold subAllocTurn
    dsimp only
    rw [hnext]
    dsimp only
    rw [hid, if_neg (not_maxIdBit_le hlt)]
  have hsub : subAlloc ptr (fuel + 1) ⟨free, n, p, [], 0⟩ =
      some (.grow (64 ^ (n + 1)) (.layer p) free) := by
    unfold subAlloc
    rw [hturn]
  refine (getNew_turn (h := ⟨.layer p, free, n + 1⟩) ptr fuel rfl
    (addLayers_of_lt hpos)).2.2 _ _ _ ?_
  rw [Nat.add_sub_cancel, hsub]

/-- The second turn: a layer is put above the tree. -/
theorem exists_getNew_above (ptr fuel : Nat) (h : Good d n p) (hfull : p.full = true)
    (hcount : d = true → p.count ≠ 0) (hn : n < 4) (hfree : ∀ q ∈ free, Zeroed q)
    (hfuel : n < fuel) :
    ∃ h' r, idrGetNewAboveInt ptr (fuel + 1) ⟨.layer p, free, n + 1⟩ (64 ^ (n + 1)) =
        some (h', r) ∧ GetsNew d ⟨.layer p, free, n + 1⟩ ptr h' r := by
  have htop : topLayer ⟨.layer p, free, n + 1⟩ = some (.ok (n + 1, p, free)) := rfl
  have hinv : Inv d ⟨.layer p, free, n + 1⟩ :=
    ⟨hfree, .inr ⟨n, p, rfl, by omega, rfl, h, hcount⟩⟩
  obtain ⟨room, hroom⟩ : ∃ room, maxLevel - 1 - (n + 1) = room + 1 := ⟨3 - n, by
    show 5 - (n + 1) = _
    omega⟩
  have hne := h.count_of_full hfull
  cases free with
  | nil =>
    have hnone : addLayers (64 ^ (n + 1)) (room + 1) (n + 1) p 0 [] = .error [] := by
      unfold addLayers
      rw [two_pow_layers, if_neg (Nat.lt_irrefl _), if_neg hne]
      rfl
    refine ⟨⟨.layer p, [], n + 1⟩, .error (-eagain), ?_, rfl, .inl ⟨rfl, hinv.weaken, rfl, ?_⟩⟩
    · unfold idrGetNewAboveInt
      rw [htop]
      dsimp only
      rw [hroom, hnone]
    · exact Nat.succ_pos 5
  | cons q free =>
    have hblank : q.set 0 null = blank := hfree q List.mem_cons_self
    have hlt : 64 ^ (n + 1) < 64 ^ (n + 2) := Nat.pow_lt_pow_right (by omega) (by omega)
    have hgrown : addLayers (64 ^ (n + 1)) (room + 1) (n + 1) p 0 (q :: free) =
        .ok (n + 2, above p, free) := by
      conv_lhs => unfold addLayers
      rw [two_pow_layers, if_neg (Nat.lt_irrefl _), if_neg hne]
      show addLayers _ room (n + 2) (if p.full then (Layer.setBit
        { (q.set 0 null).set 0 (.layer p) with count := 1 } 0) else _) 1 free = _
      rw [hblank, hfull, addLayers_of_lt hlt]
      rfl
    have hspace : (above p).full = false := by
      refine Layer.full_eq_false (i := 1) ?_
      rw [(above_others p 1 (by decide)).1]
      simp [Layer.bit, blank]
    have hdigit : (digit (64 ^ (n + 1)) (n + 1)).val = 1 := by
      rw [val_digit, Nat.div_self (Nat.pow_pos (by omega))]
    obtain ⟨h', r, hr, hheld, hcases⟩ := exists_getNew_space ptr fuel htop
      ((congrArg (fun k => addLayers _ k _ _ _ _) hroom).trans hgrown) (good_above h hfull hcount)
      hspace hlt (Nat.mod_self _)
      (fun i hi => by
        have hzero : i = 0 := by
          rw [Fin.lt_def, hdigit] at hi
          exact Fin.ext (by show i.val = 0; omega)
        rw [hzero]
        exact Layer.bit_setBit_self _ 0)
      (by omega) (fun q' hq' => hfree q' (List.mem_cons_of_mem q hq')) hfuel
    rw [lookup_above (q :: free)] at hcases
    rw [size_above, Nat.add_assoc, Nat.add_comm 1] at hheld
    refine ⟨h', r, hr, hheld, ?_⟩
    rcases hcases with ⟨rfl, hinv', hlookup, hlen⟩ | hgives
    · refine .inl ⟨rfl, hinv', hlookup, ?_⟩
      show (q :: free).length < 6
      rw [List.length_cons]
      omega
    · exact .inr hgives

/-- **`idr_get_new`** gives out the least free identifier, or there are not enough layers. -/
theorem exists_idrGetNew {h : Handle} (hinv : Inv d h) (ptr : Nat)
    (hroom : ∃ j < 64 ^ 5, lookup h j = none)
    {fuel : Nat} (hfuel : 6 ≤ fuel) :
    ∃ h' r, idrGetNew fuel h ptr = some (h', r) ∧ GetsNew d h ptr h' r := by
  obtain ⟨fuel, rfl⟩ : ∃ k, fuel = k + 2 := ⟨fuel - 2, by omega⟩
  obtain ⟨top, idFree, layers⟩ := h
  have hbelow : ∀ (q : IdrLayer) (k : Nat), ∀ i < digit 0 k, q.bit i = true := fun q k i hi => by
    have hzero : digit 0 k = 0 := Fin.ext (by rw [val_digit, Nat.zero_div]; rfl)
    rw [hzero] at hi
    exact absurd hi (Fin.not_lt_zero i)
  have hpos : ∀ k, 0 < 64 ^ k := fun k => Nat.pow_pos (by omega)
  rcases hinv.top with ⟨hlayers, htop⟩ | ⟨n, p, hlayers, hn, htop, hgood, hcount⟩
  · obtain rfl := hlayers
    obtain rfl := htop
    cases idFree with
    | nil =>
      exact ⟨⟨null, [], 0⟩, .error (-eagain), rfl, rfl,
        .inl ⟨rfl, hinv.weaken, rfl, Nat.succ_pos 5⟩⟩
    | cons q idFree =>
      have hblank : q.set 0 null = blank := hinv.free q List.mem_cons_self
      have htop : topLayer ⟨null, q :: idFree, 0⟩ = some (.ok (1, blank, idFree)) := by
        rw [← hblank]
        rfl
      obtain ⟨h', r, hr, hheld, hcases⟩ := exists_getNew_space ptr (fuel + 1) (n := 0)
        htop (addLayers_of_lt (hpos 1)) (good_blank d 0) (Layer.full_eq_false (i := 0) rfl)
        (hpos 1) rfl (hbelow blank 0) (by omega)
        (fun q' hq' => hinv.free q' (List.mem_cons_of_mem q hq')) (Nat.zero_le _)
      have hsame : lookup ⟨.layer blank, idFree, 0 + 1⟩ = lookup ⟨null, q :: idFree, 0⟩ := by
        funext j
        show (if _ then blank.content 0 j else none) = _
        rw [blank_content, ite_self, lookup_null]
      rw [hsame] at hcases
      have hsize : h'.held = (Handle.mk null (q :: idFree) 0).held := by
        rw [hheld, size_blank, Handle.held, size_null, List.length_cons]
        omega
      refine ⟨h', r, hr, hsize, ?_⟩
      rcases hcases with ⟨-, -, -, hlen⟩ | hgives
      · exact absurd hlen (Nat.not_lt_zero _)
      · exact .inr hgives
  · obtain rfl := hlayers
    obtain rfl := htop
    cases hfull : p.full with
    | false =>
      obtain ⟨h', r, hr, hheld, hcases⟩ := exists_getNew_space ptr (fuel + 1) (n := n)
        (h := ⟨.layer p, idFree, n + 1⟩) rfl (addLayers_of_lt (hpos (n + 1))) hgood hfull
        (hpos (n + 1)) (Nat.zero_mod _) (hbelow p n) hn hinv.free (by omega)
      refine ⟨h', r, hr, hheld, ?_⟩
      rcases hcases with ⟨rfl, hinv', hlookup, hlen⟩ | hgives
      · refine .inl ⟨rfl, hinv', hlookup, ?_⟩
        have hlen' : idFree.length < n := hlen
        show idFree.length < 6
        omega
      · exact .inr hgives
    | true =>
      have hn4 : n < 4 := by
        by_contra hge
        have hn4 : n = 4 := by omega
        obtain ⟨j, hj, hnone⟩ := hroom
        rw [hn4] at hgood hnone
        have htaken := hgood.content_of_bit (Layer.full_eq_true_iff.mp hfull (digit j 4))
        have heq : lookup ⟨.layer p, idFree, 4 + 1⟩ j = p.content 4 j := if_pos hj
        exact htaken (heq.symm.trans hnone)
      obtain ⟨h', r, hr, hgets⟩ := exists_getNew_above ptr fuel hgood hfull hcount hn4
        hinv.free (by omega)
      exact ⟨h', r, (getNew_full hfull hn4).trans hr, hgets⟩

end Alloc

/-! ### Removing -/

section Remove

variable {d : Bool} {n id : Nat} {p : IdrLayer} {free : List IdrLayer}

theorem unused_of_count_one (h : Good d n p) (hone : p.count = 1) {m : Fin 64}
    (hm : used n p m = true) {i : Fin 64} (hi : i ≠ m) : used n p i = false := by
  by_contra hused
  have hcard : (Finset.univ.filter fun j => used n p j = true).card = 1 := by
    have hcount := h.2
    unfold entries at hcount
    omega
  obtain ⟨k, hk⟩ := Finset.card_eq_one.mp hcard
  have hmk : m ∈ ({k} : Finset (Fin 64)) := by rw [← hk]; simp [hm]
  have hik : i ∈ ({k} : Finset (Fin 64)) := by
    rw [← hk]
    simp [Bool.eq_true_of_not_eq_false hused]
  rw [Finset.mem_singleton] at hmk hik
  exact hi (hik.trans hmk.symm)

/-- Dropping the top layer leaves the table as it is. -/
theorem dropTop_spec {h : Handle} (hinv : Inv d h) :
    Inv d (dropTop h) ∧ lookup (dropTop h) = lookup h ∧ (dropTop h).held = h.held := by
  obtain ⟨top, idFree, layers⟩ := h
  rcases hinv.top with ⟨hlayers, htop⟩ | ⟨n, p, hlayers, hn, htop, hgood, hcount⟩
  · obtain rfl := hlayers
    obtain rfl := htop
    exact ⟨hinv, rfl, rfl⟩
  · obtain rfl := hlayers
    obtain rfl := htop
    unfold dropTop
    dsimp only
    split
    · rename_i hdrop
      obtain ⟨hone, hlayers, hfirst⟩ := hdrop
      obtain ⟨k, rfl⟩ : ∃ k, n = k + 1 := ⟨n - 1, by omega⟩
      have hused : used (k + 1) p 0 = true := by
        unfold used
        rw [if_neg (Nat.succ_ne_zero k), hfirst]
        rfl
      have hothers : ∀ i, i ≠ 0 → p.ary i = null ∧ p.bit i = false := fun i hi => by
        have hunused := unused_of_count_one hgood hone hused hi
        rcases hgood.1 i with hnull | ⟨c, hc, -⟩
        · exact hnull
        · rw [used_of_layer hc] at hunused
          cases hunused
      rcases hgood.1 0 with ⟨hnull, -⟩ | ⟨c, hc, hcgood, -, hccount⟩
      · rw [hnull] at hfirst
        cases hfirst
      · refine ⟨⟨?_, .inr ⟨k, c, rfl, by omega, hc, hcgood, hccount⟩⟩, funext fun j => ?_, ?_⟩
        · refine List.forall_mem_cons.mpr ⟨?_, hinv.free⟩
          have hary : (fun j => if j = (0 : Fin 64) then null else p.ary j) = fun _ => null :=
            funext fun j => by
              by_cases hj : j = 0
              · rw [if_pos hj]
              · rw [if_neg hj, (hothers j hj).1]
          show (⟨0, fun j => if j = (0 : Fin 64) then null else p.ary j, 0⟩ : IdrLayer) = blank
          rw [hary]
          rfl
        · have hle : 64 ^ (k + 1) ≤ 64 ^ (k + 2) := Nat.pow_le_pow_right (by omega) (by omega)
          show lookup ⟨p.ary 0, _, k + 1⟩ j = _
          rw [hc, lookup_layer, lookup_layer]
          by_cases hlow : j < 64 ^ (k + 1)
          · have hj := Nat.lt_of_lt_of_le hlow hle
            rw [if_pos hlow, if_pos hj]
            unfold Layer.content
            rw [(digit_eq_zero_iff hj).mpr hlow, hc]
            rfl
          · rw [if_neg hlow]
            by_cases hj : j < 64 ^ (k + 2)
            · have hdigit : digit j (k + 1) ≠ 0 := fun hzero =>
                hlow ((digit_eq_zero_iff hj).mp hzero)
              rw [if_pos hj]
              unfold Layer.content
              rw [(hothers _ hdigit).1, (hothers _ hdigit).2, content_null]
            · rw [if_neg hj]
        · have hset := size_update (p := blank) fun i hi => (hothers i hi).1
          rw [hc, size_blank, show blank.ary 0 = null from rfl, size_null] at hset
          show (p.ary 0).size + (idFree.length + 1) = (Slot.layer p).size + idFree.length
          rw [hc]
          omega
    · exact ⟨hinv, rfl, rfl⟩

theorem trimFree_spec {h : Handle} (hinv : Inv d h) :
    Inv d (trimFree h).1 ∧ lookup (trimFree h).1 = lookup h ∧
      (trimFree h).1.held + (trimFree h).2.toList.length = h.held ∧
      ∀ q, (trimFree h).2 = some q → q = blank := by
  obtain ⟨top, idFree, layers⟩ := h
  unfold trimFree
  cases idFree with
  | nil => exact ⟨hinv, rfl, rfl, fun q hq => (by cases hq)⟩
  | cons q idFree =>
    dsimp only
    split
    · refine ⟨⟨fun q' hq' => hinv.free q' (List.mem_cons_of_mem q hq'), hinv.top⟩, rfl, rfl,
        fun q' hq' => ?_⟩
      obtain rfl := Option.some.inj hq'
      exact hinv.free q List.mem_cons_self
    · exact ⟨hinv, rfl, rfl, fun q hq => (by cases hq)⟩

/-- What `sub_remove` leaves behind, with the new number of layers. -/
theorem exists_subRemove_top {h : Handle} (hinv : Inv d h) (hid : id < 64 ^ h.layers) :
    ∃ top free' emptied,
      subRemove (id % maxIdBit) (h.layers - 1) h.top [] h.idFree = some (top, free', emptied) ∧
      Inv d ⟨top, free', if emptied then 0 else h.layers⟩ ∧
      top.size + free'.length = h.held ∧
      ∀ j, lookup ⟨top, free', if emptied then 0 else h.layers⟩ j =
        if j = id then none else lookup h j := by
  obtain ⟨top, idFree, layers⟩ := h
  rcases hinv.top with ⟨hlayers, htop⟩ | ⟨n, p, hlayers, hn, htop, hgood, hcount⟩
  · obtain rfl := hlayers
    obtain rfl := htop
    refine ⟨null, idFree, false, rfl, hinv, rfl, fun j => ?_⟩
    show lookup ⟨null, idFree, 0⟩ j = _
    rw [lookup_null, ite_self]
  · obtain rfl := hlayers
    obtain rfl := htop
    have hid : id < 64 ^ (n + 1) := hid
    have hmax : id < 64 ^ 5 := Nat.lt_of_lt_of_le hid (Nat.pow_le_pow_right (by omega) hn)
    rw [Nat.mod_eq_of_lt (not_le.mp (not_maxIdBit_le hmax))]
    cases hcontent : p.content n id with
    | none =>
      refine ⟨.layer p, idFree, false, subRemove_of_none (hgood.holds hcount) hcontent, hinv,
        rfl, fun j => ?_⟩
      by_cases hj : j = id
      · rw [if_pos hj, hj]
        exact (lookup_layer p idFree n id).trans ((if_pos hid).trans hcontent)
      · rw [if_neg hj]
        rfl
    | some ptr =>
      obtain ⟨r, hrun, free', hfree', hcases⟩ :
          ∃ r, subRemove id n (.layer p) [] idFree = some r ∧ Removes d n p [] idFree id r :=
        exists_subRemove hgood (by rw [hcontent]; simp) hinv.free
      rcases hcases with ⟨p', rfl, hgood', hcount', -, hcleared, hsize⟩ | ⟨rfl, hsize, hrest⟩
      · refine ⟨.layer p', free', false, hrun, ⟨hfree',
          .inr ⟨n, p', rfl, hn, rfl, hgood', fun _ => hcount'⟩⟩, hsize, fun j => ?_⟩
        show (if j < 64 ^ (n + 1) then p'.content n j else none) = _
        rw [lookup_layer, hcleared j, Nat.mod_eq_of_lt hid]
        by_cases hj : j < 64 ^ (n + 1)
        · rw [if_pos hj, if_pos hj, Nat.mod_eq_of_lt hj]
        · rw [if_neg hj, if_neg hj, ite_self]
      · refine ⟨null, free', true, hrun, ⟨hfree', .inl ⟨rfl, rfl⟩⟩, ?_, fun j => ?_⟩
        · rw [size_null, Nat.zero_add]
          exact hsize
        show lookup ⟨null, free', 0⟩ j = _
        rw [lookup_null, lookup_layer]
        by_cases hj : j = id
        · rw [if_pos hj]
        · rw [if_neg hj]
          by_cases hlt : j < 64 ^ (n + 1)
          · rw [if_pos hlt, hrest j ?_]
            rw [Nat.mod_eq_of_lt hlt, Nat.mod_eq_of_lt hid]
            exact hj
          · rw [if_neg hlt]

/-- **`idr_remove`** takes an identifier out of the table; what goes back to the cache is as
    its constructor makes it. -/
theorem exists_idrRemove {h : Handle} (hinv : Inv d h) (hid : id < 64 ^ h.layers) :
    ∃ h' freed, idrRemove h id = some (h', freed) ∧ Inv d h' ∧
      (∀ j, lookup h' j = if j = id then none else lookup h j) ∧
      h'.held + freed.toList.length = h.held ∧ ∀ q, freed = some q → q = blank := by
  obtain ⟨top, free', emptied, hsub, hinv₁, hheld₁, hlookup₁⟩ := exists_subRemove_top hinv hid
  obtain ⟨hinv₂, hlookup₂, hheld₂⟩ := dropTop_spec hinv₁
  obtain ⟨hinv₃, hlookup₃, hheld₃, hfreed⟩ := trimFree_spec hinv₂
  refine ⟨_, _, ?_, hinv₃, fun j => ?_, hheld₃.trans (hheld₂.trans hheld₁), hfreed⟩
  · unfold idrRemove
    rw [hsub]
    rfl
  · rw [hlookup₃, hlookup₂]
    exact hlookup₁ j

end Remove

end VmkLinux.Idr
