/-
  VmkLinux/Idr/Update.lean
  ========================
  **New and removed identifiers in a tree.**

  `sub_alloc` on a layer with space, where it starts at the first place that may be free,
  gives out the least identifier of the layer that is free (`exists_subAlloc`).
  `sub_remove` takes out one identifier and lets go of the layers that this empties
  (`exists_subRemove`).
-/
import VmkLinux.Idr.Tree

namespace VmkLinux.Idr

open Digits

/-! ### Digits of identifiers -/

theorem val_digit (id n : Nat) : (digit id n).val = id / 64 ^ n % 64 := by
  show (id >>> (6 * n)) % 64 = _
  rw [Nat.shiftRight_eq_div_pow, Nat.pow_mul]

theorem digit_eq_iff {i j n : Nat} : digit j n = digit i n ↔ j / 64 ^ n % 64 = i / 64 ^ n % 64 := by
  rw [← val_digit, ← val_digit, Fin.ext_iff]

/-- Two identifiers have the same place in a layer. -/
theorem same_place_iff {i j n : Nat} :
    j % 64 ^ (n + 1) = i % 64 ^ (n + 1) ↔ j % 64 ^ n = i % 64 ^ n ∧ digit j n = digit i n := by
  rw [digit_eq_iff]
  exact mod_pow_succ_eq_iff

theorem same_place_of_digit {i j n : Nat} (h : digit j n = digit i n) :
    j % 64 ^ (n + 1) = i % 64 ^ (n + 1) ↔ j % 64 ^ n = i % 64 ^ n := by
  rw [same_place_iff]
  exact and_iff_left h

theorem same_place_in_leaf {i j : Nat} :
    j % 64 ^ (0 + 1) = i % 64 ^ (0 + 1) ↔ digit j 0 = digit i 0 := by
  rw [same_place_iff]
  simp [Nat.mod_one]

/-- What `sub_alloc` makes of `id` when it finds space at `m`. -/
theorem setDigit_eq (id n : Nat) (m : Fin 64) :
    ((id >>> (idrBits * n)) ^^^ (digit id n).val ^^^ m.val) <<< (idrBits * n) =
      id / 64 ^ (n + 1) * 64 ^ (n + 1) + m.val * 64 ^ n := by
  have hshift : id >>> (idrBits * n) = id / 64 ^ n := by
    show id >>> (6 * n) = _
    rw [Nat.shiftRight_eq_div_pow, Nat.pow_mul]
  have hxor : id / 64 ^ n ^^^ id / 64 ^ n % 64 ^^^ m.val = 64 * (id / 64 ^ n / 64) + m.val :=
    xor_replace (b := 6) m.isLt
  rw [hshift, val_digit, Nat.shiftLeft_eq, hxor, ← div_pow_succ]
  show (64 * (id / 64 ^ (n + 1)) + m.val) * 2 ^ (6 * n) = _
  rw [Nat.pow_mul, Nat.add_mul, Nat.pow_succ, Nat.mul_comm 64, Nat.mul_assoc, Nat.mul_comm 64]

theorem newId_eq {id n : Nat} (hzero : id % 64 ^ n = 0) (m : Fin 64) :
    (if m ≠ digit id n then
      ((id >>> (idrBits * n)) ^^^ (digit id n).val ^^^ m.val) <<< (idrBits * n)
    else id) = id / 64 ^ (n + 1) * 64 ^ (n + 1) + m.val * 64 ^ n := by
  split
  · exact setDigit_eq id n m
  · rename_i hm
    rw [not_not.mp hm, val_digit]
    have hdiv := Nat.div_add_mod' (id / 64 ^ n) 64
    calc id = id / 64 ^ n * 64 ^ n + id % 64 ^ n := (Nat.div_add_mod' id (64 ^ n)).symm
      _ = (id / 64 ^ n / 64 * 64 + id / 64 ^ n % 64) * 64 ^ n := by rw [hzero, hdiv, Nat.add_zero]
      _ = _ := by rw [Nat.add_mul, div_pow_succ, Nat.mul_assoc, Nat.pow_succ, Nat.mul_comm 64]

/-- The first identifier below an entry. -/
structure Starts (n : Nat) (m : Fin 64) (id id' : Nat) : Prop where
  block : id' / 64 ^ (n + 1) = id / 64 ^ (n + 1)
  digit : digit id' n = m
  low : id' % 64 ^ n = 0

theorem starts_newId (id n : Nat) (m : Fin 64) :
    Starts n m id (id / 64 ^ (n + 1) * 64 ^ (n + 1) + m.val * 64 ^ n) := by
  have hpos : 0 < 64 ^ n := Nat.pow_pos (by omega)
  have heq : id / 64 ^ (n + 1) * 64 ^ (n + 1) + m.val * 64 ^ n =
      (id / 64 ^ (n + 1) * 64 + m.val) * 64 ^ n := by
    rw [Nat.add_mul, Nat.mul_assoc, Nat.pow_succ, Nat.mul_comm 64]
  have hdiv : (id / 64 ^ (n + 1) * 64 ^ (n + 1) + m.val * 64 ^ n) / 64 ^ n =
      id / 64 ^ (n + 1) * 64 + m.val := by
    rw [heq, Nat.mul_div_cancel _ hpos]
  have hm := m.isLt
  refine ⟨?_, Fin.ext ?_, ?_⟩
  · rw [div_pow_succ, hdiv]
    omega
  · rw [val_digit, hdiv]
    omega
  · rw [heq, Nat.mul_mod_left]

theorem exists_newId {id n : Nat} (hlow : id % 64 ^ n = 0) (m : Fin 64) :
    ∃ id₁, (if m ≠ digit id n then
      ((id >>> (idrBits * n)) ^^^ (digit id n).val ^^^ m.val) <<< (idrBits * n)
    else id) = id₁ ∧ Starts n m id id₁ :=
  ⟨_, newId_eq hlow m, starts_newId id n m⟩

/-- There are five levels of layers at most. -/
theorem lt_of_block {id id' n : Nat} (hid : id < 64 ^ 5) (hn : n < 5)
    (hblock : id' / 64 ^ (n + 1) = id / 64 ^ (n + 1)) : id' < 64 ^ 5 := by
  have htop : id' / 64 ^ 5 = id / 64 ^ 5 := block_mono hblock hn
  rw [Nat.div_eq_of_lt hid] at htop
  exact Nat.lt_of_div_eq_zero (by decide) htop

/-! ### New identifiers -/

theorem markFull_of_space {id n : Nat} {p : IdrLayer} (h : p.full = false) (pa : Path) :
    markFull id n p pa = plug (.layer p) pa := by
  cases pa with
  | nil => rfl
  | cons frame pa =>
    unfold markFull
    rw [h]
    rfl

/-- `id` is given out for `ptr`, with the bits and counts in order. -/
structure Inserted (d : Bool) (n : Nat) (p p' : IdrLayer) (id ptr : Nat) : Prop where
  good : Good d n p'
  count : p'.count ≠ 0
  content : ∀ j, p'.content n j =
    if j % 64 ^ (n + 1) = id % 64 ^ (n + 1) then some ptr else p.content n j
  fresh : p.content n id = none

/-- An entry with nothing in it takes a pointer of the user. -/
theorem Good.plant {d : Bool} {p : IdrLayer} (h : Good d 0 p) {m : Fin 64}
    (hm : p.bit m = false) {id : Nat} (hid : digit id 0 = m) (ptr : Nat) :
    Inserted d 0 p { (p.set m (.user ptr)).setBit m with count := p.count + 1 } id ptr := by
  have hothers := Layer.setBit_set_others p m (.user ptr)
  have hself : ((p.set m (.user ptr)).setBit m).bit m = true := Layer.bit_setBit_self _ m
  have hary : ((p.set m (.user ptr)).setBit m).ary m = .user ptr := Layer.ary_set_self p m _
  have hgood : Good d 0 { (p.set m (.user ptr)).setBit m with count := p.count + 1 } := by
    refine h.update hothers ⟨ptr, hary, fun hf => ?_⟩ ?_
    · exact absurd (hself.symm.trans hf) (by simp)
    · show p.count + 1 + (p.bit m).toNat = p.count + (((p.set m (.user ptr)).setBit m).bit m).toNat
      rw [hm, hself]
      simp
  refine ⟨hgood, hgood.count_ne_zero (i := m) hself, fun j => ?_, ?_⟩
  · have hplace : j % 64 ^ (0 + 1) = id % 64 ^ (0 + 1) ↔ digit j 0 = m := by
      rw [same_place_in_leaf, hid]
    by_cases hj : digit j 0 = m
    · rw [if_pos (hplace.mpr hj)]
      show content 0 (((p.set m (.user ptr)).setBit m).bit _)
        (((p.set m (.user ptr)).setBit m).ary _) j = _
      rw [hj, hself, hary]
      rfl
    · rw [if_neg (fun heq => hj (hplace.mp heq))]
      exact content_of_ne hothers hj
  · unfold Layer.content
    rw [hid, hm]
    obtain ⟨old, hold, -⟩ := h.1 m
    rw [hold]
    rfl

theorem Good.size_plant {d : Bool} {p : IdrLayer} (h : Good d 0 p) (m : Fin 64) (ptr : Nat) :
    (Slot.layer { (p.set m (.user ptr)).setBit m with count := p.count + 1 }).size =
      (Slot.layer p).size := by
  have hcount : (Slot.layer { (p.set m (.user ptr)).setBit m with count := p.count + 1 }).size =
      (Slot.layer ((p.set m (.user ptr)).setBit m)).size := size_congr fun _ => rfl
  have hset := size_update fun i hi => (Layer.setBit_set_others p m (.user ptr) i hi).2
  have hself : ((p.set m (.user ptr)).setBit m).ary m = .user ptr := Layer.ary_set_self p m _
  rw [hself, size_user, Holds.size_eq_zero (h.1 m)] at hset
  exact hcount.trans hset

/-- What `markFull` does to the layer above `c`. -/
def withChild (p : IdrLayer) (m : Fin 64) (c : IdrLayer) : IdrLayer :=
  if c.full then (p.set m (.layer c)).setBit m else p.set m (.layer c)

theorem withChild_others {p c : IdrLayer} {m : Fin 64} :
    ∀ i, i ≠ m → (withChild p m c).bit i = p.bit i ∧ (withChild p m c).ary i = p.ary i := by
  unfold withChild
  split
  · exact Layer.setBit_set_others p m _
  · exact Layer.set_others p m _

theorem withChild_self {p c : IdrLayer} {m : Fin 64} (hm : p.bit m = false) :
    (withChild p m c).bit m = c.full ∧ (withChild p m c).ary m = .layer c ∧
      (withChild p m c).count = p.count := by
  unfold withChild
  cases hfull : c.full with
  | true => exact ⟨Layer.bit_setBit_self _ m, Layer.ary_set_self p m _, rfl⟩
  | false => exact ⟨hm, Layer.ary_set_self p m _, rfl⟩

/-- A layer above one in which there was space. -/
theorem markFull_withChild {id n : Nat} {p c : IdrLayer} {m : Fin 64} (hm : p.bit m = false)
    (hid : digit id (n + 1) = m) (pa : Path) :
    markFull id n c ((p, m) :: pa) = markFull id (n + 1) (withChild p m c) pa := by
  show (if c.full then _ else _) = _
  unfold withChild
  split
  · rw [hid]
  · have hspace : (p.set m (.layer c)).full = false := Layer.full_eq_false hm
    rw [markFull_of_space hspace]
    rfl

section Above

variable {d : Bool} {n : Nat} {p p₁ c c' : IdrLayer} {m : Fin 64}

/-- `p₁` is `p`, or `p` with a new layer counted; `c` is at `m`. -/
structure Entered (n : Nat) (p p₁ c : IdrLayer) (m : Fin 64) : Prop where
  bit : p.bit m = false
  same : ∀ i, p₁.bit i = p.bit i ∧ p₁.ary i = p.ary i
  count : p₁.count + (used (n + 1) p m).toNat = p.count + 1
  content : ∀ j, digit j (n + 1) = m → p.content (n + 1) j = c.content n j

theorem entered_layer (hm : p.bit m = false) (hc : p.ary m = .layer c) : Entered n p p c m := by
  refine ⟨hm, fun i => ⟨rfl, rfl⟩, ?_, fun j hj => ?_⟩
  · rw [used_of_layer hc]
    rfl
  · unfold Layer.content
    rw [hj, hc]
    rfl

theorem entered_blank (hm : p.bit m = false) (hc : p.ary m = null) :
    Entered n p { p with count := p.count + 1 } blank m := by
  refine ⟨hm, fun i => ⟨rfl, rfl⟩, ?_, fun j hj => ?_⟩
  · rw [used_of_null hc]
    exact Int.add_zero _
  · unfold Layer.content
    rw [hj, hc, hm, content_null]
    have hblank : blank.bit (digit j n) = false := by simp [Layer.bit, blank]
    rw [hblank]
    exact (content_null n j).symm

/-- Another layer is put at `m`. -/
theorem Entered.size_set {q : IdrLayer} (h : Entered n p p₁ c m)
    (hothers : ∀ i, i ≠ m → q.bit i = p₁.bit i ∧ q.ary i = p₁.ary i) (hq : q.ary m = .layer c') :
    (Slot.layer q).size + (p.ary m).size = (Slot.layer p).size + (Slot.layer c').size := by
  rw [← hq]
  exact size_update fun i hi => (hothers i hi).2.trans (h.same i).2

/-- A place below `m` is given out. -/
theorem Inserted.above {id ptr : Nat} (h : Good d (n + 1) p) (hentered : Entered n p p₁ c m)
    (hid : digit id (n + 1) = m) (hc : Inserted d n c c' id ptr) :
    Inserted d (n + 1) p (withChild p₁ m c') id ptr := by
  have hm : p₁.bit m = false := (hentered.same m).1.trans hentered.bit
  obtain ⟨hbit, hary, hcount⟩ := withChild_self (c := c') hm
  have hothers : ∀ i, i ≠ m → (withChild p₁ m c').bit i = p.bit i ∧
      (withChild p₁ m c').ary i = p.ary i := fun i hi =>
    ⟨(withChild_others i hi).1.trans (hentered.same i).1,
      (withChild_others i hi).2.trans (hentered.same i).2⟩
  have hused : used (n + 1) (withChild p₁ m c') m = true := used_of_layer hary
  have hgood : Good d (n + 1) (withChild p₁ m c') := by
    refine h.update hothers ?_ ?_
    · rw [hbit, hary]
      exact hc.good.holds fun _ => hc.count
    · rw [hused, hcount]
      exact hentered.count
  refine ⟨hgood, hgood.count_ne_zero hused, fun j => ?_, ?_⟩
  · by_cases hj : digit j (n + 1) = m
    · rw [hentered.content j hj, if_congr (same_place_of_digit (hj.trans hid.symm)) rfl rfl,
        ← hc.content j]
      unfold Layer.content
      rw [hj, hary]
      rfl
    · have hplace : ¬ j % 64 ^ (n + 1 + 1) = id % 64 ^ (n + 1 + 1) := fun heq =>
        hj ((same_place_iff.mp heq).2.trans hid)
      rw [if_neg hplace]
      exact content_of_ne hothers hj
  · rw [hentered.content id hid]
    exact hc.fresh

/-- A layer was missing below `m`. -/
theorem Good.above (h : Good false (n + 1) p) (hentered : Entered n p p₁ c m)
    (hc : Good false n c') (hspace : c'.full = false)
    (hcontent : ∀ j, c'.content n j = c.content n j) :
    Good false (n + 1) (p₁.set m (.layer c')) ∧ (p₁.set m (.layer c')).full = false ∧
      ∀ j, (p₁.set m (.layer c')).content (n + 1) j = p.content (n + 1) j := by
  have hm : p₁.bit m = false := (hentered.same m).1.trans hentered.bit
  have hary : (p₁.set m (.layer c')).ary m = .layer c' := Layer.ary_set_self p₁ m _
  have hothers : ∀ i, i ≠ m → (p₁.set m (.layer c')).bit i = p.bit i ∧
      (p₁.set m (.layer c')).ary i = p.ary i := fun i hi =>
    ⟨(Layer.set_others p₁ m _ i hi).1.trans (hentered.same i).1,
      (Layer.set_others p₁ m _ i hi).2.trans (hentered.same i).2⟩
  refine ⟨h.update hothers ?_ ?_, Layer.full_eq_false (i := m) hm, fun j => ?_⟩
  · have hholds := hc.holds fun hd => by cases hd
    rw [hspace] at hholds
    rw [Layer.bit_set, hm, hary]
    exact hholds
  · rw [used_of_layer hary]
    exact hentered.count
  · by_cases hj : digit j (n + 1) = m
    · rw [hentered.content j hj, ← hcontent j]
      unfold Layer.content
      rw [hj, hary]
      rfl
    · exact content_of_ne hothers hj

end Above

theorem digit_of_low {id n : Nat} (hlow : id % 64 ^ (n + 1) = 0) :
    digit id n = 0 ∧ id % 64 ^ n = 0 := by
  have hzero : id % 64 ^ (n + 1) = 0 % 64 ^ (n + 1) := by rw [hlow, Nat.zero_mod]
  obtain ⟨hmod, hdigit⟩ := same_place_iff.mp hzero
  refine ⟨hdigit.trans ?_, hmod.trans (Nat.zero_mod _)⟩
  apply Fin.ext
  rw [val_digit, Nat.zero_div]
  rfl

theorem not_maxIdBit_le {id : Nat} (h : id < 64 ^ 5) : ¬ maxIdBit ≤ id := by
  unfold maxIdBit maxIdShift
  omega

/-- What a call of `sub_alloc` does that starts at `id` in the layer `p`.  The layers that come
    into the tree are those that go from the free list. -/
def Allocates (d : Bool) (n : Nat) (p : IdrLayer) (pa : Path) (free : List IdrLayer) (id ptr : Nat)
    (r : SubAlloc) : Prop :=
  (∃ p', r = .noLayer (plug (.layer p') pa) [] ∧ Good false n p' ∧ p'.full = false ∧
    (∀ j, p'.content n j = p.content n j) ∧ free.length < n ∧
    (Slot.layer p').size = (Slot.layer p).size + free.length) ∨
  ∃ id' p' k, r = .done id' (markFull id' n p' pa) (free.drop k) ∧ k ≤ n ∧
    (k ≤ free.length ∧ (Slot.layer p').size = (Slot.layer p).size + k) ∧
    Inserted d n p p' id' ptr ∧ id' / 64 ^ (n + 1) = id / 64 ^ (n + 1) ∧
    ∀ j < id', j / 64 ^ (n + 1) = id / 64 ^ (n + 1) → p.content n j ≠ none

/-- Before an identifier at the first entry with space come those below full entries, and
    those below the same entry. -/
theorem Good.taken_or_below {d : Bool} {n : Nat} {p : IdrLayer} (h : Good d n p) {m : Fin 64}
    (hbefore : ∀ i < m, p.bit i = true) {id j : Nat} (hdigit : digit id n = m)
    (hblock : j / 64 ^ (n + 1) = id / 64 ^ (n + 1)) (hj : j < id) :
    p.content n j ≠ none ∨ (digit j n = m ∧ j / 64 ^ n = id / 64 ^ n) := by
  have hle : digit j n ≤ m := by
    rw [← hdigit, Fin.le_def, val_digit, val_digit]
    exact digit_le hblock (Nat.le_of_lt hj)
  rcases lt_or_eq_of_le hle with hlt | heq
  · exact .inl (h.content_of_bit (hbefore _ hlt))
  · exact .inr ⟨heq, block_eq hblock (digit_eq_iff.mp (heq.trans hdigit.symm))⟩

/-- What it does below an entry, it does in the layer. -/
theorem Allocates.above {d : Bool} {n : Nat} {p p₁ c : IdrLayer} {pa : Path}
    {free free₁ : List IdrLayer} {id id₁ ptr : Nat} {m : Fin 64} {r : SubAlloc}
    (h : Good d (n + 1) p) (hentered : Entered n p p₁ c m)
    (hbefore : ∀ i < m, p.bit i = true) (hstarts : Starts (n + 1) m id id₁)
    (hfree : ∃ k ≤ 1, free₁ = free.drop k ∧ k ≤ free.length ∧
      (Slot.layer c).size = (p.ary m).size + k)
    (hr : Allocates d n c ((p₁, m) :: pa) free₁ id₁ ptr r) :
    Allocates d (n + 1) p pa free id ptr r := by
  obtain ⟨k₁, hk₁, rfl, hlen₁, hsize₁⟩ := hfree
  rcases hr with ⟨c', rfl, hgood, hspace, hcontent, hlen, hsize⟩ |
    ⟨id', c', k, rfl, hk, ⟨hlen, hsize⟩, hinserted, hblock, hleast⟩
  · obtain ⟨hgood', hspace', hcontent'⟩ := h.weaken.above hentered hgood hspace hcontent
    have hset := hentered.size_set (q := p₁.set m (.layer c')) (Layer.set_others p₁ m _)
      (Layer.ary_set_self p₁ m _)
    rw [List.length_drop] at hlen hsize
    exact .inl ⟨p₁.set m (.layer c'), rfl, hgood', hspace', hcontent', by omega, by omega⟩
  · have hdigit : digit id' (n + 1) = m := by
      rw [← hstarts.digit, digit_eq_iff, hblock]
    have hm : p₁.bit m = false := (hentered.same m).1.trans hentered.bit
    have htop : id' / 64 ^ (n + 1 + 1) = id / 64 ^ (n + 1 + 1) :=
      (block_mono hblock (Nat.le_succ _)).trans hstarts.block
    have hset := hentered.size_set (q := withChild p₁ m c') withChild_others
      (withChild_self hm).2.1
    rw [List.length_drop] at hlen
    refine .inr ⟨id', withChild p₁ m c', k₁ + k, ?_, by omega, ⟨by omega, by omega⟩,
      hinserted.above h hentered hdigit, htop, fun j hj hjblock => ?_⟩
    · rw [markFull_withChild hm hdigit, List.drop_drop]
    · rcases h.taken_or_below hbefore hdigit (hjblock.trans htop.symm) hj with
        htaken | ⟨heq, hbelow⟩
      · exact htaken
      · rw [hentered.content j heq]
        exact hleast j hj (hbelow.trans hblock)

/-- **`sub_alloc`**: in a layer with space, from the first place that may be free. -/
theorem exists_subAlloc {d : Bool} {n fuel ptr id : Nat} {free : List IdrLayer} {p : IdrLayer}
    {pa : Path} (h : Good d n p) (hspace : p.full = false) (hlow : id % 64 ^ n = 0)
    (hbelow : ∀ i < digit id n, p.bit i = true) (hid : id < 64 ^ 5) (hn : n < 5)
    (hfree : ∀ q ∈ free, Zeroed q) (hfuel : n < fuel) :
    ∃ r, subAlloc ptr fuel ⟨free, n, p, pa, id⟩ = some r ∧ Allocates d n p pa free id ptr r := by
  induction n generalizing fuel free p pa id with
  | zero =>
    obtain ⟨fuel, rfl⟩ : ∃ k, fuel = k + 1 := ⟨fuel - 1, by omega⟩
    obtain ⟨m, hnext, hm, hbefore⟩ := Layer.exists_nextSpace hspace hbelow
    obtain ⟨id₁, hid₁, hstarts⟩ := exists_newId hlow m
    have hlt := lt_of_block hid hn hstarts.block
    have hturn : subAllocTurn ptr ⟨free, 0, p, pa, id⟩ = some (.inl (.done id₁ (markFull id₁ 0
        { (p.set m (.user ptr)).setBit m with count := p.count + 1 } pa) free)) := by
      unfold subAllocTurn
      dsimp only
      rw [hnext]
      dsimp only
      rw [hid₁, if_neg (not_maxIdBit_le hlt)]
      rfl
    have hsize := (h.size_plant m ptr).trans (Nat.add_zero _).symm
    refine ⟨_, ?_, .inr ⟨id₁, _, 0, rfl, Nat.le_refl 0, ⟨Nat.zero_le _, hsize⟩,
      h.plant hm hstarts.digit ptr, hstarts.block, fun j hj hblock => ?_⟩⟩
    · unfold subAlloc
      rw [hturn]
      rfl
    · rcases h.taken_or_below hbefore hstarts.digit (hblock.trans hstarts.block.symm) hj with
        htaken | ⟨-, hsame⟩
      · exact htaken
      · rw [Nat.pow_zero, Nat.div_one, Nat.div_one] at hsame
        exact absurd hsame (Nat.ne_of_lt hj)
  | succ n ih =>
    obtain ⟨fuel, rfl⟩ : ∃ k, fuel = k + 1 := ⟨fuel - 1, by omega⟩
    obtain ⟨m, hnext, hm, hbefore⟩ := Layer.exists_nextSpace hspace hbelow
    obtain ⟨id₁, hid₁, hstarts⟩ := exists_newId hlow m
    have hlt := lt_of_block hid hn hstarts.block
    obtain ⟨hdigit, hlow'⟩ := digit_of_low hstarts.low
    have hnone : ∀ c : IdrLayer, ∀ i < digit id₁ n, c.bit i = true := fun c i hi => by
      rw [hdigit] at hi
      exact absurd hi (Fin.not_lt_zero i)
    unfold subAlloc subAllocTurn
    dsimp only
    rw [hnext]
    dsimp only
    rw [hid₁, if_neg (not_maxIdBit_le hlt)]
    have hchild := h.1 m
    rw [hm] at hchild
    rcases hchild with ⟨hnull, -⟩ | ⟨c, hc, hgood, hcspace, -⟩
    · rw [hnull]
      cases free with
      | nil => exact ⟨_, rfl, .inl ⟨p, rfl, h.weaken, hspace, fun _ => rfl, Nat.succ_pos n, rfl⟩⟩
      | cons q free =>
        have hblank : q.set 0 null = blank := hfree q List.mem_cons_self
        have hentered := entered_blank (n := n) hm hnull
        obtain ⟨r, hr, hallocates⟩ := ih (good_blank d n) (Layer.full_eq_false (i := 0) rfl)
          hlow' (hnone blank) hlt (by omega)
          (fun q' hq' => hfree q' (List.mem_cons_of_mem q hq')) (Nat.lt_of_succ_lt_succ hfuel)
        refine ⟨r, ?_, hallocates.above h hentered hbefore hstarts
          ⟨1, Nat.le_refl 1, rfl, Nat.succ_pos _, by rw [size_blank, hnull, size_null]⟩⟩
        show subAlloc ptr fuel ⟨free, n, q.set 0 null, _, _⟩ = some r
        rw [hblank]
        exact hr
    · rw [hc]
      obtain ⟨r, hr, hallocates⟩ := ih hgood hcspace.symm hlow' (hnone c) hlt (by omega) hfree
        (Nat.lt_of_succ_lt_succ hfuel)
      exact ⟨r, hr, hallocates.above h (entered_layer hm hc) hbefore hstarts
        ⟨0, Nat.zero_le 1, rfl, Nat.zero_le _, by rw [hc]; rfl⟩⟩

/-! ### Removing -/

/-- What is left above a layer that is let go. -/
def detach : Path → List IdrLayer → Slot × List IdrLayer × Bool
  | [], free => (null, free, true)
  | (q, i) :: pa, free => releaseLoop pa (q.set i null) free

theorem releaseLoop_eq (pa : Path) (p : IdrLayer) (free : List IdrLayer) :
    releaseLoop pa p free =
      if p.count - 1 = 0 then detach pa ({ p with count := p.count - 1 } :: free)
      else (plug (.layer { p with count := p.count - 1 }) pa, free, false) := by
  cases pa <;> rfl

section Remove

variable {d b : Bool} {n id : Nat} {p : IdrLayer} {pa : Path} {free : List IdrLayer}

/-- What is not there is not removed. -/
theorem subRemove_of_none {s : Slot} (h : Holds d (n + 1) b s)
    (hnone : content (n + 1) b s id = none) :
    subRemove id n s pa free = some (plug s pa, free, false) := by
  induction n generalizing b s pa with
  | zero =>
    rcases h with ⟨rfl, -⟩ | ⟨p, rfl, hgood, -, -⟩
    · rfl
    · have hbit : p.bit (digit id 0) = false := by
        by_contra hbit
        exact Good.content_of_bit hgood (Bool.eq_true_of_not_eq_false hbit) hnone
      unfold subRemove
      dsimp only
      rw [hbit]
      rfl
  | succ n ih =>
    rcases h with ⟨rfl, -⟩ | ⟨p, rfl, hgood, -, -⟩
    · rfl
    · have hbit : p.bit (digit id (n + 1)) = false := by
        by_contra hbit
        exact Good.content_of_bit hgood (Bool.eq_true_of_not_eq_false hbit) hnone
      show subRemove id n (p.ary _) ((p.clearBit _, _) :: pa) free = _
      rw [ih (hgood.1 _) hnone, Layer.clearBit_of_eq_false hbit]
      show some (plug (.layer (p.set _ _)) pa, free, false) = _
      rw [Layer.set_of_eq _ rfl]

/-- The place of `id` has been cleared. -/
def Cleared (n : Nat) (p p' : IdrLayer) (id : Nat) : Prop :=
  ∀ j, p'.content n j = if j % 64 ^ (n + 1) = id % 64 ^ (n + 1) then none else p.content n j

/-- What a call of `sub_remove` does that gets to the layer `p`.  The layers that go from the
    tree come to the free list. -/
def Removes (d : Bool) (n : Nat) (p : IdrLayer) (pa : Path) (free : List IdrLayer) (id : Nat)
    (r : Slot × List IdrLayer × Bool) : Prop :=
  ∃ free' : List IdrLayer, (∀ q ∈ free', Zeroed q) ∧
    ((∃ p', r = (plug (.layer p') pa, free', false) ∧ Good d n p' ∧ p'.count ≠ 0 ∧
        p'.full = false ∧ Cleared n p p' id ∧
        (Slot.layer p').size + free'.length = (Slot.layer p).size + free.length) ∨
      (r = detach pa free' ∧ free'.length = (Slot.layer p).size + free.length ∧
        ∀ j, j % 64 ^ (n + 1) ≠ id % 64 ^ (n + 1) → p.content n j = none))

theorem blank_content (n j : Nat) : blank.content n j = none := by
  have hbit : blank.bit (digit j n) = false := by simp [Layer.bit, blank]
  unfold Layer.content
  rw [hbit]
  exact content_null n j

/-- The end of `sub_remove` at a layer whose entry `m` goes. -/
theorem Good.release (h : Good d n p) {m : Fin 64} (hused : used n p m = true)
    (hid : digit id n = m) (hfree : ∀ q ∈ free, Zeroed q) {free₀ : List IdrLayer}
    (hlen : free.length = (p.ary m).size + free₀.length)
    (hrest : ∀ j, digit j n = m → j % 64 ^ (n + 1) ≠ id % 64 ^ (n + 1) → p.content n j = none) :
    Removes d n p pa free₀ id (releaseLoop pa ((p.clearBit m).set m null) free) := by
  have hothers := Layer.clearBit_set_others p m null
  have hbit : ((p.clearBit m).set m null).bit m = false := Layer.bit_clearBit_self p m
  have hary : ((p.clearBit m).set m null).ary m = null := Layer.ary_set_self _ m _
  obtain ⟨q, hq⟩ : ∃ q : IdrLayer, { (p.clearBit m).set m null with count := p.count - 1 } = q :=
    ⟨_, rfl⟩
  have hqbit : ∀ i, q.bit i = ((p.clearBit m).set m null).bit i := fun i => by rw [← hq]; rfl
  have hqary : ∀ i, q.ary i = ((p.clearBit m).set m null).ary i := fun i => by rw [← hq]
  have hqothers : ∀ i, i ≠ m → q.bit i = p.bit i ∧ q.ary i = p.ary i := fun i hi =>
    ⟨(hqbit i).trans (hothers i hi).1, (hqary i).trans (hothers i hi).2⟩
  have hqused : used n q m = false := by
    unfold used
    rw [hqbit, hqary, hbit, hary]
    split <;> rfl
  have hgood : Good d n q := by
    refine h.update hqothers ?_ ?_
    · rw [hqbit, hqary, hbit, hary]
      exact holds_null d n
    · rw [hused, hqused, ← hq]
      show p.count - 1 + 1 = p.count + 0
      omega
  have hself : ∀ j, digit j n = m → q.content n j = none := fun j hj => by
    unfold Layer.content
    rw [hj, hqbit, hqary, hbit, hary]
    exact content_null n j
  rw [releaseLoop_eq]
  show Removes d n p pa free₀ id (if p.count - 1 = 0 then _ else _)
  rw [show ({ (p.clearBit m).set m null with
    count := ((p.clearBit m).set m null).count - 1 } : IdrLayer) = q from hq]
  have hqcount : q.count = p.count - 1 := by rw [← hq]
  have hqsize := size_update fun i hi => (hqothers i hi).2
  rw [hqary, hary, size_null] at hqsize
  split
  · rename_i hzero
    have hblank := hgood.eq_blank (hqcount.trans hzero)
    refine ⟨q :: free, List.forall_mem_cons.mpr ⟨?_, hfree⟩, .inr ⟨rfl, ?_, fun j hj => ?_⟩⟩
    · rw [hblank]
      exact Layer.set_of_eq _ rfl
    · rw [hblank, size_blank] at hqsize
      rw [List.length_cons]
      omega
    · by_cases hjm : digit j n = m
      · exact hrest j hjm hj
      · rw [← content_of_ne hqothers hjm, hblank]
        exact blank_content n j
  · rename_i hpos
    refine ⟨free, hfree, .inl ⟨q, rfl, hgood, by omega, Layer.full_eq_false (i := m) ?_,
      fun j => ?_, by omega⟩⟩
    · rw [hqbit, hbit]
    · by_cases hjm : digit j n = m
      · rw [hself j hjm]
        split
        · rfl
        · rename_i hj
          exact (hrest j hjm hj).symm
      · rw [if_neg fun hj => hjm ((same_place_iff.mp hj).2.trans hid)]
        exact content_of_ne hqothers hjm

/-- A layer below `m` has lost an entry, but not its last. -/
theorem Good.keep {c c' : IdrLayer} {m : Fin 64} (h : Good d (n + 1) p) (hc : p.ary m = .layer c)
    (hid : digit id (n + 1) = m) (hgood : Good d n c') (hcount : c'.count ≠ 0)
    (hspace : c'.full = false) (hcleared : Cleared n c c' id) :
    Good d (n + 1) ((p.clearBit m).set m (.layer c')) ∧
      ((p.clearBit m).set m (.layer c')).count ≠ 0 ∧
      ((p.clearBit m).set m (.layer c')).full = false ∧
      Cleared (n + 1) p ((p.clearBit m).set m (.layer c')) id := by
  have hothers := Layer.clearBit_set_others p m (.layer c')
  have hbit : ((p.clearBit m).set m (.layer c')).bit m = false := Layer.bit_clearBit_self p m
  have hary : ((p.clearBit m).set m (.layer c')).ary m = .layer c' := Layer.ary_set_self _ m _
  have hused : used (n + 1) p m = true := used_of_layer hc
  have hused' : used (n + 1) ((p.clearBit m).set m (.layer c')) m = true := used_of_layer hary
  have hupdate : Good d (n + 1) ((p.clearBit m).set m (.layer c')) := by
    refine h.update hothers ?_ ?_
    · have hholds := hgood.holds fun _ => hcount
      rw [hspace] at hholds
      rw [hbit, hary]
      exact hholds
    · rw [hused, hused']
      rfl
  refine ⟨hupdate, hupdate.count_ne_zero hused', Layer.full_eq_false hbit, fun j => ?_⟩
  by_cases hj : digit j (n + 1) = m
  · have hchild := hcleared j
    unfold Layer.content at hchild ⊢
    rw [if_congr (same_place_of_digit (hj.trans hid.symm)) rfl rfl, hj, hary, hc]
    exact hchild
  · rw [if_neg fun heq => hj ((same_place_iff.mp heq).2.trans hid)]
    exact content_of_ne hothers hj

/-- **`sub_remove`** for an identifier that is there. -/
theorem exists_subRemove (h : Good d n p) (hsome : p.content n id ≠ none)
    (hfree : ∀ q ∈ free, Zeroed q) :
    ∃ r, subRemove id n (.layer p) pa free = some r ∧ Removes d n p pa free id r := by
  induction n generalizing p pa with
  | zero =>
    have hbit : p.bit (digit id 0) = true := by
      by_contra hbit
      obtain ⟨ptr, hptr, -⟩ := h.1 (digit id 0)
      unfold Layer.content at hsome
      rw [hptr, Bool.eq_false_of_not_eq_true hbit] at hsome
      exact hsome rfl
    have hlen : free.length = (p.ary (digit id 0)).size + free.length := by
      rw [Holds.size_eq_zero (h.1 (digit id 0)), Nat.zero_add]
    refine ⟨_, ?_, h.release (m := digit id 0) hbit rfl hfree hlen fun j hj hne => ?_⟩
    · unfold subRemove
      dsimp only
      rw [hbit]
      rfl
    · exact absurd (same_place_iff.mpr ⟨by rw [Nat.pow_zero, Nat.mod_one, Nat.mod_one], hj⟩) hne
  | succ n ih =>
    have hchild := h.1 (digit id (n + 1))
    rcases hchild with ⟨hnull, hbit⟩ | ⟨c, hc, hgood, -, -⟩
    · unfold Layer.content at hsome
      rw [hnull, hbit, content_null] at hsome
      exact absurd rfl hsome
    · have hcontent : ∀ j, digit j (n + 1) = digit id (n + 1) →
          p.content (n + 1) j = c.content n j := fun j hj => by
        unfold Layer.content
        rw [hj, hc]
        rfl
      rw [hcontent id rfl] at hsome
      obtain ⟨r, hr, free', hfree', hcases⟩ :
          ∃ r, subRemove id n (.layer c)
              ((p.clearBit (digit id (n + 1)), digit id (n + 1)) :: pa) free = some r ∧
            Removes d n c ((p.clearBit (digit id (n + 1)), digit id (n + 1)) :: pa) free id r :=
        ih hgood hsome
      have hrun : subRemove id (n + 1) (.layer p) pa free = some r := by
        show subRemove id n (p.ary _) _ free = some r
        rw [hc]
        exact hr
      refine ⟨r, hrun, ?_⟩
      rcases hcases with ⟨c', rfl, hgood', hcount, hspace, hcleared, hsize⟩ | ⟨rfl, hlen, hrest⟩
      · obtain ⟨hkeep, hkcount, hkspace, hkcleared⟩ := h.keep hc rfl hgood' hcount hspace hcleared
        have hset := size_update fun i hi => (Layer.clearBit_set_others p (digit id (n + 1))
          (.layer c') i hi).2
        have hself : ((p.clearBit (digit id (n + 1))).set (digit id (n + 1)) (.layer c')).ary
            (digit id (n + 1)) = .layer c' := Layer.ary_set_self _ _ _
        rw [hself, hc] at hset
        exact ⟨free', hfree', .inl ⟨_, rfl, hkeep, hkcount, hkspace, hkcleared, by omega⟩⟩
      · refine h.release (used_of_layer hc) rfl hfree' (by rw [hc]; exact hlen) fun j hj hne => ?_
        rw [hcontent j hj]
        exact hrest j fun heq => hne (same_place_iff.mpr ⟨heq, hj⟩)

end Remove

end VmkLinux.Idr
