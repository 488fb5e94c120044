/-
  VmkLinux/Stubs/Regions.lean
  ===========================
  **The I/O regions** (`vmklinux26/vmware/linux_stubs.c`): `__check_region`, `__request_region`
  and `__release_region` on the list `regions`.

  What the list is for is a set of disjoint ranges: a request adds a range that overlaps none, a
  release takes one out, a check asks for an overlap.  The list has them in order, and each search
  stops at the first region beyond the range it is for.  A `resource_size_t` has 32 bits, so that
  this holds for ranges that end below 2^32 (`regions_refine_ranges`).
-/
import Mathlib.Algebra.Group.Int.Defs
import Mathlib.Algebra.Group.Nat.Defs
import Mathlib.Data.Set.Insert
import VmkLinux.OrderedChain
import VmkLinux.Sequence

namespace VmkLinux.Stubs.Regions

open VmkLinux.OrderedChain VmkLinux.Sequence

/-! ### The code -/

/-- `Region`, without the link. -/
structure Region where
  base : BitVec 32
  length : BitVec 32
  name : String
deriving DecidableEq, Repr

/-- What the heap answers to the two allocations of `AddRegion`. -/
structure Alloc where
  region : Bool := true
  name : Bool := true
deriving DecidableEq, Repr

/-- The test of a region that stands in the way. -/
def Region.conflicts (r : Region) (start extent : BitVec 32) : Bool :=
  (decide (r.base ≤ start) && decide (start < r.base + r.length)) ||
    (decide (start < r.base) && decide (r.base < start + extent))

/-- `AddRegion`; `prev` are the regions as far as the one that the new one is linked behind, and
    `next` those after it. -/
def addRegion (prev next : List Region) (start extent : BitVec 32) (name : String)
    (alloc : Alloc) : List Region :=
  if !alloc.region then prev ++ next
  else if !alloc.name then prev ++ next
  else prev ++ { base := start, length := extent, name := name } :: next

/-- `__check_region`. -/
def checkRegion (start extent : BitVec 32) : List Region → Int
  | [] => 0
  | r :: next =>
      if r.conflicts start extent then 1
      else if start < r.base then 0
      else checkRegion start extent next

/-- The loop of `__request_region`, with the regions that it has passed. -/
def requestLoop (start extent : BitVec 32) (name : String) (alloc : Alloc) (prev : List Region) :
    List Region → List Region
  | [] => addRegion prev [] start extent name alloc
  | r :: next =>
      if r.conflicts start extent then prev ++ r :: next
      else if start < r.base then addRegion prev (r :: next) start extent name alloc
      else requestLoop start extent name alloc (prev ++ [r]) next

def requestRegion (start extent : BitVec 32) (name : String) (alloc : Alloc)
    (regions : List Region) : List Region :=
  requestLoop start extent name alloc [] regions

/-- The loop of `__release_region`. -/
def releaseLoop (start extent : BitVec 32) (prev : List Region) : List Region → List Region
  | [] => prev
  | r :: next =>
      if start = r.base ∧ extent = r.length then prev ++ next
      else releaseLoop start extent (prev ++ [r]) next

def releaseRegion (start extent : BitVec 32) (regions : List Region) : List Region :=
  releaseLoop start extent [] regions

/-! ### Calls -/

/-- The calls, with what the driver passes; a `resource_size_t` keeps its low 32 bits. -/
inductive Call where
  | check (start extent : BitVec 64)
  | request (start extent : BitVec 64) (name : String) (alloc : Alloc := {})
  | release (start extent : BitVec 64)
deriving DecidableEq, Repr

/-- The range that a call is about. -/
def Call.range : Call → Nat × Nat
  | .check start extent => (start.toNat, extent.toNat)
  | .request start extent _ _ => (start.toNat, extent.toNat)
  | .release start extent => (start.toNat, extent.toNat)

/-- Ranges are not empty, and end below 2^64. -/
def Call.Proper (call : Call) : Prop := 0 < call.range.2 ∧ call.range.1 + call.range.2 ≤ 2 ^ 64

instance (call : Call) : Decidable call.Proper := inferInstanceAs (Decidable (_ ∧ _))

def step (call : Call) (regions : List Region) : Option (List Region) :=
  if call.Proper then
    match call with
    | .check _ _ => some regions
    | .request start extent name alloc =>
        some (requestRegion (start.setWidth 32) (extent.setWidth 32) name alloc regions)
    | .release start extent =>
        some (releaseRegion (start.setWidth 32) (extent.setWidth 32) regions)
  else none

/-! ### The ranges -/

/-- The first address of a range, and how many there are. -/
abbrev Range := Nat × Nat

/-- Two ranges have an address in common. -/
def Overlap (a b : Range) : Prop := a.1 < b.1 + b.2 ∧ b.1 < a.1 + a.2

/-- A range overlaps one of the set. -/
def Busy (S : Set Range) (range : Range) : Prop := ∃ o ∈ S, Overlap o range

/-- What a call does to the set. -/
def rangesAfter (call : Call) (S : Set Range) : Set Range :=
  match call with
  | .check _ _ => S
  | .request _ _ _ alloc => {o | o ∈ S ∨ o = call.range ∧ alloc.region ∧ alloc.name ∧ ¬Busy S o}
  | .release _ _ => {o | o ∈ S ∧ o ≠ call.range}

def Region.range (r : Region) : Range := (r.base.toNat, r.length.toNat)

/-- The recorded ranges. -/
def ranges (regions : List Region) : Set Range := {o | ∃ r ∈ regions, r.range = o}

/-- The list goes up, and its ranges are disjoint. -/
def Sound (regions : List Region) : Prop :=
  regions.Pairwise fun a b => a.base.toNat < b.base.toNat ∧ ¬Overlap a.range b.range

/-- The call does to the list what it does to the set, where that is nothing it leaves the list
    alone, and a check returns 1 when the range is busy and 0 when it is not. -/
def Refines (regions : List Region) (call : Call) (regions' : List Region) : Prop :=
  ranges regions' = rangesAfter call (ranges regions) ∧
    (rangesAfter call (ranges regions) = ranges regions → regions' = regions) ∧
    match call with
    | .check start extent =>
        (Busy (ranges regions) call.range →
            checkRegion (start.setWidth 32) (extent.setWidth 32) regions = 1) ∧
          (¬Busy (ranges regions) call.range →
            checkRegion (start.setWidth 32) (extent.setWidth 32) regions = 0)
    | _ => True

/-! ### Order -/

/-- A region ends where the other begins, or before. -/
def Before (a b : Region) : Prop := a.base.toNat + a.length.toNat ≤ b.base.toNat

theorem before_trans (a b c : Region) (hab : Before a b) (hbc : Before b c) : Before a c := by
  unfold Before at *
  omega

/-- The range is not empty, and its end is a number of 32 bits. -/
def Region.Fits (r : Region) : Prop :=
  0 < r.length.toNat ∧ r.base.toNat + r.length.toNat < 2 ^ 32

def Inv (regions : List Region) : Prop := (∀ r ∈ regions, r.Fits) ∧ regions.Pairwise Before

theorem toNat_end {r : Region} (hr : r.Fits) :
    (r.base + r.length).toNat = r.base.toNat + r.length.toNat := BitVec.toNat_add_of_lt hr.2

theorem conflicts_iff {r x : Region} (hr : r.Fits) (hx : x.Fits) :
    r.conflicts x.base x.length = true ↔ Overlap r.range x.range := by
  simp only [Region.conflicts, Overlap, Region.range, Bool.or_eq_true, Bool.and_eq_true,
    decide_eq_true_eq, BitVec.le_def, BitVec.lt_def, toNat_end hr, toNat_end hx]
  have hpos := hx.1
  omega

theorem not_overlap_of_before {a b : Region} (h : Before a b) : ¬Overlap a.range b.range :=
  fun hover => Nat.not_lt.mpr h hover.2

theorem not_overlap_of_after {a b : Region} (h : Before a b) : ¬Overlap b.range a.range :=
  fun hover => Nat.not_lt.mpr h hover.1

theorem before_of_not_overlap {r x : Region} (h : ¬Overlap r.range x.range) (hx : x.Fits)
    (hr : r.Fits) : if x.base < r.base then Before x r else Before r x := by
  have hxpos := hx.1
  have hrpos := hr.1
  unfold Overlap Region.range at h
  split
  · next hlt =>
    rw [BitVec.lt_def] at hlt
    unfold Before
    omega
  · next hge =>
    rw [BitVec.lt_def] at hge
    unfold Before
    omega

theorem Inv.sound {regions : List Region} (h : Inv regions) : Sound regions := by
  apply List.Pairwise.imp_of_mem _ h.2
  intro a b ha _ hab
  have hpos := (h.1 a ha).1
  unfold Before at hab
  exact ⟨by omega, not_overlap_of_before hab⟩

theorem mem_ranges {regions : List Region} {r : Region} (h : r ∈ regions) :
    r.range ∈ ranges regions := ⟨r, h, rfl⟩

theorem busy_iff {regions : List Region} {x : Region} :
    Busy (ranges regions) x.range ↔ ∃ r ∈ regions, Overlap r.range x.range := by
  constructor
  · rintro ⟨_, ⟨r, hr, rfl⟩, hover⟩
    exact ⟨r, hr, hover⟩
  · rintro ⟨r, hr, hover⟩
    exact ⟨_, mem_ranges hr, hover⟩

/-- A range between two parts of the list is free. -/
theorem not_busy_between {below above : List Region} {x : Region}
    (hbelow : ∀ a ∈ below, Before a x) (habove : ∀ b ∈ above, Before x b) :
    ¬Busy (ranges (below ++ above)) x.range := by
  rw [busy_iff]
  rintro ⟨r, hr, hover⟩
  rcases List.mem_append.mp hr with hr | hr
  · exact not_overlap_of_before (hbelow r hr) hover
  · exact not_overlap_of_after (habove r hr) hover

/-! ### The searches -/

section Search

variable {x : Region} (hx : x.Fits)

include hx

/-- The search of a request ends at a region in the way, or between the regions before the range
    and those after it. -/
theorem requestLoop_cases (alloc : Alloc) (next prev : List Region) (h : Inv (prev ++ next))
    (hprev : ∀ a ∈ prev, Before a x) :
    Busy (ranges (prev ++ next)) x.range ∧
        requestLoop x.base x.length x.name alloc prev next = prev ++ next ∨
      ∃ below above, prev ++ next = below ++ above ∧ (∀ a ∈ below, Before a x) ∧
        (∀ b ∈ above, Before x b) ∧
        requestLoop x.base x.length x.name alloc prev next
          = addRegion below above x.base x.length x.name alloc := by
  induction next generalizing prev with
  | nil => exact .inr ⟨prev, [], rfl, hprev, nofun, rfl⟩
  | cons r next ih =>
    have hmem : r ∈ prev ++ r :: next := List.mem_append_right prev List.mem_cons_self
    have hr : r.Fits := h.1 r hmem
    have hrest : (r :: next).Pairwise Before := (List.pairwise_append.mp h.2).2.1
    by_cases hover : Overlap r.range x.range
    · left
      have hconflict := (conflicts_iff hr hx).mpr hover
      rw [requestLoop, if_pos hconflict]
      exact ⟨busy_iff.mpr ⟨r, hmem, hover⟩, rfl⟩
    · have hfree : r.conflicts x.base x.length ≠ true := fun hc =>
        hover ((conflicts_iff hr hx).mp hc)
      have hside := before_of_not_overlap hover hx hr
      rw [requestLoop, if_neg hfree]
      split at hside
      · next hlt =>
        rw [if_pos hlt]
        have habove := forall_of_head (R := Before) before_trans hrest hside
        exact .inr ⟨prev, r :: next, rfl, hprev, habove, rfl⟩
      · next hge =>
        rw [if_neg hge]
        have hpassed : ∀ a ∈ prev ++ [r], Before a x := by
          intro a ha
          rcases List.mem_append.mp ha with ha | ha
          · exact hprev a ha
          · rwa [List.mem_singleton.mp ha]
        have hsame : prev ++ r :: next = (prev ++ [r]) ++ next := by simp
        rw [hsame] at h ⊢
        exact ih (prev ++ [r]) h hpassed

theorem checkRegion_eq (regions : List Region) (h : Inv regions) :
    (Busy (ranges regions) x.range → checkRegion x.base x.length regions = 1) ∧
      (¬Busy (ranges regions) x.range → checkRegion x.base x.length regions = 0) := by
  induction regions with
  | nil => exact ⟨fun hbusy => absurd hbusy (by simp [busy_iff]), fun _ => rfl⟩
  | cons r next ih =>
    have hr : r.Fits := h.1 r List.mem_cons_self
    obtain ⟨hfirst, hnext⟩ := List.pairwise_cons.mp h.2
    by_cases hover : Overlap r.range x.range
    · have hconflict := (conflicts_iff hr hx).mpr hover
      rw [checkRegion, if_pos hconflict]
      exact ⟨fun _ => rfl, fun hfree => absurd (busy_iff.mpr ⟨r, List.mem_cons_self, hover⟩) hfree⟩
    · have hfree : r.conflicts x.base x.length ≠ true := fun hc =>
        hover ((conflicts_iff hr hx).mp hc)
      have hside := before_of_not_overlap hover hx hr
      rw [checkRegion, if_neg hfree]
      split at hside
      · next hlt =>
        rw [if_pos hlt]
        have habove := forall_of_head (R := Before) before_trans h.2 hside
        have hnone : ¬Busy (ranges (r :: next)) x.range :=
          @not_busy_between [] (r :: next) x nofun habove
        exact ⟨fun hbusy => absurd hbusy hnone, fun _ => rfl⟩
      · next hge =>
        rw [if_neg hge]
        have hsame : Busy (ranges (r :: next)) x.range ↔ Busy (ranges next) x.range := by
          rw [busy_iff, busy_iff]
          constructor
          · rintro ⟨o, ho, hover'⟩
            rcases List.mem_cons.mp ho with rfl | ho
            · exact absurd hover' hover
            · exact ⟨o, ho, hover'⟩
          · rintro ⟨o, ho, hover'⟩
            exact ⟨o, List.mem_cons_of_mem r ho, hover'⟩
        rw [hsame]
        exact ih ⟨fun o ho => h.1 o (List.mem_cons_of_mem r ho), hnext⟩

end Search

/-- A release takes out the first region with its base and its length. -/
theorem releaseLoop_cases (start extent : BitVec 32) (next prev : List Region) :
    (∀ r ∈ next, ¬(start = r.base ∧ extent = r.length)) ∧
        releaseLoop start extent prev next = prev ++ next ∨
      ∃ below r above, prev ++ next = below ++ r :: above ∧ start = r.base ∧ extent = r.length ∧
        releaseLoop start extent prev next = below ++ above := by
  induction next generalizing prev with
  | nil => exact .inl ⟨nofun, (List.append_nil prev).symm⟩
  | cons r next ih =>
    by_cases hr : start = r.base ∧ extent = r.length
    · rw [releaseLoop, if_pos hr]
      exact .inr ⟨prev, r, next, rfl, hr.1, hr.2, rfl⟩
    · rw [releaseLoop, if_neg hr]
      have hsame : prev ++ r :: next = (prev ++ [r]) ++ next := by simp
      rw [hsame]
      rcases ih (prev ++ [r]) with ⟨hnone, heq⟩ | hfound
      · left
        refine ⟨?_, heq⟩
        intro o ho
        rcases List.mem_cons.mp ho with rfl | ho
        · exact hr
        · exact hnone o ho
      · exact .inr hfound

/-! ### The calls -/

/-- The range ends below 2^32. -/
def Call.Fits (call : Call) : Prop := call.range.1 + call.range.2 < 2 ^ 32

/-- A region for the range of a call. -/
theorem fits_of_call {start extent : BitVec 64} (name : String) (hpos : 0 < extent.toNat)
    (hend : start.toNat + extent.toNat < 2 ^ 32) :
    (Region.mk (start.setWidth 32) (extent.setWidth 32) name).range
        = (start.toNat, extent.toNat) ∧
      (Region.mk (start.setWidth 32) (extent.setWidth 32) name).Fits := by
  have hstart : (start.setWidth 32).toNat = start.toNat := by
    rw [BitVec.toNat_setWidth]
    omega
  have hextent : (extent.setWidth 32).toNat = extent.toNat := by
    rw [BitVec.toNat_setWidth]
    omega
  unfold Region.range Region.Fits
  rw [hstart, hextent]
  exact ⟨rfl, hpos, hend⟩

theorem ranges_append (below above : List Region) :
    ranges (below ++ above) = ranges below ∪ ranges above := by
  ext o
  simp [ranges, or_and_right, exists_or]

theorem ranges_cons (r : Region) (next : List Region) :
    ranges (r :: next) = insert r.range (ranges next) := by
  ext o
  simp [ranges, eq_comm]

/-- Both allocations succeed. -/
def Alloc.Both (alloc : Alloc) : Prop := alloc.region = true ∧ alloc.name = true

theorem addRegion_of_both {alloc : Alloc} (h : alloc.Both) (prev next : List Region)
    (start extent : BitVec 32) (name : String) :
    addRegion prev next start extent name alloc = prev ++ ⟨start, extent, name⟩ :: next := by
  rw [addRegion, h.1, h.2]
  rfl

theorem addRegion_of_not_both {alloc : Alloc} (h : ¬alloc.Both) (prev next : List Region)
    (start extent : BitVec 32) (name : String) :
    addRegion prev next start extent name alloc = prev ++ next := by
  unfold addRegion
  split
  · rfl
  · next hregion =>
    split
    · rfl
    · next hname => exact absurd ⟨by simpa using hregion, by simpa using hname⟩ h

section Request

variable {x : Region} (hx : x.Fits) {alloc : Alloc} {regions : List Region} (h : Inv regions)

include hx h

theorem request_granted (hfree : ¬Busy (ranges regions) x.range) (halloc : alloc.Both) :
    Inv (requestRegion x.base x.length x.name alloc regions) ∧
      ranges (requestRegion x.base x.length x.name alloc regions)
        = insert x.range (ranges regions) := by
  rcases requestLoop_cases hx alloc regions [] h nofun with ⟨hbusy, -⟩ | ⟨below, above, heq, hbelow,
    habove, hadd⟩
  · exact absurd hbusy hfree
  · change regions = below ++ above at heq
    subst heq
    rw [addRegion_of_both halloc] at hadd
    rw [requestRegion, hadd]
    refine ⟨⟨?_, pairwise_link h.2 hbelow habove⟩, ?_⟩
    · intro r hr
      rcases List.mem_append.mp hr with hr | hr
      · exact h.1 r (List.mem_append_left above hr)
      · rcases List.mem_cons.mp hr with rfl | hr
        · exact hx
        · exact h.1 r (List.mem_append_right below hr)
    · rw [ranges_append, ranges_append, ranges_cons, Set.union_insert]

theorem request_refused (hrefused : Busy (ranges regions) x.range ∨ ¬alloc.Both) :
    requestRegion x.base x.length x.name alloc regions = regions := by
  rcases requestLoop_cases hx alloc regions [] h nofun with ⟨-, hsame⟩ | ⟨below, above, heq, hbelow,
    habove, hadd⟩
  · exact hsame
  · change regions = below ++ above at heq
    subst heq
    rcases hrefused with hbusy | hnot
    · exact absurd hbusy (not_busy_between hbelow habove)
    · rw [addRegion_of_not_both hnot] at hadd
      exact hadd

end Request

/-- A range overlaps itself, and so a recorded one is busy. -/
theorem busy_of_mem {x : Region} (hx : x.Fits) {S : Set Range} (h : x.range ∈ S) :
    Busy S x.range := by
  have hpos : 0 < x.range.2 := hx.1
  have hself : x.range.1 < x.range.1 + x.range.2 := by omega
  exact ⟨x.range, h, hself, hself⟩

theorem range_ne_of_inv {below above : List Region} {r : Region} (h : Inv (below ++ r :: above)) :
    r.range ∉ ranges (below ++ above) := by
  intro hmem
  have hr : r.Fits := h.1 r (List.mem_append_right below List.mem_cons_self)
  obtain ⟨-, hr_above, hbelow⟩ := List.pairwise_append.mp h.2
  exact not_busy_between (fun a ha => hbelow a ha r List.mem_cons_self)
    (fun b hb => List.rel_of_pairwise_cons hr_above hb) (busy_of_mem hr hmem)

theorem release_spec {x : Region} (regions : List Region) (h : Inv regions) :
    Inv (releaseRegion x.base x.length regions) ∧
      ranges (releaseRegion x.base x.length regions)
        = {o | o ∈ ranges regions ∧ o ≠ x.range} ∧
      (x.range ∉ ranges regions → releaseRegion x.base x.length regions = regions) := by
  rcases releaseLoop_cases x.base x.length regions [] with ⟨hnone, hsame⟩ | ⟨below, r, above, heq,
    hbase, hlength, hdel⟩
  · have habsent : x.range ∉ ranges regions := by
      rintro ⟨r, hr, hrange⟩
      obtain ⟨hb, hl⟩ := Prod.mk.inj hrange
      exact hnone r hr ⟨(BitVec.eq_of_toNat_eq hb).symm, (BitVec.eq_of_toNat_eq hl).symm⟩
    change releaseRegion x.base x.length regions = regions at hsame
    rw [hsame]
    refine ⟨h, ?_, fun _ => rfl⟩
    ext o
    exact ⟨fun ho => ⟨ho, fun heq => habsent (heq ▸ ho)⟩, fun ho => ho.1⟩
  · change regions = below ++ r :: above at heq
    subst heq
    have hrange : x.range = r.range := by rw [Region.range, Region.range, hbase, hlength]
    change releaseRegion x.base x.length _ = below ++ above at hdel
    rw [hdel, hrange]
    refine ⟨⟨?_, pairwise_unlink h.2⟩, ?_, ?_⟩
    · intro o ho
      apply h.1 o
      rcases List.mem_append.mp ho with ho | ho
      · exact List.mem_append_left _ ho
      · exact List.mem_append_right below (List.mem_cons_of_mem r ho)
    · have hne := range_ne_of_inv h
      have hsplit : ranges (below ++ r :: above) = insert r.range (ranges (below ++ above)) := by
        rw [ranges_append, ranges_append, ranges_cons, Set.union_insert]
      rw [hsplit]
      ext o
      constructor
      · intro ho
        exact ⟨Set.mem_insert_of_mem _ ho, fun heq => hne (heq ▸ ho)⟩
      · rintro ⟨rfl | ho, hother⟩
        · exact absurd rfl hother
        · exact ho
    · intro habsent
      exact absurd (mem_ranges (List.mem_append_right below List.mem_cons_self)) habsent

theorem step_refines {regions regions' : List Region} {call : Call} (h : Inv regions)
    (hfits : call.Fits) (hstep : step call regions = some regions') :
    Inv regions' ∧ Refines regions call regions' := by
  unfold step at hstep
  split at hstep
  case isFalse => exact absurd hstep nofun
  case isTrue hproper =>
    cases call with
    | check start extent =>
      obtain rfl := Option.some.inj hstep
      obtain ⟨hrange, hx⟩ := fits_of_call "" hproper.1 hfits
      refine ⟨h, rfl, fun _ => rfl, ?_⟩
      have hcheck := checkRegion_eq hx regions h
      rwa [hrange] at hcheck
    | request start extent name alloc =>
      obtain rfl := Option.some.inj hstep
      obtain ⟨hrange, hx⟩ := fits_of_call name hproper.1 hfits
      by_cases hrefused : Busy (ranges regions) (start.toNat, extent.toNat) ∨ ¬alloc.Both
      · have hsame := @request_refused _ hx alloc regions h (hrange ▸ hrefused)
        rw [hsame]
        refine ⟨h, ?_, fun _ => rfl, trivial⟩
        ext o
        constructor
        · intro ho
          exact .inl ho
        · rintro (ho | ⟨rfl, hregion, hname, hfree⟩)
          · exact ho
          · rcases hrefused with hbusy | hnot
            · exact absurd hbusy hfree
            · exact absurd ⟨hregion, hname⟩ hnot
      · obtain ⟨hfree, halloc⟩ := not_or.mp hrefused
        have hboth : alloc.Both := not_not.mp halloc
        rw [← hrange] at hfree
        obtain ⟨hinv, hranges⟩ := request_granted hx h hfree hboth
        rw [hrange] at hranges hfree
        have hafter : rangesAfter (.request start extent name alloc) (ranges regions)
            = insert (start.toNat, extent.toNat) (ranges regions) := by
          ext o
          constructor
          · rintro (ho | ⟨rfl, -⟩)
            · exact .inr ho
            · exact .inl rfl
          · rintro (rfl | ho)
            · exact .inr ⟨rfl, hboth.1, hboth.2, hfree⟩
            · exact .inl ho
        refine ⟨hinv, hranges.trans hafter.symm, ?_, trivial⟩
        intro hnothing
        have hmem : (start.toNat, extent.toNat) ∈ ranges regions := by
          rw [← hnothing, hafter]
          exact Set.mem_insert _ _
        rw [← hrange] at hmem hfree
        exact absurd (busy_of_mem hx hmem) hfree
    | release start extent =>
      obtain rfl := Option.some.inj hstep
      obtain ⟨hrange, hx⟩ := fits_of_call "" hproper.1 hfits
      obtain ⟨hinv, hranges, hsame⟩ := @release_spec ⟨_, _, ""⟩ regions h
      rw [hrange] at hranges hsame
      refine ⟨hinv, hranges, ?_, trivial⟩
      intro hnothing
      apply hsame
      intro hmem
      rw [← hnothing] at hmem
      exact hmem.2 rfl

/-- **The list of regions is a set of disjoint ranges,** after all calls for ranges that end
    below 2^32. -/
theorem regions_refine_ranges {regions : List Region}
    (h : Reach step (fun _ call => call.Fits) [] regions) :
    Sound regions ∧ ∀ call regions', call.Fits → step call regions = some regions' →
      Refines regions call regions' := by
  have hinv : Inv regions := by
    apply h.invariant Inv
    · exact ⟨nofun, List.Pairwise.nil⟩
    · intro s call s' hs hfits hstep
      exact (step_refines hs hfits hstep).1
  refine ⟨hinv.sound, ?_⟩
  intro call regions' hfits hstep
  exact (step_refines hinv hfits hstep).2

/-- Two requests, the second below the first, and a third that is in the way of both. -/
theorem regions_refine_ranges_two :
    Sound [⟨0x10, 0x8, "a"⟩, ⟨0x20, 0x10, "b"⟩] ∧
      Refines [⟨0x10, 0x8, "a"⟩, ⟨0x20, 0x10, "b"⟩] (.request 0x14 0x20 "c")
        [⟨0x10, 0x8, "a"⟩, ⟨0x20, 0x10, "b"⟩] := by
  have hfirst : Call.Fits (.request 0x20 0x10 "b") := by unfold Call.Fits; decide
  have hsecond : Call.Fits (.request 0x10 0x8 "a") := by unfold Call.Fits; decide
  have hthird : Call.Fits (.request 0x14 0x20 "c") := by unfold Call.Fits; decide
  obtain ⟨hsound, hcalls⟩ := regions_refine_ranges (.call (.call .init hfirst rfl) hsecond rfl)
  exact ⟨hsound, hcalls _ _ hthird rfl⟩

/-- The last page below 2^32, requested twice: the end of the range wraps, nothing is in the way,
    and the list has it two times. -/
theorem range_recorded_twice :
    ∃ regions, Reachable step [] regions ∧
      regions = [⟨0xfffff000, 0x1000, "a"⟩, ⟨0xfffff000, 0x1000, "b"⟩] ∧ ¬Sound regions ∧
      ¬Refines [⟨0xfffff000, 0x1000, "a"⟩] (.request 0xfffff000 0x1000 "b") regions := by
  have hfirst : step (.request 0xfffff000 0x1000 "a") [] = some [⟨0xfffff000, 0x1000, "a"⟩] := rfl
  have hsecond : step (.request 0xfffff000 0x1000 "b") [⟨0xfffff000, 0x1000, "a"⟩]
      = some [⟨0xfffff000, 0x1000, "a"⟩, ⟨0xfffff000, 0x1000, "b"⟩] := by decide
  refine ⟨_, .call (.call .init trivial hfirst) trivial hsecond, rfl, ?_, ?_⟩
  · intro hsound
    exact absurd (List.rel_of_pairwise_cons hsound List.mem_cons_self).1 (by decide)
  · rintro ⟨-, hsame, -⟩
    have hlonger := hsame (by
      ext o
      constructor
      · rintro (ho | ⟨rfl, -, -, hfree⟩)
        · exact ho
        · exact absurd ⟨_, mem_ranges List.mem_cons_self, by decide, by decide⟩ hfree
      · intro ho
        exact .inl ho)
    exact absurd (congrArg List.length hlonger) (by decide)

end VmkLinux.Stubs.Regions
