/-
  VmkLinux/Klist/Iteration.lean
  =============================
  **What an iteration returns.**

  A node that an iteration stands at cannot leave the list, so the list falls into the
  part that the iteration has passed and the part that it has still to walk over.  What
  it returned and what is still linked lies in the first part, in the order of the list
  (`Passed`); nodes come to the list at its ends and go from it anywhere, and neither
  moves a node from one part to the other.  At the end the first part is the whole list.
-/
import VmkLinux.Klist.References

namespace VmkLinux.Klist

open VmkLinux.Interleave

/-! ### The passed part -/

/-- The iteration `w` has passed the part `l` of the list. -/
structure Passed (s : Shared) (w : Walk) (l : List Nat) : Prop where
  nodup : w.seen.Nodup
  known : ∀ n, n ∈ w.ahead ∨ n ∈ w.seen → n ∈ s.list ∨ s.removed n = true
  order : (w.seen.filter (· ∈ s.list)).Sublist l
  whole : ∀ n ∈ l, n ∈ w.ahead → n ∈ w.seen

/-- What a step may do to the list. -/
inductive Change (s s' : Shared) : Prop
  | same (hlist : s'.list = s.list) (hremoved : s'.removed = s.removed)
  | add (n : Nat) (tail : Bool) (hn : n ∉ s.list) (hnew : s.removed n = false)
      (hlist : s'.list = if tail then s.list ++ [n] else n :: s.list)
      (hremoved : s'.removed = s.removed)
  | release (n : Nat) (hlist : s'.list = s.list.erase n)
      (hremoved : s'.removed = Function.update s.removed n true)

theorem Passed.congr {s s' : Shared} {w : Walk} {l : List Nat} (h : Passed s w l)
    (hlist : s'.list = s.list) (hremoved : s'.removed = s.removed) : Passed s' w l := by
  obtain ⟨hnodup, hknown, horder, hwhole⟩ := h
  exact ⟨hnodup, hlist ▸ hremoved ▸ hknown, hlist ▸ horder, hwhole⟩

/-- A new node is not one that the iteration knows. -/
theorem Passed.add {s s' : Shared} {w : Walk} {l l' : List Nat} {n : Nat} (h : Passed s w l)
    (hn : n ∉ s.list) (hnew : s.removed n = false) (hmem : ∀ m, m ∈ s'.list ↔ m = n ∨ m ∈ s.list)
    (hremoved : s'.removed = s.removed) (hl : l.Sublist l')
    (hl' : ∀ m ∈ l', m = n ∨ m ∈ l) : Passed s' w l' := by
  have hunknown : n ∉ w.ahead ∧ n ∉ w.seen := by
    constructor
    · intro hahead
      rcases h.known n (.inl hahead) with hlist | hgone
      · exact hn hlist
      · rw [hnew] at hgone
        cases hgone
    · intro hseen
      rcases h.known n (.inr hseen) with hlist | hgone
      · exact hn hlist
      · rw [hnew] at hgone
        cases hgone
  refine ⟨h.nodup, fun m hm => ?_, ?_, fun m hm hahead => ?_⟩
  · rw [hremoved, hmem]
    rcases h.known m hm with hlist | hgone
    · exact .inl (.inr hlist)
    · exact .inr hgone
  · have hsame : w.seen.filter (· ∈ s'.list) = w.seen.filter (· ∈ s.list) := by
      refine List.filter_congr fun m hm => ?_
      have hne : m ≠ n := fun heq => hunknown.2 (heq ▸ hm)
      simp [hmem, hne]
    rw [hsame]
    exact h.order.trans hl
  · rcases hl' m hm with rfl | hold
    · exact absurd hahead hunknown.1
    · exact h.whole m hold hahead

theorem Passed.release {s s' : Shared} {w : Walk} {l : List Nat} {n : Nat} (h : Passed s w l)
    (hnodup : s.list.Nodup) (hl : l.Nodup) (hlist : s'.list = s.list.erase n)
    (hremoved : s'.removed = Function.update s.removed n true) : Passed s' w (l.erase n) := by
  refine ⟨h.nodup, fun m hm => ?_, ?_, fun m hm => h.whole m (List.mem_of_mem_erase hm)⟩
  · rw [hlist, hremoved]
    by_cases heq : m = n
    · rw [heq]
      exact .inr (Function.update_self ..)
    · rw [List.mem_erase_of_ne heq, Function.update_of_ne heq]
      exact h.known m hm
  · have hsame : w.seen.filter (· ∈ s'.list) =
        (w.seen.filter (· ∈ s.list)).filter (· != n) := by
      rw [List.filter_filter]
      refine List.filter_congr fun m _ => ?_
      by_cases heq : m = n
      · simp [hlist, hnodup.mem_erase_iff, heq]
      · simp [hlist, hnodup.mem_erase_iff, heq]
    rw [hsame, hl.erase_eq_filter]
    exact h.order.filter _

/-- The next node is returned. -/
theorem Passed.advance {s : Shared} {w : Walk} {l l₂ : List Nat} {n : Nat} (h : Passed s w l)
    (hlist : s.list = l ++ n :: l₂) (hnodup : s.list.Nodup) :
    Passed s { w with seen := w.seen ++ [n] } (l ++ [n]) := by
  have hn : n ∈ s.list := by rw [hlist]; simp
  have hl : n ∉ l := by
    rw [hlist] at hnodup
    exact fun hmem => (List.nodup_append.mp hnodup).2.2 n hmem n List.mem_cons_self rfl
  have hseen : n ∉ w.seen := by
    intro hmem
    refine hl (h.order.subset (List.mem_filter.mpr ⟨hmem, ?_⟩))
    simpa using hn
  refine ⟨?_, fun m hm => ?_, ?_, fun m hm hahead => ?_⟩
  · refine List.nodup_append.mpr ⟨h.nodup, List.nodup_singleton n, ?_⟩
    rintro m hm k hk rfl
    rw [List.mem_singleton.mp hk] at hm
    exact hseen hm
  · simp only [List.mem_append, List.mem_singleton] at hm
    rcases hm with hahead | hold | rfl
    · exact h.known m (.inl hahead)
    · exact h.known m (.inr hold)
    · exact .inl hn
  · dsimp only
    rw [List.filter_append]
    exact h.order.append (List.filter_sublist ..)
  · rcases List.mem_append.mp hm with hold | hlast
    · exact List.mem_append_left _ (h.whole m hold hahead)
    · exact List.mem_append_right _ hlast

/-! ### Iterations -/

/-- An iteration that stands at `n` has passed the list up to it. -/
def StandsAt (s : Shared) (n : Nat) (w : Walk) : Prop :=
  ∃ l₁ l₂, s.list = l₁ ++ n :: l₂ ∧ Passed s w (l₁ ++ [n])

/-- How far an iteration is, from its `i_cur` and what it has returned. -/
def Walk.At (s : Shared) (w : Walk) : Option Nat → Prop
  | some n => StandsAt s n { w with seen := w.seen ++ [n] }
  | none => Passed s w s.list

def Pc.Walks (s : Shared) : Pc → Prop
  | .iter none w => w.seen = [] ∧ Passed s w []
  | .iter (some n) w | .nextRelease n _ w => StandsAt s n w
  | .nextPut _ cur w => w.At s cur
  | .ended w => Passed s w s.list
  | _ => True

theorem StandsAt.change {s s' : Shared} {n : Nat} {w : Walk} (h : StandsAt s n w)
    (hnodup : s.list.Nodup) (hchange : Change s s') (hheld : n ∈ s'.list) : StandsAt s' n w := by
  obtain ⟨l₁, l₂, hlist, hpassed⟩ := h
  cases hchange with
  | same hsame hremoved => exact ⟨l₁, l₂, hsame.trans hlist, hpassed.congr hsame hremoved⟩
  | add m tail hm hnew hlist' hremoved =>
    cases tail with
    | false =>
      refine ⟨m :: l₁, l₂, by simp [hlist', hlist], ?_⟩
      refine hpassed.add hm hnew (fun k => by simp [hlist']) hremoved ?_ fun k hk => ?_
      · exact List.sublist_cons_self ..
      · exact List.mem_cons.mp hk
    | true =>
      refine ⟨l₁, l₂ ++ [m], by simp [hlist', hlist], ?_⟩
      refine hpassed.add hm hnew (fun k => ?_) hremoved (List.Sublist.refl _) fun k hk => .inr hk
      simp [hlist', or_comm]
  | release m hlist' hremoved =>
    have hne : n ≠ m := by
      rintro rfl
      rw [hlist'] at hheld
      exact hnodup.not_mem_erase hheld
    have hsplit := hnodup
    rw [hlist] at hsplit
    have hl : (l₁ ++ [n]).Nodup := by
      refine List.Nodup.sublist ?_ hsplit
      exact List.Sublist.append_left (by simp) l₁
    have hpassed' := hpassed.release hnodup hl hlist' hremoved
    by_cases hm : m ∈ l₁
    · rw [List.erase_append_left _ hm] at hpassed'
      refine ⟨l₁.erase m, l₂, ?_, hpassed'⟩
      rw [hlist', hlist, List.erase_append_left _ hm]
    · have hsame : (l₁ ++ [n]).erase m = l₁ ++ [n] := by
        refine List.erase_of_not_mem ?_
        simp [hm, Ne.symm hne]
      rw [hsame] at hpassed'
      refine ⟨l₁, l₂.erase m, ?_, hpassed'⟩
      rw [hlist', hlist, List.erase_append_right _ hm, List.erase_cons_tail (by simpa using hne)]

theorem Passed.change {s s' : Shared} {w : Walk} (h : Passed s w s.list)
    (hnodup : s.list.Nodup) (hchange : Change s s') : Passed s' w s'.list := by
  cases hchange with
  | same hsame hremoved => exact hsame ▸ h.congr hsame hremoved
  | add m tail hm hnew hlist' hremoved =>
    have hmem : ∀ k, k ∈ s'.list ↔ k = m ∨ k ∈ s.list := by
      intro k
      cases tail with
      | false => simp [hlist']
      | true => simp [hlist', or_comm]
    refine h.add hm hnew hmem hremoved ?_ fun k hk => (hmem k).mp hk
    cases tail with
    | false => simp [hlist']
    | true => simp [hlist']
  | release m hlist' hremoved => exact hlist' ▸ h.release hnodup hnodup hlist' hremoved

theorem Passed.change_nil {s s' : Shared} {w : Walk} (h : Passed s w []) (hnodup : s.list.Nodup)
    (hchange : Change s s') : Passed s' w [] := by
  cases hchange with
  | same hsame hremoved => exact h.congr hsame hremoved
  | add m tail hm hnew hlist' hremoved =>
    refine h.add hm hnew (fun k => ?_) hremoved (List.Sublist.refl _) fun k hk => .inr hk
    cases tail with
    | false => simp [hlist']
    | true => simp [hlist', or_comm]
  | release m hlist' hremoved =>
    exact h.release hnodup List.nodup_nil hlist' hremoved

/-- What others do to the list does not lead an iteration astray. -/
theorem Pc.Walks.change {s s' : Shared} {pc : Pc} (h : pc.Walks s) (hnodup : s.list.Nodup)
    (hchange : Change s s') (hlinked : ∀ n, 0 < pc.holding n + pc.releasing n → n ∈ s'.list) :
    pc.Walks s' := by
  cases pc with
  | iter cur w =>
    cases cur with
    | none => exact ⟨h.1, h.2.change_nil hnodup hchange⟩
    | some n =>
      exact StandsAt.change h hnodup hchange (hlinked n (by simp [Pc.holding, Pc.releasing]))
  | nextRelease n next w =>
    exact StandsAt.change h hnodup hchange (hlinked n (by simp [Pc.holding, Pc.releasing]))
  | nextPut m cur w =>
    cases cur with
    | none => exact Passed.change h hnodup hchange
    | some n =>
      exact StandsAt.change h hnodup hchange (hlinked n (by simp [Pc.holding, Pc.releasing]))
  | ended w => exact Passed.change h hnodup hchange
  | _ => trivial

/-! ### Steps -/

/-- A step adds the node of its call, or releases one, or leaves the list alone. -/
theorem step_change {a : Choice} {s s' : Shared} {pc pc' : Pc} (h : step a s pc = some (s', pc'))
    (hadding : ∀ n, 0 < pc.adding n → n ∉ s.list ∧ s.removed n = false) : Change s s' := by
  cases pc with
  | add n tail =>
    obtain ⟨hn, hnew⟩ := hadding n (by simp [Pc.adding])
    obtain ⟨-, heq⟩ := Option.ite_none_left_eq_some.mp h
    obtain ⟨rfl, rfl⟩ := Prod.mk.inj (Option.some.inj heq)
    exact .add n tail hn hnew rfl rfl
  | del n caller =>
    obtain ⟨-, heq⟩ := Option.ite_none_left_eq_some.mp h
    split at heq
    · obtain ⟨rfl, -⟩ := Prod.mk.inj (Option.some.inj heq)
      exact .same rfl rfl
    · obtain ⟨rfl, -⟩ := Prod.mk.inj (Option.some.inj heq)
      exact .same rfl rfl
  | delRelease n caller =>
    obtain ⟨rfl, -⟩ := Prod.mk.inj (Option.some.inj h)
    exact .release n rfl rfl
  | delPut n caller =>
    obtain ⟨rfl, -⟩ := Prod.mk.inj (Option.some.inj h)
    exact .same rfl rfl
  | waits n =>
    obtain ⟨-, heq⟩ := Option.ite_none_right_eq_some.mp h
    obtain ⟨rfl, -⟩ := Prod.mk.inj (Option.some.inj heq)
    exact .same rfl rfl
  | iter cur w =>
    cases a with
    | next =>
      obtain ⟨-, heq⟩ := Option.ite_none_left_eq_some.mp h
      obtain ⟨rfl, -⟩ := Prod.ext_iff.mp (Option.some.inj heq)
      obtain ⟨-, hlist, hremoved, -, -, -⟩ := klistNext_kept s w cur
      exact .same hlist hremoved
    | exit =>
      cases cur with
      | none =>
        obtain ⟨rfl, -⟩ := Prod.mk.inj (Option.some.inj h)
        exact .same rfl rfl
      | some n =>
        obtain ⟨rfl, -⟩ := Prod.mk.inj (Option.some.inj h)
        exact .same rfl rfl
  | nextRelease n next w =>
    obtain ⟨rfl, -⟩ := Prod.mk.inj (Option.some.inj h)
    obtain ⟨-, -, -, hlist, hremoved⟩ := take_kept (release s n) next
    exact .release n hlist hremoved
  | nextPut n cur w =>
    obtain ⟨rfl, -⟩ := Prod.mk.inj (Option.some.inj h)
    exact .same rfl rfl
  | added => cases h
  | deleted => cases h
  | removed n => cases h
  | ended w => cases h
  | exited => cases h

theorem StandsAt.congr {s s' : Shared} {n : Nat} {w : Walk} (h : StandsAt s n w)
    (hlist : s'.list = s.list) (hremoved : s'.removed = s.removed) : StandsAt s' n w := by
  obtain ⟨l₁, l₂, hsplit, hpassed⟩ := h
  exact ⟨l₁, l₂, hlist.trans hsplit, hpassed.congr hlist hremoved⟩

theorem Walk.At.congr {s s' : Shared} {w : Walk} {cur : Option Nat} (h : w.At s cur)
    (hlist : s'.list = s.list) (hremoved : s'.removed = s.removed) : w.At s' cur := by
  cases cur with
  | none =>
    show Passed s' w s'.list
    rw [hlist]
    exact Passed.congr h hlist hremoved
  | some n => exact StandsAt.congr h hlist hremoved

theorem Walk.At.walks {s : Shared} {w : Walk} {cur : Option Nat} (h : w.At s cur) :
    (Pc.next w cur).Walks s := by
  cases cur with
  | none => exact h
  | some n => exact h

/-- The iteration goes on to the first node that it has not passed. -/
theorem Passed.next {s : Shared} {w : Walk} {l l₂ : List Nat} (h : Passed s w l)
    (hlist : s.list = l ++ l₂) (hnodup : s.list.Nodup) : w.At s l₂.head? := by
  cases l₂ with
  | nil =>
    rw [List.append_nil] at hlist
    show Passed s w s.list
    rw [hlist]
    exact h
  | cons n l₂ => exact ⟨l, l₂, hlist, h.advance hlist hnodup⟩

/-- From a node, the iteration goes on to what comes after it, -/
theorem StandsAt.next {s : Shared} {n : Nat} {w : Walk} (h : StandsAt s n w)
    (hnodup : s.list.Nodup) : w.At s (following s (some n)) := by
  obtain ⟨l₁, l₂, hlist, hpassed⟩ := h
  have hsplit := hnodup
  rw [hlist] at hsplit
  have hn : n ∉ l₁ := fun hmem =>
    (List.nodup_append.mp hsplit).2.2 n hmem n List.mem_cons_self rfl
  rw [following, hlist, after_append hn]
  exact hpassed.next (by simp [hlist]) hnodup

/-- which is where it goes on to when it has released the node, too. -/
theorem StandsAt.release {s s' : Shared} {n : Nat} {w : Walk} (h : StandsAt s n w)
    (hnodup : s.list.Nodup) (hlist' : s'.list = s.list.erase n)
    (hremoved : s'.removed = Function.update s.removed n true) :
    w.At s' (following s (some n)) := by
  obtain ⟨l₁, l₂, hlist, hpassed⟩ := h
  have hsplit := hnodup
  rw [hlist] at hsplit
  have hn : n ∉ l₁ := fun hmem =>
    (List.nodup_append.mp hsplit).2.2 n hmem n List.mem_cons_self rfl
  have hl : (l₁ ++ [n]).Nodup := hsplit.sublist (List.Sublist.append_left (by simp) l₁)
  have hpassed' := hpassed.release hnodup hl hlist' hremoved
  rw [List.erase_append_right _ hn, List.erase_cons_head, List.append_nil] at hpassed'
  rw [following, hlist, after_append hn]
  refine hpassed'.next ?_ (hlist' ▸ hnodup.erase n)
  rw [hlist', hlist, List.erase_append_right _ hn, List.erase_cons_head]

/-- `klist_next`, from the head of the list or from a node. -/
theorem klistNext_walks {s : Shared} {w : Walk} {cur : Option Nat}
    (hw : (Pc.iter cur w).Walks s) (hnodup : s.list.Nodup) :
    (klistNext s w cur).2.Walks (klistNext s w cur).1 := by
  obtain ⟨-, hlist, hremoved, -, -, -⟩ := klistNext_kept s w cur
  cases cur with
  | none => exact ((hw.2.next rfl hnodup).congr hlist hremoved).walks
  | some n =>
    have hat := StandsAt.next hw hnodup
    by_cases hlast : s.ref n = 1
    · simp only [klistNext, if_pos hlast] at hlist hremoved ⊢
      exact StandsAt.congr hw hlist hremoved
    · simp only [klistNext, if_neg hlast] at hlist hremoved ⊢
      exact (hat.congr hlist hremoved).walks

theorem For.back_walks (caller : For) (n : Nat) (s : Shared) : (caller.back n).Walks s := by
  cases caller with
  | del => trivial
  | remove => trivial
  | iterExit => trivial

theorem step_walks {a : Choice} {s s' : Shared} {pc pc' : Pc} (h : step a s pc = some (s', pc'))
    (hnodup : s.list.Nodup) (hreads : pc.Reads s) (hw : pc.Walks s) : pc'.Walks s' := by
  cases pc with
  | add n tail =>
    obtain ⟨-, heq⟩ := Option.ite_none_left_eq_some.mp h
    obtain ⟨-, rfl⟩ := Prod.mk.inj (Option.some.inj heq)
    trivial
  | del n caller =>
    obtain ⟨-, heq⟩ := Option.ite_none_left_eq_some.mp h
    split at heq
    · obtain ⟨-, rfl⟩ := Prod.mk.inj (Option.some.inj heq)
      trivial
    · obtain ⟨-, rfl⟩ := Prod.mk.inj (Option.some.inj heq)
      exact caller.back_walks n s'
  | delRelease n caller =>
    obtain ⟨-, rfl⟩ := Prod.mk.inj (Option.some.inj h)
    trivial
  | delPut n caller =>
    obtain ⟨-, rfl⟩ := Prod.mk.inj (Option.some.inj h)
    exact caller.back_walks n s'
  | waits n =>
    obtain ⟨-, heq⟩ := Option.ite_none_right_eq_some.mp h
    obtain ⟨rfl, rfl⟩ := Prod.mk.inj (Option.some.inj heq)
    trivial
  | iter cur w =>
    cases a with
    | next =>
      obtain ⟨-, heq⟩ := Option.ite_none_left_eq_some.mp h
      obtain ⟨rfl, rfl⟩ := Prod.ext_iff.mp (Option.some.inj heq)
      exact klistNext_walks hw hnodup
    | exit =>
      cases cur with
      | none =>
        obtain ⟨rfl, rfl⟩ := Prod.mk.inj (Option.some.inj h)
        trivial
      | some n =>
        obtain ⟨rfl, rfl⟩ := Prod.mk.inj (Option.some.inj h)
        trivial
  | nextRelease n next w =>
    obtain ⟨rfl, rfl⟩ := Prod.mk.inj (Option.some.inj h)
    obtain ⟨-, -, -, hlist, hremoved⟩ := take_kept (release s n) next
    have hat := StandsAt.release hw hnodup hlist hremoved
    rw [← hreads] at hat
    exact hat.congr rfl rfl
  | nextPut n cur w =>
    obtain ⟨rfl, rfl⟩ := Prod.mk.inj (Option.some.inj h)
    exact Walk.At.walks (Walk.At.congr hw rfl rfl)
  | added => cases h
  | deleted => cases h
  | removed n => cases h
  | ended w => cases h
  | exited => cases h

/-- An iteration that starts has passed nothing, or the list up to its node. -/
theorem enter_walks {me : Nat} {s s' : Shared} {call : Call} {pc : Pc}
    (h : enter me s call = some (s', pc)) (hnodup : s.list.Nodup)
    (hstart : ∀ n, call = .iterInitNode (some n) → n ∈ s.list) : pc.Walks s' := by
  cases call with
  | add tail =>
    obtain ⟨rfl, rfl⟩ := Prod.mk.inj (Option.some.inj h)
    trivial
  | del n =>
    obtain ⟨-, heq⟩ := Option.ite_none_right_eq_some.mp h
    obtain ⟨rfl, rfl⟩ := Prod.mk.inj (Option.some.inj heq)
    trivial
  | remove n =>
    obtain ⟨-, heq⟩ := Option.ite_none_right_eq_some.mp h
    obtain ⟨rfl, rfl⟩ := Prod.mk.inj (Option.some.inj heq)
    trivial
  | iterInitNode start =>
    cases start with
    | none =>
      obtain ⟨rfl, rfl⟩ := Prod.mk.inj (Option.some.inj h)
      refine ⟨rfl, List.nodup_nil, fun n hn => ?_, List.Sublist.refl _, fun n hn => ?_⟩
      · exact .inl (hn.resolve_right List.not_mem_nil)
      · cases hn
    | some n =>
      obtain ⟨rfl, rfl⟩ := Prod.mk.inj (Option.some.inj h)
      obtain ⟨l₁, l₂, hlist⟩ := List.append_of_mem (hstart n rfl)
      have hsplit := hnodup
      rw [hlist] at hsplit
      obtain ⟨-, htail, hdisjoint⟩ := List.nodup_append.mp hsplit
      have hn : n ∉ l₁ := fun hn => hdisjoint n hn n List.mem_cons_self rfl
      refine ⟨l₁, l₂, hlist, List.nodup_nil, fun m hm => ?_, List.nil_sublist _,
        fun m hm hahead => ?_⟩
      · exact .inl (after_subset (hm.resolve_right List.not_mem_nil))
      · rw [hlist, after_append hn] at hahead
        rcases List.mem_append.mp hm with hbefore | hself
        · exact absurd rfl (hdisjoint m hbefore m (List.mem_cons_of_mem _ hahead))
        · rw [List.mem_singleton.mp hself] at hahead
          exact absurd hahead (List.nodup_cons.mp htail).1

/-- A node that is still to be added is not on the list, and has never been released. -/
theorem Refs.adding {c : Config Shared Pc} (h : Refs c) {i n : Nat} {pc : Pc}
    (hi : c.pool[i]? = some pc) (hadding : 0 < pc.adding n) :
    n ∉ c.shared.list ∧ c.shared.removed n = false := by
  have hle := le_total (Pc.adding n) hi
  have hsound := h.sound n
  have hget := hsound.get_eq
  have hone := hsound.get_le
  have hremoved := hsound.removed_iff
  simp only [nodeOf, node] at hget hone hremoved
  constructor
  · intro hmem
    have hcount := List.count_pos_iff.mpr hmem
    omega
  · by_contra hgone
    rw [Bool.not_eq_false] at hgone
    have hzero := hremoved.mp hgone
    omega

theorem walks_of_reach {c : Config Shared Pc}
    (h : machine.Reach (fun c e => startHeld c e = true) initial c) :
    Each (fun _ pc => pc.Walks c.shared) c.pool := by
  refine Machine.Reach.invariant (fun c => Each (fun _ pc => pc.Walks c.shared) c.pool)
    (each_nil _) ?_ ?_ h
  · intro c call s pc hc hI hok henter
    have hrefs := refs_of_reach hc
    obtain ⟨-, -, -, hlist, hremoved, -, -⟩ := enter_kept henter
    have hpc : pc.Walks s := by
      refine enter_walks henter hrefs.nodup ?_
      rintro n rfl
      have hheld := held_iff.mp (of_decide_eq_true hok)
      exact List.count_pos_iff.mp ((hrefs.sound n).linked (.inl hheld))
    refine hI.append (fun j u hj hu => ?_) hpc
    exact hu.change hrefs.nodup (.same hlist hremoved) fun n hn => hlist ▸ hrefs.linked hj hn
  · intro c i a pc s pc' hc hI _ hi hstep
    have hrefs := refs_of_reach hc
    have hrefs' := hrefs.step hi hstep
    have hchange := step_change hstep fun n hn => hrefs.adding hi hn
    refine hI.set (fun j u hj hu hw => ?_)
      (step_walks hstep hrefs.nodup (hrefs.reads i pc hi) (hI i pc hi))
    refine hw.change hrefs.nodup hchange fun n hn => hrefs'.linked (i := j) ?_ hn
    rw [List.getElem?_set_ne (Ne.symm hj)]
    exact hu

/-- **An iteration misses nothing and repeats nothing.**  When `klist_next` returns `NULL`,
    no node has been returned twice; each node that was ahead of the iteration as it was
    set up and is still on the list has been returned; and those of the returned nodes that
    are still on the list were returned in its order, whatever has been added, deleted and
    removed in the meantime.  A node that is added again is another node here. -/
theorem klist_iteration {c : Config Shared Pc}
    (h : machine.Reach (fun c e => startHeld c e = true) initial c) {i : Nat}
    {w : Walk} (hended : c.pool[i]? = some (.ended w)) :
    w.seen.Nodup ∧ (∀ n ∈ w.ahead, n ∈ c.shared.list → n ∈ w.seen) ∧
      (w.seen.filter (· ∈ c.shared.list)).Sublist c.shared.list := by
  obtain ⟨hnodup, -, horder, hwhole⟩ := walks_of_reach h i _ hended
  exact ⟨hnodup, fun n hahead hn => hwhole n hn hahead, horder⟩

/-- While an iteration that started at the first of four nodes stands at the second, this
    one and the third are deleted and a node is added in front. -/
def changedUnderWalk : List (Event Call Choice) :=
  [.start (.add true), .act 0 .next, .start (.add true), .act 1 .next, .start (.add true),
    .act 2 .next, .start (.add true), .act 3 .next, .start (.iterInitNode (some 0)), .act 4 .next,
    .start (.del 2), .act 5 .next, .act 5 .next, .act 5 .next, .start (.del 1), .act 6 .next,
    .start (.add false), .act 7 .next, .act 4 .next, .act 4 .next, .act 4 .next, .act 4 .next]

theorem klist_iteration_changed :
    ∃ c, machine.Reach (fun c e => startHeld c e = true) initial c ∧
      c.pool[4]? = some (.ended ⟨[1, 2, 3], [1, 3]⟩) ∧ 2 ∉ c.shared.list := by
  obtain ⟨c, hc, hpool⟩ := machine.exists_reach_of_runIf startHeld changedUnderWalk initial
    (fun c => c.pool[4]?) (some (.ended ⟨[1, 2, 3], [1, 3]⟩)) rfl
  refine ⟨c, hc, hpool, fun hmem => ?_⟩
  have hseen := (klist_iteration hc hpool).2.1 2 (by decide) hmem
  exact absurd hseen (by decide)

end VmkLinux.Klist
