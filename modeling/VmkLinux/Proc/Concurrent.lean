/-
  VmkLinux/Proc/Concurrent.lean
  =============================
  **Concurrent reads of proc nodes** (`vmklinux26/vmware/linux_proc.c`): any number of calls of
  `LinuxProcRead` at once.

  There is one `scratchPage`, and `linuxProcLock` is released before the loop.  A call that is
  undisturbed, so that what a driver has put into the page is still there at the `memcpy`, goes
  through the states of a call that runs alone (`reads_do_not_mix`).
-/
import Mathlib.Algebra.Group.Nat.Defs
import VmkLinux.Interleave
import VmkLinux.Proc.Read

namespace VmkLinux.Proc.Read

open VmkLinux.ByteBuf VmkLinux.Interleave

variable {σ : Type}

/-- A call, with what it was at its beginning. -/
structure Call (σ : Type) where
  first : Thread σ
  now : Thread σ

/-- Calls on any nodes, with any buffers; the shared state is `scratchPage`. -/
def machine (σ : Type) : Machine Buf (Call σ) (Option (Pde σ) × Buf) Unit where
  start _ call page := (enter call.1 call.2).map fun t => (page, ⟨t, t⟩)
  act _ page call := (call.now.step page).map fun s => (s.1, { call with now := s.2 })

/-- The `memcpy` that comes next reads byte `k` of `scratchPage`. -/
def Thread.Awaits (t : Thread σ) (k : Nat) : Prop :=
  t.pc = .copy ∧ t.start.getD 0 + t.size ≤ pageSize ∧ t.start.getD 0 ≤ k ∧
    k < t.start.getD 0 + t.size

/-- What a driver answers is its own: it does not depend on what it finds in the page, and it has
    written the bytes that it answers with. -/
def Own (readProc : ReadProc σ) : Prop :=
  ∀ data off page page',
    (readProc data off page).nread = (readProc data off page').nread ∧
    (readProc data off page).start = (readProc data off page').start ∧
    (readProc data off page).eof = (readProc data off page').eof ∧
    (readProc data off page).data = (readProc data off page').data ∧
    (readProc data off page).piece off.toNat = (readProc data off page').piece off.toNat

/-- `scratchPage` after a step. -/
def Thread.pageAfter (t : Thread σ) (page : Buf) : Buf :=
  if t.pc = .test ∧ t.goesOn = true then (t.readProc t.data t.off page).page else page

/-- The drivers are well behaved, and none of them changes a byte that another call is about to
    copy. -/
def Undisturbed (c : Config Buf (Call σ)) : Event (Option (Pde σ) × Buf) Unit → Prop
  | .start (pde, _) => ∀ p readProc, pde = some p → p.readProc = some readProc → Own readProc
  | .act i _ => ∀ call, c.pool[i]? = some call → ∀ j other, j ≠ i → c.pool[j]? = some other →
      ∀ k, other.now.Awaits k → call.now.pageAfter c.shared k = c.shared k

/-! ### The same step on two pages -/

/-- The pages agree in the bytes that are copied next. -/
def Agree (t : Thread σ) (page page' : Buf) : Prop := ∀ k, t.Awaits k → page k = page' k

theorem byte_of_slice {b b' : Buf} {off len k : Nat} (h : b.slice off len = b'.slice off len)
    (hle : off ≤ k) (hlt : k < off + len) : b k = b' k := by
  have hk : off + (k - off) = k := by omega
  have hget := congrArg (fun l => l[k - off]?) h
  simp only [Buf.slice, List.getElem?_map] at hget
  rw [List.getElem?_range (by omega), Option.map_some, Option.map_some, hk] at hget
  exact Option.some.inj hget

theorem toNat_of_size_le {t : Thread σ} (h : t.size ≤ pageSize) : t.nread.toNat = t.size := by
  unfold pageSize at h
  rcases Nat.lt_or_ge t.nread.toNat (2 ^ 31) with hlt | hge
  · rw [Thread.size, toNat_signExtend_of_lt hlt]
  · have hlarge := le_toNat_signExtend hge
    unfold Thread.size at h
    omega

theorem toInt_toNat_of_lt {x : BitVec 32} (h : x.toNat < 2 ^ 31) : x.toInt.toNat = x.toNat := by
  rw [BitVec.toInt_eq_toNat_cond, if_pos (by omega), Int.toNat_natCast]

section Step

variable {t t' : Thread σ} {page page' g : Buf}

/-- What an answer leaves to copy is its piece. -/
theorem slice_of_answered {a : Answer σ} (hoff : t.off.toNat ≤ vmkProcReadMax)
    (hpc : (t.answered a).pc = .copy) (hsize : (t.answered a).size ≤ pageSize) :
    a.piece t.off.toNat =
      a.page.slice ((t.answered a).start.getD 0) (t.answered a).size := by
  have htoNat := toNat_of_size_le hsize
  unfold pageSize at hsize
  unfold vmkProcReadMax at hoff
  cases hstart : a.start with
  | some start =>
    rw [answered_some hstart] at htoNat hsize ⊢
    dsimp only at htoNat hsize
    rw [Answer.piece, hstart]
    dsimp only [Option.getD_some]
    rw [toInt_toNat_of_lt (by omega), htoNat]
  | none =>
    rw [answered_none hstart] at hpc htoNat hsize ⊢
    split at hpc
    · cases hpc
    · rename_i hnot
      rw [if_neg hnot] at htoNat hsize ⊢
      have hlt : t.off.toNat < a.nread.toNat := Nat.lt_of_not_le hnot
      dsimp only at htoNat hsize
      rw [BitVec.toNat_sub_of_le (Nat.le_of_lt hlt)] at htoNat
      rw [Answer.piece, hstart]
      dsimp only [Option.getD_some]
      rw [toInt_toNat_of_lt (by omega), htoNat]

theorem copied_congr (hpc : t.pc = .copy) (h : Agree t page page') :
    t.copied page = t.copied page' := by
  unfold Thread.copied
  dsimp only
  split
  · rename_i hin
    have hslice : page.slice (t.start.getD 0) t.size = page'.slice (t.start.getD 0) t.size := by
      apply slice_congr
      intro k hle hlt
      refine h k ⟨hpc, ?_, hle, hlt⟩
      rcases hin with hzero | hin
      · omega
      · exact hin.1
    rw [hslice]
  · rfl

theorem copied_spec (h : t.copied page = some t') :
    t'.pc = .test ∧ t'.readProc = t.readProc ∧
      (t.off.toNat ≤ vmkProcReadMax → t'.off.toNat ≤ vmkProcReadMax) := by
  unfold Thread.copied at h
  dsimp only at h
  split at h
  · rename_i hin
    obtain rfl := Option.some.inj h
    refine ⟨rfl, rfl, ?_⟩
    intro hoff
    have hsize : t.size ≤ pageSize := by
      rcases hin with hzero | hin <;> omega
    have htoNat := toNat_of_size_le hsize
    dsimp only
    rw [BitVec.toNat_add, htoNat]
    unfold vmkProcReadMax at *
    omega
  · exact absurd h nofun

theorem answered_congr {a b : Answer σ} (hnread : a.nread = b.nread) (hstart : a.start = b.start)
    (heof : a.eof = b.eof) (hdata : a.data = b.data) : t.answered a = t.answered b := by
  unfold Thread.answered
  rw [hnread, hstart, heof, hdata]

/-- The pages after the step agree again. -/
theorem step_congr (hown : Own t.readProc) (hoff : t.off.toNat ≤ vmkProcReadMax)
    (hagree : Agree t page page') (hstep : t.step page = some (g, t')) :
    ∃ g', t.step page' = some (g', t') ∧ Agree t' g g' := by
  unfold Thread.step at hstep ⊢
  cases hpc : t.pc with
  | test =>
    rw [hpc] at hstep
    dsimp only at hstep ⊢
    by_cases hgoes : t.goesOn = true
    · rw [if_pos hgoes] at hstep ⊢
      obtain ⟨hnread, hstart, heof, hdata, hpiece⟩ := hown t.data t.off page page'
      obtain ⟨rfl, rfl⟩ := Prod.mk.inj (Option.some.inj hstep)
      have hsame := @answered_congr _ t _ _ hnread hstart heof hdata
      refine ⟨_, by rw [hsame], ?_⟩
      rintro k ⟨hcopy, hin, hle, hlt⟩
      have hbytes := slice_of_answered hoff hcopy (by omega)
      rw [hpiece] at hbytes
      rw [hsame] at hcopy hin hle hlt hbytes
      rw [slice_of_answered hoff hcopy (by omega)] at hbytes
      exact (byte_of_slice hbytes hle hlt).symm
    · rw [if_neg hgoes] at hstep ⊢
      obtain ⟨rfl, rfl⟩ := Prod.mk.inj (Option.some.inj hstep)
      exact ⟨_, rfl, fun k hk => absurd hk.1 nofun⟩
  | copy =>
    rw [hpc] at hstep
    dsimp only at hstep ⊢
    rw [← copied_congr hpc hagree]
    obtain ⟨u, hcopied, heq⟩ := Option.map_eq_some_iff.mp hstep
    obtain ⟨rfl, rfl⟩ := Prod.mk.inj heq
    refine ⟨page', by rw [hcopied]; rfl, ?_⟩
    intro k hk
    have htest := (copied_spec hcopied).1
    rw [hk.1] at htest
    exact absurd htest nofun
  | returned =>
    rw [hpc] at hstep
    exact absurd hstep nofun

theorem readProc_answered (a : Answer σ) :
    (t.answered a).readProc = t.readProc ∧ (t.answered a).off = t.off := by
  cases hstart : a.start with
  | some start =>
    rw [answered_some hstart]
    exact ⟨rfl, rfl⟩
  | none =>
    rw [answered_none hstart]
    split
    · exact ⟨rfl, rfl⟩
    · exact ⟨rfl, rfl⟩

/-- A step keeps the driver, and does not take `off` behind the buffer. -/
theorem step_keeps (hoff : t.off.toNat ≤ vmkProcReadMax) (hstep : t.step page = some (g, t')) :
    t'.readProc = t.readProc ∧ t'.off.toNat ≤ vmkProcReadMax ∧ g = t.pageAfter page := by
  unfold Thread.step at hstep
  unfold Thread.pageAfter
  cases hpc : t.pc with
  | test =>
    rw [hpc] at hstep
    dsimp only at hstep
    by_cases hgoes : t.goesOn = true
    · rw [if_pos hgoes] at hstep
      obtain ⟨rfl, rfl⟩ := Prod.mk.inj (Option.some.inj hstep)
      obtain ⟨hread, hsame⟩ := @readProc_answered _ t (t.readProc t.data t.off page)
      refine ⟨hread, ?_, (if_pos ⟨rfl, hgoes⟩).symm⟩
      rw [hsame]
      exact hoff
    · rw [if_neg hgoes] at hstep
      obtain ⟨rfl, rfl⟩ := Prod.mk.inj (Option.some.inj hstep)
      exact ⟨rfl, hoff, (if_neg fun h => hgoes h.2).symm⟩
  | copy =>
    rw [hpc] at hstep
    dsimp only at hstep
    obtain ⟨u, hcopied, heq⟩ := Option.map_eq_some_iff.mp hstep
    obtain ⟨rfl, rfl⟩ := Prod.mk.inj heq
    obtain ⟨-, hread, hle⟩ := copied_spec hcopied
    exact ⟨hread, hle hoff, (if_neg fun h => absurd h.1 nofun).symm⟩
  | returned =>
    rw [hpc] at hstep
    exact absurd hstep nofun

/-- One more step of a run. -/
theorem run_succ {n : Nat} {first : Thread σ} {page₀ : Buf}
    (hrun : run n page₀ first = some (page, t)) (hstep : t.step page = some (g, t')) :
    run (n + 1) page₀ first = some (g, t') := by
  have hpc : ¬t.pc = .returned := by
    intro hpc
    rw [Thread.step, hpc] at hstep
    cases hstep
  induction n generalizing first page₀ with
  | zero =>
    obtain ⟨rfl, rfl⟩ := Prod.mk.inj (Option.some.inj hrun)
    rw [run, if_neg hpc, hstep]
    rfl
  | succ n ih =>
    rw [run] at hrun ⊢
    split at hrun
    · obtain ⟨rfl, rfl⟩ := Prod.mk.inj (Option.some.inj hrun)
      rename_i hreturned
      exact absurd hreturned hpc
    · rename_i hne
      rw [if_neg hne]
      split at hrun
      · cases hrun
      · exact ih hrun

end Step

/-! ### Every interleaving -/

/-- What a call has come to is what it comes to alone, and what it copies next is in the page. -/
def Like (page : Buf) (call : Call σ) : Prop :=
  ∀ page₀, ∃ n page', run n page₀ call.first = some (page', call.now) ∧
    Agree call.now page page'

structure Inv (c : Config Buf (Call σ)) : Prop where
  own : ∀ (i : Nat) (call : Call σ), c.pool[i]? = some call → Own call.now.readProc
  off : ∀ (i : Nat) (call : Call σ), c.pool[i]? = some call → call.now.off.toNat ≤ vmkProcReadMax
  like : ∀ (i : Nat) (call : Call σ), c.pool[i]? = some call → Like c.shared call

theorem enter_some {pde : Option (Pde σ)} {buffer : Buf} {t : Thread σ}
    (h : enter pde buffer = some t) : ∃ p readProc, pde = some p ∧ p.readProc = some readProc ∧
      t = { readProc, data := p.data, buffer } := by
  unfold enter at h
  split at h
  · exact absurd h nofun
  · rename_i p
    split at h
    · exact absurd h nofun
    · rename_i readProc hread
      split at h
      · exact absurd h nofun
      · exact ⟨p, readProc, rfl, hread, (Option.some.inj h).symm⟩

section Run

variable {c : Config Buf (Call σ)} {pde : Option (Pde σ)} {buffer : Buf} {t t' : Thread σ}
  {g : Buf} {i : Nat}

theorem inv_start (hI : Inv c) (hok : Undisturbed c (.start (pde, buffer)))
    (h : enter pde buffer = some t) : Inv ⟨c.shared, c.pool ++ [⟨t, t⟩]⟩ := by
  obtain ⟨p, readProc, hpde, hread, rfl⟩ := enter_some h
  have hnew : ∀ {P : Call σ → Prop}, (∀ (i : Nat) call, c.pool[i]? = some call → P call) →
      P ⟨{ readProc, data := p.data, buffer }, { readProc, data := p.data, buffer }⟩ →
      ∀ (i : Nat) call, (c.pool ++ [⟨{ readProc, data := p.data, buffer },
        { readProc, data := p.data, buffer }⟩])[i]? = some call → P call := by
    intro P hold hlast i call hi
    rw [List.getElem?_append] at hi
    split at hi
    · exact hold i call hi
    · have hmem := List.mem_of_getElem? hi
      rw [List.mem_singleton] at hmem
      exact hmem ▸ hlast
  constructor
  · exact hnew hI.own (hok p readProc hpde hread)
  · exact hnew hI.off (Nat.zero_le _)
  · apply hnew hI.like
    intro page₀
    exact ⟨0, page₀, rfl, fun k hk => absurd hk.1 nofun⟩

theorem inv_act {call : Call σ} (hI : Inv c) (hok : Undisturbed c (.act i ()))
    (hi : c.pool[i]? = some call) (h : call.now.step c.shared = some (g, t')) :
    Inv ⟨g, c.pool.set i { call with now := t' }⟩ := by
  obtain ⟨hread, hoff, hpage⟩ := step_keeps (hI.off i call hi) h
  have hset : ∀ {P : Call σ → Prop},
      (∀ (j : Nat) other, j ≠ i → c.pool[j]? = some other → P other) →
      P { call with now := t' } →
      ∀ (j : Nat) other, (c.pool.set i { call with now := t' })[j]? = some other → P other := by
    intro P hothers hself j other hj
    rcases eq_or_ne i j with rfl | hne
    · have hlt := (List.getElem?_eq_some_iff.mp hi).1
      rw [List.getElem?_set_self hlt] at hj
      exact Option.some.inj hj ▸ hself
    · rw [List.getElem?_set_ne hne] at hj
      exact hothers j other hne.symm hj
  constructor
  · refine hset (fun j other _ hj => hI.own j other hj) ?_
    rw [hread]
    exact hI.own i call hi
  · exact hset (fun j other _ hj => hI.off j other hj) hoff
  · apply hset
    · intro j other hne hj page₀
      obtain ⟨n, page', hrun, hagree⟩ := hI.like j other hj page₀
      refine ⟨n, page', hrun, ?_⟩
      intro k hk
      show g k = page' k
      rw [hpage, hok call hi j other hne hj k hk]
      exact hagree k hk
    · intro page₀
      obtain ⟨n, page', hrun, hagree⟩ := hI.like i call hi page₀
      obtain ⟨g', hstep, hagree'⟩ := step_congr (hI.own i call hi) (hI.off i call hi) hagree h
      exact ⟨n + 1, g', run_succ hrun hstep, hagree'⟩

theorem inv_of_reach (page : Buf) (h : (machine σ).Reach Undisturbed ⟨page, []⟩ c) : Inv c := by
  refine Machine.Reach.invariant Inv ?_ ?_ ?_ h
  · constructor
    · intro i call hi
      exact absurd hi nofun
    · intro i call hi
      exact absurd hi nofun
    · intro i call hi
      exact absurd hi nofun
  · intro c call g t _ hI hok hstart
    obtain ⟨u, henter, heq⟩ := Option.map_eq_some_iff.mp hstart
    obtain ⟨rfl, rfl⟩ := Prod.mk.inj heq
    exact inv_start hI hok henter
  · intro c i a call g t' _ hI hok hi hact
    obtain ⟨s, hstep, heq⟩ := Option.map_eq_some_iff.mp hact
    obtain ⟨rfl, rfl⟩ := Prod.mk.inj heq
    exact inv_act hI hok hi hstep

end Run

theorem reads_do_not_mix (page : Buf) (c : Config Buf (Call σ))
    (h : (machine σ).Reach Undisturbed ⟨page, []⟩ c) (i : Nat) (call : Call σ)
    (hi : c.pool[i]? = some call) (page₀ : Buf) :
    ∃ n page', run n page₀ call.first = some (page', call.now) := by
  obtain ⟨n, page', hrun, -⟩ := (inv_of_reach page h).like i call hi page₀
  exact ⟨n, page', hrun⟩

/-- A driver that answers with the one byte that is its data. -/
def oneByte : ReadProc UInt8 := fun data _ _ =>
  { nread := 1, eof := 1, page := fun _ => data, data }

def node (byte : UInt8) : Option (Pde UInt8) × Buf :=
  (some { readProc := some oneByte, data := byte }, fun _ => 0)

theorem own_oneByte : Own oneByte := fun _ _ _ _ => ⟨rfl, rfl, rfl, rfl, rfl⟩

/-- The call on the first node, at its beginning. -/
def firstRead : Thread UInt8 := { readProc := oneByte, data := 97, buffer := fun _ => 0 }

/-- The first driver has answered. -/
theorem reads_do_not_mix_one :
    ∃ c call, (machine UInt8).Reach Undisturbed ⟨fun _ => 0, []⟩ c ∧ c.pool[0]? = some call ∧
      call.now.pc = .copy ∧
      ∀ page₀, ∃ n page', run n page₀ call.first = some (page', call.now) := by
  have hown : Undisturbed ⟨fun _ => 0, []⟩ (.start (node 97)) := by
    rintro p readProc ⟨rfl⟩ ⟨rfl⟩
    exact own_oneByte
  have halone : Undisturbed ⟨fun _ => 0, [⟨firstRead, firstRead⟩]⟩ (.act 0 ()) := by
    intro call _ j other hne hj
    have hlt := (List.getElem?_eq_some_iff.mp hj).1
    exact absurd (Nat.lt_one_iff.mp hlt) hne
  have hreach : (machine UInt8).Reach Undisturbed ⟨fun _ => 0, []⟩
      ⟨fun _ => 97, [⟨firstRead, firstRead.answered (oneByte 97 0 fun _ => 0)⟩]⟩ :=
    .step (.step .init hown rfl) halone rfl
  exact ⟨_, _, hreach, rfl, rfl, reads_do_not_mix _ _ hreach 0 _ rfl⟩

/-- The second call's driver runs before the `memcpy` of the first, which returns with the byte
    of the second node. -/
theorem reads_mix :
    (∃ c, (machine UInt8).Reachable ⟨fun _ => 0, []⟩ c ∧
      (c.pool[0]?.map fun call => (call.now.pc, call.now.off, call.now.buffer 0)) =
        some (.returned, 1, 98)) ∧
    (run 3 (fun _ => 0) firstRead).map (fun s => (s.2.pc, s.2.off, s.2.buffer 0)) =
      some (.returned, 1, 97) := by
  constructor
  · exact (machine UInt8).exists_reachable_of_run
      [.start (node 97), .start (node 98), .act 0 (), .act 1 (), .act 0 (), .act 0 ()]
      ⟨fun _ => 0, []⟩
      (fun c => c.pool[0]?.map fun call => (call.now.pc, call.now.off, call.now.buffer 0))
      (some (.returned, 1, 98)) rfl
  · rfl

end VmkLinux.Proc.Read
