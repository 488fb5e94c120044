/-
  VmkLinux/Proc/Read.lean
  =======================
  **Reading a proc node** (`vmklinux26/vmware/linux_proc.c`): `LinuxProcRead`.

  The driver's `read_proc` is called again and again with `scratchPage`, and says where in the page
  the next piece is, or that the page has the contents from the beginning on.  A `Session` is what
  the driver answers; the loop copies the pieces of the session one behind the other.  It does so
  if no answer is an error: the count is compared and copied as an unsigned number
  (`proc_read_session`).

  A thread takes one step for each call of `read_proc` and one for each `memcpy`.
-/
import Mathlib.Algebra.Group.Nat.Defs
import Mathlib.Data.List.GetD
import VmkLinux.ByteBuf

namespace VmkLinux.Proc.Read

open VmkLinux.ByteBuf

/-! ### The code -/

/-- `VMK_PAGE_SIZE`, the size of `scratchPage`. -/
def pageSize : Nat := 4096

/-- `PROC_BLOCK_SIZE`, the `count` of every call. -/
def procBlockSize : BitVec 32 := 3072

/-- `VMK_PROC_READ_MAX`. -/
def vmkProcReadMax : Nat := 131072

/-- What `read_proc` returns: its result, `*start` as a place in `scratchPage`, `*eof`, what
    `scratchPage` is then, and the driver's own data. -/
structure Answer (σ : Type) where
  nread : BitVec 32
  start : Option Nat := none
  eof : BitVec 32 := 0
  page : Buf
  data : σ

/-- `read_proc`, called with `pde->data`, `off` and `scratchPage`. -/
abbrev ReadProc (σ : Type) := σ → BitVec 32 → Buf → Answer σ

/-- `struct proc_dir_entry`. -/
structure Pde (σ : Type) where
  readProc : Option (ReadProc σ) := none
  deleted : Bool := false
  data : σ

/-- Where a call is: before the condition of the loop, before `memcpy`, or behind the loop. -/
inductive Pc where
  | test
  | copy
  | returned
deriving DecidableEq, Repr

/-- A call: what it reads from, and its variables. -/
structure Thread (σ : Type) where
  readProc : ReadProc σ
  data : σ
  pc : Pc := .test
  start : Option Nat := none
  eof : BitVec 32 := 0
  nread : BitVec 32 := 1
  off : BitVec 32 := 0
  buffer : Buf

variable {σ : Type}

/-- The checks before the loop; `none` is `VMK_FAILURE`. -/
def enter (pde : Option (Pde σ)) (buffer : Buf) : Option (Thread σ) :=
  match pde with
  | none => none
  | some pde =>
      match pde.readProc with
      | none => none
      | some readProc => if pde.deleted then none else some { readProc, data := pde.data, buffer }

/-- The condition of the loop. -/
def Thread.goesOn (t : Thread σ) : Bool :=
  decide (t.eof = 0 ∧ t.nread ≠ 0 ∧ (t.off + procBlockSize).toNat < vmkProcReadMax)

/-- The loop after `read_proc` has answered, up to `memcpy`. -/
def Thread.answered (t : Thread σ) (a : Answer σ) : Thread σ :=
  let t := { t with start := a.start, nread := a.nread, eof := a.eof, data := a.data }
  match t.start with
  | some _ => { t with pc := .copy }
  | none =>
      -- both are converted to `uint32_t`
      if t.nread ≤ t.off then { t with pc := .returned }
      else { t with pc := .copy, start := some t.off.toNat, nread := t.nread - t.off }

/-- The size that `memcpy` gets: `nread` as a `size_t`. -/
def Thread.size (t : Thread σ) : Nat := (t.nread.signExtend 64).toNat

/-- `memcpy` and `off += nread`; `none` is an access that is not in `scratchPage`, or is behind the
    first `VMK_PROC_READ_MAX` bytes of `buffer`. -/
def Thread.copied (t : Thread σ) (page : Buf) : Option (Thread σ) :=
  let start := t.start.getD 0
  if t.size = 0 ∨ (start + t.size ≤ pageSize ∧ t.off.toNat + t.size ≤ vmkProcReadMax) then
    some { t with
      pc := .test
      buffer := t.buffer.store t.off.toNat (page.slice start t.size)
      off := t.off + t.nread }
  else none

/-- One step, with `scratchPage`. -/
def Thread.step (page : Buf) (t : Thread σ) : Option (Buf × Thread σ) :=
  match t.pc with
  | .test =>
      if t.goesOn then
        let a := t.readProc t.data t.off page
        some (a.page, t.answered a)
      else some (page, { t with pc := .returned })
  | .copy => (t.copied page).map fun t => (page, t)
  | .returned => none

/-- At most `n` steps. -/
def run : Nat → Buf → Thread σ → Option (Buf × Thread σ)
  | 0, page, t => some (page, t)
  | n + 1, page, t =>
      if t.pc = .returned then some (page, t)
      else
        match t.step page with
        | none => none
        | some (page, t) => run n page t

/-! ### Sessions -/

/-- The piece that an answer adds to the `off` bytes before it. -/
def Answer.piece (a : Answer σ) (off : Nat) : List UInt8 :=
  match a.start with
  | some start => a.page.slice start a.nread.toInt.toNat
  | none => a.page.slice off (a.nread.toInt.toNat - off)

/-- An error, nothing, or the end of the file. -/
def Answer.Last (a : Answer σ) (off : Nat) : Prop := a.eof ≠ 0 ∨ a.piece off = []

/-- `Session readProc data page off answers`: what a driver answers to a reader that has got `off`
    bytes so far, up to the last answer or as long as there is room. -/
inductive Session (readProc : ReadProc σ) : σ → Buf → Nat → List (Answer σ) → Prop
  | full {data : σ} {page : Buf} {off : Nat} :
      ¬off + procBlockSize.toNat < vmkProcReadMax → Session readProc data page off []
  | last {data : σ} {page : Buf} {off : Nat} {a : Answer σ} :
      off + procBlockSize.toNat < vmkProcReadMax → readProc data (BitVec.ofNat 32 off) page = a →
      a.Last off → Session readProc data page off [a]
  | more {data : σ} {page : Buf} {off : Nat} {a : Answer σ} {answers : List (Answer σ)} :
      off + procBlockSize.toNat < vmkProcReadMax → readProc data (BitVec.ofNat 32 off) page = a →
      ¬a.Last off →
      Session readProc a.data a.page (off + (a.piece off).length) answers →
      Session readProc data page off (a :: answers)

/-- The pieces of the answers, one behind the other. -/
def contents : Nat → List (Answer σ) → List UInt8
  | _, [] => []
  | off, a :: answers => a.piece off ++ contents (off + (a.piece off).length) answers

/-- The drivers that the loop is for. -/
def Lawful (readProc : ReadProc σ) : Prop :=
  ∀ data off page, (readProc data off page).nread.toInt ≤ procBlockSize.toInt ∧
    ∀ start, (readProc data off page).start = some start →
      0 < (readProc data off page).nread.toInt →
      start + (readProc data off page).nread.toNat ≤ pageSize

/-! ### Numbers -/

theorem toNat_signExtend_of_lt {x : BitVec 32} (h : x.toNat < 2 ^ 31) :
    (x.signExtend 64).toNat = x.toNat := by
  rw [BitVec.toNat_signExtend, BitVec.msb_eq_decide, BitVec.toNat_setWidth,
    Nat.mod_eq_of_lt (by omega), if_neg (by simp; omega), Nat.add_zero]

/-- A negative count is a huge size. -/
theorem le_toNat_signExtend {x : BitVec 32} (h : 2 ^ 31 ≤ x.toNat) :
    2 ^ 63 ≤ (x.signExtend 64).toNat := by
  have hlt := x.isLt
  rw [BitVec.toNat_signExtend, BitVec.msb_eq_decide, if_pos (by simp; omega)]
  omega

theorem toNat_of_nonneg {x : BitVec 32} (h : 0 ≤ x.toInt) :
    x.toInt.toNat = x.toNat ∧ x.toNat < 2 ^ 31 := by
  have hlt := x.isLt
  rw [BitVec.toInt_eq_toNat_cond] at h ⊢
  split at h <;> omega

theorem le_toNat_of_neg {x : BitVec 32} (h : x.toInt < 0) : 2 ^ 31 ≤ x.toNat := by
  rw [BitVec.toInt_eq_toNat_cond] at h
  split at h <;> omega

/-! ### Stores one behind the other -/

theorem store_nil (b : Buf) (off : Nat) : b.store off [] = b := by
  funext i
  unfold Buf.store
  split
  · rfl
  · simp

theorem store_append (b : Buf) (off : Nat) (first rest : List UInt8) :
    (b.store off first).store (off + first.length) rest = b.store off (first ++ rest) := by
  funext i
  show (if i < off + first.length then (if i < off then b i else first.getD (i - off) (b i))
    else rest.getD (i - (off + first.length))
      (if i < off then b i else first.getD (i - off) (b i))) =
    (if i < off then b i else (first ++ rest).getD (i - off) (b i))
  rcases Nat.lt_or_ge i off with hbefore | hoff
  · rw [if_pos (by omega), if_pos hbefore, if_pos hbefore]
  rw [if_neg (Nat.not_lt_of_le hoff), if_neg (Nat.not_lt_of_le hoff)]
  rcases Nat.lt_or_ge i (off + first.length) with hfirst | hrest
  · rw [if_pos hfirst, List.getD_append _ _ _ _ (by omega)]
  · have hindex : i - off - first.length = i - (off + first.length) := by omega
    rw [if_neg (Nat.not_lt_of_le hrest), List.getD_append_right _ _ _ _ (by omega), hindex,
      List.getD_eq_default first _ (by omega)]

/-! ### One answer -/

section Answers

variable {t : Thread σ} {a : Answer σ}

/-- An answer that is no error, and stays in the page. -/
structure Answer.Fine (a : Answer σ) : Prop where
  nonneg : 0 ≤ a.nread.toInt
  le : a.nread.toNat ≤ procBlockSize.toNat
  inside : ∀ start, a.start = some start → 0 < a.nread.toNat → start + a.nread.toNat ≤ pageSize

theorem Answer.Fine.length_piece_le (h : a.Fine) (off : Nat) :
    (a.piece off).length ≤ procBlockSize.toNat := by
  have hle := h.le
  have hnread := (toNat_of_nonneg h.nonneg).1
  unfold Answer.piece
  cases a.start with
  | some start => rw [length_slice]; omega
  | none => rw [length_slice]; omega

/-- What the call is after one answer: behind the loop, with nothing new, or before the condition
    again, with the piece in its buffer. -/
structure Took (t t' : Thread σ) (a : Answer σ) : Prop where
  readProc : t'.readProc = t.readProc
  data : t'.data = a.data
  buffer : t'.buffer = t.buffer.store t.off.toNat (a.piece t.off.toNat)
  off : t'.off.toNat = t.off.toNat + (a.piece t.off.toNat).length

theorem answered_some {start : Nat} (hstart : a.start = some start) : t.answered a =
    { t with
      pc := .copy, start := some start, nread := a.nread, eof := a.eof, data := a.data } := by
  simp only [Thread.answered, hstart]

theorem answered_none (hstart : a.start = none) : t.answered a =
    if a.nread ≤ t.off then
      { t with pc := .returned, start := none, nread := a.nread, eof := a.eof, data := a.data }
    else
      { t with
        pc := .copy, start := some t.off.toNat, nread := a.nread - t.off, eof := a.eof
        data := a.data } := by
  simp only [Thread.answered, hstart]

/-- There is nothing new in an answer, or `memcpy` is given its piece. -/
theorem answered_cases (h : a.Fine) :
    (a.piece t.off.toNat = [] ∧ t.answered a =
      { t with pc := .returned, start := none, nread := a.nread, eof := a.eof, data := a.data }) ∨
    ∃ start n, t.answered a =
        { t with
          pc := .copy, start := some start, nread := BitVec.ofNat 32 n, eof := a.eof
          data := a.data } ∧
      n ≤ procBlockSize.toNat ∧ (n = 0 ∨ start + n ≤ pageSize) ∧
      a.piece t.off.toNat = a.page.slice start n := by
  obtain ⟨hnread, hsmall⟩ := toNat_of_nonneg h.nonneg
  have hle := h.le
  have hblock : procBlockSize.toNat = 3072 := rfl
  cases hstart : a.start with
  | some start =>
    refine .inr ⟨start, a.nread.toNat, ?_, hle, ?_, ?_⟩
    · rw [answered_some hstart, BitVec.ofNat_toNat, BitVec.setWidth_eq]
    · rcases Nat.eq_zero_or_pos a.nread.toNat with hzero | hpos
      · exact .inl hzero
      · exact .inr (h.inside start hstart hpos)
    · rw [Answer.piece, hstart, hnread]
  | none =>
    rw [answered_none hstart]
    by_cases hnot : a.nread ≤ t.off
    · have hle : a.nread.toNat ≤ t.off.toNat := hnot
      rw [if_pos hnot]
      refine .inl ⟨?_, rfl⟩
      rw [Answer.piece, hstart, ← List.length_eq_zero_iff]
      dsimp only
      rw [length_slice, hnread]
      omega
    · have hlt : t.off.toNat < a.nread.toNat := Nat.lt_of_not_le hnot
      have hrest : a.nread - t.off = BitVec.ofNat 32 (a.nread.toNat - t.off.toNat) := by
        apply BitVec.eq_of_toNat_eq
        rw [BitVec.toNat_sub_of_le (Nat.le_of_lt hlt), BitVec.toNat_ofNat,
          Nat.mod_eq_of_lt (by omega)]
      rw [if_neg hnot, hrest]
      refine .inr ⟨t.off.toNat, a.nread.toNat - t.off.toNat, rfl, by omega, .inr ?_, ?_⟩
      · unfold pageSize
        omega
      · rw [Answer.piece, hstart, hnread]

/-- What the two steps of an answer come to: the loop ends with nothing new, or it is before its
    condition again, with the piece in the buffer. -/
theorem answered_spec (h : a.Fine)
    (hoff : t.off.toNat + procBlockSize.toNat < vmkProcReadMax) :
    (t.answered a).pc = .returned ∧ a.piece t.off.toNat = [] ∧ Took t (t.answered a) a ∨
    (t.answered a).pc = .copy ∧ ∃ t', (t.answered a).copied a.page = some t' ∧ t'.pc = .test ∧
      t'.eof = a.eof ∧ (t'.nread = 0 ↔ a.piece t.off.toNat = []) ∧ Took t t' a := by
  rcases @answered_cases _ t a h with ⟨hpiece, heq⟩ | ⟨start, n, heq, hn, hinside, hpiece⟩
  · rw [heq]
    refine .inl ⟨rfl, hpiece, rfl, rfl, ?_, ?_⟩
    · rw [hpiece, store_nil]
    · rw [hpiece]
      rfl
  · have hblock : procBlockSize.toNat = 3072 := rfl
    unfold vmkProcReadMax at hoff
    have htoNat : (BitVec.ofNat 32 n).toNat = n := by
      rw [BitVec.toNat_ofNat, Nat.mod_eq_of_lt (by omega)]
    have hsize : (t.answered a).size = n := by
      rw [Thread.size, heq]
      dsimp only
      rw [toNat_signExtend_of_lt (by omega), htoNat]
    have hin : (t.answered a).size = 0 ∨
        ((t.answered a).start.getD 0 + (t.answered a).size ≤ pageSize ∧
          (t.answered a).off.toNat + (t.answered a).size ≤ vmkProcReadMax) := by
      rw [hsize, heq]
      unfold vmkProcReadMax
      rcases hinside with hzero | hinside
      · exact .inl hzero
      · exact .inr ⟨hinside, by dsimp only; omega⟩
    have hcopied : (t.answered a).copied a.page = some { t.answered a with
        pc := .test
        buffer := (t.answered a).buffer.store (t.answered a).off.toNat
          (a.page.slice ((t.answered a).start.getD 0) (t.answered a).size)
        off := (t.answered a).off + (t.answered a).nread } := if_pos hin
    refine .inr ⟨by rw [heq], _, hcopied, rfl, ?_⟩
    rw [hsize, heq, hpiece]
    refine ⟨rfl, ?_, rfl, rfl, ?_, ?_⟩
    · rw [← List.length_eq_zero_iff, length_slice, ← BitVec.toNat_inj, htoNat]
      rfl
    · rw [hpiece]
      rfl
    · dsimp only
      rw [hpiece, BitVec.toNat_add, htoNat, length_slice, Nat.mod_eq_of_lt (by omega)]

/-- After an error there is no `memcpy` within the bounds. -/
theorem answered_error (h : a.nread.toInt < 0) (hoff : t.off.toNat < vmkProcReadMax) :
    (t.answered a).pc = .copy ∧ ∀ page, (t.answered a).copied page = none := by
  have hlarge := le_toNat_of_neg h
  unfold vmkProcReadMax at hoff
  have hcopied : ∀ t : Thread σ, pageSize < t.size → ∀ page, t.copied page = none := by
    intro t hsize page
    unfold Thread.copied
    exact if_neg (by omega)
  cases hstart : a.start with
  | some start =>
    rw [answered_some hstart]
    refine ⟨rfl, hcopied _ ?_⟩
    have hsize := le_toNat_signExtend hlarge
    unfold pageSize Thread.size
    dsimp only
    omega
  | none =>
    have hnot : ¬a.nread ≤ t.off := by
      intro hle
      have hle : a.nread.toNat ≤ t.off.toNat := hle
      omega
    rw [answered_none hstart, if_neg hnot]
    refine ⟨rfl, hcopied _ ?_⟩
    have hrest : (a.nread - t.off).toNat = a.nread.toNat - t.off.toNat :=
      BitVec.toNat_sub_of_le (show t.off.toNat ≤ a.nread.toNat by omega)
    unfold pageSize Thread.size
    dsimp only
    rcases Nat.lt_or_ge (a.nread - t.off).toNat (2 ^ 31) with hlt | hge
    · rw [toNat_signExtend_of_lt hlt]
      omega
    · have hsize := le_toNat_signExtend hge
      omega

theorem piece_of_neg (h : a.nread.toInt < 0) (off : Nat) : a.piece off = [] := by
  have hzero : a.nread.toInt.toNat = 0 := Int.toNat_of_nonpos (Int.le_of_lt h)
  rw [← List.length_eq_zero_iff, Answer.piece]
  cases a.start with
  | some start => rw [length_slice, hzero]
  | none => rw [length_slice, hzero, Nat.zero_sub]

end Answers

theorem Lawful.fine {readProc : ReadProc σ} (h : Lawful readProc) {data : σ} {off : BitVec 32}
    {page : Buf} (hnonneg : 0 ≤ (readProc data off page).nread.toInt) :
    (readProc data off page).Fine := by
  obtain ⟨hle, hinside⟩ := h data off page
  obtain ⟨htoNat, -⟩ := toNat_of_nonneg hnonneg
  refine ⟨hnonneg, ?_, ?_⟩
  · have hblock : procBlockSize.toInt = procBlockSize.toNat := rfl
    omega
  · intro start hstart hpos
    exact hinside start hstart (by omega)

/-! ### Steps of a call -/

section Steps

variable {t : Thread σ} {page : Buf} {n : Nat}

theorem run_returned (h : t.pc = .returned) : run n page t = some (page, t) := by
  cases n with
  | zero => rfl
  | succ n => exact if_pos h

theorem run_answer (hpc : t.pc = .test) (hgoes : t.goesOn = true) :
    run (n + 1) page t =
      run n (t.readProc t.data t.off page).page (t.answered (t.readProc t.data t.off page)) := by
  have hne : ¬t.pc = .returned := by
    rw [hpc]
    exact nofun
  rw [run, if_neg hne]
  simp only [Thread.step, hpc, hgoes, if_true]

theorem run_leave (hpc : t.pc = .test) (hgoes : t.goesOn = false) :
    run (n + 1) page t = some (page, { t with pc := .returned }) := by
  have hne : ¬t.pc = .returned := by
    rw [hpc]
    exact nofun
  rw [run, if_neg hne]
  simp only [Thread.step, hpc, hgoes, Bool.false_eq_true, if_false]
  exact run_returned rfl

theorem run_copy (hpc : t.pc = .copy) : run (n + 1) page t =
    match t.copied page with
    | none => none
    | some t => run n page t := by
  have hne : ¬t.pc = .returned := by
    rw [hpc]
    exact nofun
  rw [run, if_neg hne]
  simp only [Thread.step, hpc]
  cases t.copied page with
  | none => rfl
  | some t' => rfl

theorem goesOn_eq_true_iff (heof : t.eof = 0) (hnread : t.nread ≠ 0)
    (hoff : t.off.toNat ≤ vmkProcReadMax) :
    t.goesOn = true ↔ t.off.toNat + procBlockSize.toNat < vmkProcReadMax := by
  have hblock : procBlockSize.toNat = 3072 := rfl
  have hsum : (t.off + procBlockSize).toNat = t.off.toNat + procBlockSize.toNat := by
    unfold vmkProcReadMax at hoff
    rw [BitVec.toNat_add, Nat.mod_eq_of_lt (by omega)]
  rw [Thread.goesOn, decide_eq_true_iff, hsum]
  exact ⟨fun h => h.2.2, fun h => ⟨heof, hnread, h⟩⟩

theorem goesOn_of_last (h : t.eof ≠ 0 ∨ t.nread = 0) : t.goesOn = false := by
  rw [Thread.goesOn, decide_eq_false_iff_not]
  rintro ⟨heof, hnread, -⟩
  rcases h with h | h
  · exact h heof
  · exact hnread h

end Steps

/-! ### Whole sessions -/

/-- The call has come to the end of its loop, with `bytes` in the buffer. -/
def Returned (t t' : Thread σ) (bytes : List UInt8) : Prop :=
  t'.pc = .returned ∧ t'.buffer = t.buffer.store t.off.toNat bytes ∧
    t'.off.toNat = t.off.toNat + bytes.length

/-- A call of `readProc` before the condition of its loop, which goes on if there is room. -/
structure Ready (readProc : ReadProc σ) (data : σ) (off : Nat) (t : Thread σ) : Prop where
  readProc : t.readProc = readProc
  data : t.data = data
  off : t.off.toNat = off
  pc : t.pc = .test
  eof : t.eof = 0
  nread : t.nread ≠ 0

section Sessions

variable {readProc : ReadProc σ} {data : σ} {page : Buf} {off : Nat} {t : Thread σ}
  {a : Answer σ} {answers : List (Answer σ)} {n : Nat}

theorem Ready.goesOn (ht : Ready readProc data off t)
    (hroom : off + procBlockSize.toNat < vmkProcReadMax) : t.goesOn = true := by
  rw [← ht.off] at hroom
  exact (goesOn_eq_true_iff ht.eof ht.nread (by omega)).mpr hroom

theorem Ready.run_answer (ht : Ready readProc data off t)
    (hroom : off + procBlockSize.toNat < vmkProcReadMax)
    (hread : readProc data (BitVec.ofNat 32 off) page = a) :
    run (n + 1) page t = run n a.page (t.answered a) := by
  have hoff : BitVec.ofNat 32 off = t.off := by
    rw [← ht.off, BitVec.ofNat_toNat, BitVec.setWidth_eq]
  rw [Read.run_answer ht.pc (ht.goesOn hroom), ht.readProc, ht.data, ← hoff, hread]

/-- The steps for one answer. -/
theorem run_fine (ht : Ready readProc data off t)
    (hroom : off + procBlockSize.toNat < vmkProcReadMax)
    (hread : readProc data (BitVec.ofNat 32 off) page = a) (h : a.Fine) :
    (∃ t', t'.pc = .returned ∧ a.piece off = [] ∧ Took t t' a ∧
      ∀ n, run (n + 1) page t = some (a.page, t')) ∨
    ∃ t', t'.pc = .test ∧ t'.eof = a.eof ∧ (t'.nread = 0 ↔ a.piece off = []) ∧ Took t t' a ∧
      ∀ n, run (n + 2) page t = run n a.page t' := by
  have hroom' : t.off.toNat + procBlockSize.toNat < vmkProcReadMax := by rwa [ht.off]
  rw [← ht.off]
  rcases answered_spec h hroom' with
    ⟨hpc, hpiece, htook⟩ | ⟨hpc, t', hcopied, htest, heof, hnread, htook⟩
  · refine .inl ⟨_, hpc, hpiece, htook, ?_⟩
    intro n
    rw [ht.run_answer hroom hread, run_returned hpc]
  · refine .inr ⟨t', htest, heof, hnread, htook, ?_⟩
    intro n
    rw [ht.run_answer hroom hread, run_copy hpc, hcopied]

theorem Took.returned {t' : Thread σ} (htook : Took t t' a) (hpc : t'.pc = .returned) :
    Returned t t' (a.piece t.off.toNat) := ⟨hpc, htook.buffer, htook.off⟩

theorem not_last_iff : ¬a.Last off ↔ a.eof = 0 ∧ a.piece off ≠ [] := by
  rw [Answer.Last, not_or, not_not]

theorem run_of_fine (hlaw : Lawful readProc) (h : Session readProc data page off answers)
    (hnonneg : ∀ a ∈ answers, 0 ≤ a.nread.toInt) (ht : Ready readProc data off t)
    (hoff : off ≤ vmkProcReadMax) (hn : 2 * answers.length < n) :
    ∃ page' t', run n page t = some (page', t') ∧ Returned t t' (contents off answers) := by
  induction h generalizing t n with
  | full hfull =>
    have hgoes : t.goesOn = false := by
      apply Bool.eq_false_iff.mpr
      intro hgoes
      rw [goesOn_eq_true_iff ht.eof ht.nread (ht.off ▸ hoff), ht.off] at hgoes
      exact hfull hgoes
    obtain ⟨n, rfl⟩ : ∃ k, n = k + 1 := ⟨n - 1, by omega⟩
    rw [run_leave ht.pc hgoes]
    refine ⟨_, _, rfl, rfl, ?_, rfl⟩
    rw [contents, store_nil]
  | @last data page off a hroom hread hlast =>
    have hfine : a.Fine := hread ▸ hlaw.fine (hread ▸ hnonneg a (List.mem_singleton_self a))
    have hcontents : contents off [a] = a.piece t.off.toNat := by
      rw [contents, contents, List.append_nil, ht.off]
    obtain ⟨n, rfl⟩ : ∃ k, n = k + 3 := ⟨n - 3, by simp only [List.length_singleton] at hn; omega⟩
    rw [hcontents]
    rcases run_fine ht hroom hread hfine with
      ⟨t', hpc, -, htook, hrun⟩ | ⟨t', hpc, heof, hnread, htook, hrun⟩
    · exact ⟨_, t', hrun _, htook.returned hpc⟩
    · have hgoes : t'.goesOn = false := by
        apply goesOn_of_last
        rw [heof, hnread]
        exact hlast
      rw [hrun, run_leave hpc hgoes]
      exact ⟨_, _, rfl, rfl, htook.buffer, htook.off⟩
  | @more data page off a answers hroom hread hmore _ ih =>
    have hfine : a.Fine := hread ▸ hlaw.fine (hread ▸ hnonneg a List.mem_cons_self)
    obtain ⟨heof, hpiece⟩ := not_last_iff.mp hmore
    obtain ⟨n, rfl⟩ : ∃ k, n = k + 2 := ⟨n - 2, by simp only [List.length_cons] at hn; omega⟩
    rcases run_fine ht hroom hread hfine with
      ⟨t', -, hnone, -⟩ | ⟨t', hpc, heof', hnread, htook, hrun⟩
    · exact absurd hnone hpiece
    · have hlength := hfine.length_piece_le off
      have ht' : Ready readProc a.data (off + (a.piece off).length) t' := by
        refine ⟨htook.readProc.trans ht.readProc, htook.data, ?_, hpc, heof'.trans heof, ?_⟩
        · rw [htook.off, ht.off]
        · exact fun hzero => hpiece (hnread.mp hzero)
      have hn' : 2 * answers.length < n := by
        simp only [List.length_cons] at hn
        omega
      rw [hrun]
      obtain ⟨page', t'', hrun', hpc'', hbuffer, hoff''⟩ :=
        ih (fun b hb => hnonneg b (List.mem_cons_of_mem a hb)) ht' (by omega) hn'
      refine ⟨page', t'', hrun', hpc'', ?_, ?_⟩
      · rw [hbuffer, htook.buffer, htook.off, store_append, ht.off]
        rfl
      · rw [hoff'', htook.off, ht.off, contents, List.length_append, Nat.add_assoc]

/-- An error is copied, which is an access out of the page. -/
theorem run_of_error (hlaw : Lawful readProc) (h : Session readProc data page off answers)
    (hneg : ∃ a ∈ answers, a.nread.toInt < 0) (ht : Ready readProc data off t)
    (hn : 2 * answers.length < n) : run n page t = none := by
  induction h generalizing t n with
  | full =>
    obtain ⟨a, hmem, -⟩ := hneg
    exact absurd hmem List.not_mem_nil
  | @last data page off a hroom hread hlast =>
    obtain ⟨b, hmem, hneg⟩ := hneg
    obtain rfl := List.mem_singleton.mp hmem
    obtain ⟨n, rfl⟩ : ∃ k, n = k + 2 := ⟨n - 2, by simp only [List.length_singleton] at hn; omega⟩
    obtain ⟨hpc, hfault⟩ := @answered_error _ t b hneg (by rw [ht.off]; omega)
    rw [ht.run_answer hroom hread, run_copy hpc, hfault]
  | @more data page off a answers hroom hread hmore _ ih =>
    obtain ⟨heof, hpiece⟩ := not_last_iff.mp hmore
    have hnonneg : 0 ≤ a.nread.toInt := by
      by_contra hneg
      exact hpiece (piece_of_neg (Int.not_le.mp hneg) off)
    have hfine : a.Fine := hread ▸ hlaw.fine (hread ▸ hnonneg)
    have hneg' : ∃ b ∈ answers, b.nread.toInt < 0 := by
      obtain ⟨b, hmem, hneg⟩ := hneg
      rcases List.mem_cons.mp hmem with rfl | hmem
      · exact absurd hneg (Int.not_lt.mpr hnonneg)
      · exact ⟨b, hmem, hneg⟩
    obtain ⟨n, rfl⟩ : ∃ k, n = k + 2 := ⟨n - 2, by simp only [List.length_cons] at hn; omega⟩
    rcases run_fine ht hroom hread hfine with
      ⟨t', -, hnone, -⟩ | ⟨t', hpc, heof', hnread, htook, hrun⟩
    · exact absurd hnone hpiece
    · rw [hrun]
      have heof := heof'.trans heof
      refine ih hneg' ⟨htook.readProc.trans ht.readProc, htook.data, ?_, hpc, heof, ?_⟩ ?_
      · rw [htook.off, ht.off]
      · exact fun hzero => hpiece (hnread.mp hzero)
      · simp only [List.length_cons] at hn
        omega

/-- A driver answers as long as there is room, and each answer that is not the last takes some. -/
theorem exists_session (hlaw : Lawful readProc) (data : σ) (page : Buf) {off : Nat}
    (hoff : off ≤ vmkProcReadMax) : ∃ answers, Session readProc data page off answers ∧
      answers.length + off ≤ vmkProcReadMax ∧
      (contents off answers).length + off ≤ vmkProcReadMax := by
  induction hk : vmkProcReadMax - off using Nat.strongRecOn generalizing data page off with
  | ind k ih =>
    by_cases hroom : off + procBlockSize.toNat < vmkProcReadMax
    · have hblock : procBlockSize.toNat = 3072 := rfl
      generalize hread : readProc data (BitVec.ofNat 32 off) page = a
      by_cases hlast : a.Last off
      · refine ⟨[a], .last hroom hread hlast, ?_, ?_⟩
        · rw [List.length_singleton]
          omega
        · have hle : (a.piece off).length ≤ procBlockSize.toNat := by
            rcases Int.lt_or_le a.nread.toInt 0 with hneg | hnonneg
            · rw [piece_of_neg hneg]
              exact Nat.zero_le _
            · exact (hread ▸ hlaw.fine (hread ▸ hnonneg) : a.Fine).length_piece_le off
          rw [contents, contents, List.append_nil]
          omega
      · obtain ⟨-, hpiece⟩ := not_last_iff.mp hlast
        have hnonneg : 0 ≤ a.nread.toInt := by
          by_contra hneg
          exact hpiece (piece_of_neg (Int.not_le.mp hneg) off)
        have hle := (hread ▸ hlaw.fine (hread ▸ hnonneg) : a.Fine).length_piece_le off
        have hpos := List.length_pos_iff.mpr hpiece
        have hoff' : off + (a.piece off).length ≤ vmkProcReadMax := by omega
        obtain ⟨answers, hsession, hlength, hcontents⟩ :=
          ih _ (by omega) a.data a.page hoff' rfl
        refine ⟨a :: answers, .more hroom hread hlast hsession, ?_, ?_⟩
        · rw [List.length_cons]
          omega
        · rw [contents, List.length_append]
          omega
    · refine ⟨[], .full hroom, ?_, ?_⟩
      · rw [List.length_nil, Nat.zero_add]
        exact hoff
      · rw [contents, List.length_nil, Nat.zero_add]
        exact hoff

end Sessions

/-! ### Every driver -/

theorem proc_read_session (readProc : ReadProc σ) (hlaw : Lawful readProc) (data : σ)
    (page buffer : Buf) :
    ∃ answers, Session readProc data page 0 answers ∧
      (contents 0 answers).length ≤ vmkProcReadMax ∧
      ∀ n, 2 * vmkProcReadMax < n →
        ((∃ page' t, run n page { readProc, data, buffer } = some (page', t) ∧ t.pc = .returned ∧
            t.buffer = buffer.store 0 (contents 0 answers) ∧
            t.off.toNat = (contents 0 answers).length) ↔
          ∀ a ∈ answers, 0 ≤ a.nread.toInt) := by
  obtain ⟨answers, hsession, hlength, hcontents⟩ := exists_session hlaw data page (Nat.zero_le _)
  refine ⟨answers, hsession, hcontents, ?_⟩
  intro n hn
  have hready : Ready readProc data 0 { readProc, data, buffer } :=
    ⟨rfl, rfl, rfl, rfl, rfl, show (1 : BitVec 32) ≠ 0 by decide⟩
  have hn' : 2 * answers.length < n := by omega
  constructor
  · rintro ⟨page', t, hrun, -⟩ a hmem
    by_contra hneg
    rw [run_of_error hlaw hsession ⟨a, hmem, Int.not_le.mp hneg⟩ hready hn'] at hrun
    exact absurd hrun nofun
  · intro hnonneg
    obtain ⟨page', t, hrun, hpc, hbuffer, hoff⟩ :=
      run_of_fine hlaw hsession hnonneg hready (Nat.zero_le _) hn'
    refine ⟨page', t, hrun, hpc, hbuffer, ?_⟩
    rw [hoff]
    exact Nat.zero_add _

/-- A node of two bytes, which are in the page at every call. -/
def twoBytes : ReadProc Unit := fun _ _ _ =>
  { nread := 2, page := fun i => UInt8.ofNat i, data := () }

theorem lawful_twoBytes : Lawful twoBytes := by
  intro data off page
  exact ⟨show (2 : BitVec 32).toInt ≤ procBlockSize.toInt by decide, nofun⟩

theorem proc_read_session_two :
    ∃ answers, Session twoBytes () (fun _ => 0) 0 answers ∧
      (contents 0 answers).length ≤ vmkProcReadMax ∧
      ∀ n, 2 * vmkProcReadMax < n →
        ((∃ page' t,
            run n (fun _ => 0) { readProc := twoBytes, data := (), buffer := fun _ => 0 } =
              some (page', t) ∧
            t.pc = .returned ∧ t.buffer = Buf.store (fun _ => 0) 0 (contents 0 answers) ∧
            t.off.toNat = (contents 0 answers).length) ↔
          ∀ a ∈ answers, 0 ≤ a.nread.toInt) :=
  proc_read_session twoBytes lawful_twoBytes () (fun _ => 0) (fun _ => 0)

/-- A driver that fails. -/
def failing : ReadProc Unit := fun _ _ page => { nread := -5, page, data := () }

theorem error_copied :
    Lawful failing ∧ ∃ a, Session failing () (fun _ => 0) 0 [a] ∧ a.nread.toInt = -5 ∧
      ∀ n, run (n + 2) (fun _ => 0)
        { readProc := failing, data := (), buffer := fun _ => 0 } = none := by
  refine ⟨?_, failing () 0 (fun _ => 0), .last ?_ rfl ?_, by decide, ?_⟩
  · intro data off page
    exact ⟨show (-5 : BitVec 32).toInt ≤ procBlockSize.toInt by decide, nofun⟩
  · decide
  · exact .inr rfl
  · intro n
    rfl

end VmkLinux.Proc.Read
